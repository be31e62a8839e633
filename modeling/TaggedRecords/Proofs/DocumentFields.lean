import TaggedRecords.Proofs.LaidAccounts

/-!
# Fields in documents

What the documents of a passing run hold of the fields of the records entered. Under an output name stands what the
last field of that name emitted, so no field is lost exactly if no two fields that emit have one name.
-/

namespace TaggedRecords

/-- Whether the account tells of a location that was left out. -/
def Account.isOmitted : Account → Bool
  | omitted _ _ => true
  | visited _ _ _ _ _ => false

/-- A document and the fields of the record that it was emitted for, with an account of each. -/
structure Document.Renders (document : Document) (setting : Setting) (catalog : Catalog) (record : RecordValue)
    (place : Place) (around : List Place) (metadata : RecordMetadata) (accounts : List Account) : Prop where
  built : RecordMetadata.build catalog setting.registry record.type = .ok metadata
  /-- The fields are those whose tags do not skip them, in the order of the declarations. -/
  shown : metadata.fields.map FieldMetadata.index = catalog.shown record.type
  accounted : accounts.map Account.location = metadata.fields.map (Location.ofField record place around)
  /-- A field emits unless it is left out, and with tombstones even then. -/
  emitting : Entries.keys (emittedFields setting.options.tombstones accounts) =
    (accounts.filter fun account => setting.options.tombstones || !account.isOmitted).map
      fun account => account.location.name
  /-- Under a name stands what the last field of that name emitted. -/
  last : ∀ name, Entries.get? document name =
    Entries.get? (emittedFields setting.options.tombstones accounts).reverse name
  /-- The entries are what the fields emitted, one by one in their order, exactly if no two of these have one name. -/
  whole_iff : document = emittedFields setting.options.tombstones accounts ↔
    Entries.Distinct (emittedFields setting.options.tombstones accounts)
  /-- If no two fields of the type have one name, that is so, and a name leads to the field whose value stands there. -/
  own : ((catalog.fields record.type).filterMap FieldDecl.outputName?).Nodup →
    document = emittedFields setting.options.tombstones accounts ∧
      ∀ (index : Nat) field account, metadata.fields[index]? = some field → accounts[index]? = some account →
        metadata.field? field.name = some field ∧
          Entries.get? document field.name = account.emitted? setting.options.tombstones

/-! ## Fields and their accounts -/

theorem keys_emittedFields (tombstones : Bool) (accounts : List Account) :
    Entries.keys (emittedFields tombstones accounts) =
      (accounts.filter fun account => tombstones || !account.isOmitted).map fun account => account.location.name := by
  induction accounts with
  | nil => rfl
  | cons account rest ih =>
    rw [emittedFields]
    cases account with
    | omitted location value =>
      cases tombstones with
      | false => simpa [Account.emitted?, Account.isOmitted] using ih
      | true => simpa [Account.emitted?, Account.isOmitted, Entries.keys] using ih
    | visited location value runs left inside =>
      simpa [Account.emitted?, Account.isOmitted, Entries.keys] using ih

/-- Where names are distinct, each leads to its own field. -/
theorem RecordMetadata.field?_of_mem {metadata : RecordMetadata}
    (distinct : (metadata.fields.map FieldMetadata.name).Nodup) {field : FieldMetadata}
    (member : field ∈ metadata.fields) : metadata.field? field.name = some field := by
  obtain ⟨before, after, fields⟩ := List.append_of_mem member
  rw [fields, List.map_append, List.map_cons, List.nodup_append] at distinct
  have others : ∀ other ∈ before, other.name ≠ field.name := fun other among =>
    distinct.2.2 other.name (List.mem_map_of_mem among) field.name List.mem_cons_self
  have none : before.find? (fun other => other.name == field.name) = none :=
    List.find?_eq_none.mpr fun other among => by simpa using others other among
  simp [field?, fields, List.find?_append, none]

section
variable {setting : Setting} {catalog : Catalog}

/-- A passing traversal of a record emits a document that renders its fields. -/
theorem Accounts.renders {record : RecordValue} {place : Place} {around : List Place} {accounts : List Account}
    (derived : Accounts setting catalog (.record record place around) accounts) : ∃ metadata,
      (documentOf setting.options.tombstones accounts).Renders setting catalog record place around metadata
        accounts := by
  cases derived with
  | @entered _ _ _ metadata _ _ built below =>
    have located : accounts.map Account.location = metadata.fields.map (Location.ofField record place around) := by
      rw [below.map_location, RecordMetadata.locations, List.map_map]
      rfl
    have named : (accounts.map fun account => account.location.name) = metadata.fields.map FieldMetadata.name := by
      have names := congrArg (List.map Location.name) located
      rwa [List.map_map, List.map_map] at names
    refine ⟨metadata, built, indices_of_build built, located, keys_emittedFields _ _, Entries.get?_ofList _,
      Entries.ofList_eq_self_iff, fun distinct => ?_⟩
    rw [← names_of_build built] at distinct
    have apart : (accounts.map fun account => account.location.name).Nodup := named ▸ distinct
    refine ⟨Entries.ofList_eq_self_iff.mpr ((keys_emittedFields_sublist accounts).nodup apart), ?_⟩
    intro index field account held alsoHeld
    have same : account.location.name = field.name := by
      have here := congrArg (fun names => names[index]?) named
      simpa [held, alsoHeld] using here
    refine ⟨RecordMetadata.field?_of_mem distinct (List.mem_of_getElem? held), ?_⟩
    rw [← same]
    exact get?_ofList_emittedFields apart (List.mem_of_getElem? alsoHeld)

/-- The accounts inside a visited location are those of a traversal of what is inside it. -/
theorem Accounts.of_stop {subject : Subject} {accounts : List Account}
    (derived : Accounts setting catalog subject accounts) {way : List Segment} {stop : List Segment × Account}
    (member : stop ∈ stopsOf way accounts) {location : Location} {value left : Value}
    {runs : List (RuleEntry × Scope)} {inner : List Account}
    (visits : stop.2 = .visited location value runs left inner) :
    Accounts setting catalog (location.inside left) inner := by
  induction derived generalizing way with
  | entered _ _ _ ih => exact ih member
  | nothing => cases member
  | omitted _ _ ih =>
    rcases mem_stopsOf_cons.mp member with rfl | inside | later
    · cases visits
    · cases inside
    · exact ih later
  | passed _ _ inside _ insideIh ih =>
    rcases mem_stopsOf_cons.mp member with rfl | within | later
    · cases visits
      exact inside
    · exact insideIh within
    · exact ih later

end

/-! ## Runs of an engine -/

/-- The document of the run renders the record, and what it emitted for each record inside renders that. -/
structure Run.RendersFields (document : Document) (setting : Setting) (catalog : Catalog) (snapshot : RecordValue)
    (accounts : List Account) : Prop where
  root : ∃ metadata, document.Renders setting catalog snapshot .root [] metadata accounts
  nested : ∀ location value runs type fields inside,
    .visited location value runs (.record type fields) inside ∈ visitsOf accounts →
    ∃ (inner : Document) (metadata : RecordMetadata),
      (Account.visited location value runs (.record type fields) inside).emitted? setting.options.tombstones =
        some (.mapping inner) ∧
      inner.Renders setting catalog ⟨type, fields⟩ location.place (location.place :: location.around) metadata inside

theorem Run.Accounted.rendersFields {run : Run Document} {setting : Setting} {catalog : Catalog}
    {snapshot : RecordValue} {accounts : List Account} (accounted : run.Accounted setting catalog snapshot accounts)
    {document : Document} (ended : run.result = .ok document) :
    Run.RendersFields document setting catalog snapshot accounts := by
  cases ended.symm.trans accounted.document
  refine ⟨accounted.derived.renders, fun location value runs type fields inside visited => ?_⟩
  obtain ⟨stop, member, same⟩ := List.mem_map.mp visited
  obtain ⟨metadata, renders⟩ := (accounted.derived.of_stop member same).renders
  exact ⟨_, metadata, rfl, renders⟩

namespace Engine

/-- A run that passes, of a record that may take the writes or of any snapshot, has a document that renders the fields
of the record, and so has every record inside that it entered: in the order of the declarations there is an entry for
each field that was not left out, with what was emitted for it, exactly if no two of these fields have one name, and else
the last of them has the entry. -/
theorem documents_render_fields (engine : Engine) {cache : MetadataCache} (context : Context) (options : Options)
    (faithful : cache.Faithful engine.catalog engine.registry) :
    (∀ record document, (engine.validateMut cache context options record).result = .ok document →
      ∃ accounts, (engine.validateMut cache context options record).Accounted (engine.setting context options)
          engine.catalog (record.snapshot engine.catalog) accounts ∧
        Run.RendersFields document (engine.setting context options) engine.catalog (record.snapshot engine.catalog)
          accounts) ∧
    ∀ snapshot document, (engine.validateSnapshot cache context options snapshot).result = .ok document →
      ∃ accounts, (engine.validateSnapshot cache context options snapshot).Accounted (engine.setting context options)
          engine.catalog snapshot accounts ∧
        Run.RendersFields document (engine.setting context options) engine.catalog snapshot accounts := by
  constructor
  · intro record document ended
    obtain ⟨accounts, accounted⟩ := engine.exists_accounts_validateMut context options record faithful ended
    exact ⟨accounts, accounted, accounted.rendersFields ended⟩
  · intro snapshot document ended
    obtain ⟨accounts, accounted⟩ := engine.exists_accounts_validateSnapshot context options snapshot faithful ended
    exact ⟨accounts, accounted, accounted.rendersFields ended⟩

/-- Badges with a title and a nickname under one label, and a holder. -/
def badging : Engine where
  catalog := ⟨[
    ⟨"Badge", [⟨"title", "label", .string⟩, ⟨"holder", "holder", .record ⟨1, "Person"⟩⟩,
      ⟨"nick", "label,omitempty", .string⟩]⟩,
    ⟨"Person", [⟨"name", "name", .string⟩, ⟨"mail", "mail,omitempty", .string⟩, ⟨"age", "age", .unsigned .w8⟩]⟩]⟩
  registry := Registry.empty
  settings := ⟨3⟩

/-- One of them, for a person without a mail address. -/
def badge (nick : String) : TypedRecord :=
  ⟨⟨0, "Badge"⟩, [.string "Guest", .record ⟨1, "Person"⟩ [.string "Ada", .string "", .uint 36], .string nick]⟩

/-- Without a nickname nothing is lost. With one, its value has the place of the title, to which the label still
leads. -/
theorem badging_renders_fields :
    (∃ document accounts, (badging.validateMut .empty {} {} (badge "")).result = .ok document ∧
      Run.RendersFields document (badging.setting {} {}) badging.catalog ((badge "").snapshot badging.catalog)
        accounts ∧ (Entries.keys document = ["label", "holder"] ∧
      (Entries.get? document "label").bind Value.text? = some "Guest")) ∧
    (∃ document accounts, (badging.validateMut .empty {} {} (badge "Ace")).result = .ok document ∧
      Run.RendersFields document (badging.setting {} {}) badging.catalog ((badge "Ace").snapshot badging.catalog)
        accounts ∧ (Entries.keys document = ["label", "holder"] ∧
      (Entries.get? document "label").bind Value.text? = some "Ace")) ∧
    ((RecordMetadata.build badging.catalog badging.registry ⟨0, "Badge"⟩).toOption.bind fun metadata =>
      (metadata.field? "label").map FieldMetadata.declared) = some "title" := by
  have faithful : MetadataCache.empty.Faithful badging.catalog badging.registry := MetadataCache.faithful_empty _ _
  have finds : ∀ held ∈ [("", "Guest"), ("Ace", "Ace")],
      (badging.validateMut .empty {} {} (badge held.1)).result.toOption.any (fun document =>
        Entries.keys document == ["label", "holder"] &&
        (Entries.get? document "label").bind Value.text? == some held.2) = true := by
    decide +kernel
  have rendered : ∀ held ∈ [("", "Guest"), ("Ace", "Ace")], ∃ document accounts,
      (badging.validateMut .empty {} {} (badge held.1)).result = .ok document ∧
        Run.RendersFields document (badging.setting {} {}) badging.catalog ((badge held.1).snapshot badging.catalog)
          accounts ∧ (Entries.keys document = ["label", "holder"] ∧
        (Entries.get? document "label").bind Value.text? = some held.2) := by
    intro held member
    have found := finds held member
    cases ended : (badging.validateMut .empty {} {} (badge held.1)).result with
    | error fault =>
      rw [ended] at found
      cases found
    | ok document =>
      rw [ended] at found
      obtain ⟨accounts, -, renders⟩ := (documents_render_fields badging {} {} faithful).1 (badge held.1) document ended
      exact ⟨document, accounts, rfl, renders, by simpa [Except.toOption] using found⟩
  exact ⟨rendered ("", "Guest") (by simp), rendered ("Ace", "Ace") (by simp), by decide +kernel⟩

end Engine

end TaggedRecords
