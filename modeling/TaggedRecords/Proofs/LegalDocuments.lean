import TaggedRecords.Proofs.LaidAccounts
import TaggedRecords.Proofs.LegalValues
import TaggedRecords.Proofs.SkippedPaths

/-!
# Documents of legal values

What a run emits for legal values is legal for the declarations, at every depth, as long as every record that a
transformation returns is whole. The check on what transformations return does not see to that.
-/

namespace TaggedRecords

/-! ## What may stand in a document -/

mutual

/-- The value may stand in a document for a field of the shape: as a legal value does, but with the document of its
fields for a record that was entered. -/
def Value.Stands (setting : Setting) (catalog : Catalog) : Value → Descriptor → Prop
  | .null, d => d.isOptional = true
  | .bool _, d => d.dereferenced = .bool
  | .int _, d => d.dereferenced = .int
  | .uint _, d => d.dereferenced = .uint
  | .float _, d => d.dereferenced = .float
  | .string _, d => d.dereferenced = .string
  | .bytes _, d => d.dereferenced = .bytes
  | .time _, d => d.dereferenced = .time
  | .sequence items, d => ∃ element, d.dereferenced = .sequence element ∧ ItemsStand setting catalog items element
  | .mapping entries, d =>
    (∃ type, d.dereferenced = .record type ∧ FieldsStand setting catalog entries type) ∨
      ∃ element, d.dereferenced = .mapping element ∧ EntriesStand setting catalog entries element
  | .record type fields, d => d.dereferenced = .record type ∧ FieldsLegal catalog fields (catalog.fields type)
  | .delete, _ => False

/-- Every item may stand for the shape. -/
def ItemsStand (setting : Setting) (catalog : Catalog) : List Value → Descriptor → Prop
  | [], _ => True
  | item :: rest, element => item.Stands setting catalog element ∧ ItemsStand setting catalog rest element

/-- Every entry holds what may stand for the shape. -/
def EntriesStand (setting : Setting) (catalog : Catalog) : List (String × Value) → Descriptor → Prop
  | [], _ => True
  | (_, item) :: rest, element => item.Stands setting catalog element ∧ EntriesStand setting catalog rest element

/-- Every entry has the name of a field of the record type and holds what may stand for its declared type, or a
tombstone if the tag lets the field be left out. -/
def FieldsStand (setting : Setting) (catalog : Catalog) : List (String × Value) → RecordType → Prop
  | [], _ => True
  | (name, value) :: rest, type =>
    (∃ metadata field decl, RecordMetadata.build catalog setting.registry type = .ok metadata ∧
      field ∈ metadata.fields ∧ field.name = name ∧ (catalog.fields type)[field.index]? = some decl ∧
      (value.Stands setting catalog decl.descriptor ∨ value = .delete ∧ setting.options.tombstones = true ∧
        field.omission.appliesTo setting.options.method = true)) ∧ FieldsStand setting catalog rest type

end

/-- What a transformation returned for a shape with records. -/
def Event.returned? (setting : Setting) : Event → Option Value
  | .reached _ _ => none
  | .ran entry scope =>
    match entry.action, scope.descriptor.holdsRecord with
    | .transform rule, true => (rule.apply setting.context setting.options.transaction scope).toOption
    | .transform _, false => none
    | .validate _, _ => none

/-- Every record that a transformation has returned for a shape with records is whole. -/
def ReturnWhole (setting : Setting) (catalog : Catalog) (events : List Event) : Prop :=
  ∀ event ∈ events, ∀ value ∈ event.returned? setting, value.Whole catalog

instance (setting : Setting) (catalog : Catalog) (events : List Event) :
    Decidable (ReturnWhole setting catalog events) :=
  inferInstanceAs (Decidable (∀ event ∈ events, ∀ value ∈ event.returned? setting, value.Whole catalog))

section
variable {setting : Setting} {catalog : Catalog}

theorem itemsStand_iff {items : List Value} {element : Descriptor} :
    ItemsStand setting catalog items element ↔ ∀ item ∈ items, item.Stands setting catalog element := by
  induction items with
  | nil => simp [ItemsStand]
  | cons item rest ih => simp [ItemsStand, ih]

theorem entriesStand_iff {entries : List (String × Value)} {element : Descriptor} :
    EntriesStand setting catalog entries element ↔ ∀ entry ∈ entries, entry.2.Stands setting catalog element := by
  induction entries with
  | nil => simp [EntriesStand]
  | cons entry rest ih =>
    obtain ⟨key, item⟩ := entry
    simp [EntriesStand, ih]

theorem fieldsStand_iff {entries : List (String × Value)} {type : RecordType} :
    FieldsStand setting catalog entries type ↔ ∀ entry ∈ entries, ∃ metadata field decl,
      RecordMetadata.build catalog setting.registry type = .ok metadata ∧ field ∈ metadata.fields ∧
      field.name = entry.1 ∧ (catalog.fields type)[field.index]? = some decl ∧
      (entry.2.Stands setting catalog decl.descriptor ∨ entry.2 = .delete ∧ setting.options.tombstones = true ∧
        field.omission.appliesTo setting.options.method = true) := by
  induction entries with
  | nil => simp [FieldsStand]
  | cons entry rest ih =>
    obtain ⟨name, value⟩ := entry
    rw [FieldsStand, ih, List.forall_mem_cons]

/-- What stands under a name in the document of a record may stand for one of its fields. -/
theorem FieldsStand.of_get? {entries : List (String × Value)} {type : RecordType} {name : String} {value : Value}
    (stands : FieldsStand setting catalog entries type) (held : Entries.get? entries name = some value)
    (remains : value ≠ .delete) : ∃ decl ∈ catalog.fields type, value.Stands setting catalog decl.descriptor := by
  obtain ⟨_, _, decl, _, _, _, declared, stands | ⟨isDelete, _⟩⟩ :=
    fieldsStand_iff.mp stands _ (Entries.mem_of_get? held)
  · exact ⟨decl, List.mem_of_getElem? declared, stands⟩
  · exact absurd isDelete remains

mutual

/-- A legal value may stand as it is. -/
theorem Value.Legal.stands : ∀ {value : Value} {d : Descriptor}, value.Legal catalog d → value.Stands setting catalog d
  | .null, _, legal | .bool _, _, legal | .int _, _, legal | .uint _, _, legal | .float _, _, legal
  | .string _, _, legal | .bytes _, _, legal | .time _, _, legal | .record _ _, _, legal => legal
  | .sequence _, _, ⟨element, shape, legal⟩ => ⟨element, shape, itemsStand_of_legal legal⟩
  | .mapping _, _, ⟨element, shape, legal⟩ => .inr ⟨element, shape, entriesStand_of_legal legal⟩
  | .delete, _, legal => legal.elim

theorem itemsStand_of_legal : ∀ {items : List Value} {element : Descriptor}, ItemsLegal catalog items element →
    ItemsStand setting catalog items element
  | [], _, _ => trivial
  | _ :: _, _, ⟨here, below⟩ => ⟨here.stands, itemsStand_of_legal below⟩

theorem entriesStand_of_legal : ∀ {entries : List (String × Value)} {element : Descriptor},
    EntriesLegal catalog entries element → EntriesStand setting catalog entries element
  | [], _, _ => trivial
  | (_, _) :: _, _, ⟨here, below⟩ => ⟨here.stands, entriesStand_of_legal below⟩

end

/-! ## What a run visits -/

/-- What the location holds is legal for it, and its elements have the shape that its own has for them. -/
structure Location.Legal (catalog : Catalog) (location : Location) (value : Value) : Prop where
  value : value.Legal catalog location.descriptor
  elements : ∀ dive, location.dive = some dive → location.descriptor.element? = some dive.element

/-- Everything that there is to visit is legal. -/
def Subject.Legal (catalog : Catalog) : Subject → Prop
  | record snapshot _ _ => FieldsLegal catalog snapshot.fields (catalog.fields snapshot.type)
  | locations list => ∀ item ∈ list, item.1.Legal catalog item.2

/-- What the account emits may stand for its location, which is left out only if the tag lets it. -/
def Account.Stands (setting : Setting) (catalog : Catalog) : Account → Prop
  | omitted location _ => location.omission.appliesTo setting.options.method = true
  | visited location _ _ left inside =>
    (location.emits left (emittedFields setting.options.tombstones inside)
      (emittedItems setting.options.tombstones inside)).Stands setting catalog location.descriptor

/-- A chain leaves a legal value if it found one and every record returned on the way is whole. -/
theorem Executes.legal {location : Location} {entries : List RuleEntry} {value left : Value}
    {runs : List (RuleEntry × Scope)} (executes : Executes setting location entries value runs (.ok left))
    (whole : ReturnWhole setting catalog (runs.map fun run => .ran run.1 run.2))
    (legal : value.Legal catalog location.descriptor) : left.Legal catalog location.descriptor := by
  generalize passing : Except.ok (ε := Fault) left = result at executes
  induction executes with
  | ended value =>
    cases passing
    exact legal
  | passed _ _ ih => exact ih whole legal passing
  | @ran entry rest value next runs result _ gives _ ih =>
    have later : ReturnWhole setting catalog (runs.map fun run => .ran run.1 run.2) :=
      fun event member => whole event (List.mem_cons_of_mem _ member)
    refine ih later ?_ passing
    cases gives with
    | accepted _ _ => exact legal
    | kept _ _ _ _ => exact legal
    | @changed rule given action answer allowed _ =>
      have admitted : location.descriptor.admits next = true := admits_of_allows rfl allowed
      refine Value.legal_iff.mpr ⟨admitted, ?_⟩
      cases holds : location.descriptor.holdsRecord with
      | false => exact Value.whole_of_recordless (Value.recordless_of_admits holds admitted)
      | true =>
        rw [← Descriptor.holdsRecord_dereferenced] at holds
        have shape : (location.scope entry value).descriptor.holdsRecord = true := holds
        refine whole (.ran entry (location.scope entry value)) List.mem_cons_self next ?_
        simp [Event.returned?, action, shape, answer, Except.toOption]
  | failed _ _ => cases passing

/-- The fields of a legal record hold what is legal for them. -/
theorem RecordMetadata.legal_locations {record : RecordValue} {metadata : RecordMetadata}
    (legal : FieldsLegal catalog record.fields (catalog.fields record.type))
    (built : RecordMetadata.build catalog setting.registry record.type = .ok metadata) (place : Place)
    (around : List Place) : (Subject.locations (metadata.locations record place around)).Legal catalog := by
  intro item member
  obtain ⟨field, among, rfl⟩ := List.mem_map.mp member
  obtain ⟨decl, declared, describes⟩ := (describes_of_build built).1 field among
  obtain ⟨held, found, legalHeld⟩ := legal.getElem? declared describes.visible
  refine ⟨?_, fun dive dives => ?_⟩
  · simpa [RecordValue.at?, found, Location.ofField, describes.descriptor] using legalHeld
  · have isElement := (FieldMetadata.dive?_eq_some dives).1
    rw [describes.element] at isElement
    simpa [Location.ofField, describes.descriptor] using isElement

/-- A legal location that is dived holds legal items of the shape that the dive goes on with. -/
theorem Location.Legal.items {location : Location} {items : List Value} {dive : Dive}
    (legal : location.Legal catalog (.sequence items)) (dives : location.dive = some dive) :
    location.descriptor.dereferenced = .sequence dive.element ∧ ItemsLegal catalog items dive.element := by
  obtain ⟨element, shape, legalItems⟩ := legal.value
  have same := (legal.elements dive dives).symm.trans (Descriptor.element?_of_dereferenced (.inl shape))
  cases Option.some.inj same
  exact ⟨shape, legalItems⟩

theorem Location.Legal.entries {location : Location} {entries : List (String × Value)} {dive : Dive}
    (legal : location.Legal catalog (.mapping entries)) (dives : location.dive = some dive) :
    location.descriptor.dereferenced = .mapping dive.element ∧ EntriesLegal catalog entries dive.element := by
  obtain ⟨element, shape, legalEntries⟩ := legal.value
  have same := (legal.elements dive dives).symm.trans (Descriptor.element?_of_dereferenced (.inr shape))
  cases Option.some.inj same
  exact ⟨shape, legalEntries⟩

/-- What is inside a legal location is legal. -/
theorem Location.Legal.inside {location : Location} {value : Value} (legal : location.Legal catalog value) :
    (location.inside value).Legal catalog := by
  unfold Location.inside
  split
  · exact legal.value.2
  · next items dive dives =>
    intro item member
    obtain ⟨found, among, rfl⟩ := List.mem_map.mp member
    exact ⟨itemsLegal_iff.mp (legal.items dives).2 _ (List.fst_mem_of_mem_zipIdx among), nofun⟩
  · next entries dive dives =>
    intro item member
    obtain ⟨found, among, rfl⟩ := List.mem_map.mp member
    exact ⟨entriesLegal_iff.mp (legal.entries dives).2 _ among, nofun⟩
  · exact List.forall_mem_nil _

/-! ## What a run emits -/

/-- What is emitted under a name comes of an account of a location with that name. -/
theorem mem_emittedFields {tombstones : Bool} {accounts : List Account} {entry : String × Value} :
    entry ∈ emittedFields tombstones accounts ↔
      ∃ account ∈ accounts, account.location.name = entry.1 ∧ account.emitted? tombstones = some entry.2 := by
  induction accounts with
  | nil => simp [emittedFields]
  | cons account rest ih =>
    rw [emittedFields, List.exists_mem_cons_iff, ← ih]
    cases emits : account.emitted? tombstones with
    | none => simp
    | some value =>
      rw [List.mem_cons]
      refine or_congr_left ⟨?_, ?_⟩
      · rintro rfl
        exact ⟨rfl, rfl⟩
      · rintro ⟨name, same⟩
        cases same
        exact Prod.ext name.symm rfl

/-- A record is emitted as a document whose entries stand for its fields. -/
theorem Accounts.fieldsStand {record : RecordValue} {place : Place} {around : List Place} {accounts : List Account}
    (derived : Accounts setting catalog (.record record place around) accounts)
    (stand : ∀ account ∈ accounts, account.Stands setting catalog) :
    FieldsStand setting catalog (documentOf setting.options.tombstones accounts) record.type := by
  cases derived with
  | @entered _ _ _ metadata _ _ built below =>
    refine fieldsStand_iff.mpr fun entry member => ?_
    obtain ⟨account, among, name, emits⟩ := mem_emittedFields.mp (Entries.mem_of_mem_ofList member)
    obtain ⟨item, listed, located⟩ := below.exists_item among
    obtain ⟨field, fieldMember, rfl⟩ := List.mem_map.mp listed
    obtain ⟨decl, declared, describes⟩ := (describes_of_build built).1 field fieldMember
    refine ⟨metadata, field, decl, built, fieldMember, (congrArg Location.name located).trans name, declared, ?_⟩
    have stands := stand account among
    cases account with
    | omitted location value =>
      cases tombstones : setting.options.tombstones with
      | false => simp [Account.emitted?, tombstones] at emits
      | true =>
        cases located
        exact .inr ⟨by simpa [Account.emitted?, tombstones] using emits.symm, rfl, stands⟩
    | visited location value runs left inside =>
      have shape : location.descriptor = decl.descriptor :=
        (congrArg Location.descriptor located).symm.trans describes.descriptor
      rw [← Option.some.inj emits, ← shape]
      exact .inl stands

/-- An element is always emitted, as something that stands for its shape. -/
theorem Account.Stands.element {account : Account} (stands : account.Stands setting catalog) {location : Location}
    {dive : Dive} {place : Place} {name : String} (located : account.location = location.element dive place name) :
    ∃ value, account.emitted? setting.options.tombstones = some value ∧ value.Stands setting catalog dive.element := by
  cases account with
  | omitted other value =>
    cases located
    cases method : setting.options.method <;>
      simp [Stands, OmitPolicy.none, OmitPolicy.appliesTo, method] at stands
  | visited other value runs left inside =>
    cases located
    exact ⟨_, rfl, stands⟩

/-- What is emitted for a legal value stands for the shape of its location if what is emitted inside does. -/
theorem Location.Legal.emits {location : Location} {left : Value} {inner : List Account}
    (legal : location.Legal catalog left) (derived : Accounts setting catalog (location.inside left) inner)
    (stand : ∀ account ∈ inner, account.Stands setting catalog) :
    (location.emits left (emittedFields setting.options.tombstones inner)
      (emittedItems setting.options.tombstones inner)).Stands setting catalog location.descriptor := by
  cases left with
  | record type fields => exact .inl ⟨type, legal.value.1, Accounts.fieldsStand derived stand⟩
  | sequence items =>
    cases dives : location.dive with
    | none =>
      simp only [Location.emits, dives]
      exact legal.value.stands
    | some dive =>
      simp only [Location.inside, dives] at derived
      simp only [Location.emits, dives]
      refine ⟨dive.element, (legal.items dives).1, itemsStand_iff.mpr fun item member => ?_⟩
      rw [emittedItems_eq_map] at member
      obtain ⟨account, among, rfl⟩ := List.mem_map.mp member
      obtain ⟨found, listed, located⟩ := derived.exists_item among
      obtain ⟨source, -, rfl⟩ := List.mem_map.mp listed
      obtain ⟨value, emits, stands⟩ := (stand account among).element located.symm
      rw [emits]
      exact stands
  | mapping entries =>
    cases dives : location.dive with
    | none =>
      simp only [Location.emits, dives]
      exact legal.value.stands
    | some dive =>
      simp only [Location.inside, dives] at derived
      simp only [Location.emits, dives]
      refine .inr ⟨dive.element, (legal.entries dives).1, entriesStand_iff.mpr fun entry member => ?_⟩
      obtain ⟨account, among, -, emits⟩ := mem_emittedFields.mp member
      obtain ⟨found, listed, located⟩ := derived.exists_item among
      obtain ⟨source, -, rfl⟩ := List.mem_map.mp listed
      obtain ⟨value, also, stands⟩ := (stand account among).element located.symm
      cases emits.symm.trans also
      exact stands
  | _ => exact legal.value.stands

/-- All that a passing run emits stands for the location that it was emitted for. -/
theorem Accounts.stand {subject : Subject} {accounts : List Account}
    (derived : Accounts setting catalog subject accounts) (legal : subject.Legal catalog)
    (whole : ReturnWhole setting catalog (eventsOf accounts)) :
    ∀ account ∈ accounts, account.Stands setting catalog := by
  induction derived with
  | entered _ built _ ih => exact ih (RecordMetadata.legal_locations legal built _ _) whole
  | nothing => exact List.forall_mem_nil _
  | omitted out _ ih =>
    refine List.forall_mem_cons.mpr ⟨out.2.1, ih (List.forall_mem_cons.mp legal).2 fun event noted => ?_⟩
    exact whole event (List.mem_append_right _ noted)
  | @passed location value left rest runs inner accounts _ executes inside _ insideIh ih =>
    obtain ⟨here, below⟩ := List.forall_mem_cons.mp legal
    have chain : ReturnWhole setting catalog (runs.map fun run => .ran run.1 run.2) := fun event noted =>
      whole event (List.mem_append_left _ (List.mem_cons_of_mem _ (List.mem_append_left _ noted)))
    have leaves : location.Legal catalog left := ⟨executes.legal chain here.value, here.elements⟩
    have stand := insideIh leaves.inside fun event noted =>
      whole event (List.mem_append_left _ (List.mem_cons_of_mem _ (List.mem_append_right _ noted)))
    refine List.forall_mem_cons.mpr ⟨leaves.emits inside stand, ih below fun event noted => ?_⟩
    exact whole event (List.mem_append_right _ noted)

end

/-! ## Runs of an engine -/

namespace Engine

/-- A passing run of a legal snapshot emits a document of legal values if every record that a transformation returned on
the way is whole. -/
theorem document_stands (engine : Engine) {cache : MetadataCache} (context : Context) (options : Options)
    {snapshot : RecordValue} {taken : Option TypedRecord} {document : Document}
    (faithful : cache.Faithful engine.catalog engine.registry) (may : taken.isSome = true → options.writesBack = true)
    (legal : FieldsLegal engine.catalog snapshot.fields (engine.catalog.fields snapshot.type))
    (ended : ((engine.plan context options snapshot).run engine.catalog engine.registry cache taken).result =
      .ok document)
    (whole : ReturnWhole (engine.setting context options) engine.catalog
      ((engine.plan context options snapshot).run engine.catalog engine.registry cache taken).events) :
    FieldsStand (engine.setting context options) engine.catalog document snapshot.type := by
  obtain ⟨accounts, accounted⟩ := engine.exists_accounts context options snapshot faithful may ended
  cases ended.symm.trans accounted.document
  rw [accounted.events] at whole
  exact accounted.derived.fieldsStand (accounted.derived.stand legal whole)

/-- The check on what transformations return admits a value exactly if it is legal at every depth, as snapshots are, but
for records in it that are not whole. A document that a run comes to holds for every field what its declaration allows,
unless a transformation has returned such a value for a shape with records. -/
theorem legal_documents (engine : Engine) {cache : MetadataCache} (context : Context) (options : Options)
    (faithful : cache.Faithful engine.catalog engine.registry) :
    (∀ (value : Value) d, value.Legal engine.catalog d ↔ d.admits value = true ∧ value.Whole engine.catalog) ∧
    (∀ (data : Data) (type : FieldType), data.Fits engine.catalog type →
      (data.snapshot engine.catalog).Legal engine.catalog type.descriptor) ∧
    (∀ record document, record.Fits engine.catalog →
      (engine.validateMut cache context options record).result = .ok document →
      ReturnWhole (engine.setting context options) engine.catalog
        (engine.validateMut cache context options record).events →
      FieldsStand (engine.setting context options) engine.catalog document record.type) ∧
    ∀ snapshot document, FieldsLegal engine.catalog snapshot.fields (engine.catalog.fields snapshot.type) →
      (engine.validateSnapshot cache context options snapshot).result = .ok document →
      ReturnWhole (engine.setting context options) engine.catalog
        (engine.validateSnapshot cache context options snapshot).events →
      FieldsStand (engine.setting context options) engine.catalog document snapshot.type := by
  refine ⟨fun value d => Value.legal_iff, fun data type => Data.legal_snapshot,
    fun record document fits ended whole => ?_, fun snapshot document legal ended whole => ?_⟩
  · have legal : FieldsLegal engine.catalog (record.snapshot engine.catalog).fields
        (engine.catalog.fields record.type) :=
      fieldsLegal_iff_whole.mpr (whole_snapshotFields fits)
    exact engine.document_stands context options faithful (writesBack_of_taken record) legal ended whole
  · unfold validateSnapshot at ended whole
    split at ended
    · cases ended
    · next reads =>
      rw [if_neg reads] at whole
      exact engine.document_stands context options faithful (by simp) legal ended whole

/-- Boxes with a tray that is refilled with this as its count. -/
def refilling (count : Value) : Engine where
  catalog := ⟨[⟨"Tray", [⟨"count", "count", .signed .w64⟩]⟩,
    ⟨"Box", [⟨"tray", "tray,refill", .record ⟨0, "Tray"⟩⟩, ⟨"label", "label,omitempty", .string⟩]⟩]⟩
  registry := Registry.empty.putTransformation "refill"
    ⟨fun _ _ _ => .ok (.record ⟨0, "Tray"⟩ [("count", count)]), false⟩ false
  settings := ⟨3⟩

/-- One whose tray has one piece. -/
def box : TypedRecord := ⟨⟨1, "Box"⟩, [.record ⟨0, "Tray"⟩ [.int 1], .string ""]⟩

/-- A word may not stand for the count of a tray in a box. -/
theorem refilling_not_stands {count : Value} {document : Document} {tray : Value} {word : String}
    (held : Entries.get? document "tray" = some tray) (counts : (tray.entryAt "count").text? = some word) :
    ¬ FieldsStand ((refilling count).setting {} {}) (refilling count).catalog document box.type := by
  intro stands
  cases tray with
  | mapping entries =>
    cases within : Entries.get? entries "count" with
    | none => simp [Value.entryAt, within, Value.text?] at counts
    | some value =>
      cases value with
      | string text =>
        obtain ⟨decl, among, mapped⟩ := stands.of_get? held (by simp)
        rcases List.mem_cons.mp among with rfl | others
        · rcases mapped with ⟨type, shape, inside⟩ | ⟨element, shape, _⟩
          · cases shape
            obtain ⟨inner, only, isInt⟩ := inside.of_get? within (by simp)
            cases List.mem_singleton.mp only
            cases isInt
          · cases shape
        · cases List.mem_singleton.mp others
          rcases mapped with ⟨type, shape, _⟩ | ⟨element, shape, _⟩ <;> cases shape
      | _ => simp [Value.entryAt, within, Value.text?] at counts
  | _ => cases counts

/-- Refilled with a number the document of the box holds one. Refilled with a word it passes as well, and the word
stands where a number is declared. -/
theorem refilling_legal_documents :
    (∃ document, ((refilling (.int 7)).validateMut .empty {} {} box).result = .ok document ∧
      FieldsStand ((refilling (.int 7)).setting {} {}) (refilling (.int 7)).catalog document box.type) ∧
    ∃ document, ((refilling (.string "many")).validateMut .empty {} {} box).result = .ok document ∧
      ¬ FieldsStand ((refilling (.string "many")).setting {} {}) (refilling (.string "many")).catalog document
        box.type := by
  have faithful := MetadataCache.faithful_empty (refilling (.int 7)).catalog (refilling (.int 7)).registry
  have fits : box.Fits (refilling (.int 7)).catalog := by
    simp [box, TypedRecord.Fits, refilling, Catalog.fields, FieldsFit, FieldDecl.isHidden, FieldDecl.descriptor,
      FieldType.descriptor, Descriptor.unsupportedKind?, Data.Fits, FieldType.unboxed, Width.bits]
  have passes : ((refilling (.int 7)).validateMut .empty {} {} box).result.isOk = true := by decide +kernel
  have words : ((refilling (.string "many")).validateMut .empty {} {} box).result.toOption.any (fun document =>
      (Entries.get? document "tray").any fun tray => (tray.entryAt "count").text? == some "many") = true := by
    decide +kernel
  obtain ⟨-, -, stands, -⟩ := legal_documents (refilling (.int 7)) {} {} faithful
  constructor
  · cases ended : ((refilling (.int 7)).validateMut .empty {} {} box).result with
    | error fault =>
      rw [ended] at passes
      cases passes
    | ok document => exact ⟨document, rfl, stands box document fits ended (by decide +kernel)⟩
  · cases ended : ((refilling (.string "many")).validateMut .empty {} {} box).result with
    | error fault =>
      rw [ended] at words
      cases words
    | ok document =>
      rw [ended] at words
      change (Entries.get? document "tray").any _ = true at words
      obtain ⟨tray, held, counts⟩ := (Option.any_eq_true _ _).mp words
      exact ⟨document, rfl, refilling_not_stands held (eq_of_beq counts)⟩

end Engine

end TaggedRecords
