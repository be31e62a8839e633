import TaggedRecords.Proofs.Conformance
import TaggedRecords.Proofs.VisitRuns

/-!
# Runs emit conforming documents

Where records are no transformation runs, so what is emitted for them is emitted for what the record held; anywhere else
each value that a transformation gives is legal for its descriptor. Either way what is emitted conforms.
-/

namespace TaggedRecords

/-! ## What plans yield -/

/-- Whatever the plan comes to at its end is good, if each question is answered by building. -/
def Plan.Yields {α : Type} (catalog : Catalog) (registry : Registry) (good : α → Prop) : Plan α → Prop
  | .done result => good result
  | .fail _ => True
  | .describe type next => ∀ metadata, RecordMetadata.build catalog registry type = .ok metadata →
      (next metadata).Yields catalog registry good
  | .note _ next => next.Yields catalog registry good
  | .write _ _ next => next.Yields catalog registry good

namespace Plan
variable {α β : Type} {catalog : Catalog} {registry : Registry}

theorem Yields.bind {plan : Plan α} {follow : α → Plan β} (good : α → Prop) {better : β → Prop}
    (yields : plan.Yields catalog registry good)
    (follows : ∀ result, good result → (follow result).Yields catalog registry better) :
    (plan.bind follow).Yields catalog registry better := by
  induction plan with
  | done result => exact follows result yields
  | fail fault => trivial
  | describe type next ih => exact fun metadata built => ih metadata (yields metadata built)
  | note event next ih => exact ih yields
  | write place value next ih => exact ih yields

theorem Comes.yields {writes : Bool} {plan : Plan α} {good : α → Prop} {marks : List Mark} {result : α}
    (yields : plan.Yields catalog registry good) (comes : plan.Comes catalog registry writes marks (.ok result)) :
    good result := by
  generalize ending : Except.ok (ε := Fault) result = last at comes
  induction comes with
  | done _ =>
    cases ending
    exact yields
  | fail _ => cases ending
  | described built _ ih => exact ih (yields _ built) ending
  | faulty _ => cases ending
  | note _ ih => exact ih yields ending
  | written _ ih => exact ih yields ending
  | refused _ _ => cases ending

end Plan

/-! ## Snapshots of typed content -/

section
variable {catalog : Catalog}

theorem FieldType.descriptor_of_unboxed {type under : FieldType} (layer : type.unboxed = under) :
    type.descriptor = under.descriptor := by
  rw [← type.descriptor_unboxed, layer]

mutual

/-- The snapshot of content is legal for its type. -/
theorem Data.admits_snapshot :
    ∀ {data : Data} {type : FieldType}, data.Fits catalog type → type.descriptor.admits (data.snapshot catalog) = true
  | .bool _, _, layer | .string _, _, layer | .bytes _, _, layer | .time _, _, layer => by
    rw [FieldType.descriptor_of_unboxed layer]
    rfl
  | .int _, _, ⟨_, layer, _⟩ | .uint _, _, ⟨_, layer, _⟩ => by
    rw [FieldType.descriptor_of_unboxed layer]
    rfl
  | .float _, _, layer => by
    rcases layer with layer | layer <;> rw [FieldType.descriptor_of_unboxed layer] <;> rfl
  | .none, _, ⟨_, layer⟩ => by
    rw [FieldType.descriptor_of_unboxed layer]
    rfl
  | .some data, _, ⟨inner, layer, fits⟩ => by
    rw [FieldType.descriptor_of_unboxed layer, FieldType.descriptor, Data.snapshot]
    by_cases absent : data.snapshot catalog = .null
    · rw [absent]
      rfl
    · rw [Descriptor.admits_optional inner.descriptor absent]
      exact Data.admits_snapshot fits
  | .sequence items, _, ⟨_, layer, fit⟩ => by
    rw [FieldType.descriptor_of_unboxed layer]
    exact admits_snapshotItems fit
  | .mapping entries, _, ⟨_, _, layer, _, fit⟩ => by
    rw [FieldType.descriptor_of_unboxed layer]
    exact admits_snapshotEntries fit
  | .record type _, _, ⟨layer, _⟩ => by
    rw [FieldType.descriptor_of_unboxed layer]
    exact decide_eq_true rfl

theorem admits_snapshotItems : ∀ {items : List Data} {element : FieldType}, ItemsFit catalog items element →
    (snapshotItems catalog items).all (fun item => element.descriptor.admits item) = true
  | [], _, _ => rfl
  | _ :: _, _, ⟨head, tail⟩ => Bool.and_eq_true_iff.mpr ⟨Data.admits_snapshot head, admits_snapshotItems tail⟩

theorem admits_snapshotEntries : ∀ {entries : List (String × Data)} {element : FieldType},
    EntriesFit catalog entries element →
    (snapshotEntries catalog entries).all (fun entry => element.descriptor.admits entry.2) = true
  | [], _, _ => rfl
  | (_, _) :: _, _, ⟨head, tail⟩ =>
    Bool.and_eq_true_iff.mpr ⟨Data.admits_snapshot head, admits_snapshotEntries tail⟩

end

/-- The value is the snapshot of content of the type. -/
def FieldType.Shows (catalog : Catalog) (type : FieldType) (value : Value) : Prop :=
  ∃ data : Data, data.Fits catalog type ∧ data.snapshot catalog = value

namespace FieldType.Shows
variable {type : FieldType}

theorem items {items : List Value} (shows : type.Shows catalog (.sequence items)) :
    ∃ element, type.element? = some element ∧
      ∀ (index : Nat) item, items[index]? = some item → element.Shows catalog item := by
  obtain ⟨data, fits, same⟩ := shows
  have denotes : data.Denotes catalog type (.sequence items) := ⟨fits, same ▸ Value.alike_refl _⟩
  obtain ⟨outline, element, isElement, parts⟩ := denotes.items
  obtain ⟨others, shape, -, snapshots⟩ := snapshot_of_items catalog outline
  cases same.symm.trans shape
  refine ⟨element, isElement, fun index item held => ?_⟩
  obtain ⟨part, found, denotesItem⟩ := parts index item held
  exact ⟨part, denotesItem.1, Option.some.inj ((snapshots type index element part found).symm.trans held)⟩

theorem entries {entries : List (String × Value)} (shows : type.Shows catalog (.mapping entries)) :
    Entries.Distinct entries ∧ ∃ element, type.element? = some element ∧
      ∀ key item, Entries.get? entries key = some item → element.Shows catalog item := by
  obtain ⟨data, fits, same⟩ := shows
  have denotes : data.Denotes catalog type (.mapping entries) := ⟨fits, same ▸ Value.alike_refl _⟩
  obtain ⟨keys, outline, -, element, isElement, parts⟩ := denotes.entries
  obtain ⟨others, shape, -, snapshots⟩ := snapshot_of_entries catalog outline
  cases same.symm.trans shape
  refine ⟨denotes.proper.1, element, isElement, fun key item held => ?_⟩
  obtain ⟨part, found, denotesItem⟩ := parts key item held
  exact ⟨part, denotesItem.1, Option.some.inj ((snapshots type key element part found).symm.trans held)⟩

theorem fields {recordType : RecordType} {fields : List (String × Value)}
    (shows : type.Shows catalog (.record recordType fields)) :
    type.core = .record recordType ∧ ∀ (index : Nat) decl, (catalog.fields recordType)[index]? = some decl →
      decl.isHidden = false → ∃ item, fields[index]? = some (decl.name, item) ∧ decl.type.Shows catalog item := by
  obtain ⟨data, fits, same⟩ := shows
  have denotes : data.Denotes catalog type (.record recordType fields) := ⟨fits, same ▸ Value.alike_refl _⟩
  obtain ⟨core, ⟨count, outline⟩, parts⟩ := denotes.fields
  obtain ⟨others, shape, snapshots⟩ := snapshot_of_fields catalog outline
  cases same.symm.trans shape
  refine ⟨core, fun index decl declared visible => ?_⟩
  obtain ⟨part, item, found, held, denotesItem⟩ := parts index decl declared visible
  obtain ⟨name, kept⟩ := snapshots type index decl.type part found
  cases held.symm.trans kept
  exact ⟨_, held, part, denotesItem.1, rfl⟩

end FieldType.Shows

end

/-! ## Values on the way -/

/-- No transformation runs on the field or on its elements where those have records in them. -/
structure FieldMetadata.Plain (field : FieldMetadata) : Prop where
  rules : (∃ entry ∈ field.rules, entry.action.isTransform = true) → field.descriptor.holdsRecord = false
  elementRules : ∀ element, field.element = some element →
    (∃ entry ∈ field.elementRules, entry.action.isTransform = true) → element.holdsRecord = false

instance (field : FieldMetadata) : Decidable field.Plain :=
  decidable_of_iff (((∃ entry ∈ field.rules, entry.action.isTransform = true) → field.descriptor.holdsRecord = false) ∧
    ∀ element ∈ field.element, (∃ entry ∈ field.elementRules, entry.action.isTransform = true) →
      element.holdsRecord = false)
    ⟨fun ⟨rules, elementRules⟩ => ⟨rules, elementRules⟩, fun ⟨rules, elementRules⟩ => ⟨rules, elementRules⟩⟩

/-- No transformation is among the entries if the shape has records in it. -/
def Spares (entries : List RuleEntry) (d : Descriptor) : Prop :=
  (∃ entry ∈ entries, entry.action.isTransform = true) → d.holdsRecord = false

theorem Spares.tail {entry : RuleEntry} {rest : List RuleEntry} {d : Descriptor} (spares : Spares (entry :: rest) d) :
    Spares rest d :=
  fun ⟨other, member, transforms⟩ => spares ⟨other, List.mem_cons_of_mem _ member, transforms⟩

/-- The value is legal for the shape, and where records are it is still the source: the snapshot of content of a type
below the root. -/
structure Held (catalog : Catalog) (root : RecordType) (d : Descriptor) (source value : Value) : Prop where
  legal : d.admits value = true
  kept : d.holdsRecord = true → value = source ∧ ∃ type : FieldType, type.descriptor = d ∧
    (∀ recordType, type.core = .record recordType → catalog.Reaches root recordType) ∧ type.Shows catalog source

section
variable {catalog : Catalog} {registry : Registry} {root : RecordType} {d : Descriptor} {source : Value}

theorem held_of_shows {type : FieldType} {value : Value}
    (reaches : ∀ recordType, type.core = .record recordType → catalog.Reaches root recordType)
    (shows : type.Shows catalog value) : Held catalog root type.descriptor value value := by
  refine ⟨?_, fun _ => ⟨rfl, type, rfl, reaches, shows⟩⟩
  obtain ⟨data, fits, rfl⟩ := shows
  exact Data.admits_snapshot fits

theorem Held.items {items : List Value} (held : Held catalog root d source (.sequence items)) :
    ∃ element, d.dereferenced = .sequence element ∧ ∀ (index : Nat) item, items[index]? = some item →
      Held catalog root element (source.itemAt index) item := by
  obtain ⟨element, shape, legal⟩ := Descriptor.dereferenced_of_admits_sequence held.legal
  refine ⟨element, shape, fun index item stands => ⟨legal item (List.mem_of_getElem? stands), fun holds => ?_⟩⟩
  have found := Descriptor.element?_of_dereferenced (.inl shape)
  obtain ⟨rfl, type, rfl, reaches, shows⟩ := held.kept (by rw [← Descriptor.holdsRecord_of_element? found, holds])
  obtain ⟨elementType, isElement, parts⟩ := shows.items
  rw [type.descriptor_element?, isElement] at found
  refine ⟨by simp [Value.itemAt, stands], elementType, Option.some.inj found, fun recordType core => ?_, ?_⟩
  · exact reaches recordType (by rw [← FieldType.core_of_element? isElement, core])
  · simpa [Value.itemAt, stands] using parts index item stands

theorem Held.entries {entries : List (String × Value)} (held : Held catalog root d source (.mapping entries)) :
    ∃ element, d.dereferenced = .mapping element ∧ ∀ entry ∈ entries,
      Held catalog root element (source.entryAt entry.1) entry.2 := by
  obtain ⟨element, shape, legal⟩ := Descriptor.dereferenced_of_admits_mapping held.legal
  refine ⟨element, shape, fun entry member => ⟨legal entry member, fun holds => ?_⟩⟩
  have found := Descriptor.element?_of_dereferenced (.inr shape)
  obtain ⟨rfl, type, rfl, reaches, shows⟩ := held.kept (by rw [← Descriptor.holdsRecord_of_element? found, holds])
  obtain ⟨distinct, elementType, isElement, parts⟩ := shows.entries
  have stands : Entries.get? entries entry.1 = some entry.2 := Entries.get?_of_mem distinct member
  rw [type.descriptor_element?, isElement] at found
  refine ⟨by simp [Value.entryAt, stands], elementType, Option.some.inj found, fun recordType core => ?_, ?_⟩
  · exact reaches recordType (by rw [← FieldType.core_of_element? isElement, core])
  · simpa [Value.entryAt, stands] using parts entry.1 entry.2 stands

theorem Held.record {type : RecordType} {fields : List (String × Value)}
    (held : Held catalog root d source (.record type fields)) :
    d.dereferenced = .record type ∧ source = .record type fields ∧ catalog.Reaches root type ∧
      ∃ fieldType : FieldType, fieldType.Shows catalog (.record type fields) := by
  have shape := Descriptor.dereferenced_of_admits_record held.legal
  have holds : d.holdsRecord = true := by
    rw [← Descriptor.holdsRecord_dereferenced, shape]
    rfl
  obtain ⟨rfl, fieldType, _, reaches, shows⟩ := held.kept holds
  exact ⟨shape, rfl, reaches type shows.fields.1, fieldType, shows⟩

/-! ## Chains and visits -/

variable {setting : Setting}

/-- A chain goes on with legal values, and where records are with the one it found. -/
theorem yields_runChain {entries : List RuleEntry} (spares : Spares entries d) (place : Place)
    {scope : Scope} (shape : scope.descriptor = d.dereferenced) (held : Held catalog root d source scope.value) :
    (runChain setting d.isOptional place scope entries).Yields catalog registry (Held catalog root d source) := by
  induction entries generalizing scope with
  | nil => exact held
  | cons entry rest ih =>
    rw [runChain]
    split
    · rcases runEntry_cases setting d.isOptional place scope entry with
        ⟨fault, eq⟩ | eq | ⟨rule, next, transforms, given, allowed, eq⟩
      · rw [eq]
        trivial
      · rw [eq]
        exact ih spares.tail (show (scope.seenBy entry).descriptor = _ from shape) held
      · rw [eq]
        have recordless := spares ⟨entry, List.mem_cons_self, by rw [transforms]; rfl⟩
        have legal : d.admits next = true :=
          admits_of_allows (show (scope.seenBy entry).descriptor = _ from shape) allowed
        refine ih spares.tail (show ((scope.seenBy entry).holding next).descriptor = _ from shape) ⟨legal, ?_⟩
        intro holds
        rw [recordless] at holds
        cases holds
    · exact ih spares.tail shape held

/-- What is emitted for a record of the snapshot conforms to it. -/
def Nested.Conforms (setting : Setting) (catalog : Catalog) (root : RecordType) (nested : Nested) : Prop :=
  ∀ record : RecordValue, (∃ type : FieldType, type.Shows catalog record.toValue) →
    catalog.Reaches root record.type → ∀ place around validate,
      (nested record place validate).Yields catalog setting.registry fun document =>
        FieldsConform setting catalog document record place around

variable {nested : Nested} {location : Location}

theorem yields_emit (conforms : nested.Conforms setting catalog root) (location : Location) {value : Value}
    (held : Held catalog root location.descriptor source value)
    (whole : value.kind = .sequence ∨ value.kind = .mapping → location.dive = none) (validate : Bool) :
    (emit nested validate location.place value).Yields catalog setting.registry fun emitted =>
      emitted.Conforms setting catalog location source := by
  by_cases entered : ∃ type fields, value = .record type fields
  · obtain ⟨type, fields, rfl⟩ := entered
    obtain ⟨shape, rfl, reached, shows⟩ := held.record
    have document := conforms ⟨type, fields⟩ shows reached location.place (location.place :: location.around) validate
    exact document.bind _ fun entries conform => .inl ⟨type, fields, shape, rfl, conform⟩
  · have bare : ∀ type fields, value ≠ .record type fields := fun type fields same => entered ⟨type, fields, same⟩
    rw [emit_eq_done bare]
    exact Value.conforms_of_admits source held.legal bare whole

theorem yields_walkElement (conforms : nested.Conforms setting catalog root) (location : Location) {dive : Dive}
    (spares : Spares dive.rules dive.element)
    {item : Value} (held : Held catalog root dive.element source item) (validate : Bool) (place : Place)
    (name : String) :
    (walkElement setting nested location.owner dive validate place name item).Yields catalog setting.registry
      fun emitted => emitted.Conforms setting catalog (location.element dive place name) source := by
  rw [walkElement_eq]
  refine Plan.Yields.bind (Held catalog root dive.element source) ?_ fun value heldValue => ?_
  · split
    · exact yields_runChain spares place rfl held
    · exact held
  · exact yields_emit conforms (location.element dive place name) heldValue (fun _ => rfl) _

theorem yields_walkItems (conforms : nested.Conforms setting catalog root) (location : Location) {dive : Dive}
    (spares : Spares dive.rules dive.element)
    {items : List Value} {start : Nat} (held : ∀ (index : Nat) item, items[index]? = some item →
      Held catalog root dive.element (source.itemAt (start + index)) item) (validate : Bool) :
    (walkItems setting nested location.owner dive validate location.place start items).Yields catalog
      setting.registry fun emitted => ItemsConform setting catalog emitted location dive start source := by
  induction items generalizing start with
  | nil => trivial
  | cons item rest ih =>
    refine (yields_walkElement conforms location spares (held 0 item rfl) validate _ _).bind _ fun first here => ?_
    refine (ih fun index other stands => ?_).bind _ fun others below => ⟨here, below⟩
    rw [Nat.add_assoc, Nat.add_comm 1 index]
    exact held (index + 1) other stands

theorem yields_walkEntries (conforms : nested.Conforms setting catalog root) (location : Location) {dive : Dive}
    (spares : Spares dive.rules dive.element)
    {entries : List (String × Value)} (held : ∀ entry ∈ entries,
      Held catalog root dive.element (source.entryAt entry.1) entry.2) (validate : Bool) :
    (walkEntries setting nested location.owner dive validate location.place entries).Yields catalog setting.registry
      fun emitted => EntriesConform setting catalog emitted location dive source := by
  induction entries with
  | nil => trivial
  | cons entry rest ih =>
    obtain ⟨heldHere, heldRest⟩ := List.forall_mem_cons.mp held
    refine (yields_walkElement conforms location spares heldHere validate _ _).bind _ fun first here => ?_
    exact (ih heldRest).bind _ fun others below => ⟨here, below⟩

theorem yields_finish (conforms : nested.Conforms setting catalog root) (location : Location)
    (element : ∀ dive, location.dive = some dive → location.descriptor.element? = some dive.element ∧
      Spares dive.rules dive.element)
    {value : Value} (held : Held catalog root location.descriptor source value) (validate : Bool) :
    (finish setting nested location.owner location.dive validate location.place value).Yields catalog
      setting.registry fun emitted => emitted.Conforms setting catalog location source := by
  have unopened (single : value.kind ≠ .sequence ∧ value.kind ≠ .mapping) :
      (emit nested validate location.place value).Yields catalog setting.registry fun emitted =>
        emitted.Conforms setting catalog location source :=
    yields_emit conforms location held (fun container => (container.elim single.1 single.2).elim) validate
  cases dives : location.dive with
  | none =>
    have whole : finish setting nested location.owner none validate location.place value =
        emit nested validate location.place value := by
      cases value <;> rfl
    rw [whole]
    exact yields_emit conforms location held (fun _ => dives) validate
  | some dive =>
    obtain ⟨isElement, spares⟩ := element dive dives
    cases value with
    | sequence items =>
      obtain ⟨inner, shape, heldItems⟩ := held.items
      have same := isElement.symm.trans (Descriptor.element?_of_dereferenced (.inl shape))
      cases Option.some.inj same
      have heldFrom : ∀ (index : Nat) item, items[index]? = some item →
          Held catalog root dive.element (source.itemAt (0 + index)) item := by
        intro index item stands
        rw [Nat.zero_add]
        exact heldItems index item stands
      refine (yields_walkItems conforms location spares heldFrom validate).bind _
        fun emitted conform => ⟨dive.element, shape, ?_⟩
      rw [dives]
      exact ⟨rfl, conform⟩
    | mapping entries =>
      obtain ⟨inner, shape, heldEntries⟩ := held.entries
      have same := isElement.symm.trans (Descriptor.element?_of_dereferenced (.inr shape))
      cases Option.some.inj same
      refine (yields_walkEntries conforms location spares heldEntries validate).bind _
        fun emitted conform => .inr ⟨dive.element, shape, ?_⟩
      rw [dives]
      exact ⟨rfl, conform⟩
    | _ => exact unopened ⟨nofun, nofun⟩

/-! ## Fields and records -/

theorem element_of_dive? {decl : FieldDecl} {field : FieldMetadata}
    (describes : field.Describes registry field.index decl) (plain : field.Plain) {dive : Dive}
    (dives : field.dive? = some dive) :
    field.descriptor.element? = some dive.element ∧ Spares dive.rules dive.element := by
  obtain ⟨isElement, rules⟩ := FieldMetadata.dive?_eq_some dives
  rw [describes.descriptor, ← describes.element, isElement, rules]
  exact ⟨rfl, plain.elementRules dive.element isElement⟩

theorem yields_walkField (conforms : nested.Conforms setting catalog root) {owner : RecordType} {decl : FieldDecl}
    {field : FieldMetadata} (reached : catalog.Reaches root owner)
    (declared : (catalog.fields owner)[field.index]? = some decl)
    (describes : field.Describes setting.registry field.index decl) (plain : field.Plain) {value : Value}
    (shows : decl.type.Shows catalog value) (record : RecordValue) (place : Place) (around : List Place)
    (validate : Bool) :
    (walkField setting nested record field validate (place.field field.name field.declared field.index) value).Yields
      catalog setting.registry fun emitted => ∀ given, emitted = some given →
        given.Conforms setting catalog (.ofField record place around field) value := by
  have held : Held catalog root field.descriptor value value := by
    rw [describes.descriptor]
    exact held_of_shows (fun recordType core => .field reached (List.mem_of_getElem? declared) core) shows
  unfold walkField
  split
  · next omits =>
    intro given emitted
    cases tombstones : setting.options.tombstones with
    | false => simp [tombstones] at emitted
    | true =>
      have isDelete : given = .delete := by simpa [tombstones] using emitted.symm
      rw [isDelete]
      exact ⟨tombstones, (omits_iff record place around field value).mp omits⟩
  · refine (Plan.Yields.bind (Held catalog root field.descriptor value) ?_ fun left heldLeft => ?_).bind
      (fun emitted => emitted.Conforms setting catalog (.ofField record place around field) value) ?_
    · split
      · exact yields_runChain plain.rules _ rfl held
      · exact held
    · exact yields_finish conforms (.ofField record place around field)
        (fun dive dives => element_of_dive? describes plain dives) heldLeft _
    · rintro emitted conform given ⟨⟩
      exact conform

theorem yields_walkFields {record : RecordValue} {place : Place} {around : List Place} {validate : Bool}
    {metadata : RecordMetadata} (built : RecordMetadata.build catalog setting.registry record.type = .ok metadata)
    {fields : List FieldMetadata} (among : ∀ field ∈ fields, field ∈ metadata.fields)
    (each : ∀ field ∈ fields, (walkField setting nested record field validate
      (place.field field.name field.declared field.index) ((record.at? field.index).getD .null)).Yields catalog
      setting.registry fun emitted => ∀ given, emitted = some given →
        given.Conforms setting catalog (.ofField record place around field) ((record.at? field.index).getD .null))
    {document : Document} (conform : FieldsConform setting catalog document record place around) :
    (walkFields setting nested record validate place document fields).Yields catalog setting.registry
      fun result => FieldsConform setting catalog result record place around := by
  induction fields generalizing document with
  | nil => exact conform
  | cons field rest ih =>
    obtain ⟨member, amongRest⟩ := List.forall_mem_cons.mp among
    obtain ⟨here, eachRest⟩ := List.forall_mem_cons.mp each
    refine here.bind _ fun emitted good => ih amongRest eachRest ?_
    cases emitted with
    | none => exact conform
    | some given =>
      refine fieldsConform_iff.mpr fun name value inside => ?_
      rcases Entries.mem_of_mem_insert inside with same | before
      · cases same
        refine ⟨metadata, field, built, member, ?_, rfl, good given rfl⟩
        rw [← indices_of_build built]
        exact List.mem_map_of_mem member
      · exact fieldsConform_iff.mp conform name value before

variable (setting) in
/-- At every depth, a record of the snapshot is emitted as a document that conforms to it. -/
theorem conforms_walkRecord (plain : ∀ field, catalog.Declares setting.registry root field → field.Plain)
    (room : Nat) : (walkRecord setting room).Conforms setting catalog root := by
  induction room with
  | zero => exact fun record shows reached place around validate => trivial
  | succ room ih =>
    intro record ⟨type, shows⟩ reached place around validate metadata built
    refine yields_walkFields built (fun _ member => member) (fun field member => ?_) trivial
    obtain ⟨decl, declared, describes⟩ := (describes_of_build built).1 field member
    obtain ⟨item, held, showsItem⟩ := shows.fields.2 field.index decl declared describes.visible
    have value : (record.at? field.index).getD .null = item := by simp [RecordValue.at?, held]
    rw [value]
    exact yields_walkField ih reached declared describes (plain field ⟨_, metadata, reached, built, member⟩) showsItem
      record place around validate

end

/-! ## Runs of an engine -/

namespace Engine

/-- Every document that a run gives for typed content conforms to the record, unless a transformation runs where
records are; where all containers of records are entered, no raw record is left in it. -/
theorem document_conforms (engine : Engine) {cache : MetadataCache} (context : Context) (options : Options)
    (record : TypedRecord) {document : Document} (faithful : cache.Faithful engine.catalog engine.registry)
    (fits : record.Fits engine.catalog)
    (plain : ∀ field, engine.catalog.Declares engine.registry record.type field → field.Plain)
    (ended : (engine.validate cache context options record).result = .ok document ∨
      (engine.validateMut cache context options record).result = .ok document) :
    document.Conforms (engine.setting context options) engine.catalog (record.snapshot engine.catalog) ∧
    ((∀ field, engine.catalog.Declares engine.registry record.type field → field.Unfolds) →
      (Value.mapping document).Recordless) := by
  have written : (engine.validateMut cache context options record).result = .ok document := by
    rcases ended with ended | ended
    · cases writes : options.writesBack with
      | true => simp [validate, validateSnapshot, writes] at ended
      | false => rwa [validate_eq_validateMut engine cache context record writes] at ended
    · exact ended
  have shows : (FieldType.record record.type).Shows engine.catalog (record.snapshot engine.catalog).toValue :=
    ⟨record.toData, ⟨rfl, fits⟩, rfl⟩
  obtain ⟨marks, comes, -⟩ := Plan.comes_of_run (engine.plan context options (record.snapshot engine.catalog)) faithful
    (writesBack_of_taken record)
  have ends : (engine.plan context options (record.snapshot engine.catalog)).Comes engine.catalog engine.registry
      options.writesBack marks (.ok document) := written ▸ comes
  have yields : (engine.plan context options (record.snapshot engine.catalog)).Yields engine.catalog engine.registry
      fun document => document.Conforms (engine.setting context options) engine.catalog
        (record.snapshot engine.catalog) :=
    conforms_walkRecord (engine.setting context options) plain (engine.settings.maxDepth + 1)
      (record.snapshot engine.catalog) ⟨_, shows⟩ .root .root [] true
  have conform := ends.yields yields
  exact ⟨conform, fun unfold => fieldsRecordless_of_conform unfold conform .root⟩

/-- Shelves with books and perhaps a spare one; the shelf's name is stamped. -/
def shelving : Engine where
  catalog := ⟨[
    ⟨"Shelf", [⟨"name", "name,stamp", .string⟩, ⟨"books", "books,dive", .sequence (.record ⟨1, "Book"⟩)⟩,
      ⟨"spare", "spare,omitempty", .optional (.record ⟨1, "Book"⟩)⟩]⟩,
    ⟨"Book", [⟨"title", "title", .string⟩, ⟨"pages", "pages,omitempty", .unsigned .w16⟩]⟩]⟩
  registry := Registry.empty.putTransformation "stamp"
    ⟨fun _ _ scope => .ok (.string (scope.value.text?.getD "" ++ "!")), false⟩ false
  settings := ⟨3⟩

/-- One with a single book without pages. -/
def shelf : TypedRecord :=
  ⟨⟨0, "Shelf"⟩, [.string "low", .sequence [.record ⟨1, "Book"⟩ [.string "Poems", .uint 0]], .none]⟩

theorem shelving_declares {field : FieldMetadata}
    (declared : shelving.catalog.Declares shelving.registry shelf.type field) : field.Plain ∧ field.Unfolds := by
  obtain ⟨owner, metadata, reached, built, member⟩ := declared
  have closed : ∀ owner ∈ [shelf.type, ⟨1, "Book"⟩], ∀ decl ∈ shelving.catalog.fields owner, ∀ type,
      decl.type.core = .record type → type ∈ [shelf.type, ⟨1, "Book"⟩] := by
    simp [shelving, shelf, Catalog.fields, FieldType.core]
  have known := Catalog.mem_of_reaches List.mem_cons_self closed reached
  have all : ∀ owner ∈ [shelf.type, ⟨1, "Book"⟩],
      ∀ metadata ∈ (RecordMetadata.build shelving.catalog shelving.registry owner).toOption,
      ∀ field ∈ metadata.fields, field.Plain ∧ field.Unfolds := by decide +kernel
  exact all owner known metadata (by rw [built]; rfl) field member

/-- The document of the shelf conforms, tombstones included. -/
theorem shelving_conforms : ∃ document,
    (shelving.validate .empty {} { tombstones := true } shelf).result = .ok document ∧
    document.Conforms (shelving.setting {} { tombstones := true }) shelving.catalog
      (shelf.snapshot shelving.catalog) ∧ (Value.mapping document).Recordless := by
  have passes : (shelving.validate .empty {} { tombstones := true } shelf).result.isOk = true := by decide +kernel
  cases ended : (shelving.validate .empty {} { tombstones := true } shelf).result with
  | error fault => rw [ended] at passes; cases passes
  | ok document =>
    have fits : shelf.Fits shelving.catalog := by
      simp [shelf, TypedRecord.Fits, shelving, Catalog.fields, FieldsFit, FieldDecl.isHidden, FieldDecl.descriptor,
        FieldType.descriptor, Descriptor.unsupportedKind?, Data.Fits, FieldType.unboxed, ItemsFit, Width.bits]
    obtain ⟨conforms, recordless⟩ := document_conforms shelving {} { tombstones := true } shelf
      (MetadataCache.faithful_empty _ _) fits (fun _ declared => (shelving_declares declared).1) (.inl ended)
    exact ⟨document, rfl, conforms, recordless fun _ declared => (shelving_declares declared).2⟩

end Engine

end TaggedRecords
