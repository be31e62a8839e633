import TaggedRecords.Proofs.Coherence
import TaggedRecords.Proofs.Visits

/-!
# Conforming documents

When a document conforms to the record that it was emitted for: every entry belongs to a field of the record type and
has the form that the field's descriptor calls for. Where all containers of records are entered, such a document holds
no raw record.
-/

namespace TaggedRecords

/-! ## Documents that conform -/

/-- What stands at a position of a sequence. -/
def Value.itemAt : Value → Nat → Value
  | .sequence items, index => items[index]?.getD .null
  | _, _ => .null

/-- What stands under a key of a mapping. -/
def Value.entryAt : Value → String → Value
  | .mapping entries, key => (Entries.get? entries key).getD .null
  | _, _ => .null

mutual

/-- The value may be what is emitted at the location, given what the record held there. A null is for an optional
descriptor, a scalar of the descriptor's kind, a mapping stands for a record of its type, a container has elements that
conform, or that are legal if they are not visited, and a tombstone stands where a field is left out. -/
def Value.Conforms (setting : Setting) (catalog : Catalog) : Value → Location → Value → Prop
  | .null, location, _ => location.descriptor.isOptional = true
  | .bool _, location, _ => location.descriptor.dereferenced = .bool
  | .int _, location, _ => location.descriptor.dereferenced = .int
  | .uint _, location, _ => location.descriptor.dereferenced = .uint
  | .float _, location, _ => location.descriptor.dereferenced = .float
  | .string _, location, _ => location.descriptor.dereferenced = .string
  | .bytes _, location, _ => location.descriptor.dereferenced = .bytes
  | .time _, location, _ => location.descriptor.dereferenced = .time
  | .sequence items, location, source => ∃ element, location.descriptor.dereferenced = .sequence element ∧
      match location.dive with
      | some dive => dive.element = element ∧ ItemsConform setting catalog items location dive 0 source
      | none => ∀ item ∈ items, element.admits item = true
  | .mapping entries, location, source =>
      (∃ type fields, location.descriptor.dereferenced = .record type ∧ source = .record type fields ∧
        FieldsConform setting catalog entries ⟨type, fields⟩ location.place (location.place :: location.around)) ∨
      ∃ element, location.descriptor.dereferenced = .mapping element ∧
        match location.dive with
        | some dive => dive.element = element ∧ EntriesConform setting catalog entries location dive source
        | none => ∀ entry ∈ entries, element.admits entry.2 = true
  | .record _ _, _, _ => False
  | .delete, location, source => setting.options.tombstones = true ∧ location.Omitted setting.options source

/-- The items from a position on conform as elements of the location. -/
def ItemsConform (setting : Setting) (catalog : Catalog) : List Value → Location → Dive → Nat → Value → Prop
  | [], _, _, _, _ => True
  | item :: rest, location, dive, index, source =>
    item.Conforms setting catalog (location.element dive (location.place.item index) (Place.positionName index))
      (source.itemAt index) ∧ ItemsConform setting catalog rest location dive (index + 1) source

/-- The entries conform as elements of the location. -/
def EntriesConform (setting : Setting) (catalog : Catalog) : List (String × Value) → Location → Dive → Value → Prop
  | [], _, _, _ => True
  | (key, item) :: rest, location, dive, source =>
    item.Conforms setting catalog (location.element dive (location.place.entry key) key) (source.entryAt key) ∧
      EntriesConform setting catalog rest location dive source

/-- Each entry belongs to a field of the record that its tag does not skip, and conforms there. -/
def FieldsConform (setting : Setting) (catalog : Catalog) :
    List (String × Value) → RecordValue → Place → List Place → Prop
  | [], _, _, _ => True
  | (name, value) :: rest, record, place, around =>
    (∃ metadata field, RecordMetadata.build catalog setting.registry record.type = .ok metadata ∧
      field ∈ metadata.fields ∧ field.index ∈ catalog.shown record.type ∧ field.name = name ∧
      value.Conforms setting catalog (.ofField record place around field) ((record.at? field.index).getD .null)) ∧
      FieldsConform setting catalog rest record place around

end

/-- The document conforms to the record, whose root it was emitted for. -/
def Document.Conforms (setting : Setting) (catalog : Catalog) (document : Document) (record : RecordValue) : Prop :=
  FieldsConform setting catalog document record .root []

section
variable {setting : Setting} {catalog : Catalog}

theorem fieldsConform_iff {entries : List (String × Value)} {record : RecordValue} {place : Place}
    {around : List Place} :
    FieldsConform setting catalog entries record place around ↔ ∀ name value, (name, value) ∈ entries →
      ∃ metadata field, RecordMetadata.build catalog setting.registry record.type = .ok metadata ∧
        field ∈ metadata.fields ∧ field.index ∈ catalog.shown record.type ∧ field.name = name ∧
        value.Conforms setting catalog (.ofField record place around field)
          ((record.at? field.index).getD .null) := by
  induction entries with
  | nil => simp [FieldsConform]
  | cons entry rest ih =>
    obtain ⟨name, value⟩ := entry
    rw [FieldsConform, ih]
    constructor
    · rintro ⟨here, below⟩ other item member
      rcases List.mem_cons.mp member with same | later
      · cases same
        exact here
      · exact below other item later
    · exact fun all => ⟨all name value List.mem_cons_self, fun other item member =>
        all other item (List.mem_cons_of_mem _ member)⟩

end

/-! ## Legal values -/

namespace Descriptor

theorem dereferenced_ne_optional (d inner : Descriptor) : d.dereferenced ≠ .optional inner := by
  induction d with
  | optional under ih => exact ih
  | _ => exact nofun

theorem holdsRecord_dereferenced (d : Descriptor) : d.dereferenced.holdsRecord = d.holdsRecord := by
  induction d with
  | optional under ih => exact ih
  | _ => rfl

/-- What is legal under optional layers is null or legal below them. -/
theorem dereferenced_admits {d : Descriptor} {value : Value} (admitted : d.admits value = true)
    (present : value ≠ .null) : d.dereferenced.admits value = true := by
  induction d with
  | optional under ih =>
    rw [admits_optional under present] at admitted
    exact ih admitted
  | _ => exact admitted

theorem isOptional_of_admits_null {d : Descriptor} (admitted : d.admits .null = true) : d.isOptional = true := by
  cases d with
  | optional under => rfl
  | _ => cases admitted

theorem dereferenced_of_admits_sequence {d : Descriptor} {items : List Value}
    (admitted : d.admits (.sequence items) = true) :
    ∃ element, d.dereferenced = .sequence element ∧ ∀ item ∈ items, element.admits item = true := by
  replace admitted := dereferenced_admits admitted nofun
  cases shape : d.dereferenced with
  | sequence element =>
    rw [shape] at admitted
    exact ⟨element, rfl, List.all_eq_true.mp admitted⟩
  | optional inner => exact absurd shape (dereferenced_ne_optional d inner)
  | _ =>
    rw [shape] at admitted
    cases admitted

theorem dereferenced_of_admits_mapping {d : Descriptor} {entries : List (String × Value)}
    (admitted : d.admits (.mapping entries) = true) :
    ∃ element, d.dereferenced = .mapping element ∧ ∀ entry ∈ entries, element.admits entry.2 = true := by
  replace admitted := dereferenced_admits admitted nofun
  cases shape : d.dereferenced with
  | mapping element =>
    rw [shape] at admitted
    exact ⟨element, rfl, List.all_eq_true.mp admitted⟩
  | optional inner => exact absurd shape (dereferenced_ne_optional d inner)
  | _ =>
    rw [shape] at admitted
    cases admitted

theorem dereferenced_of_admits_record {d : Descriptor} {type : RecordType} {fields : List (String × Value)}
    (admitted : d.admits (.record type fields) = true) : d.dereferenced = .record type := by
  replace admitted := dereferenced_admits admitted nofun
  cases shape : d.dereferenced with
  | record expected =>
    rw [shape] at admitted
    rw [of_decide_eq_true admitted]
  | optional inner => exact absurd shape (dereferenced_ne_optional d inner)
  | _ =>
    rw [shape] at admitted
    cases admitted

end Descriptor

/-- A legal value conforms as it is, unless it is a record or a container whose elements are visited. -/
theorem Value.conforms_of_admits {setting : Setting} {catalog : Catalog} {location : Location} {value : Value}
    (source : Value) (admitted : location.descriptor.admits value = true)
    (bare : ∀ type fields, value ≠ .record type fields)
    (whole : value.kind = .sequence ∨ value.kind = .mapping → location.dive = none) :
    value.Conforms setting catalog location source := by
  cases value with
  | null => exact Descriptor.isOptional_of_admits_null admitted
  | sequence items =>
    obtain ⟨element, shape, legal⟩ := Descriptor.dereferenced_of_admits_sequence admitted
    refine ⟨element, shape, ?_⟩
    rw [whole (.inl rfl)]
    exact legal
  | mapping entries =>
    obtain ⟨element, shape, legal⟩ := Descriptor.dereferenced_of_admits_mapping admitted
    refine .inr ⟨element, shape, ?_⟩
    rw [whole (.inr rfl)]
    exact legal
  | record type fields => exact absurd rfl (bare type fields)
  | _ =>
    replace admitted := Descriptor.dereferenced_admits admitted nofun
    cases shape : location.descriptor.dereferenced with
    | optional inner => exact absurd shape (Descriptor.dereferenced_ne_optional _ inner)
    | _ =>
      rw [shape] at admitted
      first | exact shape | cases admitted

/-! ## Documents without raw records -/

mutual

/-- No record stands anywhere in the value. -/
def Value.Recordless : Value → Prop
  | .sequence items => ItemsRecordless items
  | .mapping entries => EntriesRecordless entries
  | .record _ _ => False
  | _ => True

/-- No record stands in any of the items. -/
def ItemsRecordless : List Value → Prop
  | [] => True
  | item :: rest => item.Recordless ∧ ItemsRecordless rest

/-- No record stands in any of the entries. -/
def EntriesRecordless : List (String × Value) → Prop
  | [] => True
  | (_, item) :: rest => item.Recordless ∧ EntriesRecordless rest

end

mutual

/-- Whether no record stands in a value can be seen from it. -/
instance Value.decidableRecordless : (value : Value) → Decidable value.Recordless
  | .sequence items => decidableItemsRecordless items
  | .mapping entries => decidableEntriesRecordless entries
  | .record _ _ => .isFalse id
  | .null | .bool _ | .int _ | .uint _ | .float _ | .string _ | .bytes _ | .time _ | .delete => .isTrue trivial

instance decidableItemsRecordless : (items : List Value) → Decidable (ItemsRecordless items)
  | [] => .isTrue trivial
  | item :: rest => @instDecidableAnd _ _ item.decidableRecordless (decidableItemsRecordless rest)

instance decidableEntriesRecordless : (entries : List (String × Value)) → Decidable (EntriesRecordless entries)
  | [] => .isTrue trivial
  | (_, item) :: rest => @instDecidableAnd _ _ item.decidableRecordless (decidableEntriesRecordless rest)

end

theorem itemsRecordless_iff {items : List Value} : ItemsRecordless items ↔ ∀ item ∈ items, item.Recordless := by
  induction items with
  | nil => simp [ItemsRecordless]
  | cons item rest ih => simp [ItemsRecordless, ih]

theorem entriesRecordless_iff {entries : List (String × Value)} :
    EntriesRecordless entries ↔ ∀ entry ∈ entries, entry.2.Recordless := by
  induction entries with
  | nil => simp [EntriesRecordless]
  | cons entry rest ih =>
    obtain ⟨key, item⟩ := entry
    simp [EntriesRecordless, ih]

/-- A value that is legal for a shape without records holds none. -/
theorem Value.recordless_of_admits {d : Descriptor} (plain : d.holdsRecord = false) {value : Value}
    (admitted : d.admits value = true) : value.Recordless := by
  induction d generalizing value with
  | optional under ih =>
    by_cases absent : value = .null
    · rw [absent]
      trivial
    · rw [Descriptor.admits_optional under absent] at admitted
      exact ih plain admitted
  | sequence element ih =>
    cases value with
    | sequence items =>
      exact itemsRecordless_iff.mpr fun item member => ih plain (List.all_eq_true.mp admitted item member)
    | _ => cases admitted
  | mapping element ih =>
    cases value with
    | mapping entries =>
      exact entriesRecordless_iff.mpr fun entry member => ih plain (List.all_eq_true.mp admitted entry member)
    | _ => cases admitted
  | record type => cases plain
  | _ => cases value <;> trivial

theorem Descriptor.element?_of_dereferenced {d element : Descriptor}
    (shape : d.dereferenced = .sequence element ∨ d.dereferenced = .mapping element) : d.element? = some element := by
  unfold element?
  rcases shape with shape | shape <;> rw [shape]

theorem Descriptor.holdsRecord_of_element? {d element : Descriptor} (found : d.element? = some element) :
    element.holdsRecord = d.holdsRecord := by
  rw [← holdsRecord_dereferenced d]
  unfold element? at found
  split at found
  · next shape =>
    cases found
    rw [shape]
    rfl
  · next shape =>
    cases found
    rw [shape]
    rfl
  · cases found

theorem FieldType.core_of_dereferenced {type : FieldType} {recordType : RecordType}
    (shape : type.descriptor.dereferenced = .record recordType) : type.core = .record recordType := by
  induction type with
  | optional inner ih => exact ih shape
  | boxed inner ih => exact ih shape
  | record type =>
    cases shape
    rfl
  | _ => cases shape

/-- The metadata is that of a field of some record type that the root leads to. -/
def Catalog.Declares (catalog : Catalog) (registry : Registry) (root : RecordType) (field : FieldMetadata) : Prop :=
  ∃ owner metadata, catalog.Reaches root owner ∧ RecordMetadata.build catalog registry owner = .ok metadata ∧
    field ∈ metadata.fields

/-- Types that only lead to one another are all that the first leads to. -/
theorem Catalog.mem_of_reaches {catalog : Catalog} {root owner : RecordType} {types : List RecordType}
    (start : root ∈ types) (closed : ∀ owner ∈ types, ∀ decl ∈ catalog.fields owner, ∀ type,
      decl.type.core = .record type → type ∈ types) (reached : catalog.Reaches root owner) : owner ∈ types := by
  induction reached with
  | root => exact start
  | field _ declared holds above => exact closed _ above _ declared _ holds

instance (d : Descriptor) : Decidable (∃ type, d = .record type) :=
  match d with
  | .record type => isTrue ⟨type, rfl⟩
  | .bool | .int | .uint | .float | .string | .bytes | .time | .optional _ | .sequence _ | .mapping _
  | .unsupported _ => isFalse nofun

/-- If the field is a container with records in it, its elements are entered and are those records. -/
structure FieldMetadata.Unfolds (field : FieldMetadata) : Prop where
  dived : ∀ element, field.element = some element → element.holdsRecord = true → field.dive = true
  direct : ∀ element, field.element = some element → element.holdsRecord = true →
    ∃ type, element.dereferenced = .record type

instance (field : FieldMetadata) : Decidable field.Unfolds :=
  decidable_of_iff ((∀ element ∈ field.element, element.holdsRecord = true → field.dive = true) ∧
    ∀ element ∈ field.element, element.holdsRecord = true → ∃ type, element.dereferenced = .record type)
    ⟨fun ⟨dived, direct⟩ => ⟨dived, direct⟩, fun ⟨dived, direct⟩ => ⟨dived, direct⟩⟩

/-- The location holds content of a type below the root, and unfolds as fields do. -/
structure Location.Unfolds (catalog : Catalog) (root : RecordType) (location : Location) : Prop where
  typed : ∃ type : FieldType, type.descriptor = location.descriptor ∧
    ∀ recordType, type.core = .record recordType → catalog.Reaches root recordType
  direct : ∀ element, location.descriptor.element? = some element → element.holdsRecord = true →
    location.dive.isSome = true ∧ ∃ type, element.dereferenced = .record type

section
variable {setting : Setting} {catalog : Catalog} {root : RecordType}

theorem Location.unfolds_ofField {owner : RecordType} {metadata : RecordMetadata} {field : FieldMetadata}
    (reached : catalog.Reaches root owner) (built : RecordMetadata.build catalog setting.registry owner = .ok metadata)
    (member : field ∈ metadata.fields) (unfolds : field.Unfolds) (record : RecordValue) (place : Place)
    (around : List Place) : (Location.ofField record place around field).Unfolds catalog root := by
  obtain ⟨decl, declared, describes⟩ := (describes_of_build built).1 field member
  refine ⟨⟨decl.type, describes.descriptor.symm, fun recordType core => ?_⟩, fun element found holds => ?_⟩
  · exact .field reached (List.mem_of_getElem? declared) core
  · have isElement : field.element = some element := by
      rw [describes.element, ← describes.descriptor]
      exact found
    refine ⟨?_, unfolds.direct element isElement holds⟩
    simp [ofField, FieldMetadata.dive?, unfolds.dived element isElement holds, isElement]

theorem Location.unfolds_element {location : Location} {dive : Dive} (unfolds : location.Unfolds catalog root)
    (found : location.descriptor.element? = some dive.element) (place : Place) (name : String) :
    (location.element dive place name).Unfolds catalog root := by
  obtain ⟨type, shape, reaches⟩ := unfolds.typed
  rw [← shape, type.descriptor_element?] at found
  obtain ⟨element, isElement, descriptor⟩ := Option.map_eq_some_iff.mp found
  refine ⟨⟨element, descriptor, fun recordType core => ?_⟩, fun inner within holds => ?_⟩
  · exact reaches recordType (by rw [← FieldType.core_of_element? isElement, core])
  · -- An element that holds records is one itself, so it has no elements of its own.
    have within : dive.element.element? = some inner := within
    have holdsElement : dive.element.holdsRecord = true := by
      rw [← Descriptor.holdsRecord_of_element? within, holds]
    rw [← type.descriptor_element?, shape] at found
    obtain ⟨-, record, direct⟩ := unfolds.direct _ found holdsElement
    simp [Descriptor.element?, direct] at within

theorem Location.reaches_of_unfolds {location : Location} {type : RecordType} (unfolds : location.Unfolds catalog root)
    (shape : location.descriptor.dereferenced = .record type) : catalog.Reaches root type := by
  obtain ⟨fieldType, descriptor, reaches⟩ := unfolds.typed
  rw [← descriptor] at shape
  exact reaches type (FieldType.core_of_dereferenced shape)

theorem Location.Unfolds.plain_of_undived {location : Location} {element : Descriptor}
    (unfolds : location.Unfolds catalog root) (found : location.descriptor.element? = some element)
    (undived : location.dive = none) : element.holdsRecord = false := by
  cases holds : element.holdsRecord with
  | false => rfl
  | true =>
    have entered := (unfolds.direct element found holds).1
    rw [undived] at entered
    cases entered

mutual

/-- What conforms holds no raw record if all containers of records are entered. -/
theorem Value.recordless_of_conforms
    (unfold : ∀ field, catalog.Declares setting.registry root field → field.Unfolds) :
    ∀ {value : Value} {location : Location} {source : Value}, value.Conforms setting catalog location source →
      location.Unfolds catalog root → value.Recordless
  | .null, _, _, _, _ | .bool _, _, _, _, _ | .int _, _, _, _, _ | .uint _, _, _, _, _ | .float _, _, _, _, _
  | .string _, _, _, _, _ | .bytes _, _, _, _, _ | .time _, _, _, _, _ | .delete, _, _, _, _ => trivial
  | .sequence items, location, source, ⟨element, shape, inside⟩, unfolds => by
    have found := Descriptor.element?_of_dereferenced (.inl shape)
    cases dives : location.dive with
    | some dive =>
      rw [dives] at inside
      obtain ⟨rfl, conform⟩ := inside
      exact itemsRecordless_of_conform unfold conform unfolds found
    | none =>
      rw [dives] at inside
      have plain := unfolds.plain_of_undived found dives
      exact itemsRecordless_iff.mpr fun item member => Value.recordless_of_admits plain (inside item member)
  | .mapping entries, location, source, .inl ⟨type, fields, shape, _, conform⟩, unfolds =>
    fieldsRecordless_of_conform unfold conform (location.reaches_of_unfolds unfolds shape)
  | .mapping entries, location, source, .inr ⟨element, shape, inside⟩, unfolds => by
    have found := Descriptor.element?_of_dereferenced (.inr shape)
    cases dives : location.dive with
    | some dive =>
      rw [dives] at inside
      obtain ⟨rfl, conform⟩ := inside
      exact entriesRecordless_of_conform unfold conform unfolds found
    | none =>
      rw [dives] at inside
      have plain := unfolds.plain_of_undived found dives
      exact entriesRecordless_iff.mpr fun entry member => Value.recordless_of_admits plain (inside entry member)
  | .record _ _, _, _, conforms, _ => conforms.elim

theorem itemsRecordless_of_conform
    (unfold : ∀ field, catalog.Declares setting.registry root field → field.Unfolds) :
    ∀ {items : List Value} {location : Location} {dive : Dive} {index : Nat} {source : Value},
      ItemsConform setting catalog items location dive index source → location.Unfolds catalog root →
      location.descriptor.element? = some dive.element → ItemsRecordless items
  | [], _, _, _, _, _, _, _ => trivial
  | _ :: _, _, _, _, _, ⟨here, below⟩, unfolds, found =>
    ⟨Value.recordless_of_conforms unfold here (Location.unfolds_element unfolds found _ _),
      itemsRecordless_of_conform unfold below unfolds found⟩

theorem entriesRecordless_of_conform
    (unfold : ∀ field, catalog.Declares setting.registry root field → field.Unfolds) :
    ∀ {entries : List (String × Value)} {location : Location} {dive : Dive} {source : Value},
      EntriesConform setting catalog entries location dive source → location.Unfolds catalog root →
      location.descriptor.element? = some dive.element → EntriesRecordless entries
  | [], _, _, _, _, _, _ => trivial
  | (_, _) :: _, _, _, _, ⟨here, below⟩, unfolds, found =>
    ⟨Value.recordless_of_conforms unfold here (Location.unfolds_element unfolds found _ _),
      entriesRecordless_of_conform unfold below unfolds found⟩

theorem fieldsRecordless_of_conform
    (unfold : ∀ field, catalog.Declares setting.registry root field → field.Unfolds) :
    ∀ {entries : List (String × Value)} {record : RecordValue} {place : Place} {around : List Place},
      FieldsConform setting catalog entries record place around → catalog.Reaches root record.type →
      EntriesRecordless entries
  | [], _, _, _, _, _ => trivial
  | (_, _) :: _, _, _, _, ⟨⟨metadata, field, built, member, _, _, here⟩, below⟩, reached =>
    ⟨Value.recordless_of_conforms unfold here (Location.unfolds_ofField reached built member
        (unfold field ⟨_, metadata, reached, built, member⟩) _ _ _),
      fieldsRecordless_of_conform unfold below reached⟩

end

end

end TaggedRecords
