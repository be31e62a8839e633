import TaggedRecords.Proofs.TypedContent

/-!
# Parts of a content

The part that a segment leads to below optional layers, as a lens: a write behind a segment is the same write on
that part, and it leaves every other part and the frame of the content as they were.
-/

namespace TaggedRecords

/-- The part that a segment leads to, with its type. -/
def Data.part? (catalog : Catalog) (type : FieldType) : Data → Segment → Option (FieldType × Data)
  | .some inner, segment => inner.part? catalog type.unboxed.optionInner segment
  | .sequence items, .index place => items[place]?.map fun item => (type.unboxed.containerElement, item)
  | .mapping entries, .key name => (Entries.get? entries name).map fun item => (type.unboxed.containerElement, item)
  | .record recordType fields, .field place =>
    match (catalog.fields recordType)[place]?, fields[place]? with
    | .some decl, .some field => if decl.isHidden then .none else .some (decl.type, field)
    | _, _ => .none
  | _, _ => .none

/-- Induction on the optional layers around a content. -/
theorem Data.layered {motive : Data → Prop} (layer : ∀ inner, motive inner → motive (.some inner))
    (bare : ∀ data, (∀ inner, data ≠ .some inner) → motive data) : ∀ data, motive data
  | .some inner => layer inner (Data.layered layer bare inner)
  | .bool _ | .int _ | .uint _ | .float _ | .string _ | .bytes _ | .time _ | .none | .sequence _ | .mapping _
  | .record _ _ | .hidden => bare _ nofun

/-- What a content keeps when its parts change. -/
inductive Outline where
  | items (count : Nat)
  | entries (keys : List String)
  | fields (type : RecordType) (count : Nat)
  | plain

/-- The outline below optional layers. -/
def Data.outline : Data → Outline
  | .some inner => inner.outline
  | .sequence items => .items items.length
  | .mapping entries => .entries (Entries.keys entries)
  | .record type fields => .fields type fields.length
  | _ => .plain

/-- The part of a snapshot that a segment leads to. -/
def Value.part? : Value → Segment → Option Value
  | .sequence items, .index place => items[place]?
  | .mapping entries, .key name => Entries.get? entries name
  | .record _ fields, .field place => fields[place]?.map Prod.snd
  | _, _ => none

/-- The outline of a snapshot. -/
def Value.outline : Value → Outline
  | .sequence items => .items items.length
  | .mapping entries => .entries (Entries.keys entries)
  | .record type fields => .fields type fields.length
  | _ => .plain

/-! ## Writes behind a segment -/

section
variable {catalog : Catalog}

theorem writeItem_eq (element : FieldType) (items : List Data) (place : Nat) (path : List Segment) (value : Value) :
    writeItem catalog element items place path value =
      items[place]?.map fun item => (item.writeAt catalog element path value).map (items.set place) := by
  induction items generalizing place with
  | nil => rfl
  | cons item rest ih =>
    cases place with
    | zero => rfl
    | succ place =>
      rw [writeItem, ih, List.getElem?_cons_succ, Option.map_map]
      rfl

theorem writeEntry_eq (element : FieldType) (entries : List (String × Data)) (name : String) (path : List Segment)
    (value : Value) :
    writeEntry catalog element entries name path value =
      (Entries.get? entries name).map fun item =>
        (item.writeAt catalog element path value).map (Entries.insert entries name) := by
  induction entries with
  | nil => rfl
  | cons entry rest ih =>
    obtain ⟨key, item⟩ := entry
    rw [writeEntry, Entries.get?_cons]
    by_cases here : key = name
    · simp [here, Entries.insert]
    · simp only [here, if_false, ih, Option.map_map, Entries.insert]
      rfl

theorem writeField_eq (segment : String) (decls : List FieldDecl) (fields : List Data) (place : Nat)
    (path : List Segment) (value : Value) {decl : FieldDecl} {field : Data} (declared : decls[place]? = some decl)
    (held : fields[place]? = some field) (visible : decl.isHidden = false) :
    writeField catalog segment decls fields place path value =
      some ((field.writeAt catalog decl.type path value).map (fields.set place)) := by
  induction decls generalizing fields place with
  | nil => cases declared
  | cons first decls ih =>
    cases fields with
    | nil => cases held
    | cons head rest =>
      cases place with
      | zero =>
        cases declared
        cases held
        simp only [writeField, visible, Bool.false_eq_true, if_false]
        rfl
      | succ place =>
        rw [writeField, ih rest place declared held]
        rfl

/-- A part of a record is the content of a declared field that is not hidden. -/
theorem part?_field {recordType : RecordType} {fields : List Data} {type element : FieldType} {place : Nat}
    {part : Data} (found : (Data.record recordType fields).part? catalog type (.field place) = some (element, part)) :
    ∃ decl, (catalog.fields recordType)[place]? = some decl ∧ fields[place]? = some part ∧ decl.isHidden = false ∧
      decl.type = element := by
  unfold Data.part? at found
  split at found
  · next decl field declared held =>
    cases hidden : decl.isHidden with
    | true => simp [hidden] at found
    | false =>
      simp only [hidden, Bool.false_eq_true, if_false, Option.some.injEq, Prod.mk.injEq] at found
      obtain ⟨rfl, rfl⟩ := found
      exact ⟨decl, declared, held, hidden, rfl⟩
  · cases found

/-- A write behind the segment is a write on the part there, whose content is put back into its place. -/
structure PutsBack (catalog : Catalog) (type : FieldType) (data : Data) (segment : Segment) (element : FieldType)
    (part : Data) (put : Data → Data) : Prop where
  write : ∀ path value, data.writeAt catalog type (segment :: path) value =
    (part.writeAt catalog element path value).map put
  same : put part = data
  here : ∀ new, (put new).part? catalog type segment = some (element, new)
  elsewhere : ∀ new other, other ≠ segment → (put new).part? catalog type other = data.part? catalog type other
  outline : ∀ new, (put new).outline = data.outline
  hereShown : ∀ new, ((put new).snapshot catalog).part? segment = some (new.snapshot catalog)
  elsewhereShown : ∀ new other, other ≠ segment →
    ((put new).snapshot catalog).part? other = (data.snapshot catalog).part? other
  outlineShown : ∀ new, ((put new).snapshot catalog).outline = (data.snapshot catalog).outline

theorem putsBack_item {type : FieldType} {items : List Data} {place : Nat} {item : Data}
    (held : items[place]? = some item) :
    PutsBack catalog type (.sequence items) (.index place) type.unboxed.containerElement item
      fun new => .sequence (items.set place new) where
  write := fun path value => by
    simp only [Data.writeAt, writeItem_eq, held, Option.map_some]
    rfl
  same := by
    obtain ⟨_, stands⟩ := List.getElem?_eq_some_iff.mp held
    rw [← stands, List.set_getElem_self]
  here := fun new => by simp [Data.part?, (List.getElem?_eq_some_iff.mp held).1]
  elsewhere := fun new other differs => by
    cases other with
    | index next =>
      have elsewhere : place ≠ next := fun same => differs (by rw [same])
      simp [Data.part?, List.getElem?_set_ne elsewhere]
    | _ => rfl
  outline := fun new => by simp [Data.outline]
  hereShown := fun new => by
    simp [Data.snapshot, Value.part?, snapshotItems_eq, (List.getElem?_eq_some_iff.mp held).1]
  elsewhereShown := fun new other differs => by
    cases other with
    | index next =>
      have elsewhere : place ≠ next := fun same => differs (by rw [same])
      simp [Data.snapshot, Value.part?, snapshotItems_eq, List.getElem?_set_ne elsewhere]
    | _ => rfl
  outlineShown := fun new => by simp [Data.snapshot, Value.outline, snapshotItems_eq]

theorem putsBack_entry {type : FieldType} {entries : List (String × Data)} {name : String} {item : Data}
    (held : Entries.get? entries name = some item) :
    PutsBack catalog type (.mapping entries) (.key name) type.unboxed.containerElement item
      fun new => .mapping (Entries.insert entries name new) where
  write := fun path value => by
    simp only [Data.writeAt, writeEntry_eq, held, Option.map_some]
    rfl
  same := by rw [Entries.insert_of_get? held]
  here := fun new => by simp [Data.part?, Entries.get?_insert]
  elsewhere := fun new other differs => by
    cases other with
    | key next =>
      have elsewhere : name ≠ next := fun same => differs (by rw [same])
      simp [Data.part?, Entries.get?_insert, elsewhere]
    | _ => rfl
  outline := fun new => by simp [Data.outline, Entries.keys_insert, Entries.mem_keys_of_get? held]
  hereShown := fun new => by simp [Data.snapshot, Value.part?, get?_snapshotEntries, Entries.get?_insert]
  elsewhereShown := fun new other differs => by
    cases other with
    | key next =>
      have elsewhere : name ≠ next := fun same => differs (by rw [same])
      simp [Data.snapshot, Value.part?, get?_snapshotEntries, Entries.get?_insert, elsewhere]
    | _ => rfl
  outlineShown := fun new => by
    simp [Data.snapshot, Value.outline, keys_snapshotEntries, Entries.keys_insert, Entries.mem_keys_of_get? held]

theorem putsBack_field {type : FieldType} {recordType : RecordType} {fields : List Data} {place : Nat}
    {decl : FieldDecl} {field : Data} (declared : (catalog.fields recordType)[place]? = some decl)
    (held : fields[place]? = some field) (visible : decl.isHidden = false) :
    PutsBack catalog type (.record recordType fields) (.field place) decl.type field
      fun new => .record recordType (fields.set place new) where
  write := fun path value => by
    simp only [Data.writeAt, writeField_eq _ _ _ _ _ _ declared held visible]
    rfl
  same := by
    obtain ⟨_, stands⟩ := List.getElem?_eq_some_iff.mp held
    rw [← stands, List.set_getElem_self]
  here := fun new => by simp [Data.part?, declared, (List.getElem?_eq_some_iff.mp held).1, visible]
  elsewhere := fun new other differs => by
    cases other with
    | field next =>
      have elsewhere : place ≠ next := fun same => differs (by rw [same])
      simp only [Data.part?, List.getElem?_set_ne elsewhere]
    | _ => rfl
  outline := fun new => by simp [Data.outline]
  hereShown := fun new => by
    simp [Data.snapshot, Value.part?, snapshotFields_eq, List.getElem?_zipWith, declared,
      (List.getElem?_eq_some_iff.mp held).1]
  elsewhereShown := fun new other differs => by
    cases other with
    | field next =>
      have elsewhere : place ≠ next := fun same => differs (by rw [same])
      simp [Data.snapshot, Value.part?, snapshotFields_eq, List.getElem?_zipWith, List.getElem?_set_ne elsewhere]
    | _ => rfl
  outlineShown := fun new => by simp [Data.snapshot, Value.outline, snapshotFields_eq]

/-- Optional layers around a content take no segment. -/
theorem PutsBack.layer {type element : FieldType} {inner part : Data} {segment : Segment} {put : Data → Data}
    (puts : PutsBack catalog type.unboxed.optionInner inner segment element part put) :
    PutsBack catalog type (.some inner) segment element part fun new => .some (put new) where
  write := fun path value => by
    simp only [Data.writeAt, List.isEmpty_cons, Bool.false_and, Bool.false_eq_true, if_false, puts.write]
    rfl
  same := by rw [puts.same]
  here := puts.here
  elsewhere := puts.elsewhere
  outline := puts.outline
  hereShown := puts.hereShown
  elsewhereShown := puts.elsewhereShown
  outlineShown := puts.outlineShown

theorem snapshotItems_set {items : List Data} {place : Nat} {item new : Data} (held : items[place]? = some item)
    (same : new.snapshot catalog = item.snapshot catalog) :
    snapshotItems catalog (items.set place new) = snapshotItems catalog items := by
  induction items generalizing place with
  | nil => cases held
  | cons first rest ih =>
    cases place with
    | zero =>
      cases held
      rw [List.set_cons_zero, snapshotItems, snapshotItems, same]
    | succ place => rw [List.set_cons_succ, snapshotItems, snapshotItems, ih held]

theorem snapshotEntries_insert (entries : List (String × Data)) (name : String) (item : Data) :
    snapshotEntries catalog (Entries.insert entries name item) =
      Entries.insert (snapshotEntries catalog entries) name (item.snapshot catalog) := by
  induction entries with
  | nil => rfl
  | cons entry rest ih =>
    obtain ⟨key, held⟩ := entry
    rw [snapshotEntries, Entries.insert, Entries.insert]
    split
    · rfl
    · rw [snapshotEntries, ih]

theorem snapshotFields_set {decls : List FieldDecl} {fields : List Data} {place : Nat} {field new : Data}
    (held : fields[place]? = some field) (same : new.snapshot catalog = field.snapshot catalog) :
    snapshotFields catalog decls (fields.set place new) = snapshotFields catalog decls fields := by
  induction fields generalizing decls place with
  | nil => cases held
  | cons first rest ih =>
    cases decls with
    | nil => cases place <;> rfl
    | cons decl decls =>
      cases place with
      | zero =>
        cases held
        rw [List.set_cons_zero, snapshotFields, snapshotFields, same]
      | succ place => rw [List.set_cons_succ, snapshotFields, snapshotFields, ih held]

/-- Every part can be put back, and if it shows the same as before the whole content does. -/
theorem exists_putsBack_shown {data : Data} {type element : FieldType} {segment : Segment} {part : Data}
    (found : data.part? catalog type segment = some (element, part)) :
    ∃ put, PutsBack catalog type data segment element part put ∧
      ∀ new, new.snapshot catalog = part.snapshot catalog → (put new).snapshot catalog = data.snapshot catalog := by
  induction data using Data.layered generalizing type with
  | layer inner ih =>
    obtain ⟨put, puts, shown⟩ := ih found
    exact ⟨_, puts.layer, shown⟩
  | bare data bare =>
    cases data with
    | some inner => exact absurd rfl (bare inner)
    | sequence items =>
      cases segment with
      | index place =>
        obtain ⟨item, held, same⟩ := Option.map_eq_some_iff.mp found
        cases same
        refine ⟨_, putsBack_item held, fun new same => ?_⟩
        rw [Data.snapshot, Data.snapshot, snapshotItems_set held same]
      | _ => cases found
    | mapping entries =>
      cases segment with
      | key name =>
        obtain ⟨item, held, same⟩ := Option.map_eq_some_iff.mp found
        cases same
        refine ⟨_, putsBack_entry held, fun new same => ?_⟩
        have shown : Entries.get? (snapshotEntries catalog entries) name = some (new.snapshot catalog) := by
          rw [get?_snapshotEntries, held, same]
          rfl
        rw [Data.snapshot, Data.snapshot, snapshotEntries_insert, Entries.insert_of_get? shown]
      | _ => cases found
    | record recordType fields =>
      cases segment with
      | field place =>
        obtain ⟨decl, declared, held, visible, rfl⟩ := part?_field found
        refine ⟨_, putsBack_field declared held visible, fun new same => ?_⟩
        rw [Data.snapshot, Data.snapshot, snapshotFields_set held same]
      | _ => cases found
    | _ => cases found

/-- Every part can be put back. -/
theorem exists_putsBack {data : Data} {type element : FieldType} {segment : Segment} {part : Data}
    (found : data.part? catalog type segment = some (element, part)) :
    ∃ put, PutsBack catalog type data segment element part put :=
  (exists_putsBack_shown found).imp fun _ both => both.1

end

/-! ## Parts of a content that denotes a value -/

namespace FieldType

/-- The type of the elements, looked for below optional layers and boxes. -/
def element? : FieldType → Option FieldType
  | optional inner => inner.element?
  | boxed inner => inner.element?
  | sequence element => some element
  | map _ element => some element
  | _ => none

theorem descriptor_element? (type : FieldType) : type.descriptor.element? = type.element?.map descriptor := by
  induction type with
  | optional inner ih => exact ih
  | boxed inner ih => exact ih
  | _ => rfl

theorem element?_unboxed (type : FieldType) : type.unboxed.element? = type.element? := by
  induction type with
  | boxed inner ih => exact ih
  | _ => rfl

theorem core_unboxed (type : FieldType) : type.unboxed.core = type.core := by
  induction type with
  | boxed inner ih => exact ih
  | _ => rfl

theorem core_of_element? {type element : FieldType} (found : type.element? = some element) :
    element.core = type.core := by
  induction type with
  | optional inner ih => exact ih found
  | boxed inner ih => exact ih found
  | sequence inner => cases found; rfl
  | map order inner => cases found; rfl
  | _ => cases found

end FieldType

section
variable {catalog : Catalog} {data : Data} {type : FieldType}

theorem Data.Denotes.proper {value : Value} (denotes : data.Denotes catalog type value) : value.Proper :=
  Value.proper_of_alike denotes.2 (Data.proper_snapshot denotes.1)

theorem snapshotFields_getElem? {decls : List FieldDecl} {fields : List Data} {place : Nat} {decl : FieldDecl}
    {field : Data} (declared : decls[place]? = some decl) (held : fields[place]? = some field) :
    (snapshotFields catalog decls fields)[place]? = some (decl.name, field.snapshot catalog) := by
  rw [snapshotFields_eq, List.getElem?_zipWith, declared, held]

/-- What denotes a sequence has a part for each item. -/
theorem Data.Denotes.items {items : List Value} (denotes : data.Denotes catalog type (.sequence items)) :
    data.outline = .items items.length ∧ ∃ element, type.element? = .some element ∧
      ∀ place item, items[place]? = .some item →
        ∃ part, data.part? catalog type (.index place) = .some (element, part) ∧ part.Denotes catalog element item := by
  induction data using Data.layered generalizing type with
  | layer inner ih =>
    obtain ⟨⟨under, layer, fits⟩, alike⟩ := denotes
    have found := ih (show inner.Denotes catalog under _ from ⟨fits, alike⟩)
    rw [← type.element?_unboxed, layer]
    simpa [Data.outline, FieldType.element?, Data.part?, layer, FieldType.optionInner] using found
  | bare data bare =>
    obtain ⟨others, shape, alike⟩ := alike_sequence_iff.mp denotes.2
    cases data with
    | some inner => exact absurd rfl (bare inner)
    | sequence contents =>
      cases shape
      obtain ⟨element, layer, fit⟩ := denotes.1
      refine ⟨?_, element, by rw [← type.element?_unboxed, layer]; rfl, fun place item held => ?_⟩
      · rw [← itemsAlike_length alike, snapshotItems_eq, List.length_map]
        rfl
      · obtain ⟨snapshot, found, alike⟩ := exists_of_rel_right (itemsAlike_getElem? alike place) held
        rw [snapshotItems_eq, List.getElem?_map] at found
        obtain ⟨part, content, rfl⟩ := Option.map_eq_some_iff.mp found
        refine ⟨part, by simp [Data.part?, content, layer, FieldType.containerElement], ?_, alike⟩
        exact itemsFit_iff.mp fit part (List.mem_of_getElem? content)
    | _ => cases shape

/-- What denotes a mapping has a part for each entry, in an order of its own. -/
theorem Data.Denotes.entries {entries : List (String × Value)}
    (denotes : data.Denotes catalog type (.mapping entries)) :
    ∃ keys, data.outline = .entries keys ∧ keys.Perm (Entries.keys entries) ∧
      ∃ element, type.element? = .some element ∧ ∀ name item, Entries.get? entries name = .some item →
        ∃ part, data.part? catalog type (.key name) = .some (element, part) ∧ part.Denotes catalog element item := by
  have distinct := denotes.proper.1
  induction data using Data.layered generalizing type with
  | layer inner ih =>
    obtain ⟨⟨under, layer, fits⟩, alike⟩ := denotes
    have found := ih (show inner.Denotes catalog under _ from ⟨fits, alike⟩)
    rw [← type.element?_unboxed, layer]
    simpa [Data.outline, FieldType.element?, Data.part?, layer, FieldType.optionInner] using found
  | bare data bare =>
    obtain ⟨others, shape, alike⟩ := alike_mapping_iff.mp denotes.2
    cases data with
    | some inner => exact absurd rfl (bare inner)
    | mapping contents =>
      cases shape
      obtain ⟨order, element, layer, _, fit⟩ := denotes.1
      refine ⟨_, rfl, ?_, element, by rw [← type.element?_unboxed, layer]; rfl, fun name item held => ?_⟩
      · obtain ⟨reordered, perm, inPlace⟩ := alike
        rw [← keys_snapshotEntries catalog, keys_of_entriesAlike inPlace]
        exact perm.map Prod.fst
      · obtain ⟨snapshot, found, alike⟩ := exists_of_rel_right (get?_of_alike alike distinct name) held
        rw [get?_snapshotEntries] at found
        obtain ⟨part, content, rfl⟩ := Option.map_eq_some_iff.mp found
        refine ⟨part, by simp [Data.part?, content, layer, FieldType.containerElement], ?_, alike⟩
        exact entriesFit_iff.mp fit (name, part) (Entries.mem_of_get? content)
    | _ => cases shape

/-- What denotes a record has a part for each field that is not hidden. -/
theorem Data.Denotes.fields {recordType : RecordType} {fields : List (String × Value)}
    (denotes : data.Denotes catalog type (.record recordType fields)) :
    type.core = .record recordType ∧ (∃ count, data.outline = .fields recordType count) ∧
      ∀ place decl, (catalog.fields recordType)[place]? = .some decl → decl.isHidden = false →
        ∃ part item, data.part? catalog type (.field place) = .some (decl.type, part) ∧
          fields[place]? = .some (decl.name, item) ∧ part.Denotes catalog decl.type item := by
  induction data using Data.layered generalizing type with
  | layer inner ih =>
    obtain ⟨⟨under, layer, fits⟩, alike⟩ := denotes
    have found := ih (show inner.Denotes catalog under _ from ⟨fits, alike⟩)
    rw [← type.core_unboxed, layer]
    simpa [Data.outline, FieldType.core, Data.part?, layer, FieldType.optionInner] using found
  | bare data bare =>
    obtain ⟨others, shape, alike⟩ := alike_record_iff.mp denotes.2
    cases data with
    | some inner => exact absurd rfl (bare inner)
    | record held contents =>
      cases shape
      obtain ⟨layer, fit⟩ := denotes.1
      refine ⟨by rw [← type.core_unboxed, layer]; rfl, ⟨_, rfl⟩, fun place decl declared visible => ?_⟩
      obtain ⟨part, content, fits⟩ := fits_of_fieldsFit fit declared visible
      obtain ⟨item, found, alike⟩ := entriesAlike_getElem? alike (snapshotFields_getElem? declared content)
      exact ⟨part, item, by simp [Data.part?, declared, content, visible], found, fits, alike⟩
    | _ => cases shape

/-! ## Snapshots by outline -/

variable (catalog)

theorem snapshot_of_items {count : Nat} (outline : data.outline = .items count) :
    ∃ items, data.snapshot catalog = .sequence items ∧ items.length = count ∧
      ∀ type place element part, data.part? catalog type (.index place) = .some (element, part) →
        items[place]? = .some (part.snapshot catalog) := by
  induction data using Data.layered with
  | layer inner ih =>
    obtain ⟨items, shape, length, parts⟩ := ih outline
    exact ⟨items, shape, length, fun type place element part => parts type.unboxed.optionInner place element part⟩
  | bare data bare =>
    cases data with
    | some inner => exact absurd rfl (bare inner)
    | sequence contents =>
      cases outline
      refine ⟨_, rfl, by rw [snapshotItems_eq, List.length_map], fun type place element part found => ?_⟩
      obtain ⟨item, held, same⟩ := Option.map_eq_some_iff.mp found
      cases same
      rw [snapshotItems_eq, List.getElem?_map, held]
      rfl
    | _ => cases outline

theorem snapshot_of_entries {keys : List String} (outline : data.outline = .entries keys) :
    ∃ entries, data.snapshot catalog = .mapping entries ∧ Entries.keys entries = keys ∧
      ∀ type name element part, data.part? catalog type (.key name) = .some (element, part) →
        Entries.get? entries name = .some (part.snapshot catalog) := by
  induction data using Data.layered with
  | layer inner ih =>
    obtain ⟨entries, shape, same, parts⟩ := ih outline
    exact ⟨entries, shape, same, fun type name element part => parts type.unboxed.optionInner name element part⟩
  | bare data bare =>
    cases data with
    | some inner => exact absurd rfl (bare inner)
    | mapping contents =>
      cases outline
      refine ⟨_, rfl, keys_snapshotEntries catalog contents, fun type name element part found => ?_⟩
      obtain ⟨item, held, same⟩ := Option.map_eq_some_iff.mp found
      cases same
      rw [get?_snapshotEntries, held]
      rfl
    | _ => cases outline

theorem snapshot_of_fields {recordType : RecordType} {count : Nat} (outline : data.outline = .fields recordType count) :
    ∃ fields, data.snapshot catalog = .record recordType fields ∧
      ∀ type place element part, data.part? catalog type (.field place) = .some (element, part) →
        ∃ name, fields[place]? = .some (name, part.snapshot catalog) := by
  induction data using Data.layered with
  | layer inner ih =>
    obtain ⟨fields, shape, parts⟩ := ih outline
    exact ⟨fields, shape, fun type place element part => parts type.unboxed.optionInner place element part⟩
  | bare data bare =>
    cases data with
    | some inner => exact absurd rfl (bare inner)
    | record held contents =>
      cases outline
      refine ⟨_, rfl, fun type place element part found => ?_⟩
      obtain ⟨decl, declared, content, _, _⟩ := part?_field found
      exact ⟨decl.name, snapshotFields_getElem? declared content⟩
    | _ => cases outline

end

end TaggedRecords
