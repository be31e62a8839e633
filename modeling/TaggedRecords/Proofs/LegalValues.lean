import TaggedRecords.Proofs.ConformingRuns

/-!
# Legal values

Which values a snapshot of a field can have, down to the fields of the records in it. The check on what transformations
return looks into optional layers, sequences and mappings, but knows a record by its type alone: what it admits is
legal exactly if every record inside has a legal value for each of its declarations.
-/

namespace TaggedRecords

/-! ## Legal at every depth -/

mutual

/-- The value is legal for the shape, and everything in it for the shape that is declared there. -/
def Value.Legal (catalog : Catalog) : Value → Descriptor → Prop
  | .null, d => d.isOptional = true
  | .bool _, d => d.dereferenced = .bool
  | .int _, d => d.dereferenced = .int
  | .uint _, d => d.dereferenced = .uint
  | .float _, d => d.dereferenced = .float
  | .string _, d => d.dereferenced = .string
  | .bytes _, d => d.dereferenced = .bytes
  | .time _, d => d.dereferenced = .time
  | .sequence items, d => ∃ element, d.dereferenced = .sequence element ∧ ItemsLegal catalog items element
  | .mapping entries, d => ∃ element, d.dereferenced = .mapping element ∧ EntriesLegal catalog entries element
  | .record type fields, d => d.dereferenced = .record type ∧ FieldsLegal catalog fields (catalog.fields type)
  | .delete, _ => False

/-- Every item is legal for the shape. -/
def ItemsLegal (catalog : Catalog) : List Value → Descriptor → Prop
  | [], _ => True
  | item :: rest, element => item.Legal catalog element ∧ ItemsLegal catalog rest element

/-- Every entry holds what is legal for the shape. -/
def EntriesLegal (catalog : Catalog) : List (String × Value) → Descriptor → Prop
  | [], _ => True
  | (_, item) :: rest, element => item.Legal catalog element ∧ EntriesLegal catalog rest element

/-- There is a value for each declaration, and a legal one, or nothing where the declared type is not supported. -/
def FieldsLegal (catalog : Catalog) : List (String × Value) → List FieldDecl → Prop
  | [], [] => True
  | (_, value) :: rest, decl :: decls =>
    (if decl.isHidden then value = .null else value.Legal catalog decl.descriptor) ∧ FieldsLegal catalog rest decls
  | _, _ => False

end

mutual

/-- Every record in the value has a legal value for each of its declarations. -/
def Value.Whole (catalog : Catalog) : Value → Prop
  | .sequence items => ItemsWhole catalog items
  | .mapping entries => EntriesWhole catalog entries
  | .record type fields => FieldsWhole catalog fields (catalog.fields type)
  | .null | .bool _ | .int _ | .uint _ | .float _ | .string _ | .bytes _ | .time _ | .delete => True

/-- So it is in every item. -/
def ItemsWhole (catalog : Catalog) : List Value → Prop
  | [] => True
  | item :: rest => item.Whole catalog ∧ ItemsWhole catalog rest

/-- So it is in every entry. -/
def EntriesWhole (catalog : Catalog) : List (String × Value) → Prop
  | [] => True
  | (_, item) :: rest => item.Whole catalog ∧ EntriesWhole catalog rest

/-- The check admits each value for its declaration, and so it is in each of them. -/
def FieldsWhole (catalog : Catalog) : List (String × Value) → List FieldDecl → Prop
  | [], [] => True
  | (_, value) :: rest, decl :: decls =>
    (if decl.isHidden then value = .null else decl.descriptor.admits value = true ∧ value.Whole catalog) ∧
      FieldsWhole catalog rest decls
  | _, _ => False

end

instance (value : Value) : Decidable (value = .null) :=
  match value with
  | .null => .isTrue rfl
  | .bool _ | .int _ | .uint _ | .float _ | .string _ | .bytes _ | .time _ | .sequence _ | .mapping _ | .record _ _
  | .delete => .isFalse nofun

mutual

/-- Whether all records in a value are whole can be seen from it. -/
instance Value.decidableWhole (catalog : Catalog) : (value : Value) → Decidable (value.Whole catalog)
  | .sequence items => decidableItemsWhole catalog items
  | .mapping entries => decidableEntriesWhole catalog entries
  | .record type fields => decidableFieldsWhole catalog fields (catalog.fields type)
  | .null | .bool _ | .int _ | .uint _ | .float _ | .string _ | .bytes _ | .time _ | .delete => .isTrue trivial

instance decidableItemsWhole (catalog : Catalog) : (items : List Value) → Decidable (ItemsWhole catalog items)
  | [] => .isTrue trivial
  | item :: rest => @instDecidableAnd _ _ (item.decidableWhole catalog) (decidableItemsWhole catalog rest)

instance decidableEntriesWhole (catalog : Catalog) :
    (entries : List (String × Value)) → Decidable (EntriesWhole catalog entries)
  | [] => .isTrue trivial
  | (_, item) :: rest => @instDecidableAnd _ _ (item.decidableWhole catalog) (decidableEntriesWhole catalog rest)

instance decidableFieldsWhole (catalog : Catalog) :
    (fields : List (String × Value)) → (decls : List FieldDecl) → Decidable (FieldsWhole catalog fields decls)
  | [], [] => .isTrue trivial
  | [], _ :: _ => .isFalse id
  | _ :: _, [] => .isFalse id
  | (_, value) :: rest, decl :: decls =>
    have := value.decidableWhole catalog
    have := decidableFieldsWhole catalog rest decls
    inferInstanceAs (Decidable ((if decl.isHidden then value = .null
      else decl.descriptor.admits value = true ∧ value.Whole catalog) ∧ FieldsWhole catalog rest decls))

end

section
variable {catalog : Catalog}

theorem itemsLegal_iff {items : List Value} {element : Descriptor} :
    ItemsLegal catalog items element ↔ ∀ item ∈ items, item.Legal catalog element := by
  induction items with
  | nil => simp [ItemsLegal]
  | cons item rest ih => simp [ItemsLegal, ih]

theorem entriesLegal_iff {entries : List (String × Value)} {element : Descriptor} :
    EntriesLegal catalog entries element ↔ ∀ entry ∈ entries, entry.2.Legal catalog element := by
  induction entries with
  | nil => simp [EntriesLegal]
  | cons entry rest ih =>
    obtain ⟨key, item⟩ := entry
    simp [EntriesLegal, ih]

/-- What stands in a legal record is nothing or legal for one of its declarations. -/
theorem FieldsLegal.of_mem {fields : List (String × Value)} {decls : List FieldDecl}
    (legal : FieldsLegal catalog fields decls) {field : String × Value} (member : field ∈ fields) :
    field.2 = .null ∨ ∃ decl ∈ decls, field.2.Legal catalog decl.descriptor := by
  induction fields generalizing decls with
  | nil => cases member
  | cons head rest ih =>
    cases decls with
    | nil => exact legal.elim
    | cons decl decls =>
      obtain ⟨here, below⟩ := legal
      rcases List.mem_cons.mp member with rfl | later
      · cases hidden : decl.isHidden with
        | true => exact .inl (by simpa [hidden] using here)
        | false => exact .inr ⟨decl, List.mem_cons_self, by simpa [hidden] using here⟩
      · exact (ih below later).imp_right fun ⟨other, among, isLegal⟩ => ⟨other, List.mem_cons_of_mem _ among, isLegal⟩

/-- The value at the place of a declaration is legal for it. -/
theorem FieldsLegal.getElem? {fields : List (String × Value)} {decls : List FieldDecl}
    (legal : FieldsLegal catalog fields decls) {index : Nat} {decl : FieldDecl} (declared : decls[index]? = some decl)
    (visible : decl.isHidden = false) :
    ∃ field, fields[index]? = some field ∧ field.2.Legal catalog decl.descriptor := by
  induction fields generalizing decls index with
  | nil =>
    cases decls with
    | nil => cases declared
    | cons _ _ => exact legal.elim
  | cons head rest ih =>
    cases decls with
    | nil => exact legal.elim
    | cons other decls =>
      obtain ⟨here, below⟩ := legal
      cases index with
      | zero =>
        cases declared
        exact ⟨head, rfl, by simpa [visible] using here⟩
      | succ index => exact ih below declared

/-! ## What the check misses -/

/-- A scalar is admitted under the optional layers exactly if it is of the shape below them. -/
theorem Descriptor.admits_iff_dereferenced {d : Descriptor} {value : Value} (present : value ≠ .null) :
    d.admits value = true ↔ d.dereferenced.admits value = true :=
  ⟨fun admitted => dereferenced_admits admitted present, admits_of_dereferenced⟩

mutual

/-- What the check admits is legal exactly if every record in it is whole. -/
theorem Value.legal_iff : ∀ {value : Value} {d : Descriptor},
    value.Legal catalog d ↔ d.admits value = true ∧ value.Whole catalog
  | .null, d => by
    refine ⟨fun optional => ⟨Descriptor.admits_null optional, trivial⟩, fun legal => ?_⟩
    exact Descriptor.isOptional_of_admits_null legal.1
  | .sequence items, d => by
    constructor
    · rintro ⟨element, shape, legal⟩
      have inside := itemsLegal_iff_whole.mp legal
      refine ⟨Descriptor.admits_of_dereferenced ?_, inside.2⟩
      rw [shape]
      exact inside.1
    · rintro ⟨admitted, whole⟩
      obtain ⟨element, shape, legal⟩ := Descriptor.dereferenced_of_admits_sequence admitted
      exact ⟨element, shape, itemsLegal_iff_whole.mpr ⟨List.all_eq_true.mpr legal, whole⟩⟩
  | .mapping entries, d => by
    constructor
    · rintro ⟨element, shape, legal⟩
      have inside := entriesLegal_iff_whole.mp legal
      refine ⟨Descriptor.admits_of_dereferenced ?_, inside.2⟩
      rw [shape]
      exact inside.1
    · rintro ⟨admitted, whole⟩
      obtain ⟨element, shape, legal⟩ := Descriptor.dereferenced_of_admits_mapping admitted
      exact ⟨element, shape, entriesLegal_iff_whole.mpr ⟨List.all_eq_true.mpr legal, whole⟩⟩
  | .record type fields, d => by
    constructor
    · rintro ⟨shape, legal⟩
      refine ⟨Descriptor.admits_of_dereferenced ?_, fieldsLegal_iff_whole.mp legal⟩
      rw [shape]
      exact decide_eq_true rfl
    · rintro ⟨admitted, whole⟩
      exact ⟨Descriptor.dereferenced_of_admits_record admitted, fieldsLegal_iff_whole.mpr whole⟩
  | .delete, d => by
    refine ⟨False.elim, fun ⟨admitted, _⟩ => ?_⟩
    replace admitted := Descriptor.dereferenced_admits admitted nofun
    cases shape : d.dereferenced with
    | optional inner => exact absurd shape (d.dereferenced_ne_optional inner)
    | _ => rw [shape] at admitted; cases admitted
  | .bool _, d | .int _, d | .uint _, d | .float _, d | .string _, d | .bytes _, d | .time _, d => by
    rw [Descriptor.admits_iff_dereferenced]
    · cases shape : d.dereferenced with
      | optional inner => exact absurd shape (d.dereferenced_ne_optional inner)
      | _ => simp [Value.Legal, Value.Whole, Descriptor.admits, shape]
    · exact nofun

theorem itemsLegal_iff_whole : ∀ {items : List Value} {element : Descriptor},
    ItemsLegal catalog items element ↔ items.all (fun item => element.admits item) = true ∧ ItemsWhole catalog items
  | [], _ => by simp [ItemsLegal, ItemsWhole]
  | item :: rest, element => by
    rw [ItemsLegal, ItemsWhole, List.all_cons, Bool.and_eq_true, Value.legal_iff, itemsLegal_iff_whole,
      and_and_and_comm]

theorem entriesLegal_iff_whole : ∀ {entries : List (String × Value)} {element : Descriptor},
    EntriesLegal catalog entries element ↔
      entries.all (fun entry => element.admits entry.2) = true ∧ EntriesWhole catalog entries
  | [], _ => by simp [EntriesLegal, EntriesWhole]
  | (key, item) :: rest, element => by
    rw [EntriesLegal, EntriesWhole, List.all_cons, Bool.and_eq_true, Value.legal_iff, entriesLegal_iff_whole,
      and_and_and_comm]

theorem fieldsLegal_iff_whole : ∀ {fields : List (String × Value)} {decls : List FieldDecl},
    FieldsLegal catalog fields decls ↔ FieldsWhole catalog fields decls
  | [], [] => Iff.rfl
  | [], _ :: _ => Iff.rfl
  | _ :: _, [] => Iff.rfl
  | (name, value) :: rest, decl :: decls => by
    rw [FieldsLegal, FieldsWhole, fieldsLegal_iff_whole, Value.legal_iff]

end

mutual

/-- Where no record stands there is nothing to miss. -/
theorem Value.whole_of_recordless : ∀ {value : Value}, value.Recordless → value.Whole catalog
  | .null, _ | .bool _, _ | .int _, _ | .uint _, _ | .float _, _ | .string _, _ | .bytes _, _ | .time _, _
  | .delete, _ => trivial
  | .sequence _, recordless => itemsWhole_of_recordless recordless
  | .mapping _, recordless => entriesWhole_of_recordless recordless
  | .record _ _, recordless => recordless.elim

theorem itemsWhole_of_recordless : ∀ {items : List Value}, ItemsRecordless items → ItemsWhole catalog items
  | [], _ => trivial
  | _ :: _, ⟨here, below⟩ => ⟨Value.whole_of_recordless here, itemsWhole_of_recordless below⟩

theorem entriesWhole_of_recordless : ∀ {entries : List (String × Value)}, EntriesRecordless entries →
    EntriesWhole catalog entries
  | [], _ => trivial
  | (_, _) :: _, ⟨here, below⟩ => ⟨Value.whole_of_recordless here, entriesWhole_of_recordless below⟩

end

/-! ## Snapshots -/

mutual

/-- Every record in a snapshot of content is whole. -/
theorem Data.whole_snapshot : ∀ {data : Data} {type : FieldType}, data.Fits catalog type →
    (data.snapshot catalog).Whole catalog
  | .bool _, _, _ | .int _, _, _ | .uint _, _, _ | .float _, _, _ | .string _, _, _ | .bytes _, _, _
  | .time _, _, _ | .none, _, _ | .hidden, _, _ => trivial
  | .some data, _, ⟨_, _, fits⟩ => show (data.snapshot catalog).Whole catalog from Data.whole_snapshot fits
  | .sequence _, _, ⟨_, _, fit⟩ => whole_snapshotItems fit
  | .mapping _, _, ⟨_, _, _, _, fit⟩ => whole_snapshotEntries fit
  | .record _ _, _, ⟨_, fit⟩ => whole_snapshotFields fit

theorem whole_snapshotItems : ∀ {items : List Data} {element : FieldType}, ItemsFit catalog items element →
    ItemsWhole catalog (snapshotItems catalog items)
  | [], _, _ => trivial
  | _ :: _, _, ⟨head, tail⟩ => ⟨Data.whole_snapshot head, whole_snapshotItems tail⟩

theorem whole_snapshotEntries : ∀ {entries : List (String × Data)} {element : FieldType},
    EntriesFit catalog entries element → EntriesWhole catalog (snapshotEntries catalog entries)
  | [], _, _ => trivial
  | (_, _) :: _, _, ⟨head, tail⟩ => ⟨Data.whole_snapshot head, whole_snapshotEntries tail⟩

theorem whole_snapshotFields : ∀ {fields : List Data} {decls : List FieldDecl}, FieldsFit catalog fields decls →
    FieldsWhole catalog (snapshotFields catalog decls fields) decls
  | [], [], _ => trivial
  | field :: _, decl :: _, ⟨head, tail⟩ => by
    refine ⟨?_, whole_snapshotFields tail⟩
    cases hidden : decl.isHidden with
    | true => simpa [hidden] using head
    | false =>
      have fits : field.Fits catalog decl.type := by simpa [hidden] using head
      exact ⟨Data.admits_snapshot fits, Data.whole_snapshot fits⟩

end

/-- The snapshot of content is legal for its type. -/
theorem Data.legal_snapshot {data : Data} {type : FieldType} (fits : data.Fits catalog type) :
    (data.snapshot catalog).Legal catalog type.descriptor :=
  Value.legal_iff.mpr ⟨Data.admits_snapshot fits, Data.whole_snapshot fits⟩

end

end TaggedRecords
