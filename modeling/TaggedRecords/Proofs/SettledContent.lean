import TaggedRecords.Proofs.ConformingRuns
import TaggedRecords.Proofs.ReachableStores
import TaggedRecords.Proofs.SinglePrecision

/-!
# Settled content

Content as its type keeps it: where the type asks for single precision the numbers have it, and where it orders entries
by key they stand so. Whatever is read from a value is settled, and settled content without records is read back from its
snapshot: the snapshot of what is read is the same again.
-/

namespace TaggedRecords

/-! ## Content as its type keeps it -/

mutual

/-- Numbers of single precision and entries in the order of their keys stand where the type asks for them. -/
def Data.Settled (catalog : Catalog) : Data → FieldType → Prop
  | .float x, type => type.unboxed = .single → x.IsSingle
  | .some data, type => data.Settled catalog type.unboxed.optionInner
  | .sequence items, type => ItemsSettled catalog items type.unboxed.containerElement
  | .mapping entries, type =>
      (type.unboxed = .map .byKey type.unboxed.containerElement → Entries.Ordered entries) ∧
        EntriesSettled catalog entries type.unboxed.containerElement
  | .record recordType fields, _ => FieldsSettled catalog fields (catalog.fields recordType)
  | .bool _, _ => True
  | .int _, _ => True
  | .uint _, _ => True
  | .string _, _ => True
  | .bytes _, _ => True
  | .time _, _ => True
  | .none, _ => True
  | .hidden, _ => True

/-- Every item is settled. -/
def ItemsSettled (catalog : Catalog) : List Data → FieldType → Prop
  | [], _ => True
  | item :: rest, element => item.Settled catalog element ∧ ItemsSettled catalog rest element

/-- The content of every entry is settled. -/
def EntriesSettled (catalog : Catalog) : List (String × Data) → FieldType → Prop
  | [], _ => True
  | (_, item) :: rest, element => item.Settled catalog element ∧ EntriesSettled catalog rest element

/-- The content of every field that is not hidden is settled. -/
def FieldsSettled (catalog : Catalog) : List Data → List FieldDecl → Prop
  | [], _ => True
  | _ :: _, [] => True
  | field :: rest, decl :: decls =>
      (decl.isHidden = false → field.Settled catalog decl.type) ∧ FieldsSettled catalog rest decls

end

section
variable {catalog : Catalog}

theorem Data.settled_boxed {data : Data} {inner : FieldType} :
    data.Settled catalog (.boxed inner) ↔ data.Settled catalog inner := by
  cases data <;> rfl

theorem Data.settled_some {data : Data} {type inner : FieldType} (layer : type.unboxed = .optional inner) :
    (Data.some data).Settled catalog type ↔ data.Settled catalog inner := by
  rw [Data.Settled, layer]
  rfl

theorem Data.settled_sequence {items : List Data} {type element : FieldType} (layer : type.unboxed = .sequence element) :
    (Data.sequence items).Settled catalog type ↔ ItemsSettled catalog items element := by
  rw [Data.Settled, layer]
  rfl

theorem Data.settled_mapping {entries : List (String × Data)} {type element : FieldType} {order : MapOrder}
    (layer : type.unboxed = .map order element) : (Data.mapping entries).Settled catalog type ↔
      (order = .byKey → Entries.Ordered entries) ∧ EntriesSettled catalog entries element := by
  rw [Data.Settled, layer]
  cases order <;> simp [FieldType.containerElement]

theorem itemsSettled_iff {items : List Data} {element : FieldType} :
    ItemsSettled catalog items element ↔ ∀ item ∈ items, item.Settled catalog element := by
  induction items with
  | nil => simp [ItemsSettled]
  | cons item rest ih => simp [ItemsSettled, ih]

theorem entriesSettled_iff {entries : List (String × Data)} {element : FieldType} :
    EntriesSettled catalog entries element ↔ ∀ entry ∈ entries, entry.2.Settled catalog element := by
  induction entries with
  | nil => simp [EntriesSettled]
  | cons entry rest ih =>
    obtain ⟨key, item⟩ := entry
    simp [EntriesSettled, ih]

theorem FieldsSettled.getElem? {fields : List Data} {decls : List FieldDecl} (settled : FieldsSettled catalog fields decls)
    {place : Nat} {decl : FieldDecl} {field : Data} (declared : decls[place]? = some decl)
    (held : fields[place]? = some field) (visible : decl.isHidden = false) : field.Settled catalog decl.type := by
  induction fields generalizing decls place with
  | nil => cases held
  | cons first rest ih =>
    cases decls with
    | nil => cases declared
    | cons head decls =>
      cases place with
      | zero =>
        cases declared
        cases held
        exact settled.1 visible
      | succ place => exact ih settled.2 declared held

end

/-! ## The order of entries -/

namespace Entries
variable {α : Type} {entries : Entries α}

theorem ordered_sortByKey (pairs : List (String × α)) : Ordered (sortByKey pairs) := by
  have start : Ordered ([] : Entries α) := List.Pairwise.nil
  exact List.foldlRecOn pairs _ start fun entries ordered pair _ => ordered_insertByKey ordered pair.1 pair.2

/-- Entries that stand in order are in order. -/
theorem sortByKey_of_ordered (ordered : Ordered entries) : sortByKey entries = entries := by
  have sorted : (sortByKey entries).Pairwise fun a b => a.1 < b.1 := List.pairwise_map.mp (ordered_sortByKey entries)
  have stands : entries.Pairwise fun a b => a.1 < b.1 := List.pairwise_map.mp ordered
  refine List.Perm.eq_of_pairwise (fun a b _ _ less more => ?_) sorted stands (sortByKey_perm ordered.distinct)
  exact absurd (lt_trans less more) (lt_irrefl a.1)

end Entries

/-- Entries that stand as the map keeps them are not moved. -/
theorem MapOrder.arrange_of_kept {α : Type} {order : MapOrder} {entries : List (String × α)}
    (distinct : Entries.Distinct entries) (kept : order = .byKey → Entries.Ordered entries) :
    order.arrange entries = entries := by
  cases order with
  | arrival => exact Entries.ofList_eq_self_iff.mpr distinct
  | byKey => exact Entries.sortByKey_of_ordered (kept rfl)

/-! ## What is read is settled -/

section
variable {catalog : Catalog}

theorem signedData_fits {width : Width} {i : Int} {data : Data} (converted : signedData width i = .ok data) :
    data.Fits catalog (.signed width) ∧ data.Settled catalog (.signed width) := by
  obtain ⟨n, rfl, rfl, within⟩ := signedData_ok converted
  exact ⟨⟨width, rfl, within⟩, trivial⟩

theorem unsignedData_fits {width : Width} {i : Int} {data : Data} (converted : unsignedData width i = .ok data) :
    data.Fits catalog (.unsigned width) ∧ data.Settled catalog (.unsigned width) := by
  obtain ⟨n, rfl, -, within⟩ := unsignedData_ok converted
  exact ⟨⟨width, rfl, within⟩, trivial⟩

/-- What is read from a proper value is settled content of the type. -/
theorem FieldType.ofValue_settled (type : FieldType) {value : Value} {data : Data} (proper : value.Proper)
    (converted : type.ofValue value = .ok data) : data.Fits catalog type ∧ data.Settled catalog type := by
  induction type generalizing value data with
  | bool | double | string | bytes | time =>
    -- Only a value of this kind is read at all, and it is taken as it is.
    cases value <;> cases converted
    exact ⟨by simp [Data.Fits, unboxed], by simp [Data.Settled, unboxed]⟩
  | single =>
    cases value <;> cases converted
    exact ⟨.inr rfl, fun _ => Binary64.isSingle_toSingle _⟩
  | signed width =>
    cases value with
    | int i => exact signedData_fits converted
    | uint u => exact signedData_fits converted
    | _ => cases converted
  | unsigned width =>
    cases value with
    | int i => exact unsignedData_fits converted
    | uint u => exact unsignedData_fits converted
    | _ => cases converted
  | optional inner ih =>
    rcases ofValue_optional_ok converted with ⟨rfl, rfl⟩ | ⟨_, content, read, rfl⟩
    · exact ⟨⟨inner, rfl⟩, trivial⟩
    · obtain ⟨fits, settled⟩ := ih proper read
      exact ⟨⟨inner, rfl, fits⟩, settled⟩
  | boxed inner ih =>
    obtain ⟨fits, settled⟩ := ih proper converted
    exact ⟨Data.fits_boxed.mpr fits, Data.settled_boxed.mpr settled⟩
  | sequence element ih =>
    obtain ⟨values, items, rfl, read, rfl⟩ := ofValue_sequence_ok converted
    have each : ∀ item ∈ items, item.Fits catalog element ∧ item.Settled catalog element := by
      intro item member
      obtain ⟨value, inside, convert⟩ := forall₂_mem_left (convertItems_ok read) member
      exact ih (itemsProper_iff.mp proper value inside) convert
    exact ⟨⟨element, rfl, itemsFit_iff.mpr fun item member => (each item member).1⟩,
      itemsSettled_iff.mpr fun item member => (each item member).2⟩
  | map order element ih =>
    obtain ⟨values, entries, rfl, read, rfl⟩ := ofValue_map_ok converted
    have distinct : Entries.Distinct entries := by
      unfold Entries.Distinct
      rw [← Entries.keys_of_forall₂ (convertEntries_ok read)]
      exact proper.1
    have perm := order.arrange_perm distinct
    have each : ∀ entry ∈ order.arrange entries, entry.2.Fits catalog element ∧ entry.2.Settled catalog element := by
      intro entry member
      obtain ⟨value, inside, -, convert⟩ := forall₂_mem_left (convertEntries_ok read) (perm.mem_iff.mp member)
      exact ih (entriesProper_iff.mp proper.2 value inside) convert
    refine ⟨⟨order, element, rfl, (perm.map Prod.fst).nodup_iff.mpr distinct,
      entriesFit_iff.mpr fun entry member => (each entry member).1⟩, fun byKey => ?_,
      entriesSettled_iff.mpr fun entry member => (each entry member).2⟩
    cases byKey
    exact Entries.ordered_sortByKey entries
  | record type => cases converted
  | unsupported kind => cases converted

/-! ## Reading a snapshot -/

/-- Reading the value gives content that has this value as its snapshot. -/
def FieldType.Restores (catalog : Catalog) (type : FieldType) (value : Value) : Prop :=
  ∃ again, type.ofValue value = .ok again ∧ again.snapshot catalog = value

theorem FieldType.restores_unboxed {type : FieldType} {value : Value} :
    type.unboxed.Restores catalog value ↔ type.Restores catalog value := by
  induction type with
  | boxed inner ih => exact ih
  | _ => exact Iff.rfl

theorem FieldType.restores_same {type : FieldType} {data : Data}
    (read : type.unboxed.ofValue (data.snapshot catalog) = .ok data) : type.Restores catalog (data.snapshot catalog) :=
  restores_unboxed.mp ⟨data, read, rfl⟩

theorem signedData_toInt {width : Width} {i : Int64}
    (within : -(2 ^ (width.bits - 1) : Int) ≤ i.toInt ∧ i.toInt < 2 ^ (width.bits - 1)) :
    signedData width i.toInt = .ok (.int i) := by
  have bounds : -(Nat.pow 2 (width.bits - 1) : Int) ≤ i.toInt ∧ i.toInt < Nat.pow 2 (width.bits - 1) := by
    exact_mod_cast within
  rw [signedData, if_pos bounds, Int64.ofInt_toInt]

theorem unsignedData_toNat {width : Width} {u : UInt64} (within : u.toNat < 2 ^ width.bits) :
    unsignedData width u.toNat = .ok (.uint u) := by
  have bounds : 0 ≤ (u.toNat : Int) ∧ (u.toNat : Int) < Nat.pow 2 width.bits :=
    ⟨Int.natCast_nonneg _, by exact_mod_cast within⟩
  rw [unsignedData, if_pos bounds, Int.toNat_natCast, UInt64.ofNat_toNat]

/-- Null is read as nothing, whose snapshot is null as well. -/
theorem FieldType.restores_optional {inner : FieldType} {value : Value} (below : inner.Restores catalog value) :
    (optional inner).Restores catalog value := by
  by_cases absent : value = .null
  · rw [absent]
    exact ⟨.none, rfl, rfl⟩
  · obtain ⟨again, read, same⟩ := below
    refine ⟨.some again, ?_, same⟩
    rw [ofValue_optional inner absent, read]
    rfl

/-- The entries that are read back stand as the map keeps them, since they have the keys of the old ones. -/
theorem FieldType.restores_map {order : MapOrder} {element : FieldType} {entries again : List (String × Data)}
    (distinct : Entries.Distinct entries) (kept : order = .byKey → Entries.Ordered entries)
    (read : convertEntries element.ofValue (snapshotEntries catalog entries) = .ok again)
    (same : snapshotEntries catalog again = snapshotEntries catalog entries) :
    (map order element).Restores catalog ((Data.mapping entries).snapshot catalog) := by
  have keys : Entries.keys again = Entries.keys entries := by
    rw [← keys_snapshotEntries catalog, same, keys_snapshotEntries]
  have arranged : order.arrange again = again := by
    refine MapOrder.arrange_of_kept ?_ fun byKey => ?_
    · unfold Entries.Distinct
      rw [keys]
      exact distinct
    · unfold Entries.Ordered
      rw [keys]
      exact kept byKey
  refine ⟨.mapping again, ?_, congrArg Value.mapping same⟩
  rw [Data.snapshot, ofValue, read]
  exact congrArg (Except.ok ∘ Data.mapping) arranged

mutual

/-- Settled content without records is read back from its snapshot. -/
theorem Data.restores_snapshot : ∀ {data : Data} {type : FieldType}, data.Fits catalog type →
    data.Settled catalog type → (data.snapshot catalog).Recordless → type.Restores catalog (data.snapshot catalog)
  | .bool b, type, fits, _, _ => FieldType.restores_same (by rw [show type.unboxed = .bool from fits]; rfl)
  | .string text, type, fits, _, _ => FieldType.restores_same (by rw [show type.unboxed = .string from fits]; rfl)
  | .bytes octets, type, fits, _, _ => FieldType.restores_same (by rw [show type.unboxed = .bytes from fits]; rfl)
  | .time t, type, fits, _, _ => FieldType.restores_same (by rw [show type.unboxed = .time from fits]; rfl)
  | .int i, type, ⟨width, layer, within⟩, _, _ =>
    FieldType.restores_same (by rw [layer]; exact signedData_toInt within)
  | .uint u, type, ⟨width, layer, within⟩, _, _ =>
    FieldType.restores_same (by rw [layer]; exact unsignedData_toNat within)
  | .float x, type, fits, settled, _ => by
    refine FieldType.restores_same ?_
    rcases fits with double | single
    · rw [double]
      rfl
    · rw [single]
      show Except.ok (Data.float x.toSingle) = _
      rw [Binary64.toSingle_of_isSingle (settled single)]
  | .none, type, ⟨inner, layer⟩, _, _ => FieldType.restores_same (by rw [layer]; rfl)
  | .some data, type, ⟨inner, layer, fits⟩, settled, plain => by
    have below := Data.restores_snapshot fits ((Data.settled_some layer).mp settled) plain
    refine FieldType.restores_unboxed.mp ?_
    rw [layer]
    exact FieldType.restores_optional below
  | .sequence items, type, ⟨element, layer, fit⟩, settled, plain => by
    obtain ⟨again, read, same⟩ := restores_snapshotItems fit ((Data.settled_sequence layer).mp settled) plain
    refine FieldType.restores_unboxed.mp ?_
    rw [layer]
    refine ⟨.sequence again, ?_, congrArg Value.sequence same⟩
    rw [Data.snapshot, FieldType.ofValue, read]
    rfl
  | .mapping entries, type, ⟨order, element, layer, distinct, fit⟩, settled, plain => by
    obtain ⟨kept, below⟩ := (Data.settled_mapping layer).mp settled
    obtain ⟨again, read, same⟩ := restores_snapshotEntries fit below plain
    refine FieldType.restores_unboxed.mp ?_
    rw [layer]
    exact FieldType.restores_map distinct kept read same
  | .record _ _, _, _, _, plain => plain.elim
  | .hidden, _, fits, _, _ => fits.elim

theorem restores_snapshotItems : ∀ {items : List Data} {element : FieldType}, ItemsFit catalog items element →
    ItemsSettled catalog items element → ItemsRecordless (snapshotItems catalog items) →
    ∃ again, convertItems element.ofValue (snapshotItems catalog items) = .ok again ∧
      snapshotItems catalog again = snapshotItems catalog items
  | [], _, _, _, _ => ⟨[], rfl, rfl⟩
  | item :: rest, element, ⟨fits, fit⟩, ⟨settled, below⟩, ⟨plain, others⟩ => by
    obtain ⟨again, read, same⟩ := Data.restores_snapshot fits settled plain
    obtain ⟨agains, reads, alike⟩ := restores_snapshotItems fit below others
    refine ⟨again :: agains, ?_, ?_⟩
    · rw [snapshotItems, convertItems, read, reads]
      rfl
    · rw [snapshotItems, snapshotItems, same, alike]

theorem restores_snapshotEntries : ∀ {entries : List (String × Data)} {element : FieldType},
    EntriesFit catalog entries element → EntriesSettled catalog entries element →
    EntriesRecordless (snapshotEntries catalog entries) →
    ∃ again, convertEntries element.ofValue (snapshotEntries catalog entries) = .ok again ∧
      snapshotEntries catalog again = snapshotEntries catalog entries
  | [], _, _, _, _ => ⟨[], rfl, rfl⟩
  | (key, item) :: rest, element, ⟨fits, fit⟩, ⟨settled, below⟩, ⟨plain, others⟩ => by
    obtain ⟨again, read, same⟩ := Data.restores_snapshot fits settled plain
    obtain ⟨agains, reads, alike⟩ := restores_snapshotEntries fit below others
    refine ⟨(key, again) :: agains, ?_, ?_⟩
    · rw [snapshotEntries, convertEntries, read, reads]
      rfl
    · rw [snapshotEntries, snapshotEntries, same, alike]

end

end

end TaggedRecords
