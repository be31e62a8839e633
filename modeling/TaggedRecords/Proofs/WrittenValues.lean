import TaggedRecords.Proofs.ChainWrites
import TaggedRecords.Proofs.Positions

/-!
# Written values

What a value looks like once it is content: integers keep their number, whatever sign they are written with, containers
keep their elements, and a map may keep its entries in an order of its own. With what a write leaves as it was, this
makes a write at a path a lens.
-/

namespace TaggedRecords

/-! ## Values that match -/

/-- The number that an integer of either sign stands for. -/
def Value.number? : Value → Option Int
  | .int i => some i.toInt
  | .uint u => some u.toNat
  | _ => none

/-- The same value, where integers are compared as numbers and mappings whatever the order of their entries. -/
inductive Value.Matches : Value → Value → Prop
  | same (value : Value) : Value.Matches value value
  | number {value other : Value} {i : Int} (left : value.number? = some i) (right : other.number? = some i) :
      Value.Matches value other
  | items {as bs : List Value} (inPlace : List.Forall₂ Value.Matches as bs) :
      Value.Matches (.sequence as) (.sequence bs)
  | entries {as bs cs : List (String × Value)} (reordered : cs.Perm bs) (keys : Entries.keys as = Entries.keys cs)
      (inPlace : List.Forall₂ Value.Matches (as.map Prod.snd) (cs.map Prod.snd)) :
      Value.Matches (.mapping as) (.mapping bs)

/-! ## Content that shows what was written -/

theorem number?_of_signedData {width : Width} {i : Int} {data : Data} (converted : signedData width i = .ok data)
    (catalog : Catalog) : (data.snapshot catalog).number? = some i := by
  obtain ⟨n, rfl, same, -⟩ := signedData_ok converted
  exact congrArg some same

theorem number?_of_unsignedData {width : Width} {i : Int} {data : Data} (converted : unsignedData width i = .ok data)
    (catalog : Catalog) : (data.snapshot catalog).number? = some i := by
  obtain ⟨n, rfl, same, -⟩ := unsignedData_ok converted
  exact congrArg some same

/-- Every proper value that becomes content of the type matches the snapshot of that content. -/
def FieldType.Preserves (catalog : Catalog) (type : FieldType) : Prop :=
  ∀ value data, value.Proper → type.ofValue value = .ok data → (data.snapshot catalog).Matches value

section
variable {catalog : Catalog} {element : FieldType}

theorem convertItems_matches (preserves : element.Preserves catalog) {values : List Value} {items : List Data}
    (proper : ItemsProper values) (converted : convertItems element.ofValue values = .ok items) :
    List.Forall₂ Value.Matches (snapshotItems catalog items) values := by
  have read := convertItems_ok converted
  clear converted
  induction read with
  | nil => exact .nil
  | cons first _ ih => exact .cons (preserves _ _ proper.1 first) (ih proper.2)

/-- A map holds the entries that were read, whatever the order it keeps them in. -/
theorem arrange_matches (preserves : element.Preserves catalog) (order : MapOrder) {values : List (String × Value)}
    {entries : List (String × Data)} (distinct : Entries.Distinct values) (proper : EntriesProper values)
    (converted : convertEntries element.ofValue values = .ok entries) :
    ((Data.mapping (order.arrange entries)).snapshot catalog).Matches (.mapping values) := by
  have read := convertEntries_ok converted
  have entriesDistinct : Entries.Distinct entries := by
    unfold Entries.Distinct
    rw [← Entries.keys_of_forall₂ read]
    exact distinct
  -- The values in the order of the map are related to its entries in place.
  obtain ⟨reordered, inPlace, perm⟩ := List.perm_comp_forall₂ (order.arrange_perm entriesDistinct) read
  have proper : EntriesProper reordered :=
    entriesProper_iff.mpr fun entry member => entriesProper_iff.mp proper entry (perm.mem_iff.mp member)
  refine .entries perm ?_ ?_
  · rw [keys_snapshotEntries, Entries.keys_of_forall₂ inPlace]
  · generalize order.arrange entries = arranged at inPlace
    clear perm
    induction inPlace with
    | nil => exact .nil
    | cons first _ ih => exact .cons (preserves _ _ proper.1 first.2) (ih proper.2)

end

namespace FieldType
variable {catalog : Catalog}

theorem preserves_optional {inner : FieldType} (preserves : inner.Preserves catalog) :
    (FieldType.optional inner).Preserves catalog := by
  intro value data proper converted
  rcases ofValue_optional_ok converted with ⟨rfl, rfl⟩ | ⟨_, content, read, rfl⟩
  · exact .same _
  · exact preserves value content proper read

theorem preserves_sequence {element : FieldType} (preserves : element.Preserves catalog) :
    (FieldType.sequence element).Preserves catalog := by
  intro value data proper converted
  obtain ⟨values, items, rfl, read, rfl⟩ := ofValue_sequence_ok converted
  exact .items (convertItems_matches preserves proper read)

theorem preserves_map (order : MapOrder) {element : FieldType} (preserves : element.Preserves catalog) :
    (FieldType.map order element).Preserves catalog := by
  intro value data proper converted
  obtain ⟨values, entries, rfl, read, rfl⟩ := ofValue_map_ok converted
  exact arrange_matches preserves order proper.1 proper.2 read

/-- Content of every type shows the value it was read from, unless numbers lose precision. -/
theorem preserves (catalog : Catalog) (type : FieldType) (precise : type.core ≠ .single) :
    type.Preserves catalog := by
  induction type with
  | bool | double | string | bytes | time =>
    intro value data _ converted
    -- Only a value of this kind is read at all, and it is taken as it is.
    cases value <;> cases converted
    exact .same _
  | single => exact absurd rfl precise
  | signed width =>
    intro value data _ converted
    cases value with
    | int i => exact .number (number?_of_signedData converted catalog) rfl
    | uint u => exact .number (number?_of_signedData converted catalog) rfl
    | _ => cases converted
  | unsigned width =>
    intro value data _ converted
    cases value with
    | int i => exact .number (number?_of_unsignedData converted catalog) rfl
    | uint u => exact .number (number?_of_unsignedData converted catalog) rfl
    | _ => cases converted
  | optional inner ih => exact preserves_optional (ih precise)
  | boxed inner ih => exact fun value data => ih precise value data
  | sequence element ih => exact preserves_sequence (ih precise)
  | map order element ih => exact preserves_map order (ih precise)
  | record type => exact fun value data _ converted => nomatch converted
  | unsupported kind => exact fun value data _ converted => nomatch converted

end FieldType

/-! ## Writing a whole content -/

section
variable {catalog : Catalog}

theorem replaced_matches {type : FieldType} {old : Data} {value : Value} (preserves : type.Preserves catalog)
    (proper : value.Proper) (passes : (replaced type old value).fault = none) :
    ((replaced type old value).content.snapshot catalog).Matches value := by
  obtain ⟨content, read, done⟩ := replaced_passes passes
  rw [done]
  exact preserves value content proper read

/-- A value written over a content without records is what the content shows from then on. -/
theorem writeAt_matches {data : Data} {type : FieldType} {value : Value} (fits : data.Fits catalog type)
    (plain : type.descriptor.holdsRecord = false) (precise : type.core ≠ .single) (proper : value.Proper)
    (passes : (data.writeAt catalog type [] value).fault = none) :
    ((data.writeAt catalog type [] value).content.snapshot catalog).Matches value := by
  induction data using Data.layered generalizing type with
  | layer inner ih =>
    obtain ⟨under, layer, fits⟩ := fits
    by_cases absent : value = .null
    · subst absent
      exact .same _
    · have plainUnder : under.descriptor.holdsRecord = false := by
        rwa [← type.descriptor_unboxed, layer] at plain
      have preciseUnder : under.core ≠ .single := by
        rwa [← type.core_unboxed, layer] at precise
      rw [Data.writeAt_layer layer absent] at passes ⊢
      exact ih fits plainUnder preciseUnder passes
  | bare data bare =>
    have preserves := type.preserves catalog precise
    cases data with
    | some inner => exact absurd rfl (bare inner)
    | none =>
      obtain ⟨under, layer⟩ := fits
      by_cases absent : value = .null
      · subst absent
        exact .same _
      · have preciseUnder : under.core ≠ .single := by
          rwa [← type.core_unboxed, layer] at precise
        obtain ⟨content, read, done⟩ := Data.writeAt_absent_passes layer absent passes
        rw [done]
        exact under.preserves catalog preciseUnder value content proper read
    | record held fields =>
      rw [← type.descriptor_unboxed, fits.1] at plain
      cases plain
    | hidden => exact fits.elim
    | _ => exact replaced_matches preserves proper passes

/-! ## Writing at a path -/

/-- A part of a content of a type is content of the part's type. -/
theorem Data.Fits.part {data : Data} {type element : FieldType} {segment : Segment} {part : Data}
    (fits : data.Fits catalog type) (found : data.part? catalog type segment = .some (element, part)) :
    part.Fits catalog element := by
  induction data using Data.layered generalizing type with
  | layer inner ih =>
    obtain ⟨under, layer, fits⟩ := fits
    refine ih fits ?_
    simpa [Data.part?, layer, FieldType.optionInner] using found
  | bare data bare =>
    cases data with
    | some inner => exact absurd rfl (bare inner)
    | sequence items =>
      obtain ⟨inner, layer, fit⟩ := fits
      cases segment with
      | index place =>
        obtain ⟨item, held, same⟩ := Option.map_eq_some_iff.mp found
        cases same
        rw [layer]
        exact itemsFit_iff.mp fit part (List.mem_of_getElem? held)
      | _ => cases found
    | mapping entries =>
      obtain ⟨order, inner, layer, _, fit⟩ := fits
      cases segment with
      | key name =>
        obtain ⟨item, held, same⟩ := Option.map_eq_some_iff.mp found
        cases same
        rw [layer]
        exact entriesFit_iff.mp fit (name, part) (Entries.mem_of_get? held)
      | _ => cases found
    | record recordType fields =>
      cases segment with
      | field place =>
        obtain ⟨decl, declared, held, visible, rfl⟩ := part?_field found
        obtain ⟨field, stands, fit⟩ := fits_of_fieldsFit fits.2 declared visible
        rw [held] at stands
        cases stands
        exact fit
      | _ => cases found
    | _ => cases found

/-- What stands at a position of a content of a type is content of the position's type. -/
theorem Data.Fits.position {data : Data} {type target : FieldType} {path : List Segment} {part : Data}
    (fits : data.Fits catalog type) (found : data.position? catalog type path = .some (target, part)) :
    part.Fits catalog target := by
  induction path generalizing data type with
  | nil =>
    cases found
    exact fits
  | cons segment rest ih =>
    obtain ⟨⟨element, inner⟩, here, below⟩ := Option.bind_eq_some_iff.mp found
    exact ih (fits.part here) below

/-- What a write at a path does to a content and its snapshot. -/
structure LensWrite (catalog : Catalog) (type : FieldType) (data : Data) (path : List Segment) (value : Value)
    (written : Written Data) : Prop where
  /-- Only what is there is written. -/
  addressed : written.fault = none → ∃ target part, data.position? catalog type path = some (target, part) ∧
    (data.snapshot catalog).position? path = some (part.snapshot catalog)
  /-- What is neither below the path nor on the way stays. -/
  beside : ∀ other, ¬ path <+: other → ¬ other <+: path →
    (written.content.snapshot catalog).position? other = (data.snapshot catalog).position? other
  /-- Containers on the way keep their length and their keys, and records their type. -/
  above : ∀ other, other <+: path → other ≠ path →
    ((written.content.snapshot catalog).position? other).map Value.outline =
      ((data.snapshot catalog).position? other).map Value.outline
  /-- The value is found again where it was written. -/
  found : ∀ target part, data.position? catalog type path = some (target, part) →
    target.descriptor.holdsRecord = false → target.core ≠ .single → value.Proper → written.fault = none →
      ∃ left, (written.content.snapshot catalog).position? path = some left ∧ left.Matches value
  /-- A path that leads nowhere is the failure, and nothing changes. -/
  nowhere : data.position? catalog type path = none → ∃ fault, written = .failed data fault ∧ fault.Misses

/-- A write at a path is a lens on content of every type. -/
theorem Data.writeAt_lens (catalog : Catalog) (type : FieldType) (data : Data) (path : List Segment) (value : Value)
    (fits : data.Fits catalog type) :
    LensWrite catalog type data path value (data.writeAt catalog type path value) where
  addressed := fun passes => by
    cases found : data.position? catalog type path with
    | none =>
      obtain ⟨fault, write, -⟩ := writeAt_missed found value
      rw [write] at passes
      cases passes
    | some held => exact ⟨held.1, held.2, rfl, snapshot_position? found⟩
  beside := fun _ behind above => writeAt_apart behind above data value
  above := fun _ above strictly => writeAt_above above strictly data value
  found := fun target part found plain precise proper passes => by
    obtain ⟨fault, stands⟩ := writeAt_found found value
    rw [fault] at passes
    exact ⟨_, stands, writeAt_matches (fits.position found) plain precise proper passes⟩
  nowhere := fun nowhere => writeAt_missed nowhere value

end

/-- Ledgers with a name, a lock that is hidden, and perhaps counts under each month. -/
def bookkeeping : Catalog := ⟨[⟨"Ledger", [⟨"name", "name", .string⟩, ⟨"lock", "-", .unsupported "Mutex"⟩,
  ⟨"counts", "counts", .optional (.map .byKey (.sequence (.boxed (.signed .w16))))⟩]⟩]⟩

/-- One with counts under two months. -/
def ledger : Data :=
  .record ⟨0, "Ledger"⟩ [.string "house", .hidden,
    .some (.mapping [("April", .sequence [.int 1, .int 2]), ("May", .sequence [.int 3])])]

/-- The second count of April is written, as a number without sign. -/
theorem ledger_writeAt_lens :
    let type := FieldType.record ⟨0, "Ledger"⟩
    let path := [Segment.field 2, .key "April", .index 1]
    let written := ledger.writeAt bookkeeping type path (.uint 7)
    ledger.Fits bookkeeping type ∧ LensWrite bookkeeping type ledger path (.uint 7) written ∧ written.fault = none ∧
      (written.content.snapshot bookkeeping).position? path = some (.int 7) ∧ (Value.int 7).Matches (.uint 7) := by
  have fits : ledger.Fits bookkeeping (.record ⟨0, "Ledger"⟩) := by
    simp [ledger, bookkeeping, Catalog.fields, FieldsFit, FieldDecl.isHidden, FieldDecl.descriptor,
      FieldType.descriptor, Descriptor.unsupportedKind?, Data.snapshot, Data.Fits, FieldType.unboxed, EntriesFit,
      Entries.Distinct, Entries.keys, ItemsFit, Width.bits]
  have lens := Data.writeAt_lens bookkeeping (.record ⟨0, "Ledger"⟩) ledger
    [.field 2, .key "April", .index 1] (.uint 7) fits
  obtain ⟨left, stands, shows⟩ := lens.found (.boxed (.signed .w16)) (.int 2) rfl rfl (fun same => by cases same) trivial rfl
  cases stands
  exact ⟨fits, lens, rfl, rfl, shows⟩

end TaggedRecords
