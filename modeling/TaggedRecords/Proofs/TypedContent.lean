import Mathlib.Algebra.Group.Int.Defs
import Mathlib.Algebra.Group.Nat.Defs
import TaggedRecords.Proofs.Likeness
import TaggedRecords.WriteBack

/-!
# Typed content

Content that fits the type of its field, what its snapshot is as a value, and that a legal value without records
or numbers of single precision becomes content whose snapshot is that value again.
-/

namespace TaggedRecords

/-! ## Content that fits a type -/

mutual

/-- The content is one of the type. Boxes are transparent, and a map has distinct keys. -/
def Data.Fits (catalog : Catalog) : Data → FieldType → Prop
  | .bool _, type => type.unboxed = .bool
  | .int i, type => ∃ width : Width, type.unboxed = .signed width ∧
      -(2 ^ (width.bits - 1) : Int) ≤ i.toInt ∧ i.toInt < 2 ^ (width.bits - 1)
  | .uint u, type => ∃ width : Width, type.unboxed = .unsigned width ∧ u.toNat < 2 ^ width.bits
  | .float _, type => type.unboxed = .double ∨ type.unboxed = .single
  | .string _, type => type.unboxed = .string
  | .bytes _, type => type.unboxed = .bytes
  | .time _, type => type.unboxed = .time
  | .none, type => ∃ inner, type.unboxed = .optional inner
  | .some data, type => ∃ inner, type.unboxed = .optional inner ∧ data.Fits catalog inner
  | .sequence items, type => ∃ element, type.unboxed = .sequence element ∧ ItemsFit catalog items element
  | .mapping entries, type => ∃ order element, type.unboxed = .map order element ∧
      Entries.Distinct entries ∧ EntriesFit catalog entries element
  | .record recordType fields, type => type.unboxed = .record recordType ∧
      FieldsFit catalog fields (catalog.fields recordType)
  | .hidden, _ => False

/-- Every item is content of the type. -/
def ItemsFit (catalog : Catalog) : List Data → FieldType → Prop
  | [], _ => True
  | item :: rest, element => item.Fits catalog element ∧ ItemsFit catalog rest element

/-- Every entry holds content of the type. -/
def EntriesFit (catalog : Catalog) : List (String × Data) → FieldType → Prop
  | [], _ => True
  | (_, item) :: rest, element => item.Fits catalog element ∧ EntriesFit catalog rest element

/-- There is content for each declaration, hidden if its type is not supported. -/
def FieldsFit (catalog : Catalog) : List Data → List FieldDecl → Prop
  | [], [] => True
  | field :: rest, decl :: decls =>
    (if decl.isHidden then field.snapshot catalog = .null else field.Fits catalog decl.type) ∧
      FieldsFit catalog rest decls
  | _, _ => False

end

/-- The content of the record fits its declarations. -/
def TypedRecord.Fits (catalog : Catalog) (record : TypedRecord) : Prop :=
  FieldsFit catalog record.fields (catalog.fields record.type)

/-! ## Snapshots -/

theorem snapshotItems_eq (catalog : Catalog) (items : List Data) :
    snapshotItems catalog items = items.map fun item => item.snapshot catalog := by
  induction items with
  | nil => rfl
  | cons item rest ih => rw [snapshotItems, ih, List.map_cons]

theorem snapshotFields_eq (catalog : Catalog) (decls : List FieldDecl) (fields : List Data) :
    snapshotFields catalog decls fields =
      List.zipWith (fun decl field => (decl.name, field.snapshot catalog)) decls fields := by
  induction decls generalizing fields with
  | nil => cases fields <;> rfl
  | cons decl decls ih =>
    cases fields with
    | nil => rfl
    | cons field rest => rw [snapshotFields, ih, List.zipWith_cons_cons]

theorem keys_snapshotEntries (catalog : Catalog) (entries : List (String × Data)) :
    Entries.keys (snapshotEntries catalog entries) = Entries.keys entries := by
  induction entries with
  | nil => rfl
  | cons entry rest ih =>
    obtain ⟨key, item⟩ := entry
    exact congrArg (key :: ·) ih

theorem get?_snapshotEntries (catalog : Catalog) (entries : List (String × Data)) (key : String) :
    Entries.get? (snapshotEntries catalog entries) key =
      (Entries.get? entries key).map fun item => item.snapshot catalog := by
  induction entries with
  | nil => rfl
  | cons entry rest ih =>
    obtain ⟨k, item⟩ := entry
    rw [snapshotEntries, Entries.get?_cons, Entries.get?_cons]
    split
    · rfl
    · exact ih

mutual

theorem Data.proper_snapshot {catalog : Catalog} :
    ∀ {data : Data} {type : FieldType}, data.Fits catalog type → (data.snapshot catalog).Proper
  | .bool _, _, _ | .int _, _, _ | .uint _, _, _ | .float _, _, _ | .string _, _, _ | .bytes _, _, _
  | .time _, _, _ | .none, _, _ | .hidden, _, _ => trivial
  | .some data, _, ⟨_, _, fits⟩ => show (data.snapshot catalog).Proper from Data.proper_snapshot fits
  | .sequence _, _, ⟨_, _, fit⟩ => proper_snapshotItems fit
  | .mapping entries, _, ⟨_, _, _, distinct, fit⟩ => by
    refine ⟨?_, proper_snapshotEntries fit⟩
    unfold Entries.Distinct
    rw [keys_snapshotEntries]
    exact distinct
  | .record _ _, _, ⟨_, fit⟩ => proper_snapshotFields fit

theorem proper_snapshotItems {catalog : Catalog} :
    ∀ {items : List Data} {element : FieldType}, ItemsFit catalog items element →
      ItemsProper (snapshotItems catalog items)
  | [], _, _ => trivial
  | _ :: _, _, ⟨head, tail⟩ => ⟨Data.proper_snapshot head, proper_snapshotItems tail⟩

theorem proper_snapshotEntries {catalog : Catalog} :
    ∀ {entries : List (String × Data)} {element : FieldType}, EntriesFit catalog entries element →
      EntriesProper (snapshotEntries catalog entries)
  | [], _, _ => trivial
  | (_, _) :: _, _, ⟨head, tail⟩ => ⟨Data.proper_snapshot head, proper_snapshotEntries tail⟩

theorem proper_snapshotFields {catalog : Catalog} :
    ∀ {fields : List Data} {decls : List FieldDecl}, FieldsFit catalog fields decls →
      EntriesProper (snapshotFields catalog decls fields)
  | [], [], _ => trivial
  | field :: _, decl :: _, ⟨head, tail⟩ => by
    refine ⟨?_, proper_snapshotFields tail⟩
    cases hidden : decl.isHidden with
    | true =>
      have null : field.snapshot catalog = .null := by simpa [hidden] using head
      rw [null]
      trivial
    | false => exact Data.proper_snapshot (by simpa [hidden] using head)

end

/-! ## Content of a type's parts -/

theorem Data.fits_boxed {catalog : Catalog} {data : Data} {inner : FieldType} :
    data.Fits catalog (.boxed inner) ↔ data.Fits catalog inner := by
  cases data <;> rfl

theorem itemsFit_iff {catalog : Catalog} {items : List Data} {element : FieldType} :
    ItemsFit catalog items element ↔ ∀ item ∈ items, item.Fits catalog element := by
  induction items with
  | nil => simp [ItemsFit]
  | cons item rest ih => simp [ItemsFit, ih]

theorem entriesFit_iff {catalog : Catalog} {entries : List (String × Data)} {element : FieldType} :
    EntriesFit catalog entries element ↔ ∀ entry ∈ entries, entry.2.Fits catalog element := by
  induction entries with
  | nil => simp [EntriesFit]
  | cons entry rest ih =>
    obtain ⟨key, item⟩ := entry
    simp [EntriesFit, ih]

/-- The visible fields have content of their declared types. -/
theorem fits_of_fieldsFit {catalog : Catalog} {fields : List Data} {decls : List FieldDecl}
    (fit : FieldsFit catalog fields decls) {place : Nat} {decl : FieldDecl} (declared : decls[place]? = some decl)
    (visible : decl.isHidden = false) :
    ∃ field, fields[place]? = some field ∧ field.Fits catalog decl.type := by
  induction decls generalizing fields place with
  | nil => cases declared
  | cons first decls ih =>
    cases fields with
    | nil => exact fit.elim
    | cons field rest =>
      obtain ⟨here, below⟩ := fit
      cases place with
      | zero =>
        cases declared
        exact ⟨field, rfl, by simpa [visible] using here⟩
      | succ place => exact ih below declared

/-! ## From values to content -/

namespace FieldType

/-- The type inside all layers around it. -/
def core : FieldType → FieldType
  | optional inner => inner.core
  | boxed inner => inner.core
  | sequence element => element.core
  | map _ element => element.core
  | other => other

end FieldType

/-- Whether records are part of the shape. -/
def Descriptor.holdsRecord : Descriptor → Bool
  | optional inner => inner.holdsRecord
  | sequence element => element.holdsRecord
  | mapping element => element.holdsRecord
  | record _ => true
  | _ => false

/-- The content is one of the type and its snapshot is like the value. -/
def Data.Denotes (catalog : Catalog) (data : Data) (type : FieldType) (value : Value) : Prop :=
  data.Fits catalog type ∧ (data.snapshot catalog).Alike value

/-- Every legal value that becomes content of the type is what that content denotes. -/
def FieldType.Converts (catalog : Catalog) (type : FieldType) : Prop :=
  ∀ value data, type.descriptor.admits value = true → value.Proper → type.ofValue value = .ok data →
    data.Denotes catalog type value

/-- A signed integer of any width keeps its number, which is in range. -/
theorem signedData_ok {width : Width} {i : Int} {data : Data} (converted : signedData width i = .ok data) :
    ∃ n : Int64, data = .int n ∧ n.toInt = i ∧ -(2 ^ (width.bits - 1) : Int) ≤ i ∧ i < 2 ^ (width.bits - 1) := by
  unfold signedData at converted
  split at converted
  · next within =>
    cases converted
    have widest : -2 ^ 63 ≤ i ∧ i < 2 ^ 63 := by cases width <;> simp only [Width.bits, Nat.pow_eq] at within <;> omega
    exact ⟨_, rfl, Int64.toInt_ofInt_of_le widest.1 widest.2, within⟩
  · cases converted

/-- An unsigned integer of any width keeps its number, which is in range. -/
theorem unsignedData_ok {width : Width} {i : Int} {data : Data} (converted : unsignedData width i = .ok data) :
    ∃ n : UInt64, data = .uint n ∧ (n.toNat : Int) = i ∧ n.toNat < 2 ^ width.bits := by
  unfold unsignedData at converted
  split at converted
  · next within =>
    cases converted
    have widest : i.toNat < 2 ^ 64 := by cases width <;> simp only [Width.bits, Nat.pow_eq] at within <;> omega
    have kept : (UInt64.ofNat i.toNat).toNat = i.toNat := UInt64.toNat_ofNat_of_lt' widest
    have bound : i < (2 ^ width.bits : Nat) := within.2
    exact ⟨_, rfl, by omega, by omega⟩
  · cases converted

/-- Reading items is reading each of them. -/
theorem convertItems_ok {convert : Value → Except ValueFault Data} {values : List Value} {items : List Data}
    (converted : convertItems convert values = .ok items) :
    List.Forall₂ (fun item value => convert value = .ok item) items values := by
  induction values generalizing items with
  | nil =>
    cases converted
    exact .nil
  | cons value rest ih =>
    rw [convertItems] at converted
    cases first : convert value with
    | error fault => rw [first] at converted; cases converted
    | ok item =>
      cases others : convertItems convert rest with
      | error fault => rw [first, others] at converted; cases converted
      | ok items =>
        rw [first, others] at converted
        cases converted
        exact .cons first (ih others)

/-- Reading entries is reading the value under each key. -/
theorem convertEntries_ok {convert : Value → Except ValueFault Data} {values : List (String × Value)}
    {entries : List (String × Data)} (converted : convertEntries convert values = .ok entries) :
    List.Forall₂ (fun entry value => entry.1 = value.1 ∧ convert value.2 = .ok entry.2) entries values := by
  induction values generalizing entries with
  | nil =>
    cases converted
    exact .nil
  | cons entry rest ih =>
    obtain ⟨key, value⟩ := entry
    rw [convertEntries] at converted
    cases first : convert value with
    | error fault => rw [first] at converted; cases converted
    | ok item =>
      cases others : convertEntries convert rest with
      | error fault => rw [first, others] at converted; cases converted
      | ok entries =>
        rw [first, others] at converted
        cases converted
        exact .cons ⟨rfl, first⟩ (ih others)

section
variable {catalog : Catalog} {element : FieldType}

theorem convertItems_denotes (converts : element.Converts catalog) {values : List Value} {items : List Data}
    (admitted : ∀ value ∈ values, element.descriptor.admits value = true) (proper : ItemsProper values)
    (converted : convertItems element.ofValue values = .ok items) :
    ItemsFit catalog items element ∧ ItemsAlike (snapshotItems catalog items) values := by
  have read := convertItems_ok converted
  clear converted
  induction read with
  | nil => exact ⟨trivial, trivial⟩
  | cons first _ ih =>
    obtain ⟨admits, below⟩ := List.forall_mem_cons.mp admitted
    obtain ⟨fits, alike⟩ := converts _ _ admits proper.1 first
    obtain ⟨fit, alikes⟩ := ih below proper.2
    exact ⟨⟨fits, fit⟩, alike, alikes⟩

theorem convertEntries_denotes (converts : element.Converts catalog) {values : List (String × Value)}
    {entries : List (String × Data)} (admitted : ∀ entry ∈ values, element.descriptor.admits entry.2 = true)
    (proper : EntriesProper values) (converted : convertEntries element.ofValue values = .ok entries) :
    EntriesFit catalog entries element ∧ EntriesAlike (snapshotEntries catalog entries) values := by
  have read := convertEntries_ok converted
  clear converted
  induction read with
  | nil => exact ⟨trivial, trivial⟩
  | cons first _ ih =>
    obtain ⟨admits, below⟩ := List.forall_mem_cons.mp admitted
    obtain ⟨fits, alike⟩ := converts _ _ admits proper.1 first.2
    obtain ⟨fit, alikes⟩ := ih below proper.2
    exact ⟨⟨fits, fit⟩, first.1, alike, alikes⟩

/-- A map holds the entries that were read, whatever the order it keeps them in. -/
theorem arrange_denotes (order : MapOrder) {values : List (String × Value)} {entries : List (String × Data)}
    (distinct : Entries.Distinct values) (fit : EntriesFit catalog entries element)
    (alike : EntriesAlike (snapshotEntries catalog entries) values) :
    (Data.mapping (order.arrange entries)).Denotes catalog (.map order element) (.mapping values) := by
  have sameKeys : Entries.keys entries = Entries.keys values := by
    rw [← keys_snapshotEntries catalog entries, keys_of_entriesAlike alike]
  have entriesDistinct : Entries.Distinct entries := by
    unfold Entries.Distinct
    rw [sameKeys]
    exact distinct
  have perm := order.arrange_perm entriesDistinct
  have arrangedDistinct : Entries.Distinct (order.arrange entries) :=
    (perm.map Prod.fst).nodup_iff.mpr entriesDistinct
  refine ⟨⟨order, element, rfl, arrangedDistinct, ?_⟩, alike_of_get? ?_ distinct fun key => ?_⟩
  · exact entriesFit_iff.mpr fun entry member => entriesFit_iff.mp fit entry (perm.mem_iff.mp member)
  · unfold Entries.Distinct
    rw [keys_snapshotEntries]
    exact arrangedDistinct
  · rw [get?_snapshotEntries, Entries.get?_perm perm entriesDistinct, ← get?_snapshotEntries]
    exact get?_of_entriesAlike alike key

end

/-! ## Conversion of each kind of type -/

/-- Only null is no value of an optional type's inner type. -/
theorem Descriptor.admits_optional (inner : Descriptor) {value : Value} (present : value ≠ .null) :
    (Descriptor.optional inner).admits value = inner.admits value := by
  cases value <;> first | rfl | exact absurd rfl present

theorem FieldType.ofValue_optional (inner : FieldType) {value : Value} (present : value ≠ .null) :
    (FieldType.optional inner).ofValue value = (inner.ofValue value).map .some := by
  cases value <;> first | rfl | exact absurd rfl present

/-- Content of an optional type is read from null or from a value of the type inside. -/
theorem FieldType.ofValue_optional_ok {inner : FieldType} {value : Value} {data : Data}
    (converted : (FieldType.optional inner).ofValue value = .ok data) :
    (value = .null ∧ data = .none) ∨
      (value ≠ .null ∧ ∃ content, inner.ofValue value = .ok content ∧ data = .some content) := by
  by_cases absent : value = .null
  · subst absent
    cases converted
    exact .inl ⟨rfl, rfl⟩
  · rw [ofValue_optional inner absent] at converted
    cases read : inner.ofValue value with
    | error fault => rw [read] at converted; cases converted
    | ok content =>
      rw [read] at converted
      cases converted
      exact .inr ⟨absent, content, rfl, rfl⟩

/-- Content of a sequence type is read from a sequence, item by item. -/
theorem FieldType.ofValue_sequence_ok {element : FieldType} {value : Value} {data : Data}
    (converted : (FieldType.sequence element).ofValue value = .ok data) :
    ∃ values items, value = .sequence values ∧ convertItems element.ofValue values = .ok items ∧
      data = .sequence items := by
  cases value with
  | sequence values =>
    rw [ofValue] at converted
    cases read : convertItems element.ofValue values with
    | error fault => rw [read] at converted; cases converted
    | ok items =>
      rw [read] at converted
      cases converted
      exact ⟨values, items, rfl, read, rfl⟩
  | _ => cases converted

/-- Content of a map type is read from a mapping, entry by entry. -/
theorem FieldType.ofValue_map_ok {order : MapOrder} {element : FieldType} {value : Value} {data : Data}
    (converted : (FieldType.map order element).ofValue value = .ok data) :
    ∃ values entries, value = .mapping values ∧ convertEntries element.ofValue values = .ok entries ∧
      data = .mapping (order.arrange entries) := by
  cases value with
  | mapping values =>
    rw [ofValue] at converted
    cases read : convertEntries element.ofValue values with
    | error fault => rw [read] at converted; cases converted
    | ok entries =>
      rw [read] at converted
      cases converted
      exact ⟨values, entries, rfl, read, rfl⟩
  | _ => cases converted

namespace FieldType
variable {catalog : Catalog}

theorem converts_optional {inner : FieldType} (converts : inner.Converts catalog) :
    (FieldType.optional inner).Converts catalog := by
  intro value data admitted proper converted
  rcases ofValue_optional_ok converted with ⟨rfl, rfl⟩ | ⟨present, content, read, rfl⟩
  · exact ⟨⟨inner, rfl⟩, Value.alike_refl _⟩
  · rw [descriptor, Descriptor.admits_optional inner.descriptor present] at admitted
    obtain ⟨fits, alike⟩ := converts value content admitted proper read
    exact ⟨⟨inner, rfl, fits⟩, alike⟩

theorem converts_boxed {inner : FieldType} (converts : inner.Converts catalog) :
    (FieldType.boxed inner).Converts catalog := by
  intro value data admitted proper converted
  obtain ⟨fits, alike⟩ := converts value data admitted proper converted
  exact ⟨Data.fits_boxed.mpr fits, alike⟩

theorem converts_sequence {element : FieldType} (converts : element.Converts catalog) :
    (FieldType.sequence element).Converts catalog := by
  intro value data admitted proper converted
  obtain ⟨values, items, rfl, read, rfl⟩ := ofValue_sequence_ok converted
  have admits : ∀ value ∈ values, element.descriptor.admits value = true := List.all_eq_true.mp admitted
  obtain ⟨fit, alike⟩ := convertItems_denotes converts admits proper read
  exact ⟨⟨element, rfl, fit⟩, alike⟩

theorem converts_map (order : MapOrder) {element : FieldType} (converts : element.Converts catalog) :
    (FieldType.map order element).Converts catalog := by
  intro value data admitted proper converted
  obtain ⟨values, entries, rfl, read, rfl⟩ := ofValue_map_ok converted
  have admits : ∀ entry ∈ values, element.descriptor.admits entry.2 = true := List.all_eq_true.mp admitted
  obtain ⟨fit, alike⟩ := convertEntries_denotes converts admits proper.2 read
  exact arrange_denotes order proper.1 fit alike

/-- A legal value without records becomes content that denotes it, unless numbers lose precision. -/
theorem converts (catalog : Catalog) (type : FieldType) (plain : type.descriptor.holdsRecord = false)
    (precise : type.core ≠ .single) : type.Converts catalog := by
  induction type with
  | bool | double | string | bytes | time =>
    intro value data _ _ converted
    -- Only a value of this kind is read at all, and it is taken as it is.
    cases value <;> cases converted
    exact ⟨by simp [Data.Fits, unboxed], Value.alike_refl _⟩
  | single => exact absurd rfl precise
  | signed width =>
    intro value data admitted _ converted
    cases value with
    | int i =>
      obtain ⟨n, rfl, same, within⟩ := signedData_ok converted
      obtain rfl : n = i := Int64.toInt_inj.mp same
      exact ⟨⟨width, rfl, within⟩, Value.alike_refl _⟩
    | _ => cases admitted
  | unsigned width =>
    intro value data admitted _ converted
    cases value with
    | uint u =>
      obtain ⟨n, rfl, same, within⟩ := unsignedData_ok converted
      obtain rfl : n = u := UInt64.toNat_inj.mp (Int.ofNat_inj.mp same)
      exact ⟨⟨width, rfl, within⟩, Value.alike_refl _⟩
    | _ => cases admitted
  | optional inner ih => exact converts_optional (ih plain precise)
  | boxed inner ih => exact converts_boxed (ih plain precise)
  | sequence element ih => exact converts_sequence (ih plain precise)
  | map order element ih => exact converts_map order (ih plain precise)
  | record type => cases plain
  | unsupported kind =>
    intro value data admitted
    cases value <;> cases admitted

end FieldType

end TaggedRecords
