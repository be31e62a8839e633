import TaggedRecords.Proofs.SettledContent
import TaggedRecords.Proofs.WrittenValues

/-!
# Conversions

Values become content of a type and content becomes values, without loss: what is read from a value shows this value
again, but for the sign that an integer is written with, the order of the entries of a mapping, and the digits that a
number of single precision has not; and a value is refused exactly for a part of it that is of a wrong kind or out of
range.
-/

namespace TaggedRecords

/-! ## Rounded values -/

namespace Value

mutual

/-- The value with all its numbers rounded to single precision. Records are no part of a value that is read. -/
def singled : Value → Value
  | null => null
  | bool b => bool b
  | int i => int i
  | uint u => uint u
  | float x => float x.toSingle
  | string text => string text
  | bytes octets => bytes octets
  | time t => time t
  | sequence items => sequence (singledItems items)
  | mapping entries => mapping (singledEntries entries)
  | record type fields => record type fields
  | delete => delete

/-- The items with all their numbers rounded. -/
def singledItems : List Value → List Value
  | [] => []
  | item :: rest => item.singled :: singledItems rest

/-- The entries with all their numbers rounded. -/
def singledEntries : List (String × Value) → List (String × Value)
  | [] => []
  | (key, item) :: rest => (key, item.singled) :: singledEntries rest

end

theorem keys_singledEntries (entries : List (String × Value)) :
    Entries.keys (singledEntries entries) = Entries.keys entries := by
  induction entries with
  | nil => simp only [singledEntries]
  | cons entry rest ih =>
    obtain ⟨key, item⟩ := entry
    rw [singledEntries]
    exact congrArg (key :: ·) ih

end Value

mutual

theorem Value.proper_singled : ∀ {value : Value}, value.Proper → value.singled.Proper
  | .sequence _, proper => proper_singledItems proper
  | .mapping entries, ⟨distinct, proper⟩ => by
    refine ⟨?_, proper_singledEntries proper⟩
    unfold Entries.Distinct
    rw [Value.keys_singledEntries]
    exact distinct
  | .record _ _, proper => proper
  | .null, _ | .bool _, _ | .int _, _ | .uint _, _ | .float _, _ | .string _, _ | .bytes _, _ | .time _, _
  | .delete, _ => trivial

theorem proper_singledItems : ∀ {items : List Value}, ItemsProper items → ItemsProper (Value.singledItems items)
  | [], _ => trivial
  | _ :: _, ⟨head, tail⟩ => ⟨Value.proper_singled head, proper_singledItems tail⟩

theorem proper_singledEntries : ∀ {entries : List (String × Value)}, EntriesProper entries →
    EntriesProper (Value.singledEntries entries)
  | [], _ => trivial
  | (_, _) :: _, ⟨head, tail⟩ => ⟨Value.proper_singled head, proper_singledEntries tail⟩

end

namespace FieldType

/-- The type with double precision where it asks for single precision. -/
def widened : FieldType → FieldType
  | single => double
  | optional inner => optional inner.widened
  | boxed inner => boxed inner.widened
  | sequence element => sequence element.widened
  | map order element => map order element.widened
  | other => other

/-- What of a value content of the type can show: the value, rounded if the type asks for single precision. -/
def rounding (type : FieldType) (value : Value) : Value := if type.core = .single then value.singled else value

theorem descriptor_widened (type : FieldType) : type.widened.descriptor = type.descriptor := by
  induction type with
  | optional inner ih => exact congrArg Descriptor.optional ih
  | boxed inner ih => exact ih
  | sequence element ih => exact congrArg Descriptor.sequence ih
  | map order element ih => exact congrArg Descriptor.mapping ih
  | _ => rfl

theorem core_widened {type : FieldType} (single : type.core = .single) : type.widened.core = .double := by
  induction type with
  | single => rfl
  | optional inner ih => exact ih single
  | boxed inner ih => exact ih single
  | sequence element ih => exact ih single
  | map order element ih => exact ih single
  | _ => cases single

theorem convertItems_widened {element : FieldType}
    (widens : ∀ value, element.ofValue value = element.widened.ofValue value.singled) (values : List Value) :
    convertItems element.ofValue values = convertItems element.widened.ofValue (Value.singledItems values) := by
  induction values with
  | nil => rfl
  | cons value rest ih => rw [Value.singledItems, convertItems, convertItems, widens, ih]

theorem convertEntries_widened {element : FieldType}
    (widens : ∀ value, element.ofValue value = element.widened.ofValue value.singled)
    (values : List (String × Value)) :
    convertEntries element.ofValue values = convertEntries element.widened.ofValue (Value.singledEntries values) := by
  induction values with
  | nil => rfl
  | cons entry rest ih =>
    obtain ⟨key, value⟩ := entry
    rw [Value.singledEntries, convertEntries, convertEntries, widens, ih]

/-- Reading with single precision is reading the rounded value with double precision. -/
theorem ofValue_widened {type : FieldType} (single : type.core = .single) (value : Value) :
    type.ofValue value = type.widened.ofValue value.singled := by
  induction type generalizing value with
  | single => cases value <;> rfl
  | optional inner ih =>
    by_cases absent : value = .null
    · rw [absent]
      rfl
    · have present : value.singled ≠ .null := by
        intro same
        cases value <;> first | exact absent rfl | cases same
      rw [widened, ofValue_optional inner absent, ofValue_optional inner.widened present, ih single]
  | boxed inner ih => exact ih single value
  | sequence element ih =>
    have text : (sequence element.widened).descriptor.text = (sequence element).descriptor.text :=
      congrArg Descriptor.text (descriptor_widened (sequence element))
    cases value with
    | sequence items =>
      rw [Value.singled, widened, ofValue, ofValue, convertItems_widened (ih single)]
    | _ => simp only [Value.singled, widened, ofValue, text, Value.kind]
  | map order element ih =>
    have text : (map order element.widened).descriptor.text = (map order element).descriptor.text :=
      congrArg Descriptor.text (descriptor_widened (map order element))
    cases value with
    | mapping entries =>
      rw [Value.singled, widened, ofValue, ofValue, convertEntries_widened (ih single)]
    | _ => simp only [Value.singled, widened, ofValue, text, Value.kind]
  | _ => cases single

/-- What is read from a proper value shows this value, rounded if the type asks for single precision. -/
theorem ofValue_matches (catalog : Catalog) (type : FieldType) {value : Value} {data : Data} (proper : value.Proper)
    (converted : type.ofValue value = .ok data) : (data.snapshot catalog).Matches (type.rounding value) := by
  unfold rounding
  split
  · next single =>
    have precise : type.widened.core ≠ .single := by
      rw [core_widened single]
      intro same
      cases same
    rw [ofValue_widened single] at converted
    exact type.widened.preserves catalog precise value.singled data (Value.proper_singled proper) converted
  · next precise => exact type.preserves catalog precise value data proper converted

/-! ## Refused values -/

/-- The kinds of values that content of the type is read from. -/
def Accepts : FieldType → Kind → Prop
  | bool, kind => kind = .bool
  | signed _, kind => kind = .int ∨ kind = .uint
  | unsigned _, kind => kind = .int ∨ kind = .uint
  | double, kind => kind = .float
  | single, kind => kind = .float
  | string, kind => kind = .string
  | bytes, kind => kind = .bytes
  | time, kind => kind = .time
  | optional inner, kind => kind = .null ∨ inner.Accepts kind
  | boxed inner, kind => inner.Accepts kind
  | sequence _, kind => kind = .sequence
  | map _ _, kind => kind = .mapping
  | record _, _ => False
  | unsupported _, _ => False

/-- The integers that the type has room for, if it is one of integers. -/
def Spans : FieldType → Int → Prop
  | signed width, i => -(2 ^ (width.bits - 1) : Int) ≤ i ∧ i < 2 ^ (width.bits - 1)
  | unsigned width, i => 0 ≤ i ∧ i < 2 ^ width.bits
  | optional inner, i => inner.Spans i
  | boxed inner, i => inner.Spans i
  | bool, _ => True
  | double, _ => True
  | single, _ => True
  | string, _ => True
  | bytes, _ => True
  | time, _ => True
  | sequence _, _ => True
  | map _ _, _ => True
  | record _, _ => True
  | unsupported _, _ => True

/-- The value stands in the wrong place: its kind is not one of the type's, or it is an integer out of range. -/
def Refuses (type : FieldType) (value : Value) : Prop :=
  ¬ type.Accepts value.kind ∨ ∃ i, value.number? = some i ∧ ¬ type.Spans i

/-- Where content of a type is read from a value, content of the target type is read from this part of it. -/
inductive Meets : FieldType → Value → FieldType → Value → Prop
  | here (type : FieldType) (value : Value) : Meets type value type value
  | present {inner target : FieldType} {value part : Value} (present : value ≠ .null)
      (below : Meets inner value target part) : Meets (.optional inner) value target part
  | boxed {inner target : FieldType} {value part : Value} (below : Meets inner value target part) :
      Meets (.boxed inner) value target part
  | item {element target : FieldType} {items : List Value} {item part : Value} (member : item ∈ items)
      (below : Meets element item target part) : Meets (.sequence element) (.sequence items) target part
  | entry {order : MapOrder} {element target : FieldType} {entries : List (String × Value)} {key : String}
      {item part : Value} (member : (key, item) ∈ entries) (below : Meets element item target part) :
      Meets (.map order element) (.mapping entries) target part

/-- The value cannot be read as content of the type. -/
def Fails (type : FieldType) (value : Value) : Prop := ∃ fault, type.ofValue value = .error fault

theorem convertItems_fails_iff {element : FieldType} {values : List Value} :
    (∃ fault, convertItems element.ofValue values = .error fault) ↔ ∃ value ∈ values, element.Fails value := by
  induction values with
  | nil => simp [convertItems]
  | cons value rest ih =>
    rw [convertItems, List.exists_mem_cons_iff, ← ih, Fails]
    cases element.ofValue value with
    | error fault => simp [bind, Except.bind]
    | ok item => cases convertItems element.ofValue rest <;> simp [bind, Except.bind, pure, Except.pure]

theorem convertEntries_fails_iff {element : FieldType} {values : List (String × Value)} :
    (∃ fault, convertEntries element.ofValue values = .error fault) ↔ ∃ entry ∈ values, element.Fails entry.2 := by
  induction values with
  | nil => simp [convertEntries]
  | cons entry rest ih =>
    obtain ⟨key, value⟩ := entry
    rw [convertEntries, List.exists_mem_cons_iff, ← ih, Fails]
    cases element.ofValue value with
    | error fault => simp [bind, Except.bind]
    | ok item => cases convertEntries element.ofValue rest <;> simp [bind, Except.bind, pure, Except.pure]

theorem signedData_fails_iff {width : Width} {i : Int} :
    (∃ fault, signedData width i = .error fault) ↔ ¬ (signed width).Spans i := by
  unfold signedData Spans
  split
  · next within => simpa using within
  · next outside => simpa using outside

theorem unsignedData_fails_iff {width : Width} {i : Int} :
    (∃ fault, unsignedData width i = .error fault) ↔ ¬ (unsigned width).Spans i := by
  unfold unsignedData Spans
  split
  · next within => simpa using within
  · next outside => simpa using outside

/-- Only null is read as content of an optional type and not of the type inside. -/
theorem fails_optional_iff {inner : FieldType} {value : Value} :
    (optional inner).Fails value ↔ value ≠ .null ∧ inner.Fails value := by
  by_cases absent : value = .null
  · subst absent
    refine ⟨fun ⟨fault, read⟩ => ?_, fun both => absurd rfl both.1⟩
    cases read
  · unfold Fails
    rw [ofValue_optional inner absent]
    cases inner.ofValue value <;> simp [Except.map, absent]

theorem refuses_optional_iff {inner : FieldType} {value : Value} :
    (optional inner).Refuses value ↔ value ≠ .null ∧ inner.Refuses value := by
  by_cases absent : value = .null
  · subst absent
    simp [Refuses, Accepts, Value.kind, Value.number?]
  · have kind : value.kind ≠ .null := by
      intro same
      cases value <;> first | exact absent rfl | cases same
    simp [Refuses, Accepts, Spans, absent, kind]

theorem fails_sequence_iff {element : FieldType} {items : List Value} :
    (sequence element).Fails (.sequence items) ↔ ∃ item ∈ items, element.Fails item := by
  rw [← convertItems_fails_iff, Fails, ofValue]
  cases convertItems element.ofValue items <;> simp [Except.map]

theorem fails_map_iff {order : MapOrder} {element : FieldType} {entries : List (String × Value)} :
    (map order element).Fails (.mapping entries) ↔ ∃ entry ∈ entries, element.Fails entry.2 := by
  rw [← convertEntries_fails_iff, Fails, ofValue]
  cases convertEntries element.ofValue entries <;> simp [Except.map]

/-- A value that is refused is not read. -/
theorem fails_of_refuses {type : FieldType} {value : Value} (refuses : type.Refuses value) : type.Fails value := by
  induction type with
  | optional inner ih =>
    obtain ⟨present, refuses⟩ := refuses_optional_iff.mp refuses
    exact fails_optional_iff.mpr ⟨present, ih refuses⟩
  | boxed inner ih => exact ih refuses
  | _ =>
    revert refuses
    cases value <;>
      simp [Fails, ofValue, Refuses, Accepts, Value.kind, Value.number?, signedData_fails_iff, unsignedData_fails_iff]

/-- A part that cannot be read is met on the way, so that the whole value is not read. -/
theorem fails_of_meets {type target : FieldType} {value part : Value} (meets : type.Meets value target part)
    (fails : target.Fails part) : type.Fails value := by
  induction meets with
  | here => exact fails
  | present present below ih => exact fails_optional_iff.mpr ⟨present, ih fails⟩
  | boxed below ih => exact ih fails
  | item member below ih => exact fails_sequence_iff.mpr ⟨_, member, ih fails⟩
  | entry member below ih => exact fails_map_iff.mpr ⟨_, member, ih fails⟩

/-- Where a value is not read, a part of it is refused. -/
theorem exists_refused {type : FieldType} {value : Value} (fails : type.Fails value) :
    ∃ target part, type.Meets value target part ∧ target.Refuses part := by
  induction type generalizing value with
  | optional inner ih =>
    obtain ⟨present, fails⟩ := fails_optional_iff.mp fails
    obtain ⟨target, part, meets, refuses⟩ := ih fails
    exact ⟨target, part, .present present meets, refuses⟩
  | boxed inner ih =>
    obtain ⟨target, part, meets, refuses⟩ := ih fails
    exact ⟨target, part, .boxed meets, refuses⟩
  | sequence element ih =>
    cases value with
    | sequence items =>
      obtain ⟨item, member, fails⟩ := fails_sequence_iff.mp fails
      obtain ⟨target, part, meets, refuses⟩ := ih fails
      exact ⟨target, part, .item member meets, refuses⟩
    | _ => exact ⟨_, _, .here _ _, .inl (by simp [Accepts, Value.kind])⟩
  | map order element ih =>
    cases value with
    | mapping entries =>
      obtain ⟨entry, member, fails⟩ := fails_map_iff.mp fails
      obtain ⟨target, part, meets, refuses⟩ := ih fails
      exact ⟨target, part, .entry member meets, refuses⟩
    | _ => exact ⟨_, _, .here _ _, .inl (by simp [Accepts, Value.kind])⟩
  | _ =>
    -- The other types have no parts: the value itself is of a wrong kind or out of range.
    refine ⟨_, value, .here _ value, ?_⟩
    revert fails
    cases value <;>
      simp [Fails, ofValue, Refuses, Accepts, Value.kind, Value.number?, signedData_fails_iff, unsignedData_fails_iff]

/-- A value is refused exactly for a part that is of a wrong kind or out of range where it stands. -/
theorem fails_iff (type : FieldType) (value : Value) :
    type.Fails value ↔ ∃ target part, type.Meets value target part ∧ target.Refuses part :=
  ⟨exists_refused, fun ⟨_, _, meets, refuses⟩ => fails_of_meets meets (fails_of_refuses refuses)⟩

/-! ## Conversions without loss -/

/-- For a type without records: settled content is read back from its snapshot, what is read from a proper value is
settled content and shows the value it was read from, and a value is refused exactly for a part of a wrong kind or an
integer out of range. -/
theorem converts_back (catalog : Catalog) (type : FieldType) (plain : type.descriptor.holdsRecord = false) :
    (∀ data : Data, data.Fits catalog type → data.Settled catalog type →
      ∃ again, type.ofValue (data.snapshot catalog) = .ok again ∧ again.snapshot catalog = data.snapshot catalog) ∧
    (∀ (value : Value) (data : Data), value.Proper → type.ofValue value = .ok data →
      data.Fits catalog type ∧ data.Settled catalog type ∧ (data.snapshot catalog).Matches (type.rounding value)) ∧
    ∀ value : Value, (∃ fault, type.ofValue value = .error fault) ↔
      ∃ target part, type.Meets value target part ∧ target.Refuses part := by
  refine ⟨fun data fits settled => ?_, fun value data proper converted => ?_, type.fails_iff⟩
  · have recordless := Value.recordless_of_admits plain (Data.admits_snapshot fits)
    exact Data.restores_snapshot fits settled recordless
  · obtain ⟨fits, settled⟩ := type.ofValue_settled proper converted
    exact ⟨fits, settled, ofValue_matches catalog type proper converted⟩

/-- Small counts that may be missing, under names. -/
def tally : FieldType := .map .byKey (.optional (.signed .w8))

/-- Counts are read in whatever order they come and with whatever sign, and one that is too large is refused. -/
theorem tally_converts_back :
    let read := Data.mapping [("ada", .none), ("bob", .some (.int 7))]
    tally.ofValue (.mapping [("bob", .uint 7), ("ada", .null)]) = .ok read ∧
      (read.snapshot ⟨[]⟩).Matches (tally.rounding (.mapping [("bob", .uint 7), ("ada", .null)])) ∧
      (∃ again, tally.ofValue (read.snapshot ⟨[]⟩) = .ok again ∧ again.snapshot ⟨[]⟩ = read.snapshot ⟨[]⟩) ∧
      ∃ target part, tally.Meets (.mapping [("bob", .uint 200)]) target part ∧ target.Refuses part := by
  obtain ⟨restores, shows, refuses⟩ := converts_back ⟨[]⟩ tally rfl
  have small : signedData .w8 (7 : UInt64).toNat = .ok (.int 7) := if_pos (by decide)
  have large : signedData .w8 (200 : UInt64).toNat = .error (.outOfRange (toString (200 : Int)) "i8") :=
    if_neg (by decide)
  have counted : (optional (signed .w8)).ofValue (.uint 7) = .ok (.some (.int 7)) := by
    rw [ofValue_optional _ (fun same => by cases same), ofValue, small]
    rfl
  have uncounted : (optional (signed .w8)).ofValue (.uint 200) = .error (.outOfRange (toString (200 : Int)) "i8") := by
    rw [ofValue_optional _ (fun same => by cases same), ofValue, large]
    rfl
  have read : tally.ofValue (.mapping [("bob", .uint 7), ("ada", .null)]) =
      .ok (.mapping [("ada", .none), ("bob", .some (.int 7))]) := by
    rw [tally, ofValue, convertEntries, counted]
    rfl
  have refused : tally.ofValue (.mapping [("bob", .uint 200)]) = .error (.outOfRange (toString (200 : Int)) "i8") := by
    rw [tally, ofValue, convertEntries, uncounted]
    rfl
  have proper : (Value.mapping [("bob", .uint 7), ("ada", .null)]).Proper := by
    simp [Value.Proper, EntriesProper, Entries.Distinct, Entries.keys]
  obtain ⟨fits, settled, matched⟩ := shows _ _ proper read
  exact ⟨read, matched, restores _ fits settled, (refuses _).mp ⟨_, refused⟩⟩

end FieldType

end TaggedRecords
