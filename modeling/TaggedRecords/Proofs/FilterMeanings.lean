import Mathlib.Data.List.Forall2
import TaggedRecords.Proofs.Rounding
import TaggedRecords.Proofs.ValueRanking
import TaggedRecords.Query

/-!
# What filters mean

Values of one kind are compared by what they are, numbers of two kinds by what they become as floating-point numbers,
and other values of two kinds not at all. Values that are not compared may still be equal, part by part. A filter says of
the value at its path that it is level with the operand, below or above it, or equal to it, and some operators say it of
the items of the one or of the other.
-/

namespace TaggedRecords

/-- The kinds whose values are compared among themselves. -/
def Kind.compared : List Kind := [.null, .bool, .int, .uint, .float, .time, .string, .bytes]

namespace Value

/-- What a number is compared by across kinds. -/
def rounded (value : Value) : Int :=
  match value.toBinary64? with
  | some x => x.place
  | none => 0

/-- Two values that are compared, and what they are compared by. A NaN is not compared. -/
inductive Weighed (a b : Value) : List Int → List Int → Prop
  | within (compared : a.kind ∈ Kind.compared) (same : a.kind = b.kind) (clean : a.isNaN = false)
      (alsoClean : b.isNaN = false) : Weighed a b a.content b.content
  | across (first : a.isNumber = true) (second : b.isNumber = true) (differ : a.kind ≠ b.kind)
      (clean : a.isNaN = false) (alsoClean : b.isNaN = false) : Weighed a b [a.rounded] [b.rounded]

/-- The values are compared, and neither comes before the other. -/
def Level (a b : Value) : Prop := ∃ x, Weighed a b x x

/-- The values are compared, and the first comes before the second. -/
def Below (a b : Value) : Prop := ∃ x y, Weighed a b x y ∧ x < y

/-- The values are level, or of one kind that is not compared and the same part by part. -/
inductive EqualTo : Value → Value → Prop
  | level {a b : Value} (level : a.Level b) : EqualTo a b
  | delete : EqualTo .delete .delete
  | sequence {xs ys : List Value} (items : List.Forall₂ (fun x y => x.same y = true) xs ys) :
      EqualTo (.sequence xs) (.sequence ys)
  | mapping {xs ys : List (String × Value)} (length : xs.length = ys.length)
      (held : ∀ entry ∈ xs, ∃ other, Entries.get? ys entry.1 = some other ∧ entry.2.same other = true) :
      EqualTo (.mapping xs) (.mapping ys)
  | record {xs ys : List (String × Value)} (type : RecordType)
      (fields : List.Forall₂ (fun x y => x.1 = y.1 ∧ x.2.same y.2 = true) xs ys) :
      EqualTo (.record type xs) (.record type ys)

/-! ## Comparing values -/

variable {a b : Value}

theorem Weighed.symm {x y : List Int} (weighed : Weighed a b x y) : Weighed b a y x := by
  cases weighed with
  | within compared same clean alsoClean => exact .within (same ▸ compared) same.symm alsoClean clean
  | across first second differ clean alsoClean => exact .across second first differ.symm alsoClean clean

/-- Numbers of two kinds are compared as floating-point numbers. -/
theorem order?_across (first : a.isNumber = true) (second : b.isNumber = true) (differ : a.kind ≠ b.kind)
    (clean : a.isNaN = false) (alsoClean : b.isNaN = false) : order? a b = some (compare a.rounded b.rounded) := by
  have whole (i : Int) : (Binary64.ofInt i).isNaN = false := Binary64.isNaN_ofInt i
  cases a <;> cases b <;>
    simp_all [isNumber, isNaN, kind, order?, toBinary64?, Binary64.compare?, rounded]

/-- Values of one kind that is compared have an order, unless one of them is a NaN. -/
theorem order?_within (compared : a.kind ∈ Kind.compared) (same : a.kind = b.kind) (clean : a.isNaN = false)
    (alsoClean : b.isNaN = false) : order? a b = some (order a b) := by
  have some_of (there : (order? a b).isSome = true) : order? a b = some (order a b) := by
    obtain ⟨found, held⟩ := Option.isSome_iff_exists.mp there
    rw [order, held, Option.getD_some]
  apply some_of
  cases a with
  | float x =>
    cases b with
    | float y => simp_all [isNaN, order?, toBinary64?, Binary64.compare?]
    | _ => cases same
  | sequence _ | mapping _ | record _ _ | delete => simp [kind, Kind.compared] at compared
  | _ => cases b <;> first | rfl | cases same

theorem order?_of_weighed {x y : List Int} (weighed : Weighed a b x y) :
    ∃ found, order? a b = some found ∧ found.Compares x y := by
  cases weighed with
  | within compared same clean alsoClean =>
    have first : a.Regular a.kind := fun _ => ⟨rfl, clean⟩
    have second : b.Regular a.kind := fun _ => ⟨same.symm, alsoClean⟩
    have level : a.rank = b.rank := by rw [rank_eq_group, rank_eq_group, same]
    exact ⟨_, order?_within compared same clean alsoClean, order_compares_content first second level⟩
  | across first second differ clean alsoClean =>
    exact ⟨_, order?_across first second differ clean alsoClean, compares_single (compares_int a.rounded b.rounded)⟩

theorem order?_of_isNaN (nothing : a.isNaN = true ∨ b.isNaN = true) : order? a b = none := by
  cases a <;> cases b <;> simp_all [isNaN, order?, toBinary64?, Binary64.compare?]

theorem isNumber_of_order? {found : Ordering} (held : order? a b = some found) (differ : a.kind ≠ b.kind) :
    a.isNumber = true ∧ b.isNumber = true := by
  cases a <;> cases b <;> first | exact ⟨rfl, rfl⟩ | exact absurd rfl differ | cases held

theorem compared_of_order? {found : Ordering} (held : order? a b = some found) : a.kind ∈ Kind.compared := by
  cases a with
  | sequence _ | mapping _ | record _ _ | delete => cases b <;> cases held
  | _ => simp [kind, Kind.compared]

theorem weighed_of_order? {found : Ordering} (held : order? a b = some found) : ∃ x y, Weighed a b x y := by
  have clean : ¬ (a.isNaN = true ∨ b.isNaN = true) := fun nothing => by
    rw [order?_of_isNaN nothing] at held
    cases held
  rw [not_or, Bool.not_eq_true, Bool.not_eq_true] at clean
  by_cases same : a.kind = b.kind
  · exact ⟨_, _, .within (compared_of_order? held) same clean.1 clean.2⟩
  · obtain ⟨first, second⟩ := isNumber_of_order? held same
    exact ⟨_, _, .across first second same clean.1 clean.2⟩

/-- What the order of two values says of what they are compared by. -/
theorem order?_eq_some_iff_weighed {found : Ordering} :
    order? a b = some found ↔ ∃ x y, Weighed a b x y ∧ found.Compares x y := by
  constructor
  · intro held
    obtain ⟨x, y, weighed⟩ := weighed_of_order? held
    obtain ⟨other, alsoHeld, compares⟩ := order?_of_weighed weighed
    cases held.symm.trans alsoHeld
    exact ⟨x, y, weighed, compares⟩
  · rintro ⟨x, y, weighed, compares⟩
    obtain ⟨other, held, alsoCompares⟩ := order?_of_weighed weighed
    rw [held, compares.inj alsoCompares]

theorem order?_eq_some_eq_iff : order? a b = some .eq ↔ a.Level b := by
  rw [order?_eq_some_iff_weighed]
  constructor
  · rintro ⟨x, y, weighed, same⟩
    cases show x = y from same
    exact ⟨x, weighed⟩
  · rintro ⟨x, weighed⟩
    exact ⟨x, x, weighed, rfl⟩

theorem order?_eq_some_lt_iff : order? a b = some .lt ↔ a.Below b :=
  order?_eq_some_iff_weighed

theorem order?_eq_some_gt_iff : order? a b = some .gt ↔ b.Below a := by
  rw [order?_eq_some_iff_weighed]
  constructor
  · rintro ⟨x, y, weighed, less⟩
    exact ⟨y, x, weighed.symm, less⟩
  · rintro ⟨y, x, weighed, less⟩
    exact ⟨x, y, weighed.symm, less⟩

/-! ## Equal values -/

theorem same_of_kind_ne (differ : a.kind ≠ b.kind) : a.same b = false := by
  cases a <;> cases b <;> first | exact absurd rfl differ | simp [same]

theorem sameItems_iff {xs ys : List Value} :
    sameItems xs ys = true ↔ List.Forall₂ (fun x y => x.same y = true) xs ys := by
  induction xs generalizing ys with
  | nil => cases ys <;> simp [sameItems]
  | cons x xs ih => cases ys <;> simp [sameItems, ih]

theorem sameFields_iff {xs ys : List (String × Value)} :
    sameFields xs ys = true ↔ List.Forall₂ (fun x y => x.1 = y.1 ∧ x.2.same y.2 = true) xs ys := by
  induction xs generalizing ys with
  | nil => cases ys <;> simp [sameFields]
  | cons x xs ih =>
    cases ys with
    | nil => simp [sameFields]
    | cons y ys =>
      obtain ⟨⟨name, value⟩, ⟨other, item⟩⟩ := x, y
      simp [sameFields, ih, and_assoc]

theorem heldBy_iff {xs ys : List (String × Value)} : heldBy xs ys = true ↔
    ∀ entry ∈ xs, ∃ other, Entries.get? ys entry.1 = some other ∧ entry.2.same other = true := by
  induction xs with
  | nil => simp [heldBy]
  | cons entry rest ih =>
    obtain ⟨key, value⟩ := entry
    rw [heldBy, Bool.and_eq_true, ih, List.forall_mem_cons]
    refine and_congr_left fun _ => ?_
    cases found : Entries.get? ys key with
    | none => simp
    | some other => simp

/-- Values that are not compared are the same exactly if they are equal. -/
theorem same_iff_equalTo (uncompared : order? a b = none) : a.same b = true ↔ a.EqualTo b := by
  constructor
  · intro same
    have kinds : a.kind = b.kind := by
      by_contra differ
      rw [same_of_kind_ne differ] at same
      cases same
    cases a with
    | sequence xs =>
      cases b with
      | sequence ys => exact .sequence (sameItems_iff.mp (by simpa [Value.same] using same))
      | _ => cases kinds
    | mapping xs =>
      cases b with
      | mapping ys =>
        obtain ⟨length, held⟩ : xs.length = ys.length ∧ heldBy xs ys = true := by simpa [Value.same] using same
        exact .mapping length (heldBy_iff.mp held)
      | _ => cases kinds
    | record type xs =>
      cases b with
      | record other ys =>
        obtain ⟨rfl, fields⟩ : type = other ∧ sameFields xs ys = true := by simpa [Value.same] using same
        exact .record type (sameFields_iff.mp fields)
      | _ => cases kinds
    | float x =>
      cases b with
      | float y =>
        have unordered : x.compare? y = none := uncompared
        simp [Value.same, Binary64.same, unordered] at same
      | _ => cases kinds
    | delete =>
      cases b with
      | delete => exact .delete
      | _ => cases kinds
    | _ => cases b <;> first | cases kinds; done | cases uncompared
  · intro equal
    cases equal with
    | level level =>
      rw [order?_eq_some_eq_iff.mpr level] at uncompared
      cases uncompared
    | delete => simp [Value.same]
    | sequence items => simpa [Value.same] using sameItems_iff.mpr items
    | mapping length held => simpa [Value.same, length] using heldBy_iff.mpr held
    | record type fields => simpa [Value.same] using sameFields_iff.mpr fields

theorem equals_iff_equalTo : a.equals b = true ↔ a.EqualTo b := by
  cases held : order? a b with
  | none =>
    rw [equals, held]
    exact same_iff_equalTo held
  | some found =>
    rw [equals, held]
    change (found == .eq) = true ↔ a.EqualTo b
    constructor
    · intro level
      obtain rfl : found = .eq := eq_of_beq level
      exact .level (order?_eq_some_eq_iff.mp held)
    · intro equal
      cases equal with
      | level level =>
        cases held.symm.trans (order?_eq_some_eq_iff.mpr level)
        rfl
      | delete | sequence _ | mapping _ _ | record _ _ => cases held

end Value

/-! ## Operators -/

namespace FilterOp

/-- The values of a field that an operator looks at: the items for the operators on lists. -/
def fieldSide (op : FilterOp) (value : Value) : List Value :=
  match op with
  | .contains | .containsAny => value.items
  | _ => [value]

/-- The values of an operand that an operator looks at: the items for the operators with several operands. -/
def operandSide (op : FilterOp) (value : Value) : List Value :=
  match op with
  | .oneOf | .noneOf | .containsAny => value.items
  | _ => [value]

/-- What an operator says of its two sides, by what counts as equal, as level and as less. -/
def Relates (op : FilterOp) (equal level less : Value → Value → Prop) (field operand : List Value) : Prop :=
  match op with
  | .equal | .oneOf | .contains | .containsAny => ∃ a ∈ field, ∃ b ∈ operand, equal a b
  | .notEqual | .noneOf => ¬ ∃ a ∈ field, ∃ b ∈ operand, equal a b
  | .less => ∃ a ∈ field, ∃ b ∈ operand, less a b
  | .atMost => ∃ a ∈ field, ∃ b ∈ operand, less a b ∨ level a b
  | .greater => ∃ a ∈ field, ∃ b ∈ operand, less b a
  | .atLeast => ∃ a ∈ field, ∃ b ∈ operand, less b a ∨ level a b

end FilterOp

section
variable {order : Option Ordering}

theorem ordered_beq_iff {wanted : Ordering} :
    ordered order (fun found => found == wanted) = true ↔ order = some wanted := by
  cases order <;> simp [ordered]

theorem ordered_ne_gt_iff :
    ordered order (fun found => found != .gt) = true ↔ order = some .lt ∨ order = some .eq := by
  cases order with
  | none => simp [ordered]
  | some found => cases found <;> simp [ordered]

theorem ordered_ne_lt_iff :
    ordered order (fun found => found != .lt) = true ↔ order = some .gt ∨ order = some .eq := by
  cases order with
  | none => simp [ordered]
  | some found => cases found <;> simp [ordered]

end

/-- A check of items finds one exactly if one is as it says. -/
theorem any_iff_exists {items : List Value} {check : Value → Bool} {holds : Value → Prop}
    (agree : ∀ item ∈ items, (check item = true ↔ holds item)) :
    items.any check = true ↔ ∃ item ∈ items, holds item := by
  rw [List.any_eq_true]
  exact exists_congr fun item => and_congr_right (agree item)

namespace Filter

/-- A filter accepts a value exactly if its operator says so of the two sides, whatever tells how the values of these
compare. -/
theorem accepts_iff_relates {filter : Filter} {value : Value} {equal level less : Value → Value → Prop}
    (same : ∀ a ∈ filter.op.fieldSide value, ∀ b ∈ filter.op.operandSide filter.operand,
      (a.equals b = true ↔ equal a b))
    (compared : ∀ a ∈ filter.op.fieldSide value, ∀ b ∈ filter.op.operandSide filter.operand,
      (a.order? b = some .eq ↔ level a b) ∧ (a.order? b = some .lt ↔ less a b) ∧
        (a.order? b = some .gt ↔ less b a)) :
    filter.accepts value = true ↔ filter.op.Relates equal level less (filter.op.fieldSide value)
      (filter.op.operandSide filter.operand) := by
  obtain ⟨path, op, operand⟩ := filter
  have one {a : Value} (holds : Value → Prop) : holds a ↔ ∃ x ∈ [a], holds x := by simp
  have both {a b : Value} (relation : Value → Value → Prop) :
      relation a b ↔ ∃ x ∈ [a], ∃ y ∈ [b], relation x y := by simp
  have negated {check : Bool} {meaning : Prop} (agree : check = true ↔ meaning) : (!check) = true ↔ ¬ meaning := by
    rw [← agree, Bool.not_eq_true', Bool.not_eq_true]
  have here := List.mem_singleton_self value
  have there := List.mem_singleton_self operand
  cases op with
  | equal => exact (same value here operand there).trans (both equal)
  | notEqual => exact negated ((same value here operand there).trans (both equal))
  | less =>
    obtain ⟨-, below, -⟩ := compared value here operand there
    exact ordered_beq_iff.trans (below.trans (both less))
  | atMost =>
    obtain ⟨tied, below, -⟩ := compared value here operand there
    exact ordered_ne_gt_iff.trans ((or_congr below tied).trans (both fun a b => less a b ∨ level a b))
  | greater =>
    obtain ⟨-, -, above⟩ := compared value here operand there
    exact ordered_beq_iff.trans (above.trans (both fun a b => less b a))
  | atLeast =>
    obtain ⟨tied, -, above⟩ := compared value here operand there
    exact ordered_ne_lt_iff.trans ((or_congr above tied).trans (both fun a b => less b a ∨ level a b))
  | oneOf => exact (any_iff_exists (same value here)).trans (one fun a => ∃ b ∈ operand.items, equal a b)
  | noneOf => exact negated ((any_iff_exists (same value here)).trans (one fun a => ∃ b ∈ operand.items, equal a b))
  | contains => exact any_iff_exists fun item inside => (same item inside operand there).trans (one (equal item))
  | containsAny => exact any_iff_exists fun item inside => any_iff_exists (same item inside)

/-- What a filter says of a value: what its operator says of the sides, values being equal, level or one below the other
by what they are. -/
def FulfilledBy (filter : Filter) (value : Value) : Prop :=
  filter.op.Relates Value.EqualTo Value.Level Value.Below (filter.op.fieldSide value)
    (filter.op.operandSide filter.operand)

theorem accepts_iff_fulfilledBy {filter : Filter} {value : Value} :
    filter.accepts value = true ↔ filter.FulfilledBy value :=
  accepts_iff_relates (fun _ _ _ _ => Value.equals_iff_equalTo)
    fun _ _ _ _ => ⟨Value.order?_eq_some_eq_iff, Value.order?_eq_some_lt_iff, Value.order?_eq_some_gt_iff⟩

end Filter

end TaggedRecords
