import TaggedRecords.Proofs.FilterMeanings
import TaggedRecords.Proofs.RoundedIntegers

/-!
# Filters on integers

Integers are compared exactly within their kind. An integer of the signed kind and one of the unsigned kind are compared
as floating-point numbers, which keeps their order but ties two that have the same nearest multiple of 53 binary digits.
So a filter with integers for its operand decides by the integers in the field as long as none of them is tied with an
integer of the operand that it differs from.
-/

namespace TaggedRecords

namespace Value

/-! ## Comparing integers -/

/-- The integer that a value of one of the two integer kinds is. -/
def integer? : Value → Option Int
  | int i => some i.toInt
  | uint u => some u.toNat
  | _ => none

/-- Two different integers of different kinds with the same nearest multiple of 53 binary digits. -/
def Merges (a b : Value) : Prop :=
  a.kind ≠ b.kind ∧ ∃ i j, a.integer? = some i ∧ b.integer? = some j ∧ i ≠ j ∧
    Binary64.nearestInteger i = Binary64.nearestInteger j

variable {a b : Value} {i j : Int}

theorem integer?_natAbs_lt (whole : a.integer? = some i) : i.natAbs < 2 ^ 64 := by
  cases a with
  | int n =>
    cases whole
    have low := n.le_toInt
    have high := n.toInt_lt
    omega
  | uint n =>
    cases whole
    have high := n.toNat_lt
    omega
  | _ => cases whole

/-- Numbers that are merged are large, and close to each other. -/
theorem Merges.close (merges : a.Merges b) (first : a.integer? = some i) (second : b.integer? = some j) :
    2 ^ 53 ≤ i ∧ 2 ^ 53 ≤ j ∧ (i - j).natAbs ≤ 2 ^ 11 := by
  obtain ⟨kinds, i', j', first', second', differ, same⟩ := merges
  cases first.symm.trans first'
  cases second.symm.trans second'
  obtain ⟨side, large, alsoLarge, close⟩ :=
    Binary64.close_of_nearestInteger_eq differ same (integer?_natAbs_lt first) (integer?_natAbs_lt second)
  -- One of the two is unsigned, and so neither is negative.
  have positive : 0 ≤ i ∨ 0 ≤ j := by
    cases a with
    | uint n =>
      cases first
      exact .inl (Int.natCast_nonneg _)
    | int n =>
      cases b with
      | uint m =>
        cases second
        exact .inr (Int.natCast_nonneg _)
      | int m => exact absurd rfl kinds
      | _ => cases second
    | _ => cases first
  omega

theorem Merges.symm (merges : a.Merges b) : b.Merges a := by
  obtain ⟨kinds, i, j, first, second, differ, same⟩ := merges
  exact ⟨kinds.symm, j, i, second, first, differ.symm, same.symm⟩

/-- Integers of one kind are compared by what they are, integers of two kinds by what they become. -/
theorem order?_integers (first : a.integer? = some i) (second : b.integer? = some j) :
    order? a b = some (if a.kind = b.kind then compare i j
      else compare (Binary64.ofInt i).place (Binary64.ofInt j).place) := by
  have whole (k : Int) : (Binary64.ofInt k).isNaN = false := Binary64.isNaN_ofInt k
  cases a with
  | int n =>
    cases first
    cases b with
    | int m =>
      cases second
      rfl
    | uint m =>
      cases second
      simp [order?, toBinary64?, Binary64.compare?, whole, kind]
    | _ => cases second
  | uint n =>
    cases first
    cases b with
    | int m =>
      cases second
      simp [order?, toBinary64?, Binary64.compare?, whole, kind]
    | uint m =>
      cases second
      have level := (compares_nat n.toNat m.toNat).cmp_eq
      rw [cmp_eq_compare] at level
      exact congrArg some level.symm
    | _ => cases second
  | _ => cases first

/-- Merged integers are tied. -/
theorem order?_of_merges (merges : a.Merges b) : order? a b = some .eq := by
  obtain ⟨kinds, i, j, first, second, -, same⟩ := merges
  have level := Binary64.place_ofInt_eq_iff (integer?_natAbs_lt first) (integer?_natAbs_lt second)
  rw [order?_integers first second, if_neg kinds, Int.compare_eq_eq.mpr (level.mpr same)]

/-- Integers that are not merged are compared exactly. -/
theorem order?_of_not_merges (apart : ¬ a.Merges b) (first : a.integer? = some i) (second : b.integer? = some j) :
    order? a b = some (compare i j) := by
  rw [order?_integers first second]
  by_cases kinds : a.kind = b.kind
  · rw [if_pos kinds]
  · rw [if_neg kinds]
    have level := Binary64.place_ofInt_eq_iff (integer?_natAbs_lt first) (integer?_natAbs_lt second)
    have exactly (same : (Binary64.ofInt i).place = (Binary64.ofInt j).place) : i = j := by
      by_contra differ
      exact apart ⟨kinds, i, j, first, second, differ, level.mp same⟩
    refine congrArg some ?_
    rcases lt_trichotomy i j with less | same | more
    · have strict : (Binary64.ofInt i).place < (Binary64.ofInt j).place :=
        lt_of_le_of_ne (Binary64.place_ofInt_mono less.le) fun same => less.ne (exactly same)
      rw [Int.compare_eq_lt.mpr strict, Int.compare_eq_lt.mpr less]
    · rw [same, Int.compare_eq_eq.mpr rfl, Int.compare_eq_eq.mpr rfl]
    · have strict : (Binary64.ofInt j).place < (Binary64.ofInt i).place :=
        lt_of_le_of_ne (Binary64.place_ofInt_mono more.le) fun same => more.ne (exactly same.symm).symm
      rw [Int.compare_eq_gt.mpr strict, Int.compare_eq_gt.mpr more]

/-! ## Equal and smaller integers -/

/-- The values are integers, and the same one. -/
def SameInteger (a b : Value) : Prop := ∃ i, a.integer? = some i ∧ b.integer? = some i

/-- The values are integers, the first less than the second. -/
def LessInteger (a b : Value) : Prop := ∃ i j, a.integer? = some i ∧ b.integer? = some j ∧ i < j

/-- The store takes the values for the same integer. -/
def TakenSame (a b : Value) : Prop := a.SameInteger b ∨ a.Merges b

/-- The store takes the first value for an integer less than the second. -/
def TakenLess (a b : Value) : Prop := a.LessInteger b ∧ ¬ a.Merges b

/-- Only numbers are comparable with an integer. -/
theorem order?_of_not_integer (none_held : a.integer? = none) (clean : a.kind ≠ .float) (second : b.integer? = some j) :
    order? a b = none ∧ a.same b = false := by
  cases b with
  | int m =>
    cases a with
    | int n | uint n => cases none_held
    | float x => exact absurd rfl clean
    | _ => exact ⟨rfl, by simp [Value.same]⟩
  | uint m =>
    cases a with
    | int n | uint n => cases none_held
    | float x => exact absurd rfl clean
    | _ => exact ⟨rfl, by simp [Value.same]⟩
  | _ => cases second

/-- How any value but a floating-point number compares with an integer. -/
theorem order?_eq_some_iff (clean : a.kind ≠ .float) (second : b.integer? = some j) :
    (order? a b = some .eq ↔ a.TakenSame b) ∧ (order? a b = some .lt ↔ a.TakenLess b) ∧
      (order? a b = some .gt ↔ b.TakenLess a) := by
  cases held : a.integer? with
  | none =>
    have nothing {i : Int} (first : a.integer? = some i) : False := by
      rw [held] at first
      cases first
    have never (order : Ordering) {meaning : Prop} (unmet : ¬ meaning) : (order? a b = some order ↔ meaning) := by
      rw [(order?_of_not_integer held clean second).1]
      exact iff_of_false (Option.some_ne_none order).symm unmet
    refine ⟨never .eq ?_, never .lt ?_, never .gt ?_⟩
    · rintro (⟨i, first, _⟩ | ⟨_, i, _, first, _⟩)
      · exact nothing first
      · exact nothing first
    · rintro ⟨⟨i, _, first, _⟩, _⟩
      exact nothing first
    · rintro ⟨⟨_, i, _, first, _⟩, _⟩
      exact nothing first
  | some i =>
    have same : a.SameInteger b ↔ i = j := by
      simp [SameInteger, held, second, eq_comm]
    have less : a.LessInteger b ↔ i < j := by
      simp [LessInteger, held, second]
    have more : b.LessInteger a ↔ j < i := by
      simp [LessInteger, held, second]
    have turned : b.Merges a ↔ a.Merges b := ⟨Merges.symm, Merges.symm⟩
    rw [TakenSame, TakenLess, TakenLess, same, less, more, turned]
    by_cases merges : a.Merges b
    · simp [order?_of_merges merges, merges]
    · simp [order?_of_not_merges merges held second, merges, Int.compare_eq_lt, Int.compare_eq_gt]

theorem equals_iff (clean : a.kind ≠ .float) (second : b.integer? = some j) : a.equals b = true ↔ a.TakenSame b := by
  rw [← (order?_eq_some_iff clean second).1, equals]
  cases held : a.integer? with
  | none =>
    obtain ⟨unordered, apart⟩ := order?_of_not_integer held clean second
    simp [unordered, apart]
  | some i => simp [order?_integers held second]

end Value

/-! ## Filters -/

namespace FilterOp

/-- What an operator says of its two sides, by what counts as the same and what as less. -/
def Says (op : FilterOp) (same less : Value → Value → Prop) (field operand : List Value) : Prop :=
  match op with
  | .equal | .oneOf | .contains | .containsAny => ∃ a ∈ field, ∃ b ∈ operand, same a b
  | .notEqual | .noneOf => ¬ ∃ a ∈ field, ∃ b ∈ operand, same a b
  | .less => ∃ a ∈ field, ∃ b ∈ operand, less a b
  | .atMost => ∃ a ∈ field, ∃ b ∈ operand, less a b ∨ same a b
  | .greater => ∃ a ∈ field, ∃ b ∈ operand, less b a
  | .atLeast => ∃ a ∈ field, ∃ b ∈ operand, less b a ∨ same a b

variable {same less same' less' : Value → Value → Prop} {field operand : List Value}

/-- The operators on integers take what is level for equal. -/
theorem says_iff_relates (op : FilterOp) : op.Says same less field operand ↔ op.Relates same same less field operand := by
  cases op <;> exact Iff.rfl

/-- What an operator says depends on how the values of the two sides compare. -/
theorem says_congr (op : FilterOp) (level : ∀ a ∈ field, ∀ b ∈ operand, (same a b ↔ same' a b))
    (below : ∀ a ∈ field, ∀ b ∈ operand, (less a b ↔ less' a b))
    (above : ∀ a ∈ field, ∀ b ∈ operand, (less b a ↔ less' b a)) :
    op.Says same less field operand ↔ op.Says same' less' field operand := by
  have pairs {relation relation' : Value → Value → Prop}
      (agree : ∀ a ∈ field, ∀ b ∈ operand, (relation a b ↔ relation' a b)) :
      (∃ a ∈ field, ∃ b ∈ operand, relation a b) ↔ ∃ a ∈ field, ∃ b ∈ operand, relation' a b :=
    exists_congr fun a => and_congr_right fun inside =>
      exists_congr fun b => and_congr_right fun alsoInside => agree a inside b alsoInside
  cases op with
  | equal | oneOf | contains | containsAny => exact pairs level
  | notEqual | noneOf => exact not_congr (pairs level)
  | less => exact pairs below
  | greater => exact pairs above
  | atMost =>
    exact pairs fun a inside b alsoInside => or_congr (below a inside b alsoInside) (level a inside b alsoInside)
  | atLeast =>
    exact pairs fun a inside b alsoInside => or_congr (above a inside b alsoInside) (level a inside b alsoInside)

end FilterOp

/-! ## What filters accept -/

/-- On integers an operator says what the store takes to be the same and to be less. -/
theorem Filter.accepts_iff {filter : Filter} {value : Value}
    (integers : ∀ b ∈ filter.op.operandSide filter.operand, b.integer? ≠ none)
    (clean : ∀ a ∈ filter.op.fieldSide value, a.kind ≠ .float) :
    filter.accepts value = true ↔ filter.op.Says Value.TakenSame Value.TakenLess (filter.op.fieldSide value)
      (filter.op.operandSide filter.operand) := by
  rw [filter.op.says_iff_relates]
  refine Filter.accepts_iff_relates (fun a inside b alsoInside => ?_) fun a inside b alsoInside => ?_
  · obtain ⟨j, held⟩ := Option.ne_none_iff_exists'.mp (integers b alsoInside)
    exact Value.equals_iff (clean a inside) held
  · obtain ⟨j, held⟩ := Option.ne_none_iff_exists'.mp (integers b alsoInside)
    exact Value.order?_eq_some_iff (clean a inside) held

namespace Filter

/-- The operand is an integer, or a list of integers for the operators with several operands. -/
def OfIntegers (filter : Filter) : Prop := ∀ b ∈ filter.op.operandSide filter.operand, b.integer? ≠ none

/-- The filter looks at the value in the document. -/
def Reads (filter : Filter) (document : Document) (value : Value) : Prop :=
  ∃ field, Document.lookup? document filter.path = some field ∧ value ∈ filter.op.fieldSide field

/-- The document has a value of which the operator says what the filter asks for. -/
def Holds (filter : Filter) (same less : Value → Value → Prop) (document : Document) : Prop :=
  ∃ field, Document.lookup? document filter.path = some field ∧
    filter.op.Says same less (filter.op.fieldSide field) (filter.op.operandSide filter.operand)

theorem matches_eq_true_iff {filter : Filter} {document : Document} :
    filter.matches document = true ↔
      ∃ field, Document.lookup? document filter.path = some field ∧ filter.accepts field = true := by
  rw [Filter.matches, Option.any_eq_true]

/-- Two integers are compared exactly unless they are merged. Merged ones are tied; they are of different kinds, both at
least 2 to the 53, and close to each other. So a filter with integers for its operand decides by the integers that it
reads, taking merged ones for the same, and exactly by the integers if it reads none that is merged with its operand. -/
theorem decides_by_integers (filter : Filter) (document : Document) (integers : filter.OfIntegers)
    (clean : ∀ a, filter.Reads document a → a.kind ≠ .float) :
    (∀ (a b : Value) (i j : Int), a.integer? = some i → b.integer? = some j →
      (¬ a.Merges b → a.order? b = some (compare i j)) ∧
      (a.Merges b → a.order? b = some .eq ∧ a.kind ≠ b.kind ∧ 2 ^ 53 ≤ i ∧ 2 ^ 53 ≤ j ∧ (i - j).natAbs ≤ 2 ^ 11)) ∧
    (filter.matches document = true ↔ filter.Holds Value.TakenSame Value.TakenLess document) ∧
    ((∀ a, filter.Reads document a → ∀ b ∈ filter.op.operandSide filter.operand, ¬ a.Merges b) →
      (filter.matches document = true ↔ filter.Holds Value.SameInteger Value.LessInteger document)) := by
  have taken : filter.matches document = true ↔ filter.Holds Value.TakenSame Value.TakenLess document :=
    matches_eq_true_iff.trans (exists_congr fun field => and_congr_right fun held =>
      accepts_iff integers fun a inside => clean a ⟨field, held, inside⟩)
  refine ⟨fun a b i j first second => ⟨fun apart => Value.order?_of_not_merges apart first second, fun merges => ?_⟩,
    taken, fun sharp => taken.trans (exists_congr fun field => and_congr_right fun held => ?_)⟩
  · exact ⟨Value.order?_of_merges merges, merges.1, merges.close first second⟩
  · refine filter.op.says_congr ?_ ?_ ?_
    · intro a inside b alsoInside
      exact or_iff_left (sharp a ⟨field, held, inside⟩ b alsoInside)
    · intro a inside b alsoInside
      exact and_iff_left (sharp a ⟨field, held, inside⟩ b alsoInside)
    · intro a inside b alsoInside
      exact and_iff_left fun merges => sharp a ⟨field, held, inside⟩ b alsoInside merges.symm

/-- Two to the 53 is taken for the integer above it, and both are told from that integer's negative. -/
theorem counts_decided :
    ¬ (Value.int 9007199254740993).SameInteger (.uint 9007199254740992) ∧
    Filter.matches ⟨"n", .equal, .uint 9007199254740992⟩ [("n", .int 9007199254740993)] = true ∧
    Filter.matches ⟨"n", .greater, .int (-9007199254740993)⟩ [("n", .uint 9007199254740992)] = true := by
  have looked (op : FilterOp) (operand held a : Value) (single : op.fieldSide held = [held])
      (read : Filter.Reads ⟨"n", op, operand⟩ [("n", held)] a) : a = held := by
    obtain ⟨field, found, inside⟩ := read
    have stored : Document.lookup? [("n", held)] "n" = some held := rfl
    cases stored.symm.trans found
    rw [single] at inside
    exact List.mem_singleton.mp inside
  refine ⟨?_, ?_, ?_⟩
  · rintro ⟨i, first, second⟩
    cases first
    exact absurd second (by decide)
  · have merges : (Value.int 9007199254740993).Merges (.uint 9007199254740992) :=
      ⟨by decide, 9007199254740993, 9007199254740992, rfl, rfl, by decide, by decide +kernel⟩
    obtain ⟨-, taken, -⟩ := decides_by_integers ⟨"n", .equal, .uint 9007199254740992⟩
      [("n", .int 9007199254740993)] (by simp [OfIntegers, FilterOp.operandSide, Value.integer?])
      fun a read => by
        rw [looked .equal _ _ a rfl read]
        decide
    exact taken.mpr ⟨.int 9007199254740993, rfl, _, List.mem_singleton.mpr rfl, _, List.mem_singleton.mpr rfl,
      .inr merges⟩
  · obtain ⟨-, -, exactly⟩ := decides_by_integers ⟨"n", .greater, .int (-9007199254740993)⟩
      [("n", .uint 9007199254740992)] (by simp [OfIntegers, FilterOp.operandSide, Value.integer?])
      fun a read => by
        rw [looked .greater _ _ a rfl read]
        decide
    refine (exactly fun a read b inside merges => ?_).mpr ⟨.uint 9007199254740992, rfl, _,
      List.mem_singleton.mpr rfl, _, List.mem_singleton.mpr rfl, _, _, rfl, rfl, by decide⟩
    -- A negative integer is merged with none.
    obtain rfl := looked .greater _ _ a rfl read
    obtain rfl := List.mem_singleton.mp inside
    have large := (merges.close rfl rfl).2.1
    exact absurd large (by decide)

end Filter

end TaggedRecords
