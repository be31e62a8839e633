import Mathlib.Data.Prod.Lex
import Mathlib.Data.String.Basic
import Mathlib.Order.Compare
import Mathlib.Order.WithBot
import TaggedRecords.ValueOrder

/-!
# Where a value stands

The place of a value in a linear order: the rank of its kind, then its content where its kind has an order. Comparing
two values whose numbers are of one kind and no NaN is comparing their places.
-/

namespace TaggedRecords

/-- Pieces in dictionary order stay so when each is replaced by a number that grows with it. -/
theorem map_lt_map {α : Type} [LT α] {weigh : α → Int} (grows : ∀ a b, a < b → weigh a < weigh b) {as bs : List α}
    (smaller : as < bs) : as.map weigh < bs.map weigh := by
  induction smaller with
  | nil => exact .nil
  | cons _ ih => exact .cons ih
  | rel first => exact .rel (grows _ _ first)

/-- The kinds in the order that their values take among values of other kinds. Those of one group are mixed. -/
def Kind.groups : List (List Kind) :=
  [[.null, .delete], [.bool], [.int, .uint, .float], [.time], [.string], [.bytes], [.sequence], [.mapping, .record]]

/-- The number of the group that a kind belongs to. -/
def Kind.group (kind : Kind) : Nat := groups.findIdx fun group => group.contains kind

namespace Value

/-- Whether the value is a number. -/
def isNumber : Value → Bool
  | int _ => true
  | uint _ => true
  | float _ => true
  | _ => false

/-- Whether the value is a floating-point number that is none. -/
def isNaN : Value → Bool
  | float x => x.isNaN
  | _ => false

/-- A value of any kind, but if it is a number then one of the given kind and no NaN. -/
def Regular (kind : Kind) (value : Value) : Prop := value.isNumber = true → value.kind = kind ∧ value.isNaN = false

/-- What values of one kind are ordered by, the first number that differs deciding. Kinds without an order have
nothing, so that their values are tied. -/
def content : Value → List Int
  | bool b => [if b then 1 else 0]
  | int i => [i.toInt]
  | uint u => [(u.toNat : Int)]
  | float x => [x.place]
  | time t => [t.seconds, (t.nanos : Int)]
  | string text => text.toList.map fun c => (c.toNat : Int)
  | bytes octets => octets.map fun octet => (octet.toNat : Int)
  | _ => []

/-- Where a value stands: by the group of its kind, and within a group by its content. -/
def standing (value : Value) : Nat ×ₗ List Int := toLex (value.kind.group, value.content)

/-! ## Comparing contents -/

/-- What grows with the compared things compares like them. -/
theorem compares_map {α β : Type} [LinearOrder α] [LinearOrder β] {measure : α → β}
    (grows : ∀ a b, a < b → measure a < measure b) (a b : α) : (compare a b).Compares (measure a) (measure b) := by
  have increases : StrictMono measure := fun a b => grows a b
  rw [← cmp_eq_compare, ← increases.cmp_map_eq]
  exact cmp_compares _ _

theorem compares_int (i j : Int) : (compare i j).Compares i j :=
  compares_map (fun _ _ less => less) i j

theorem compares_nat (m n : Nat) : (compare m n).Compares (m : Int) (n : Int) :=
  compares_map (fun _ _ less => Int.ofNat_lt.mpr less) m n

theorem compares_truth (a b : Bool) : (compare a b).Compares (if a then (1 : Int) else 0) (if b then 1 else 0) := by
  have grows : ∀ a b : Bool, a < b → (if a then (1 : Int) else 0) < if b then 1 else 0 := by decide
  exact compares_map grows a b

theorem compares_cons {first rest : Ordering} {x y : Int} {xs ys : List Int} (head : first.Compares x y)
    (tail : rest.Compares xs ys) : (first.then rest).Compares (x :: xs) (y :: ys) := by
  cases first with
  | lt => exact List.Lex.rel head
  | gt => exact List.Lex.rel head
  | eq =>
    have same : x = y := head
    subst same
    cases rest with
    | lt => exact List.Lex.cons tail
    | gt => exact List.Lex.cons tail
    | eq => exact congrArg (x :: ·) tail

theorem compares_single {ordering : Ordering} {x y : Int} (compared : ordering.Compares x y) :
    ordering.Compares [x] [y] := by
  have tail : Ordering.eq.Compares ([] : List Int) [] := rfl
  have whole := compares_cons compared tail
  rwa [Ordering.then_eq] at whole

theorem compareOctets_compares (as bs : List UInt8) :
    (compareOctets as bs).Compares (content (.bytes as)) (content (.bytes bs)) := by
  induction as generalizing bs with
  | nil =>
    cases bs with
    | nil => exact rfl
    | cons b rest => exact List.Lex.nil
  | cons a rest ih =>
    cases bs with
    | nil => exact List.Lex.nil
    | cons b others => exact compares_cons (compares_nat a.toNat b.toNat) (ih others)

/-- Texts are compared by the numbers of their characters. -/
theorem compares_text (s t : String) : (compare s t).Compares (content (.string s)) (content (.string t)) := by
  have grows : ∀ s t : String, s < t → content (.string s) < content (.string t) := by
    intro s t smaller
    have codes : s.toList < t.toList := String.lt_iff_toList_lt.mp smaller
    refine map_lt_map (fun a b less => ?_) codes
    exact Int.ofNat_lt.mpr less
  exact compares_map grows s t

/-! ## Comparing values -/

theorem rank_eq_group (value : Value) : value.rank = value.kind.group := by
  cases value <;> rfl

theorem order_of_rank_ne {a b : Value} (differ : a.rank ≠ b.rank) : order a b = compare a.rank b.rank := by
  cases a <;> cases b <;> first | exact absurd rfl differ | rfl

/-- Within a rank the contents are compared. -/
theorem order_compares_content {kind : Kind} {a b : Value} (first : a.Regular kind) (second : b.Regular kind)
    (level : a.rank = b.rank) : (order a b).Compares a.content b.content := by
  have oneKind : a.isNumber = true → b.isNumber = true → a.kind = b.kind :=
    fun number other => (first number).1.trans (second other).1.symm
  cases a with
  | bool x =>
    cases b with
    | bool y => exact compares_single (compares_truth x y)
    | _ => cases level
  | int i =>
    cases b with
    | int j => exact compares_single (compares_int i.toInt j.toInt)
    | uint _ | float _ => cases oneKind rfl rfl
    | _ => cases level
  | uint u =>
    cases b with
    | uint v => exact compares_single (compares_nat u.toNat v.toNat)
    | int _ | float _ => cases oneKind rfl rfl
    | _ => cases level
  | float x =>
    cases b with
    | float y =>
      have number : x.isNaN = false := (first rfl).2
      have other : y.isNaN = false := (second rfl).2
      have compared : order (.float x) (.float y) = compare x.place y.place := by
        simp [order, order?, toBinary64?, Binary64.compare?, number, other]
      rw [compared]
      exact compares_single (compares_int x.place y.place)
    | int _ | uint _ => cases oneKind rfl rfl
    | _ => cases level
  | string x =>
    cases b with
    | string y => exact compares_text x y
    | _ => cases level
  | bytes xs =>
    cases b with
    | bytes ys => exact compareOctets_compares xs ys
    | _ => cases level
  | time s =>
    cases b with
    | time t =>
      exact compares_cons (compares_int s.seconds t.seconds)
        (compares_single (compares_nat s.nanos t.nanos))
    | _ => cases level
  | _ => cases b <;> first | exact rfl | cases level

/-- Values are compared by where they stand. -/
theorem order_compares {kind : Kind} {a b : Value} (first : a.Regular kind) (second : b.Regular kind) :
    (order a b).Compares a.standing b.standing := by
  rw [standing, standing, ← rank_eq_group, ← rank_eq_group]
  by_cases level : a.rank = b.rank
  · have compared := order_compares_content first second level
    cases ordering : order a b with
    | lt =>
      rw [ordering] at compared
      exact Prod.Lex.toLex_lt_toLex.mpr (.inr ⟨level, compared⟩)
    | gt =>
      rw [ordering] at compared
      exact Prod.Lex.toLex_lt_toLex.mpr (.inr ⟨level.symm, compared⟩)
    | eq =>
      rw [ordering] at compared
      have same : a.content = b.content := compared
      show toLex (a.rank, a.content) = toLex (b.rank, b.content)
      rw [level, same]
  · rw [order_of_rank_ne level]
    rcases Nat.lt_or_gt_of_ne level with lower | higher
    · rw [Nat.compare_eq_lt.mpr lower]
      exact Prod.Lex.toLex_lt_toLex.mpr (.inl lower)
    · rw [Nat.compare_eq_gt.mpr higher]
      exact Prod.Lex.toLex_lt_toLex.mpr (.inl higher)

end Value

end TaggedRecords
