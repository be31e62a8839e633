import TaggedRecords.Proofs.DocumentRanking
import TaggedRecords.Proofs.FilterMeanings

/-!
# Blurred numbers

Numbers of one kind are compared exactly, numbers of two kinds as floating-point numbers, and a NaN is tied with every
number. So one number may be tied with two others that are apart: it blurs them. Apart from that the order of values is
a total preorder, and the order of a query is one on documents as long as none of them blurs two others.
-/

namespace TaggedRecords

namespace Value

/-! ## Comparing numbers -/

/-- What a number is compared by within its kind. -/
def measure : Value → Int
  | int i => i.toInt
  | uint u => u.toNat
  | float x => x.place
  | _ => 0

variable {a b c : Value}

theorem isNumber_iff_rank : a.isNumber = true ↔ a.rank = 2 := by
  cases a <;> simp [isNumber, rank]

/-- The numbers have a rank of their own. -/
theorem isNumber_of_rank_eq (level : a.rank = b.rank) {number : Bool} (same : a.isNumber = number) :
    b.isNumber = number := by
  rw [← same, Bool.eq_iff_iff, isNumber_iff_rank, isNumber_iff_rank, level]

theorem isNumber_of_isNaN (nothing : a.isNaN = true) : a.isNumber = true := by
  cases a with
  | float x => rfl
  | _ => cases nothing

theorem order_of_isNaN (first : a.isNumber = true) (second : b.isNumber = true)
    (nothing : a.isNaN = true ∨ b.isNaN = true) : order a b = .eq := by
  rw [order, order?_of_isNaN nothing, isNumber_iff_rank.mp first, isNumber_iff_rank.mp second]
  rfl

theorem order_of_kind_eq (first : a.isNumber = true) (clean : a.isNaN = false) (alsoClean : b.isNaN = false)
    (same : a.kind = b.kind) : order a b = compare a.measure b.measure := by
  cases a with
  | int i =>
    cases b with
    | int j => rfl
    | _ => cases same
  | uint u =>
    cases b with
    | uint v => exact ((compares_nat u.toNat v.toNat).cmp_eq).symm.trans (cmp_eq_compare _ _)
    | _ => cases same
  | float x =>
    cases b with
    | float y =>
      have number : x.isNaN = false := clean
      have other : y.isNaN = false := alsoClean
      simp [order, order?, toBinary64?, Binary64.compare?, measure, number, other]
    | _ => cases same
  | _ => cases first

theorem order_of_kind_ne (first : a.isNumber = true) (second : b.isNumber = true) (clean : a.isNaN = false)
    (alsoClean : b.isNaN = false) (differ : a.kind ≠ b.kind) : order a b = compare a.rounded b.rounded := by
  rw [order, order?_across first second differ clean alsoClean, Option.getD_some]

/-- Rounding keeps the order within a kind. -/
theorem rounded_le_rounded (first : a.isNumber = true) (same : a.kind = b.kind) (less : a.measure ≤ b.measure) :
    a.rounded ≤ b.rounded := by
  cases a with
  | int i =>
    cases b with
    | int j => exact Binary64.place_ofInt_mono less
    | _ => cases same
  | uint u =>
    cases b with
    | uint v => exact Binary64.place_ofInt_mono less
    | _ => cases same
  | float x =>
    cases b with
    | float y => exact less
    | _ => cases same
  | _ => cases first

/-- Numbers in their order are so when they are rounded. -/
theorem rounded_le_of_isLE (first : a.isNumber = true) (second : b.isNumber = true) (clean : a.isNaN = false)
    (alsoClean : b.isNaN = false) (less : (order a b).isLE = true) : a.rounded ≤ b.rounded := by
  by_cases same : a.kind = b.kind
  · rw [order_of_kind_eq first clean alsoClean same, Int.isLE_compare] at less
    exact rounded_le_rounded first same less
  · rwa [order_of_kind_ne first second clean alsoClean same, Int.isLE_compare] at less

/-! ## A number between two others -/

/-- A number is tied with two numbers whatever these are to each other: it is a NaN, or of another kind than both and
the three become the same when they are rounded. -/
inductive Blurs (b a c : Value) : Prop where
  | nan (first : a.isNumber = true) (last : c.isNumber = true) (nothing : b.isNaN = true)
  | rounding (first : a.isNumber = true) (last : c.isNumber = true) (number : b.isNumber = true)
      (ends : a.kind = c.kind) (other : a.kind ≠ b.kind) (left : a.rounded = b.rounded) (right : b.rounded = c.rounded)

theorem Blurs.tied (blurs : b.Blurs a c) : order a b = .eq ∧ order b c = .eq := by
  have level {x y : Value} (first : x.isNumber = true) (second : y.isNumber = true) (differ : x.kind ≠ y.kind)
      (same : x.rounded = y.rounded) : order x y = .eq := by
    by_cases nothing : x.isNaN = true ∨ y.isNaN = true
    · exact order_of_isNaN first second nothing
    · rw [not_or, Bool.not_eq_true, Bool.not_eq_true] at nothing
      rw [order_of_kind_ne first second nothing.1 nothing.2 differ, Int.compare_eq_eq]
      exact same
  cases blurs with
  | nan first last nothing =>
    have number := isNumber_of_isNaN nothing
    exact ⟨order_of_isNaN first number (.inr nothing), order_of_isNaN number last (.inl nothing)⟩
  | rounding first last number ends other left right =>
    exact ⟨level first number other left, level number last (ends ▸ other.symm) right⟩

/-- Numbers of one kind that are no NaN do not blur each other. -/
theorem Blurs.not_regular (blurs : b.Blurs a c) {kind : Kind} (first : a.Regular kind) (middle : b.Regular kind) :
    False := by
  cases blurs with
  | nan _ _ nothing =>
    rw [(middle (isNumber_of_isNaN nothing)).2] at nothing
    cases nothing
  | rounding number _ between _ other _ _ => exact other ((first number).1.trans (middle between).1.symm)

/-- The order of three numbers, unless the one in the middle blurs the others. -/
theorem order_isLE_trans_of_isNumber (first : a.isNumber = true) (middle : b.isNumber = true)
    (last : c.isNumber = true) (left : (order a b).isLE = true) (right : (order b c).isLE = true) :
    (order a c).isLE = true ∨ b.Blurs a c := by
  by_cases ends : a.isNaN = true ∨ c.isNaN = true
  · rw [order_of_isNaN first last ends]
    exact .inl rfl
  by_cases between : b.isNaN = true
  · exact .inr (.nan first last between)
  rw [not_or, Bool.not_eq_true, Bool.not_eq_true] at ends
  rw [Bool.not_eq_true] at between
  have leftRounded := rounded_le_of_isLE first middle ends.1 between left
  have rightRounded := rounded_le_of_isLE middle last between ends.2 right
  by_cases same : a.kind = c.kind
  · rw [order_of_kind_eq first ends.1 ends.2 same, Int.isLE_compare]
    by_cases all : a.kind = b.kind
    · rw [order_of_kind_eq first ends.1 between all, Int.isLE_compare] at left
      rw [order_of_kind_eq middle between ends.2 (all.symm.trans same), Int.isLE_compare] at right
      exact .inl (le_trans left right)
    · rcases le_total a.measure c.measure with less | more
      · exact .inl less
      · have back := rounded_le_rounded last same.symm more
        exact .inr (.rounding first last middle same all (by omega) (by omega))
  · rw [order_of_kind_ne first last ends.1 ends.2 same, Int.isLE_compare]
    exact .inl (le_trans leftRounded rightRounded)

/-! ## The order of all values -/

theorem regular_of_isNumber (other : a.isNumber = false) (kind : Kind) : a.Regular kind := by
  intro number
  rw [other] at number
  cases number

theorem order_eq_cmp {kind : Kind} (first : a.Regular kind) (second : b.Regular kind) :
    order a b = cmp a.standing b.standing :=
  (order_compares first second).cmp_eq.symm

theorem isLE_iff_standing_le {kind : Kind} (first : a.Regular kind) (second : b.Regular kind) :
    (order a b).isLE = true ↔ a.standing ≤ b.standing :=
  Ordering.isLE_iff_ne_gt.trans (order_compares first second).ne_gt

theorem order_swap (a b : Value) : order a b = (order b a).swap := by
  by_cases level : a.rank = b.rank
  · cases number : a.isNumber with
    | false =>
      have first := regular_of_isNumber number .null
      have second := regular_of_isNumber (isNumber_of_rank_eq level number) .null
      rw [order_eq_cmp first second, order_eq_cmp second first, cmp_swap]
    | true =>
      have other := isNumber_of_rank_eq level number
      by_cases nothing : a.isNaN = true ∨ b.isNaN = true
      · rw [order_of_isNaN number other nothing, order_of_isNaN other number nothing.symm]
        rfl
      · rw [not_or, Bool.not_eq_true, Bool.not_eq_true] at nothing
        by_cases same : a.kind = b.kind
        · rw [order_of_kind_eq number nothing.1 nothing.2 same, order_of_kind_eq other nothing.2 nothing.1 same.symm,
            Int.compare_swap]
        · rw [order_of_kind_ne number other nothing.1 nothing.2 same,
            order_of_kind_ne other number nothing.2 nothing.1 (Ne.symm same), Int.compare_swap]
  · rw [order_of_rank_ne level, order_of_rank_ne (Ne.symm level), Nat.compare_swap]

theorem rank_le_of_isLE (less : (order a b).isLE = true) : a.rank ≤ b.rank := by
  by_cases level : a.rank = b.rank
  · exact level.le
  · rwa [order_of_rank_ne level, Nat.isLE_compare] at less

/-- The order is transitive but for a number that blurs two others. -/
theorem order_isLE_trans (left : (order a b).isLE = true) (right : (order b c).isLE = true) :
    (order a c).isLE = true ∨ b.Blurs a c := by
  have low := rank_le_of_isLE left
  have high := rank_le_of_isLE right
  by_cases level : a.rank = c.rank
  · have middle : a.rank = b.rank := by omega
    cases number : a.isNumber with
    | true =>
      exact order_isLE_trans_of_isNumber number (isNumber_of_rank_eq middle number)
        (isNumber_of_rank_eq level number) left right
    | false =>
      have other {value : Value} (same : a.rank = value.rank) : value.Regular .null :=
        regular_of_isNumber (isNumber_of_rank_eq same number) .null
      rw [isLE_iff_standing_le (other rfl) (other middle)] at left
      rw [isLE_iff_standing_le (other middle) (other level)] at right
      rw [isLE_iff_standing_le (other rfl) (other level)]
      exact .inl (le_trans left right)
  · rw [order_of_rank_ne level, Nat.isLE_compare]
    exact .inl (by omega)

/-! ## Values that may be missing -/

/-- All three values are there, and the one in the middle blurs the others. -/
def BlursPresent (y x z : Option Value) : Prop :=
  ∃ a b c : Value, x = some a ∧ y = some b ∧ z = some c ∧ b.Blurs a c

variable {x y z : Option Value}

theorem orderPresent_swap (x y : Option Value) : orderPresent x y = (orderPresent y x).swap := by
  cases x with
  | none => cases y <;> rfl
  | some a =>
    cases y with
    | none => rfl
    | some b => exact order_swap a b

theorem orderPresent_self (x : Option Value) : orderPresent x x = .eq := by
  have swapped := orderPresent_swap x x
  cases compared : orderPresent x x <;> rw [compared] at swapped <;> first | rfl | cases swapped

theorem BlursPresent.symm (blurs : BlursPresent y x z) : BlursPresent y z x := by
  obtain ⟨a, b, c, rfl, rfl, rfl, between⟩ := blurs
  refine ⟨c, b, a, rfl, rfl, rfl, ?_⟩
  cases between with
  | nan first last nothing => exact .nan last first nothing
  | rounding first last number ends other left right =>
    exact .rounding last first number ends.symm (ends ▸ other) right.symm left.symm

theorem BlursPresent.tied (blurs : BlursPresent y x z) : orderPresent x y = .eq ∧ orderPresent y z = .eq := by
  obtain ⟨a, b, c, rfl, rfl, rfl, between⟩ := blurs
  exact between.tied

theorem orderPresent_isLE_trans (left : (orderPresent x y).isLE = true) (right : (orderPresent y z).isLE = true) :
    (orderPresent x z).isLE = true ∨ BlursPresent y x z := by
  cases x with
  | none => cases z <;> exact .inl rfl
  | some a =>
    cases y with
    | none => cases left
    | some b =>
      cases z with
      | none => cases right
      | some c =>
        refine (order_isLE_trans left right).imp_right fun blurs => ?_
        exact ⟨a, b, c, rfl, rfl, rfl, blurs⟩

/-- Coming before is transitive. -/
theorem orderPresent_lt_trans (left : orderPresent x y = .lt) (right : orderPresent y z = .lt) :
    orderPresent x z = .lt := by
  have apart : ¬ BlursPresent y x z := by
    intro blurs
    have tied := blurs.tied.1
    rw [left] at tied
    cases tied
  have less := (orderPresent_isLE_trans (Ordering.isLE_of_eq_lt left) (Ordering.isLE_of_eq_lt right)).resolve_right apart
  cases compared : orderPresent x z with
  | lt => rfl
  | gt =>
    rw [compared] at less
    cases less
  | eq =>
    -- The first would be between the last and the second, which come in the other order.
    have back : (orderPresent z x).isLE = true := by rw [orderPresent_swap, compared]; rfl
    rcases orderPresent_isLE_trans back (Ordering.isLE_of_eq_lt left) with turned | blurs
    · rw [orderPresent_swap, right] at turned
      cases turned
    · have tied := blurs.tied.2
      rw [left] at tied
      cases tied

/-- A later value comes after one that it does not come after in steps exactly if the one in the middle blurs them. -/
theorem orderPresent_gt_iff :
    ((orderPresent x y).isLE = true ∧ (orderPresent y z).isLE = true ∧ orderPresent x z = .gt) ↔
      BlursPresent y x z ∧ orderPresent x z = .gt := by
  constructor
  · rintro ⟨left, right, more⟩
    refine ⟨(orderPresent_isLE_trans left right).resolve_left fun less => ?_, more⟩
    rw [more] at less
    cases less
  · rintro ⟨blurs, more⟩
    exact ⟨Ordering.isLE_of_eq_eq blurs.tied.1, Ordering.isLE_of_eq_eq blurs.tied.2, more⟩

/-- Two values that are tied with a third are apart exactly if it blurs them. -/
theorem orderPresent_apart_iff :
    (orderPresent x y = .eq ∧ orderPresent y z = .eq ∧ orderPresent x z ≠ .eq) ↔
      BlursPresent y x z ∧ orderPresent x z ≠ .eq := by
  constructor
  · rintro ⟨left, right, apart⟩
    refine ⟨?_, apart⟩
    cases compared : orderPresent x z with
    | eq => exact absurd compared apart
    | gt =>
      have steps := orderPresent_gt_iff.mp ⟨Ordering.isLE_of_eq_eq left, Ordering.isLE_of_eq_eq right, compared⟩
      exact steps.1
    | lt =>
      have first : orderPresent z y = .eq := by rw [orderPresent_swap, right]; rfl
      have second : orderPresent y x = .eq := by rw [orderPresent_swap, left]; rfl
      have back : orderPresent z x = .gt := by rw [orderPresent_swap, compared]; rfl
      have steps := orderPresent_gt_iff.mp ⟨Ordering.isLE_of_eq_eq first, Ordering.isLE_of_eq_eq second, back⟩
      exact steps.1.symm
  · rintro ⟨blurs, apart⟩
    exact ⟨blurs.tied.1, blurs.tied.2, apart⟩

end Value

/-! ## Consistent comparisons -/

/-- A comparison is a total preorder on the items of interest: swapping two items turns its result, and what does not
come after an item does not come after what this does not come after. -/
def Consistent {α : Type} (order : α → α → Ordering) (among : α → Prop) : Prop :=
  Std.TransCmp fun a b : Subtype among => order a b

section
variable {α : Type} {order : α → α → Ordering} {among : α → Prop}

theorem Consistent.swap (consistent : Consistent order among) {a b : α} (first : among a) (second : among b) :
    order a b = (order b a).swap :=
  @Std.OrientedCmp.eq_swap _ _ consistent.toOrientedCmp ⟨a, first⟩ ⟨b, second⟩

theorem Consistent.isLE_trans (consistent : Consistent order among) {a b c : α} (first : among a) (second : among b)
    (third : among c) (left : (order a b).isLE = true) (right : (order b c).isLE = true) : (order a c).isLE = true :=
  @Std.TransCmp.isLE_trans _ _ consistent ⟨a, first⟩ ⟨b, second⟩ ⟨c, third⟩ left right

theorem consistent_of (swap : ∀ a b, among a → among b → order a b = (order b a).swap)
    (trans : ∀ a b c, among a → among b → among c → (order a b).isLE = true → (order b c).isLE = true →
      (order a c).isLE = true) : Consistent order among :=
  @Std.TransCmp.mk _ _ ⟨fun {a b} => swap a b a.2 b.2⟩ fun {a b c} => trans a b c a.2 b.2 c.2

/-- A consistent comparison is so on fewer items. -/
theorem Consistent.mono (consistent : Consistent order among) {fewer : α → Prop} (within : ∀ a, fewer a → among a) :
    Consistent order fewer :=
  consistent_of (fun a b first second => consistent.swap (within a first) (within b second))
    fun a b c first second third => consistent.isLE_trans (within a first) (within b second) (within c third)

/-- The check for a total preorder on items does what it says. -/
theorem isTotalOn_iff {items : List α} : isTotalOn order items = true ↔ Consistent order (· ∈ items) := by
  simp only [isTotalOn, List.all_eq_true, Bool.and_eq_true, beq_iff_eq, Bool.or_eq_true, Bool.not_eq_true']
  constructor
  · intro total
    refine consistent_of (fun a b first second => (total a first b second).1) ?_
    intro a b c first second third left right
    rcases (total a first b second).2 c third with (apart | apart) | less
    · exact absurd left (ne_true_of_eq_false apart)
    · exact absurd right (ne_true_of_eq_false apart)
    · exact less
  · intro consistent a first b second
    refine ⟨consistent.swap first second, fun c third => ?_⟩
    cases left : (order a b).isLE with
    | false => exact .inl (.inl rfl)
    | true =>
      cases right : (order b c).isLE with
      | false => exact .inl (.inr rfl)
      | true => exact .inr (consistent.isLE_trans first second third left right)

end

/-- No document blurs two others at the path of the clause that are apart. -/
def OrderClause.Clear (clause : OrderClause) (among : String × Document → Prop) : Prop :=
  ∀ a b c, among a → among b → among c →
    Value.BlursPresent (Document.lookup? b.2 clause.path) (Document.lookup? a.2 clause.path)
      (Document.lookup? c.2 clause.path) →
    clause.order a.2 c.2 = .eq

namespace OrderClause
variable {clause : OrderClause} {a b c : Document} {among : String × Document → Prop}

/-- Documents with numbers of one kind that are no NaN are clear. -/
theorem clear_of_regular {kind : Kind} (regular : ∀ stored, among stored → clause.RegularAt kind stored.2) :
    clause.Clear among := by
  rintro a b c inside between _ ⟨x, y, z, first, middle, _, blurs⟩
  exact (blurs.not_regular (regular a inside x first) (regular b between y middle)).elim

theorem order_swap (clause : OrderClause) (a b : Document) : clause.order a b = (clause.order b a).swap := by
  unfold order
  cases clause.direction with
  | ascending => exact Value.orderPresent_swap _ _
  | descending => exact congrArg Ordering.swap (Value.orderPresent_swap _ _)

theorem order_of_blurs (blurs : Value.BlursPresent (Document.lookup? b clause.path) (Document.lookup? a clause.path)
    (Document.lookup? c clause.path)) : clause.order a b = .eq ∧ clause.order b c = .eq := by
  unfold order
  rw [blurs.tied.1, blurs.tied.2]
  cases clause.direction with
  | ascending => exact ⟨rfl, rfl⟩
  | descending => exact ⟨rfl, rfl⟩

theorem order_isLE_trans (left : (clause.order a b).isLE = true) (right : (clause.order b c).isLE = true) :
    (clause.order a c).isLE = true ∨ Value.BlursPresent (Document.lookup? b clause.path)
      (Document.lookup? a clause.path) (Document.lookup? c clause.path) := by
  unfold order at *
  cases direction : clause.direction with
  | ascending =>
    rw [direction] at left right
    exact Value.orderPresent_isLE_trans left right
  | descending =>
    rw [direction] at left right
    dsimp only at left right ⊢
    rw [← Value.orderPresent_swap] at left right ⊢
    exact (Value.orderPresent_isLE_trans right left).imp_right Value.BlursPresent.symm

/-- Comparing by a clause is consistent exactly on documents without one that blurs others. -/
theorem consistent_iff : Consistent (fun a b => clause.order a.2 b.2) among ↔ clause.Clear among := by
  constructor
  · intro consistent a b c inside between alsoInside blurs
    have tied := order_of_blurs blurs
    exact @Std.TransCmp.eq_trans _ _ consistent ⟨a, inside⟩ ⟨b, between⟩ ⟨c, alsoInside⟩ tied.1 tied.2
  · intro clear
    refine consistent_of (fun _ _ _ _ => clause.order_swap _ _) fun a b c inside between alsoInside left right => ?_
    rcases order_isLE_trans left right with less | blurs
    · exact less
    · exact Ordering.isLE_of_eq_eq (clear a b c inside between alsoInside blurs)

end OrderClause

variable {among : String × Document → Prop} {ordering : List OrderClause}

/-- The order of a query is consistent on documents that are clear by each of its clauses. -/
theorem consistent_orderStored (clear : ∀ clause ∈ ordering, clause.Clear among) :
    Consistent (orderStored ordering) among := by
  induction ordering with
  | nil =>
    have ids : Std.TransCmp fun a b : Subtype among => compare a.1.1 b.1.1 :=
      @Std.TransCmp.mk _ _ ⟨Std.OrientedCmp.eq_swap⟩ Std.TransCmp.isLE_trans
    exact ids
  | cons clause rest ih =>
    have first : Std.TransCmp fun a b : Subtype among => clause.order a.1.2 b.1.2 :=
      OrderClause.consistent_iff.mpr (clear clause List.mem_cons_self)
    have others : Std.TransCmp fun a b : Subtype among => orderStored rest a b :=
      ih fun other member => clear other (List.mem_cons_of_mem _ member)
    exact inferInstanceAs (Std.TransCmp (compareLex (fun a b : Subtype among => clause.order a.1.2 b.1.2)
      fun a b : Subtype among => orderStored rest a b))

theorem orderStored_swap (ordering : List OrderClause) (a b : String × Document) :
    orderStored ordering a b = (orderStored ordering b a).swap := by
  induction ordering with
  | nil =>
    have ids : compare a.1 b.1 = (compare b.1 a.1).swap := Std.OrientedCmp.eq_swap
    exact ids
  | cons clause rest ih => rw [orderStored, orderStored, Ordering.swap_then, ← ih, ← clause.order_swap]

/-- Documents of different ids are put one before the other. -/
theorem orderStored_ne_eq {a b : String × Document} (ordering : List OrderClause) (differ : a.1 ≠ b.1) :
    orderStored ordering a b ≠ .eq := by
  induction ordering with
  | nil =>
    intro tied
    exact differ (Std.LawfulEqCmp.eq_of_compare tied)
  | cons clause rest ih =>
    rw [orderStored, Ne, Ordering.then_eq_eq]
    exact fun both => ih both.2

end TaggedRecords
