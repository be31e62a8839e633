import TaggedRecords.Proofs.ValueRanking
import TaggedRecords.Query

/-!
# Which document comes first

The order that a query asks for, as a relation on documents with their ids: the first clause by which two of them stand
apart decides, and if there is none their ids do. It is a strict order in which only documents of one id are not
related, and comparing two documents decides it where the numbers at each path are of one kind and no NaN.
-/

namespace TaggedRecords

/-- The first place comes before the second in the given direction. -/
def Direction.Less (direction : Direction) (x y : WithBot (Nat ×ₗ List Int)) : Prop :=
  match direction with
  | .ascending => x < y
  | .descending => y < x

/-- Where a value that may be missing stands; a missing one stands below all others. -/
def Value.standingOf : Option Value → WithBot (Nat ×ₗ List Int)
  | some value => value.standing
  | none => ⊥

/-- Where a document stands by a clause. -/
def OrderClause.standing (clause : OrderClause) (document : Document) : WithBot (Nat ×ₗ List Int) :=
  Value.standingOf (Document.lookup? document clause.path)

/-- The first document comes before the second by the first clause by which they stand apart, or else by its id. -/
def Precedes : List OrderClause → String × Document → String × Document → Prop
  | [], a, b => a.1 < b.1
  | clause :: rest, a, b =>
    clause.direction.Less (clause.standing a.2) (clause.standing b.2) ∨
      (clause.standing a.2 = clause.standing b.2 ∧ Precedes rest a b)

/-! ## A strict order -/

namespace Direction
variable {direction : Direction} {x y z : WithBot (Nat ×ₗ List Int)}

theorem less_irrefl : ¬ direction.Less x x := by
  cases direction with
  | ascending => exact lt_irrefl x
  | descending => exact lt_irrefl x

theorem less_trans (first : direction.Less x y) (second : direction.Less y z) : direction.Less x z := by
  cases direction with
  | ascending => exact lt_trans first second
  | descending => exact lt_trans second first

theorem less_total (differ : x ≠ y) : direction.Less x y ∨ direction.Less y x := by
  cases direction with
  | ascending => exact lt_or_gt_of_ne differ
  | descending => exact (lt_or_gt_of_ne differ).symm

end Direction

variable {ordering : List OrderClause} {a b c : String × Document}

theorem precedes_irrefl : ¬ Precedes ordering a a := by
  induction ordering with
  | nil => exact lt_irrefl a.1
  | cons clause rest ih =>
    rintro (less | ⟨_, below⟩)
    · exact Direction.less_irrefl less
    · exact ih below

theorem precedes_trans (first : Precedes ordering a b) (second : Precedes ordering b c) : Precedes ordering a c := by
  induction ordering with
  | nil => exact lt_trans first second
  | cons clause rest ih =>
    rcases first with less | ⟨tied, below⟩
    · rcases second with further | ⟨alsoTied, _⟩
      · exact .inl (Direction.less_trans less further)
      · exact .inl (alsoTied ▸ less)
    · rcases second with further | ⟨alsoTied, alsoBelow⟩
      · exact .inl (tied ▸ further)
      · exact .inr ⟨tied.trans alsoTied, ih below alsoBelow⟩

theorem precedes_asymm (first : Precedes ordering a b) : ¬ Precedes ordering b a :=
  fun second => precedes_irrefl (precedes_trans first second)

/-- Documents of different ids are related one way or the other. -/
theorem precedes_total (ordering : List OrderClause) (differ : a.1 ≠ b.1) :
    Precedes ordering a b ∨ Precedes ordering b a := by
  induction ordering with
  | nil => exact lt_or_gt_of_ne differ
  | cons clause rest ih =>
    by_cases tied : clause.standing a.2 = clause.standing b.2
    · exact ih.imp (fun below => .inr ⟨tied, below⟩) (fun below => .inr ⟨tied.symm, below⟩)
    · exact (Direction.less_total tied).imp .inl .inl

/-! ## Comparing documents -/

/-- If the document has a number at the path of the clause, it is of the given kind and no NaN. -/
def OrderClause.RegularAt (clause : OrderClause) (kind : Kind) (document : Document) : Prop :=
  ∀ value, Document.lookup? document clause.path = some value → value.Regular kind

theorem Value.orderPresent_compares {kind : Kind} {x y : Option Value}
    (first : ∀ value, x = some value → value.Regular kind) (second : ∀ value, y = some value → value.Regular kind) :
    (orderPresent x y).Compares (standingOf x) (standingOf y) := by
  cases x with
  | none =>
    cases y with
    | none => exact rfl
    | some value => exact WithBot.bot_lt_coe value.standing
  | some value =>
    cases y with
    | none => exact WithBot.bot_lt_coe value.standing
    | some other =>
      have compared := order_compares (first value rfl) (second other rfl)
      rw [orderPresent]
      cases ordering : order value other with
      | lt =>
        rw [ordering] at compared
        exact WithBot.coe_lt_coe.mpr compared
      | eq =>
        rw [ordering] at compared
        exact congrArg WithBot.some compared
      | gt =>
        rw [ordering] at compared
        exact WithBot.coe_lt_coe.mpr compared

namespace OrderClause
variable {clause : OrderClause} {kind : Kind} {left right : Document}

theorem order_eq_lt_iff (first : clause.RegularAt kind left) (second : clause.RegularAt kind right) :
    clause.order left right = .lt ↔ clause.direction.Less (clause.standing left) (clause.standing right) := by
  have compared := Value.orderPresent_compares first second
  unfold order Direction.Less
  cases clause.direction with
  | ascending => exact compared.eq_lt
  | descending => exact Ordering.swap_eq_lt.trans compared.eq_gt

theorem order_eq_eq_iff (first : clause.RegularAt kind left) (second : clause.RegularAt kind right) :
    clause.order left right = .eq ↔ clause.standing left = clause.standing right := by
  have compared := Value.orderPresent_compares first second
  unfold order
  cases clause.direction with
  | ascending => exact compared.eq_eq
  | descending => exact Ordering.swap_eq_eq.trans compared.eq_eq

end OrderClause

/-- One document is put before another exactly if it precedes it. -/
theorem orderStored_eq_lt_iff
    (regular : ∀ clause ∈ ordering, ∃ kind, clause.RegularAt kind a.2 ∧ clause.RegularAt kind b.2) :
    orderStored ordering a b = .lt ↔ Precedes ordering a b := by
  induction ordering with
  | nil => exact compare_lt_iff_lt
  | cons clause rest ih =>
    obtain ⟨kind, first, second⟩ := regular clause List.mem_cons_self
    have below := ih fun other member => regular other (List.mem_cons_of_mem _ member)
    rw [orderStored, Ordering.then_eq_lt, clause.order_eq_lt_iff first second, clause.order_eq_eq_iff first second,
      below]
    exact Iff.rfl

end TaggedRecords
