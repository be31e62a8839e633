import Mathlib.Algebra.Order.Field.Power
import Mathlib.Algebra.Order.Field.Rat
import Mathlib.Tactic.FieldSimp
import Mathlib.Tactic.Linarith
import Mathlib.Tactic.NormNum
import Mathlib.Tactic.Positivity
import Mathlib.Tactic.Ring
import TaggedRecords.Binary64

/-!
# Rounding

A quotient is rounded on a grid: multiples of a power of two that leave the given number of binary digits. The result
depends on the quotient alone and grows with it, and a quotient that stands on its grid is its own rounding. So the order
of whole numbers is kept when they become floating-point numbers, though different ones may become the same.
-/

namespace TaggedRecords.Binary64

/-! ## Whole numbers nearest to a quotient -/

theorem roundQuotient_bounds (num den : Nat) :
    num / den ≤ roundQuotient num den ∧ roundQuotient num den ≤ num / den + 1 := by
  unfold roundQuotient
  dsimp only
  split <;> omega

theorem roundQuotient_mul (whole : Nat) {den : Nat} (positive : 0 < den) : roundQuotient (whole * den) den = whole := by
  unfold roundQuotient
  dsimp only
  rw [Nat.mul_div_cancel whole positive, Nat.mul_mod_left]
  have tie : ¬ (den < 2 * 0 ∨ (2 * 0 = den ∧ whole % 2 = 1)) := by omega
  rw [if_neg tie]

/-- A larger quotient is not rounded to a smaller number. -/
theorem roundQuotient_mono {a b c d : Nat} (denPositive : 0 < b) (otherPositive : 0 < d) (less : a * d ≤ c * b) :
    roundQuotient a b ≤ roundQuotient c d := by
  have wholes : a / b ≤ c / d := by
    rw [← Nat.mul_div_mul_right a b otherPositive, ← Nat.mul_div_mul_right c d denPositive, Nat.mul_comm d b]
    exact Nat.div_le_div_right less
  have left := roundQuotient_bounds a b
  have right := roundQuotient_bounds c d
  rcases Nat.lt_or_eq_of_le wholes with lower | level
  · omega
  · -- The whole parts are the same, so that the remainders decide.
    have first : b * (a / b) + a % b = a := Nat.div_add_mod a b
    have second : d * (c / d) + c % d = c := Nat.div_add_mod c d
    have remainders : a % b * d ≤ c % d * b := by
      rw [← first, ← second, level] at less
      nlinarith
    unfold roundQuotient
    dsimp only
    rw [level]
    split
    · next up =>
      have alsoUp : d < 2 * (c % d) ∨ (2 * (c % d) = d ∧ c / d % 2 = 1) := by
        rcases up with above | ⟨half, odd⟩
        · left
          nlinarith
        · rcases Nat.lt_or_ge d (2 * (c % d)) with above | below
          · exact .inl above
          · exact .inr ⟨by nlinarith, odd⟩
      rw [if_pos alsoUp]
    · split <;> omega

/-! ## Grids -/

/-- The quotient as a rational number. -/
def ratio (quotient : Nat × Nat) : ℚ := quotient.1 / quotient.2

theorem scaleDown_positive (num : Nat) {den : Nat} (positive : 0 < den) (exponent : Int) :
    0 < (scaleDown num den exponent).2 := by
  cases exponent with
  | ofNat exponent => exact Nat.mul_pos positive (Nat.pow_pos (by decide))
  | negSucc exponent => exact positive

theorem ratio_scaleDown (num den : Nat) (exponent : Int) :
    ratio (scaleDown num den exponent) = ratio (num, den) / 2 ^ exponent := by
  cases exponent with
  | ofNat exponent =>
    simp only [ratio, scaleDown, Nat.pow_eq, Int.ofNat_eq_natCast, zpow_natCast]
    push_cast
    rw [div_div]
  | negSucc exponent =>
    simp only [ratio, scaleDown, Nat.pow_eq, zpow_negSucc]
    push_cast
    rw [div_inv_eq_mul]
    ring

/-- The power of two on whose multiples a number is rounded: it leaves so many binary digits, or is the lowest. -/
structure Grid (precision : Nat) (lowest : Int) (x : ℚ) (exponent : Int) : Prop where
  lowest_le : lowest ≤ exponent
  below : x < 2 ^ (exponent + precision)
  above : lowest < exponent → 2 ^ (exponent + precision - 1) ≤ x

/-- A positive quotient lies between the powers of two that the lengths of its parts tell. -/
theorem ratio_bounds {num den : Nat} (numPositive : 0 < num) (denPositive : 0 < den) :
    (2 : ℚ) ^ ((num.log2 : Int) - den.log2 - 1) < ratio (num, den) ∧
      ratio (num, den) < 2 ^ ((num.log2 : Int) - den.log2 + 1) := by
  have numLow : (2 : ℚ) ^ num.log2 ≤ num := by exact_mod_cast Nat.log2_self_le numPositive.ne'
  have numHigh : (num : ℚ) < 2 ^ (num.log2 + 1) := by exact_mod_cast Nat.lt_log2_self
  have denLow : (2 : ℚ) ^ den.log2 ≤ den := by exact_mod_cast Nat.log2_self_le denPositive.ne'
  have denHigh : (den : ℚ) < 2 ^ (den.log2 + 1) := by exact_mod_cast Nat.lt_log2_self
  have positive : (0 : ℚ) < den := by exact_mod_cast denPositive
  have two : (2 : ℚ) ≠ 0 := by norm_num
  constructor
  · rw [ratio, lt_div_iff₀ positive]
    calc (2 : ℚ) ^ ((num.log2 : Int) - den.log2 - 1) * den
        < 2 ^ ((num.log2 : Int) - den.log2 - 1) * 2 ^ (den.log2 + 1) := by gcongr
      _ = 2 ^ num.log2 := by
        rw [← zpow_natCast, ← zpow_natCast, ← zpow_add₀ two]
        congr 1
        push_cast
        ring
      _ ≤ num := numLow
  · rw [ratio, div_lt_iff₀ positive]
    calc (num : ℚ) < 2 ^ (num.log2 + 1) := numHigh
      _ = 2 ^ ((num.log2 : Int) - den.log2 + 1) * 2 ^ den.log2 := by
        rw [← zpow_natCast, ← zpow_natCast, ← zpow_add₀ two]
        congr 1
        push_cast
        ring
      _ ≤ 2 ^ ((num.log2 : Int) - den.log2 + 1) * den := by gcongr

/-- Comparing the parts of a quotient is comparing it with one. -/
theorem one_le_ratio {quotient : Nat × Nat} (positive : 0 < quotient.2) :
    quotient.2 ≤ quotient.1 ↔ 1 ≤ ratio quotient := by
  have alsoPositive : (0 : ℚ) < quotient.2 := by exact_mod_cast positive
  rw [ratio, one_le_div alsoPositive]
  exact_mod_cast Iff.rfl

/-- A quotient is rounded to a multiple of its grid. -/
theorem nearest_eq (precision : Nat) (lowest : Int) {num den : Nat} (numPositive : 0 < num) (denPositive : 0 < den) :
    ∃ exponent, Grid precision lowest (ratio (num, den)) exponent ∧
      nearest precision lowest num den =
        (roundQuotient (scaleDown num den exponent).1 (scaleDown num den exponent).2, exponent) := by
  obtain ⟨low, high⟩ := ratio_bounds numPositive denPositive
  have two : (2 : ℚ) ≠ 0 := by norm_num
  have one : (1 : ℚ) ≤ 2 := by norm_num
  refine ⟨_, ?_, rfl⟩
  -- The lengths leave two candidates, and the larger one is taken if the quotient reaches it.
  generalize guessed : (num.log2 : Int) - den.log2 - precision = guess
  have reaches : (scaleDown num (den * Nat.pow 2 precision) guess).2 ≤
      (scaleDown num (den * Nat.pow 2 precision) guess).1 ↔ (2 : ℚ) ^ (guess + precision) ≤ ratio (num, den) := by
    have positive : 0 < den * Nat.pow 2 precision := Nat.mul_pos denPositive (Nat.pow_pos (by decide))
    rw [one_le_ratio (scaleDown_positive num positive guess), ratio_scaleDown, one_le_div (zpow_pos (by norm_num) _)]
    have split : ratio (num, den * Nat.pow 2 precision) = ratio (num, den) / 2 ^ precision := by
      simp only [ratio, Nat.pow_eq]
      push_cast
      rw [div_div]
    rw [split, le_div_iff₀ (by positivity), zpow_add₀ two, zpow_natCast]
  have lengths : (num.log2 : Int) - den.log2 = guess + precision := by omega
  rw [lengths] at low high
  have raise {a b : Int} (less : a ≤ b) : (2 : ℚ) ^ a ≤ 2 ^ b := zpow_le_zpow_right₀ one less
  split
  · next reached =>
    have least := reaches.mp reached
    refine ⟨le_max_left _ _, lt_of_lt_of_le high (raise (by omega)), fun above => ?_⟩
    exact le_trans (raise (by omega)) least
  · next missed =>
    have most : ratio (num, den) < 2 ^ (guess + precision) := lt_of_not_ge fun least => missed (reaches.mpr least)
    refine ⟨le_max_left _ _, lt_of_lt_of_le most (raise (by omega)), fun above => ?_⟩
    exact le_trans (raise (by omega)) low.le

/-- Quotients are rounded in their order. -/
theorem roundQuotient_le {x y : Nat × Nat} (positive : 0 < x.2) (alsoPositive : 0 < y.2) (less : ratio x ≤ ratio y) :
    roundQuotient x.1 x.2 ≤ roundQuotient y.1 y.2 := by
  refine roundQuotient_mono positive alsoPositive ?_
  rw [ratio, ratio, div_le_div_iff₀ (by exact_mod_cast positive) (by exact_mod_cast alsoPositive)] at less
  exact_mod_cast less

theorem roundQuotient_le_whole {x : Nat × Nat} (positive : 0 < x.2) {whole : Nat} (less : ratio x ≤ whole) :
    roundQuotient x.1 x.2 ≤ whole := by
  have rounded := roundQuotient_le positive (y := (whole * 1, 1)) Nat.one_pos (by simpa [ratio] using less)
  rwa [roundQuotient_mul whole Nat.one_pos] at rounded

theorem le_roundQuotient_whole {x : Nat × Nat} (positive : 0 < x.2) {whole : Nat} (less : (whole : ℚ) ≤ ratio x) :
    whole ≤ roundQuotient x.1 x.2 := by
  have rounded := roundQuotient_le (x := (whole * 1, 1)) Nat.one_pos positive (by simpa [ratio] using less)
  rwa [roundQuotient_mul whole Nat.one_pos] at rounded

namespace Grid
variable {precision : Nat} {lowest exponent other : Int} {x y : ℚ}

/-- A larger number has no finer grid. -/
theorem mono (grid : Grid precision lowest x exponent) (next : Grid precision lowest y other) (less : x ≤ y) :
    exponent ≤ other := by
  by_contra finer
  have above : (2 : ℚ) ^ (exponent + precision - 1) ≤ x := grid.above (lt_of_le_of_lt next.lowest_le (not_le.mp finer))
  have power : (2 : ℚ) ^ (other + precision) ≤ 2 ^ (exponent + precision - 1) :=
    zpow_le_zpow_right₀ (by norm_num) (by omega)
  linarith [next.below]

/-- Above its lowest grid a number is a multiple with just so many digits. -/
theorem scaled (grid : Grid precision lowest x exponent) (room : 1 ≤ precision) :
    x / 2 ^ exponent < 2 ^ precision ∧ (lowest < exponent → 2 ^ (precision - 1) ≤ x / 2 ^ exponent) := by
  have two : (2 : ℚ) ≠ 0 := by norm_num
  have positive : (0 : ℚ) < 2 ^ exponent := zpow_pos (by norm_num) _
  constructor
  · rw [div_lt_iff₀ positive, ← zpow_natCast, ← zpow_add₀ two, add_comm]
    exact grid.below
  · intro above
    rw [le_div_iff₀ positive, ← zpow_natCast, ← zpow_add₀ two]
    refine le_trans (le_of_eq ?_) (grid.above above)
    congr 1
    omega

end Grid

/-! ## The order of rounded numbers -/

/-- Where a multiple of a grid stands among all numbers: the next grid begins where this one ends. -/
def rung (rounded : Nat × Int) : Nat := (rounded.2 + 1074).toNat * 2 ^ 52 + rounded.1

/-- A larger quotient is not rounded to a smaller number, on whatever grids the two stand. -/
theorem rung_nearest_mono {num den num' den' : Nat} (numPositive : 0 < num) (denPositive : 0 < den)
    (alsoNumPositive : 0 < num') (alsoDenPositive : 0 < den') (less : ratio (num, den) ≤ ratio (num', den')) :
    rung (nearest 53 (-1074) num den) ≤ rung (nearest 53 (-1074) num' den') := by
  obtain ⟨exponent, grid, rounded⟩ := nearest_eq 53 (-1074) numPositive denPositive
  obtain ⟨other, next, alsoRounded⟩ := nearest_eq 53 (-1074) alsoNumPositive alsoDenPositive
  have scaledPositive := scaleDown_positive num denPositive exponent
  have alsoScaledPositive := scaleDown_positive num' alsoDenPositive other
  have low := grid.lowest_le
  rw [rounded, alsoRounded]
  unfold rung
  dsimp only
  rcases lt_or_eq_of_le (grid.mono next less) with finer | same
  · have most : roundQuotient (scaleDown num den exponent).1 (scaleDown num den exponent).2 ≤ 2 ^ 53 := by
      refine roundQuotient_le_whole scaledPositive ?_
      rw [ratio_scaleDown]
      exact_mod_cast (grid.scaled (by decide)).1.le
    have least : 2 ^ 52 ≤ roundQuotient (scaleDown num' den' other).1 (scaleDown num' den' other).2 := by
      refine le_roundQuotient_whole alsoScaledPositive ?_
      rw [ratio_scaleDown]
      exact_mod_cast (next.scaled (by decide)).2 (by omega)
    omega
  · subst same
    have kept : roundQuotient (scaleDown num den exponent).1 (scaleDown num den exponent).2 ≤
        roundQuotient (scaleDown num' den' exponent).1 (scaleDown num' den' exponent).2 := by
      refine roundQuotient_le scaledPositive alsoScaledPositive ?_
      rw [ratio_scaleDown, ratio_scaleDown]
      exact div_le_div_of_nonneg_right less (zpow_pos (by norm_num) _).le
    omega

/-! ## Numbers by sign and magnitude -/

theorem magnitude_ofMagnitude (negative : Bool) {magnitude : Nat} (small : magnitude < 2 ^ 63) :
    (ofMagnitude negative magnitude).magnitude = magnitude := by
  cases negative with
  | true =>
    simp only [Binary64.magnitude, ofMagnitude, signWeight, Nat.pow_eq, if_true]
    rw [UInt64.toNat_ofNat_of_lt' (by simp [UInt64.size]; omega)]
    omega
  | false =>
    simp only [Binary64.magnitude, ofMagnitude, signWeight, Nat.pow_eq, Bool.false_eq_true, if_false]
    rw [UInt64.toNat_ofNat_of_lt' (by simp [UInt64.size]; omega)]
    omega

theorem isNegative_ofMagnitude (negative : Bool) {magnitude : Nat} (small : magnitude < 2 ^ 63) :
    (ofMagnitude negative magnitude).isNegative = negative := by
  cases negative with
  | true =>
    simp only [isNegative, ofMagnitude, signWeight, Nat.pow_eq, if_true]
    rw [UInt64.toNat_ofNat_of_lt' (by simp [UInt64.size]; omega)]
    simp
  | false =>
    simp only [isNegative, ofMagnitude, signWeight, Nat.pow_eq, Bool.false_eq_true, if_false]
    rw [UInt64.toNat_ofNat_of_lt' (by simp [UInt64.size]; omega)]
    simpa using small

/-- The magnitude that a quotient is rounded to. -/
def roundedMagnitude (num den : Nat) : Nat :=
  if num = 0 then 0 else min infinityMagnitude (rung (nearest 53 (-1074) num den))

theorem roundedMagnitude_lt (num den : Nat) : roundedMagnitude num den < 2 ^ 63 := by
  have bound : infinityMagnitude < 2 ^ 63 := by decide
  unfold roundedMagnitude
  split
  · decide
  · exact lt_of_le_of_lt (min_le_left _ _) bound

theorem ofQuotient_eq (negative : Bool) (num : Nat) {den : Nat} (denPositive : 0 < den) :
    ofQuotient negative num den = ofMagnitude negative (roundedMagnitude num den) := by
  unfold ofQuotient roundedMagnitude
  by_cases nothing : num = 0
  · simp [nothing]
  · obtain ⟨exponent, grid, rounded⟩ := nearest_eq 53 (-1074) (Nat.pos_of_ne_zero nothing) denPositive
    simp only [nothing, if_false, ofSignificand]
    split
    · next under =>
      -- Only a number of the lowest grid is rounded to nothing.
      have lowest : exponent = -1074 := by
        by_contra above
        have low := grid.lowest_le
        have least : 2 ^ 52 ≤ roundQuotient (scaleDown num den exponent).1 (scaleDown num den exponent).2 := by
          refine le_roundQuotient_whole (scaleDown_positive num denPositive exponent) ?_
          rw [ratio_scaleDown]
          exact_mod_cast (grid.scaled (by decide)).2 (by omega)
        rw [rounded] at under
        dsimp only at under
        omega
      subst lowest
      rw [rounded] at under ⊢
      dsimp only at under
      simp [rung, under]
    · rfl

theorem roundedMagnitude_mono {num den num' den' : Nat} (denPositive : 0 < den) (alsoDenPositive : 0 < den')
    (less : ratio (num, den) ≤ ratio (num', den')) : roundedMagnitude num den ≤ roundedMagnitude num' den' := by
  unfold roundedMagnitude
  by_cases nothing : num = 0
  · simp [nothing]
  · have positive : 0 < ratio (num, den) :=
      div_pos (by exact_mod_cast Nat.pos_of_ne_zero nothing) (by exact_mod_cast denPositive)
    have something : num' ≠ 0 := by
      rintro rfl
      simp only [ratio, Nat.cast_zero, zero_div] at less positive
      linarith
    rw [if_neg nothing, if_neg something]
    exact min_le_min_left _ (rung_nearest_mono (Nat.pos_of_ne_zero nothing) denPositive (Nat.pos_of_ne_zero something)
      alsoDenPositive less)

/-! ## Whole numbers -/

/-- A whole number stands at its rounded magnitude, on the side of its sign. -/
theorem place_ofInt (i : Int) :
    (ofInt i).place = if i < 0 then -(roundedMagnitude i.natAbs 1 : Int) else roundedMagnitude i.natAbs 1 := by
  have small := roundedMagnitude_lt i.natAbs 1
  rw [ofInt, ofQuotient_eq _ _ Nat.one_pos, place, isNegative_ofMagnitude _ small, magnitude_ofMagnitude _ small]
  simp only [decide_eq_true_eq]

theorem isNaN_ofInt (i : Int) : (ofInt i).isNaN = false := by
  have small := roundedMagnitude_lt i.natAbs 1
  have bound : roundedMagnitude i.natAbs 1 ≤ infinityMagnitude := by
    unfold roundedMagnitude
    split
    · exact Nat.zero_le _
    · exact min_le_left _ _
  rw [ofInt, ofQuotient_eq _ _ Nat.one_pos, isNaN, magnitude_ofMagnitude _ small]
  exact decide_eq_false (not_lt.mpr bound)

/-- Whole numbers keep their order when they are rounded, though they may become the same. -/
theorem place_ofInt_mono {i j : Int} (less : i ≤ j) : (ofInt i).place ≤ (ofInt j).place := by
  have grows {m n : Nat} (less : m ≤ n) : roundedMagnitude m 1 ≤ roundedMagnitude n 1 :=
    roundedMagnitude_mono Nat.one_pos Nat.one_pos (by simpa [ratio] using less)
  rw [place_ofInt, place_ofInt]
  split
  · next negative =>
    split
    · have shrinks := grows (show j.natAbs ≤ i.natAbs by omega)
      omega
    · omega
  · next positive =>
    have alsoPositive : ¬ j < 0 := by omega
    have grown := grows (show i.natAbs ≤ j.natAbs by omega)
    rw [if_neg alsoPositive]
    omega

end TaggedRecords.Binary64
