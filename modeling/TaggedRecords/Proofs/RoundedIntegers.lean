import TaggedRecords.Proofs.SinglePrecision

/-!
# Integers as floating-point numbers

An integer becomes the nearest multiple of a power of two that leaves it 53 binary digits, a half the even one. Integers
below 2 to the 53 have no more digits and stay what they are; larger ones become the same exactly if their nearest
multiples are the same, and then they are close to each other.
-/

namespace TaggedRecords.Binary64

/-! ## The nearest multiple -/

/-- The power of two whose multiples have 53 binary digits around a whole number. -/
def spacing (whole : Nat) : Nat := 2 ^ (whole.log2 - 52)

/-- The multiple nearest to a whole number; a half goes to the even one. -/
def nearestWhole (whole : Nat) : Nat := roundQuotient whole (spacing whole) * spacing whole

/-- The multiple nearest to an integer, on its side of zero. -/
def nearestInteger (i : Int) : Int := if i < 0 then -(nearestWhole i.natAbs : Int) else nearestWhole i.natAbs

theorem spacing_positive (whole : Nat) : 0 < spacing whole := Nat.pow_pos (by decide)

/-- Rounding moves a quotient by no more than a half. -/
theorem roundQuotient_close (num : Nat) {den : Nat} (positive : 0 < den) :
    2 * num ≤ 2 * (roundQuotient num den * den) + den ∧ 2 * (roundQuotient num den * den) ≤ 2 * num + den := by
  have parts : den * (num / den) + num % den = num := Nat.div_add_mod num den
  have rest : num % den < den := Nat.mod_lt num positive
  rw [Nat.mul_comm] at parts
  unfold roundQuotient
  dsimp only
  split
  · next up =>
    rw [Nat.add_mul, Nat.one_mul]
    omega
  · next down => omega

/-- A number is at most half the spacing away from its nearest multiple. -/
theorem nearestWhole_close (whole : Nat) :
    2 * whole ≤ 2 * nearestWhole whole + spacing whole ∧ 2 * nearestWhole whole ≤ 2 * whole + spacing whole :=
  roundQuotient_close whole (spacing_positive whole)

theorem spacing_of_small {whole : Nat} (small : whole < 2 ^ 53) : spacing whole = 1 := by
  have short : whole.log2 < 53 := by
    by_cases nothing : whole = 0
    · rw [nothing]
      decide
    · exact (Nat.log2_lt nothing).mpr small
  have flat : whole.log2 - 52 = 0 := by omega
  rw [spacing, flat, Nat.pow_zero]

theorem nearestWhole_of_small {whole : Nat} (small : whole < 2 ^ 53) : nearestWhole whole = whole := by
  have rounded := roundQuotient_mul whole Nat.one_pos
  rw [Nat.mul_one] at rounded
  rw [nearestWhole, spacing_of_small small, rounded, Nat.mul_one]

/-- A large number has a large multiple. -/
theorem le_nearestWhole {whole : Nat} (large : 2 ^ 53 ≤ whole) : 2 ^ 53 ≤ nearestWhole whole := by
  have something : whole ≠ 0 := by
    rintro rfl
    exact absurd large (by decide)
  have long : 53 ≤ whole.log2 := (Nat.le_log2 something).mpr large
  have digits : 2 ^ 52 ≤ whole / spacing whole := by
    rw [Nat.le_div_iff_mul_le (spacing_positive whole), spacing, ← Nat.pow_add]
    have split : 52 + (whole.log2 - 52) = whole.log2 := by omega
    rw [split]
    exact Nat.log2_self_le something
  have double : 2 ≤ spacing whole := by
    have power : 2 ^ 1 ≤ 2 ^ (whole.log2 - 52) := Nat.pow_le_pow_right (by decide) (by omega)
    exact power
  calc 2 ^ 53 = 2 ^ 52 * 2 := by decide
    _ ≤ roundQuotient whole (spacing whole) * spacing whole :=
      Nat.mul_le_mul (le_trans digits (roundQuotient_bounds _ _).1) double

theorem spacing_le {whole : Nat} (small : whole < 2 ^ 64) : spacing whole ≤ 2 ^ 11 := by
  refine Nat.pow_le_pow_right (by decide) ?_
  by_cases nothing : whole = 0
  · rw [nothing]
    decide
  · have short : whole.log2 < 64 := (Nat.log2_lt nothing).mpr small
    omega

/-! ## The number that a whole number becomes -/

/-- A rounded significand keeps its value, also where it carries to the next power of two. -/
theorem absolute_ofMagnitude_rung (negative : Bool) {digits : Nat} {exponent : Int} (few : digits ≤ 2 ^ 53)
    (lowest : -1074 ≤ exponent) (full : -1074 < exponent → 2 ^ 52 ≤ digits)
    (small : rung (digits, exponent) < 2 ^ 63) :
    (ofMagnitude negative (rung (digits, exponent))).absolute = digits * 2 ^ exponent := by
  rcases Nat.lt_or_eq_of_le few with below | carried
  · rw [absolute, significand_ofMagnitude negative below lowest full small]
  · have next : rung (digits, exponent) = rung (2 ^ 52, exponent + 1) := by
      unfold rung
      dsimp only
      omega
    rw [next] at small ⊢
    rw [absolute, significand_ofMagnitude negative (by decide) (by omega) (fun _ => le_rfl) small, carried]
    dsimp only
    rw [zpow_add_one₀ (by norm_num)]
    push_cast
    ring

/-- Where a whole number stands on its grid. -/
theorem grid_whole {whole : Nat} (something : whole ≠ 0) :
    Grid 53 (-1074) (ratio (whole, 1)) ((whole.log2 : Int) - 52) := by
  have value : ratio (whole, 1) = whole := by simp [ratio]
  have low : (2 : ℚ) ^ whole.log2 ≤ whole := by exact_mod_cast Nat.log2_self_le something
  have high : (whole : ℚ) < 2 ^ (whole.log2 + 1) := by exact_mod_cast Nat.lt_log2_self
  refine ⟨by omega, ?_, fun _ => ?_⟩
  · have top : (whole.log2 : Int) - 52 + (53 : Nat) = (whole.log2 + 1 : Nat) := by push_cast; ring
    rw [value, top, zpow_natCast]
    exact high
  · have bottom : (whole.log2 : Int) - 52 + (53 : Nat) - 1 = (whole.log2 : Nat) := by push_cast; ring
    rw [value, bottom, zpow_natCast]
    exact low

/-- The significand of a whole number times its power of two is the nearest multiple. -/
theorem nearest_whole {whole : Nat} (something : whole ≠ 0) :
    ∃ digits : Nat, nearest 53 (-1074) whole 1 = (digits, (whole.log2 : Int) - 52) ∧
      digits ≤ 2 ^ 53 ∧ 2 ^ 52 ≤ digits ∧ (digits : ℚ) * 2 ^ ((whole.log2 : Int) - 52) = nearestWhole whole := by
  obtain ⟨exponent, grid, rounded⟩ := nearest_eq 53 (-1074) (Nat.pos_of_ne_zero something) Nat.one_pos
  obtain rfl := grid.unique (grid_whole something)
  have positive := scaleDown_positive whole Nat.one_pos ((whole.log2 : Int) - 52)
  have bounds := grid.scaled (by decide)
  rw [← ratio_scaleDown] at bounds
  refine ⟨_, rounded, ?_, ?_, ?_⟩
  · refine roundQuotient_le_whole positive ?_
    exact_mod_cast bounds.1.le
  · refine le_roundQuotient_whole positive ?_
    exact_mod_cast bounds.2 (by omega)
  · rcases Nat.lt_or_ge whole.log2 52 with short | long
    · -- The number has digits to spare, and is itself the multiple.
      have small : whole < 2 ^ 53 := lt_trans ((Nat.log2_lt something).mp short) (by decide)
      have raised : ratio (scaleDown whole 1 ((whole.log2 : Int) - 52)) = (whole * 2 ^ (52 - whole.log2) : Nat) := by
        have turned : (whole.log2 : Int) - 52 = -((52 - whole.log2 : Nat) : Int) := by omega
        rw [turned, ratio_scaleDown_neg, zpow_natCast]
        push_cast
        rfl
      rw [roundQuotient_of_whole positive raised, nearestWhole_of_small small]
      have turned : (whole.log2 : Int) - 52 = -((52 - whole.log2 : Nat) : Int) := by omega
      rw [turned, zpow_neg, zpow_natCast]
      push_cast
      field_simp
    · have lifted : (whole.log2 : Int) - 52 = Int.ofNat (whole.log2 - 52) := by
        rw [Int.ofNat_eq_natCast]
        omega
      rw [lifted]
      simp only [scaleDown, Nat.pow_eq, Nat.one_mul, Int.ofNat_eq_natCast, zpow_natCast, nearestWhole, spacing]
      push_cast
      rfl

/-- A whole number of 64 bits becomes its nearest multiple. -/
theorem absolute_whole {whole : Nat} (small : whole < 2 ^ 64) :
    (ofQuotient false whole 1).isFinite = true ∧ (ofQuotient false whole 1).absolute = nearestWhole whole := by
  rw [ofQuotient_eq false whole Nat.one_pos]
  by_cases nothing : whole = 0
  · have zero : roundedMagnitude whole 1 = 0 := if_pos nothing
    have bound : 0 < infinityMagnitude := by decide
    rw [zero, nothing]
    refine ⟨isFinite_ofMagnitude false bound, ?_⟩
    rw [nearestWhole_of_small (by decide), Nat.cast_zero, absolute_eq_zero_iff]
    exact magnitude_ofMagnitude false (by decide)
  · obtain ⟨digits, rounded, few, full, value⟩ := nearest_whole nothing
    have short : whole.log2 < 64 := (Nat.log2_lt nothing).mpr small
    have below : rung (digits, (whole.log2 : Int) - 52) < infinityMagnitude := by
      have bound : infinityMagnitude = 2047 * 2 ^ 52 := rfl
      unfold rung
      dsimp only
      omega
    have magnitude : roundedMagnitude whole 1 = rung (digits, (whole.log2 : Int) - 52) := by
      rw [roundedMagnitude, if_neg nothing, rounded, min_eq_right below.le]
    have bound : infinityMagnitude < 2 ^ 63 := by decide
    rw [magnitude, ← value]
    exact ⟨isFinite_ofMagnitude false below,
      absolute_ofMagnitude_rung false few (by omega) (fun _ => full) (lt_trans below bound)⟩

/-! ## Integers that become the same -/

/-- Whole numbers become the same exactly if their nearest multiples are the same. -/
theorem roundedMagnitude_eq_iff {m n : Nat} (small : m < 2 ^ 64) (alsoSmall : n < 2 ^ 64) :
    roundedMagnitude m 1 = roundedMagnitude n 1 ↔ nearestWhole m = nearestWhole n := by
  have level {whole : Nat} (small : whole < 2 ^ 64) :
      roundedMagnitude whole 1 = roundedMagnitude (nearestWhole whole) 1 := by
    obtain ⟨finite, value⟩ := absolute_whole small
    have same : ratio (nearestWhole whole, 1) = (ofQuotient false whole 1).absolute := by
      rw [value, ratio, Nat.cast_one, div_one]
    rw [roundedMagnitude_absolute finite Nat.one_pos same, ofQuotient_eq false whole Nat.one_pos]
    exact (magnitude_ofMagnitude false (roundedMagnitude_lt whole 1)).symm
  constructor
  · intro same
    have left := (absolute_whole small).2
    have right := (absolute_whole alsoSmall).2
    rw [ofQuotient_eq false _ Nat.one_pos] at left right
    rw [same, right] at left
    exact_mod_cast left.symm
  · intro same
    rw [level small, same, ← level alsoSmall]

theorem nearestWhole_eq_zero_iff {whole : Nat} : nearestWhole whole = 0 ↔ whole = 0 := by
  rcases Nat.lt_or_ge whole (2 ^ 53) with small | large
  · rw [nearestWhole_of_small small]
  · have bound := le_nearestWhole large
    omega

/-- Integers become the same number exactly if their nearest multiples are the same. -/
theorem place_ofInt_eq_iff {i j : Int} (small : i.natAbs < 2 ^ 64) (alsoSmall : j.natAbs < 2 ^ 64) :
    (ofInt i).place = (ofInt j).place ↔ nearestInteger i = nearestInteger j := by
  have level := roundedMagnitude_eq_iff small alsoSmall
  have vanish {whole : Nat} (small : whole < 2 ^ 64) : roundedMagnitude whole 1 = 0 ↔ nearestWhole whole = 0 := by
    have zero : nearestWhole 0 = 0 := nearestWhole_of_small (by decide)
    have nothing : roundedMagnitude 0 1 = 0 := if_pos rfl
    have same := roundedMagnitude_eq_iff small (show 0 < 2 ^ 64 by decide)
    rwa [zero, nothing] at same
  have left := vanish small
  have right := vanish alsoSmall
  rw [place_ofInt, place_ofInt, nearestInteger, nearestInteger]
  split <;> split <;> omega

/-- Integers that become the same lie on one side of zero, beyond 2 to the 53, and close to each other. -/
theorem close_of_nearestInteger_eq {i j : Int} (differ : i ≠ j) (same : nearestInteger i = nearestInteger j)
    (small : i.natAbs < 2 ^ 64) (alsoSmall : j.natAbs < 2 ^ 64) :
    (i < 0 ↔ j < 0) ∧ 2 ^ 53 ≤ i.natAbs ∧ 2 ^ 53 ≤ j.natAbs ∧ (i - j).natAbs ≤ 2 ^ 11 := by
  have something {k : Int} (nonzero : k.natAbs ≠ 0) : nearestWhole k.natAbs ≠ 0 :=
    fun zero => nonzero (nearestWhole_eq_zero_iff.mp zero)
  have sides : (i < 0 ↔ j < 0) ∧ nearestWhole i.natAbs = nearestWhole j.natAbs := by
    have left := @something i
    have right := @something j
    unfold nearestInteger at same
    split at same <;> split at same <;> omega
  obtain ⟨side, level⟩ := sides
  have apart : i.natAbs ≠ j.natAbs := by omega
  have large {m n : Nat} (apart : m ≠ n) (level : nearestWhole m = nearestWhole n) : 2 ^ 53 ≤ m := by
    by_contra low
    rw [nearestWhole_of_small (not_le.mp low)] at level
    rcases Nat.lt_or_ge n (2 ^ 53) with few | many
    · rw [nearestWhole_of_small few] at level
      exact apart level
    · have bound := le_nearestWhole many
      omega
  have leftClose := nearestWhole_close i.natAbs
  have rightClose := nearestWhole_close j.natAbs
  have leftSpace := spacing_le small
  have rightSpace := spacing_le alsoSmall
  refine ⟨side, large apart level, large apart.symm level.symm, ?_⟩
  omega

end TaggedRecords.Binary64
