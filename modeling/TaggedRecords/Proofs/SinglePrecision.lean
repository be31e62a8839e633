import TaggedRecords.Proofs.Rounding

/-!
# Single precision

A number that stands on its grid is its own rounding, so a number is given back by every quotient that is equal to it.
Rounding to single precision leaves 24 binary digits, and it leaves a number that has no more as it is.
-/

namespace TaggedRecords.Binary64

/-! ## The value of a number -/

/-- A finite number without its sign. -/
def absolute (x : Binary64) : ℚ := x.significand.1 * 2 ^ x.significand.2

/-- A significand has at most 53 digits, just so many above the lowest exponent, and it stands where the number does. -/
theorem significand_spec (x : Binary64) :
    x.significand.1 < 2 ^ 53 ∧ -1074 ≤ x.significand.2 ∧ (-1074 < x.significand.2 → 2 ^ 52 ≤ x.significand.1) ∧
      rung x.significand = x.magnitude := by
  have parts : 2 ^ 52 * (x.magnitude / 2 ^ 52) + x.magnitude % 2 ^ 52 = x.magnitude := Nat.div_add_mod _ _
  have small : x.magnitude % 2 ^ 52 < 2 ^ 52 := Nat.mod_lt _ (by decide)
  unfold significand rung
  simp only [Nat.pow_eq]
  split
  · next low =>
    rw [low] at parts
    dsimp only
    omega
  · next exponent high =>
    rw [high] at parts
    dsimp only
    omega

theorem grid_absolute (x : Binary64) : Grid 53 (-1074) x.absolute x.significand.2 := by
  obtain ⟨few, lowest, full, -⟩ := x.significand_spec
  have two : (2 : ℚ) ≠ 0 := by norm_num
  have positive : (0 : ℚ) < 2 ^ x.significand.2 := zpow_pos (by norm_num) _
  refine ⟨lowest, ?_, fun above => ?_⟩
  · rw [absolute, zpow_add₀ two, mul_comm]
    exact (mul_lt_mul_iff_right₀ positive).mpr (by exact_mod_cast few)
  · have digits : (2 : ℚ) ^ 52 ≤ x.significand.1 := by exact_mod_cast full above
    have split : x.significand.2 + ((53 : Nat) : Int) - 1 = x.significand.2 + 52 := by omega
    rw [absolute, split, zpow_add₀ two, mul_comm]
    exact (mul_le_mul_iff_left₀ positive).mpr (by exact_mod_cast digits)

theorem absolute_eq_zero_iff (x : Binary64) : x.absolute = 0 ↔ x.magnitude = 0 := by
  obtain ⟨-, lowest, full, stands⟩ := x.significand_spec
  have power : (2 : ℚ) ^ x.significand.2 ≠ 0 := (zpow_pos (by norm_num) _).ne'
  rw [absolute, mul_eq_zero, or_iff_left power, Nat.cast_eq_zero, ← stands]
  unfold rung
  omega

/-- A number is put together again from its sign and its magnitude. -/
theorem ofMagnitude_magnitude (x : Binary64) : ofMagnitude x.isNegative x.magnitude = x := by
  obtain ⟨bits⟩ := x
  have small : bits.toNat < 2 ^ 64 := bits.toNat_lt
  have weight : signWeight = 2 ^ 63 := rfl
  have parts : (if signWeight ≤ bits.toNat then signWeight + bits.toNat % signWeight else bits.toNat % signWeight) =
      bits.toNat := by
    rw [weight]
    by_cases negative : 2 ^ 63 ≤ bits.toNat
    · rw [if_pos negative]
      omega
    · rw [if_neg negative]
      omega
  simp only [ofMagnitude, isNegative, magnitude, decide_eq_true_eq, parts, UInt64.ofNat_toNat]

/-- The parts of a number that is made from a significand are that significand and its exponent. -/
theorem significand_ofMagnitude (negative : Bool) {digits : Nat} {exponent : Int} (few : digits < 2 ^ 53)
    (lowest : -1074 ≤ exponent) (full : -1074 < exponent → 2 ^ 52 ≤ digits)
    (small : rung (digits, exponent) < 2 ^ 63) :
    (ofMagnitude negative (rung (digits, exponent))).significand = (digits, exponent) := by
  obtain ⟨alsoFew, alsoLowest, alsoFull, stands⟩ := (ofMagnitude negative (rung (digits, exponent))).significand_spec
  rw [magnitude_ofMagnitude negative small] at stands
  generalize (ofMagnitude negative (rung (digits, exponent))).significand = parts at *
  obtain ⟨others, place⟩ := parts
  unfold rung at stands
  dsimp only at alsoFew alsoLowest alsoFull stands
  have same : place = exponent := by omega
  have equal : others = digits := by omega
  rw [same, equal]

theorem isFinite_ofMagnitude (negative : Bool) {magnitude : Nat} (below : magnitude < infinityMagnitude) :
    (ofMagnitude negative magnitude).isFinite = true := by
  have bound : infinityMagnitude < 2 ^ 63 := by decide
  rw [isFinite, magnitude_ofMagnitude negative (lt_trans below bound)]
  exact decide_eq_true below

/-! ## Quotients that need no rounding -/

theorem Grid.unique {precision : Nat} {lowest exponent other : Int} {x : ℚ} (grid : Grid precision lowest x exponent)
    (next : Grid precision lowest x other) : exponent = other :=
  le_antisymm (grid.mono next le_rfl) (next.mono grid le_rfl)

/-- A number below a power of two has no grid above that power. -/
theorem Grid.exponent_lt {precision : Nat} {lowest exponent top : Int} {x : ℚ} (grid : Grid precision lowest x exponent)
    (small : x < 2 ^ top) (above : lowest < exponent) : exponent + precision - 1 < top :=
  (zpow_lt_zpow_iff_right₀ (by norm_num : (1 : ℚ) < 2)).mp (lt_of_le_of_lt (grid.above above) small)

/-- A number with few enough digits is a multiple of its grid. -/
theorem Grid.exponent_le {precision digits : Nat} {lowest exponent place : Int} {x : ℚ}
    (grid : Grid precision lowest x exponent) (value : x = digits * 2 ^ place) (few : digits < 2 ^ precision)
    (low : lowest ≤ place) : exponent ≤ place := by
  by_contra coarse
  have two : (2 : ℚ) ≠ 0 := by norm_num
  have positive : (0 : ℚ) < 2 ^ place := zpow_pos (by norm_num) _
  have below : x < 2 ^ (precision + place) := by
    rw [value, zpow_add₀ two, zpow_natCast]
    exact (mul_lt_mul_iff_left₀ positive).mpr (by exact_mod_cast few)
  have order := grid.exponent_lt below (by omega)
  omega

/-- The digits of a multiple of its grid: at most so many, and just so many above the lowest exponent. -/
theorem Grid.digits {precision whole : Nat} {lowest exponent : Int} {x : ℚ} (grid : Grid precision lowest x exponent)
    (room : 1 ≤ precision) (value : x = whole * 2 ^ exponent) :
    whole < 2 ^ precision ∧ (lowest < exponent → 2 ^ (precision - 1) ≤ whole) := by
  have scaled : x / 2 ^ exponent = whole := by
    rw [value, mul_div_cancel_right₀ _ (zpow_pos (by norm_num) _).ne']
  have bounds := grid.scaled room
  rw [scaled] at bounds
  exact_mod_cast bounds

theorem roundQuotient_of_whole {x : Nat × Nat} (positive : 0 < x.2) {whole : Nat} (same : ratio x = whole) :
    roundQuotient x.1 x.2 = whole :=
  le_antisymm (roundQuotient_le_whole positive same.le) (le_roundQuotient_whole positive same.ge)

/-- A quotient with few enough digits is rounded to itself. -/
theorem nearest_exact {precision digits num den : Nat} {lowest place : Int} (numPositive : 0 < num)
    (denPositive : 0 < den) (value : ratio (num, den) = digits * 2 ^ place) (few : digits < 2 ^ precision)
    (low : lowest ≤ place) :
    ∃ whole exponent, nearest precision lowest num den = (whole, exponent) ∧
      Grid precision lowest (ratio (num, den)) exponent ∧ ratio (num, den) = whole * 2 ^ exponent := by
  obtain ⟨exponent, grid, rounded⟩ := nearest_eq precision lowest numPositive denPositive
  have fine := grid.exponent_le value few low
  have two : (2 : ℚ) ≠ 0 := by norm_num
  have whole : ratio (scaleDown num den exponent) = (digits * 2 ^ (place - exponent).toNat : Nat) := by
    rw [ratio_scaleDown, value, mul_div_assoc, ← zpow_sub₀ two]
    push_cast
    rw [← zpow_natCast, Int.toNat_of_nonneg (by omega)]
  refine ⟨_, exponent, rounded, grid, ?_⟩
  rw [roundQuotient_of_whole (scaleDown_positive num denPositive exponent) whole, ← whole, ratio_scaleDown,
    div_mul_cancel₀ _ (zpow_pos (by norm_num) _).ne']

/-- A quotient that is equal to a number is rounded to its magnitude. -/
theorem roundedMagnitude_absolute {x : Binary64} (finite : x.isFinite = true) {num den : Nat} (denPositive : 0 < den)
    (same : ratio (num, den) = x.absolute) : roundedMagnitude num den = x.magnitude := by
  unfold roundedMagnitude
  by_cases nothing : num = 0
  · rw [if_pos nothing]
    refine ((absolute_eq_zero_iff x).mp ?_).symm
    rw [← same, nothing, ratio, Nat.cast_zero, zero_div]
  · obtain ⟨few, lowest, -, stands⟩ := x.significand_spec
    obtain ⟨whole, exponent, rounded, grid, value⟩ :=
      nearest_exact (Nat.pos_of_ne_zero nothing) denPositive (same.trans rfl) few lowest
    have place : exponent = x.significand.2 := (same ▸ grid).unique x.grid_absolute
    subst place
    have digits : whole = x.significand.1 := by
      have equal : (whole : ℚ) * 2 ^ x.significand.2 = x.significand.1 * 2 ^ x.significand.2 := value.symm.trans same
      exact_mod_cast mul_right_cancel₀ (zpow_pos (by norm_num : (0 : ℚ) < 2) _).ne' equal
    have below : x.magnitude < infinityMagnitude := of_decide_eq_true finite
    rw [if_neg nothing, rounded, digits]
    exact (congrArg (min infinityMagnitude) stands).trans (min_eq_right below.le)

/-- A quotient that is equal to a number is rounded to that number. -/
theorem ofQuotient_absolute {x : Binary64} (finite : x.isFinite = true) {num den : Nat} (denPositive : 0 < den)
    (same : ratio (num, den) = x.absolute) : ofQuotient x.isNegative num den = x := by
  rw [ofQuotient_eq _ _ denPositive, roundedMagnitude_absolute finite denPositive same, ofMagnitude_magnitude]

/-- A quotient with few enough digits becomes a number that is equal to it. -/
theorem absolute_ofQuotient (negative : Bool) {num den digits : Nat} {place : Int} (denPositive : 0 < den)
    (value : ratio (num, den) = digits * 2 ^ place) (few : digits < 2 ^ 53) (low : -1074 ≤ place)
    (small : ratio (num, den) < 2 ^ 128) :
    (ofQuotient negative num den).isFinite = true ∧ (ofQuotient negative num den).absolute = ratio (num, den) := by
  rw [ofQuotient_eq negative num denPositive]
  by_cases nothing : num = 0
  · have zero : roundedMagnitude num den = 0 := if_pos nothing
    have bound : 0 < infinityMagnitude := by decide
    rw [zero]
    refine ⟨isFinite_ofMagnitude negative bound, ?_⟩
    rw [nothing, ratio, Nat.cast_zero, zero_div, absolute_eq_zero_iff, magnitude_ofMagnitude negative (by decide)]
  · obtain ⟨whole, exponent, rounded, grid, equal⟩ :=
      nearest_exact (Nat.pos_of_ne_zero nothing) denPositive value few low
    have lowest := grid.lowest_le
    obtain ⟨wholeFew, wholeFull⟩ := grid.digits (by decide) equal
    have high : exponent < 128 := by
      by_contra large
      have bound : ratio (num, den) < 2 ^ (128 : Int) := by exact_mod_cast small
      have order := grid.exponent_lt bound (by omega)
      omega
    have below : rung (whole, exponent) < infinityMagnitude := by
      have bound : infinityMagnitude = 2047 * 2 ^ 52 := rfl
      unfold rung
      dsimp only
      omega
    have magnitude : roundedMagnitude num den = rung (whole, exponent) := by
      rw [roundedMagnitude, if_neg nothing, rounded, min_eq_right below.le]
    have bound : infinityMagnitude < 2 ^ 63 := by decide
    rw [magnitude]
    refine ⟨isFinite_ofMagnitude negative below, ?_⟩
    rw [absolute, significand_ofMagnitude negative wholeFew lowest wholeFull (lt_trans below bound), equal]

/-! ## Single precision -/

/-- A number of single precision: if it is finite it has at most 24 digits, and an exponent that leaves it below 2 to
the 128 and a multiple of 2 to the -149. -/
def IsSingle (x : Binary64) : Prop :=
  x.isFinite = true → ∃ (digits : Nat) (place : Int), digits < 2 ^ 24 ∧ -149 ≤ place ∧ place ≤ 104 ∧
    x.absolute = digits * 2 ^ place

/-- The significand and the exponent of a number that is rounded to single precision. -/
def singleParts (x : Binary64) : Nat × Int :=
  let quotient := scaleDown x.significand.1 1 (-x.significand.2)
  nearest 24 (-149) quotient.1 quotient.2

/-- Their product as a quotient. -/
def singleQuotient (x : Binary64) : Nat × Nat := scaleDown x.singleParts.1 1 (-x.singleParts.2)

theorem ratio_scaleDown_neg (whole : Nat) (place : Int) : ratio (scaleDown whole 1 (-place)) = whole * 2 ^ place := by
  rw [ratio_scaleDown, ratio, Nat.cast_one, div_one, zpow_neg, div_inv_eq_mul]

variable {x : Binary64}

/-- The rounded number has 24 digits, just so many above the lowest exponent, and a number that is a multiple of the
grid is not changed. -/
theorem singleParts_spec (nonzero : x.magnitude ≠ 0) :
    Grid 24 (-149) x.absolute x.singleParts.2 ∧ x.singleParts.1 ≤ 2 ^ 24 ∧
      (-149 < x.singleParts.2 → 2 ^ 23 ≤ x.singleParts.1) ∧
      ∀ whole : Nat, x.absolute = whole * 2 ^ x.singleParts.2 → x.singleParts.1 = whole := by
  have quotient : ratio (scaleDown x.significand.1 1 (-x.significand.2)) = x.absolute := ratio_scaleDown_neg _ _
  have denPositive := scaleDown_positive x.significand.1 Nat.one_pos (-x.significand.2)
  have numPositive : 0 < (scaleDown x.significand.1 1 (-x.significand.2)).1 := by
    refine Nat.pos_of_ne_zero fun nothing => nonzero ((absolute_eq_zero_iff x).mp ?_)
    rw [← quotient, ratio, nothing, Nat.cast_zero, zero_div]
  obtain ⟨place, grid, rounded⟩ := nearest_eq 24 (-149) numPositive denPositive
  have scaledPositive := scaleDown_positive (scaleDown x.significand.1 1 (-x.significand.2)).1 denPositive place
  have parts : x.singleParts = _ := rounded
  rw [parts, ← quotient]
  refine ⟨grid, roundQuotient_le_whole scaledPositive ?_, fun above => le_roundQuotient_whole scaledPositive ?_,
    fun whole same => roundQuotient_of_whole scaledPositive ?_⟩
  · rw [ratio_scaleDown]
    exact_mod_cast (grid.scaled (by decide)).1.le
  · rw [ratio_scaleDown]
    exact_mod_cast (grid.scaled (by decide)).2 above
  · rw [ratio_scaleDown, same, mul_div_cancel_right₀ _ (zpow_pos (by norm_num) _).ne']

theorem toSingle_eq (finite : x.isFinite = true) (nonzero : x.magnitude ≠ 0) :
    x.toSingle = if (2 : ℚ) ^ 128 ≤ ratio x.singleQuotient then infinity x.isNegative
      else ofQuotient x.isNegative x.singleQuotient.1 x.singleQuotient.2 := by
  have positive : 0 < x.singleQuotient.2 := scaleDown_positive _ Nat.one_pos _
  have large : Nat.pow 2 128 * x.singleQuotient.2 ≤ x.singleQuotient.1 ↔ (2 : ℚ) ^ 128 ≤ ratio x.singleQuotient := by
    rw [ratio, le_div_iff₀ (by exact_mod_cast positive)]
    exact_mod_cast Iff.rfl
  have zero : x.isZero = false := decide_eq_false nonzero
  simp only [← large]
  unfold toSingle
  rw [finite, zero]
  rfl

/-- A number of single precision is not changed when it is rounded to it. -/
theorem toSingle_of_isSingle (single : x.IsSingle) : x.toSingle = x := by
  by_cases finite : x.isFinite = true
  · by_cases nothing : x.magnitude = 0
    · have zero : x.isZero = true := decide_eq_true nothing
      simp [toSingle, zero]
    · obtain ⟨digits, place, few, low, high, value⟩ := single finite
      obtain ⟨grid, -, -, exact⟩ := singleParts_spec nothing
      have fine := grid.exponent_le value few low
      have two : (2 : ℚ) ≠ 0 := by norm_num
      have whole : x.absolute = (digits * 2 ^ (place - x.singleParts.2).toNat : Nat) * 2 ^ x.singleParts.2 := by
        push_cast
        rw [← zpow_natCast, Int.toNat_of_nonneg (by omega), mul_assoc, ← zpow_add₀ two, sub_add_cancel]
        exact value
      have same : ratio x.singleQuotient = x.absolute := by
        rw [singleQuotient, ratio_scaleDown_neg, exact _ whole, ← whole]
      have small : ¬ (2 : ℚ) ^ 128 ≤ ratio x.singleQuotient := by
        rw [same, value, not_le]
        calc (digits : ℚ) * 2 ^ place < 2 ^ 24 * 2 ^ place := by
              exact (mul_lt_mul_iff_left₀ (zpow_pos (by norm_num) _)).mpr (by exact_mod_cast few)
          _ ≤ 2 ^ 24 * 2 ^ (104 : Int) := by gcongr; norm_num
          _ = 2 ^ 128 := by norm_num
      rw [toSingle_eq finite nothing, if_neg small]
      exact ofQuotient_absolute finite (scaleDown_positive _ Nat.one_pos _) same
  · simp [toSingle, finite]

/-- Rounding may carry to a digit more, which is none with the next exponent. -/
theorem exists_digits {digits : Nat} {place : Int} (few : digits ≤ 2 ^ 24) (low : -149 ≤ place)
    (full : -149 < place → 2 ^ 23 ≤ digits) (small : (digits : ℚ) * 2 ^ place < 2 ^ 128) :
    ∃ (others : Nat) (other : Int), others < 2 ^ 24 ∧ -149 ≤ other ∧ other ≤ 104 ∧
      (digits : ℚ) * 2 ^ place = others * 2 ^ other := by
  have two : (2 : ℚ) ≠ 0 := by norm_num
  have bounded {n : Nat} (reached : (2 : ℚ) ^ n ≤ digits) : n + place < 128 := by
    have power : (2 : ℚ) ^ (n + place) < 2 ^ (128 : Int) := by
      rw [zpow_add₀ two, zpow_natCast]
      exact lt_of_le_of_lt (mul_le_mul_of_nonneg_right reached (zpow_pos (by norm_num) _).le) (by exact_mod_cast small)
    exact (zpow_lt_zpow_iff_right₀ (by norm_num : (1 : ℚ) < 2)).mp power
  rcases lt_or_eq_of_le few with fewer | carried
  · refine ⟨digits, place, fewer, low, ?_, rfl⟩
    by_contra high
    have reached : (2 : ℚ) ^ 23 ≤ digits := by exact_mod_cast full (by omega)
    have order := bounded reached
    omega
  · have reached : (2 : ℚ) ^ 24 ≤ digits := by exact_mod_cast carried.ge
    have order := bounded reached
    refine ⟨2 ^ 23, place + 1, by decide, by omega, by omega, ?_⟩
    rw [carried, zpow_add_one₀ two]
    push_cast
    ring

/-- Whatever is rounded to single precision is a number of single precision. -/
theorem isSingle_toSingle (x : Binary64) : x.toSingle.IsSingle := by
  by_cases finite : x.isFinite = true
  · by_cases nothing : x.magnitude = 0
    · have zero : x.isZero = true := decide_eq_true nothing
      have same : x.toSingle = x := by simp [toSingle, zero]
      rw [same]
      refine fun _ => ⟨0, 0, by decide, by decide, by decide, ?_⟩
      rw [(absolute_eq_zero_iff x).mpr nothing, Nat.cast_zero, zero_mul]
    · obtain ⟨grid, few, full, -⟩ := singleParts_spec nothing
      have low := grid.lowest_le
      rw [toSingle_eq finite nothing]
      by_cases large : (2 : ℚ) ^ 128 ≤ ratio x.singleQuotient
      · rw [if_pos large]
        intro alsoFinite
        rw [isFinite, infinity, magnitude_ofMagnitude _ (by decide)] at alsoFinite
        exact absurd (of_decide_eq_true alsoFinite) (lt_irrefl _)
      · rw [if_neg large]
        rw [not_le] at large
        have value : ratio x.singleQuotient = x.singleParts.1 * 2 ^ x.singleParts.2 := ratio_scaleDown_neg _ _
        obtain ⟨-, same⟩ := absolute_ofQuotient x.isNegative (scaleDown_positive _ Nat.one_pos _) value (by omega)
          (by omega) large
        have digits := exists_digits few low full (value ▸ large)
        rw [← value] at digits
        exact fun _ => same ▸ digits
  · have same : x.toSingle = x := by simp [toSingle, finite]
    rw [same]
    exact fun alsoFinite => absurd alsoFinite finite

end TaggedRecords.Binary64
