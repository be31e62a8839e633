/-!
# Binary floating-point numbers

Numbers of 64 bits with a sign, an exponent of 11 bits and a fraction of 52, kept as their bits. A finite
number is a significand times a power of two; an exact quotient is rounded to the nearest number, a half to
the even one. Order and equality look at the number, so the two zeros are equal and a NaN equals nothing.
Powers are written `Nat.pow`, which no further import reads as the power of another structure.
-/

namespace TaggedRecords

/-- A floating-point number, as its bits. -/
structure Binary64 where
  bits : UInt64
deriving DecidableEq

namespace Binary64

/-! ## The parts of a number -/

/-- The weight of the sign bit. -/
def signWeight : Nat := Nat.pow 2 63

/-- The magnitude of the infinities; above it stand the NaNs. -/
def infinityMagnitude : Nat := 2047 * Nat.pow 2 52

/-- All bits but the sign. -/
def magnitude (x : Binary64) : Nat := x.bits.toNat % signWeight

/-- Whether the sign bit is set. -/
def isNegative (x : Binary64) : Bool := decide (signWeight ≤ x.bits.toNat)

/-- Whether this is no number at all. -/
def isNaN (x : Binary64) : Bool := decide (infinityMagnitude < x.magnitude)

/-- Whether this is a number other than the infinities. -/
def isFinite (x : Binary64) : Bool := decide (x.magnitude < infinityMagnitude)

/-- Whether this is one of the two zeros. -/
def isZero (x : Binary64) : Bool := decide (x.magnitude = 0)

/-- A number from its sign and magnitude. -/
def ofMagnitude (negative : Bool) (magnitude : Nat) : Binary64 :=
  ⟨UInt64.ofNat (if negative then signWeight + magnitude else magnitude)⟩

/-- Infinity with the given sign. -/
def infinity (negative : Bool) : Binary64 := ofMagnitude negative infinityMagnitude

/-- The NaN that stands for all of them. -/
def nan : Binary64 := ofMagnitude false (infinityMagnitude + Nat.pow 2 51)

/-- The whole number and the exponent of two whose product a finite number is, its sign apart. -/
def significand (x : Binary64) : Nat × Int :=
  let fraction := x.magnitude % Nat.pow 2 52
  match x.magnitude / Nat.pow 2 52 with
  | 0 => (fraction, -1074)
  | exponent + 1 => (fraction + Nat.pow 2 52, (exponent : Int) - 1074)

/-! ## Order -/

/-- A number's place in the order: equal for the two zeros, larger for a larger number. -/
def place (x : Binary64) : Int := if x.isNegative then -x.magnitude else x.magnitude

/-- The order of two numbers; there is none with a NaN. -/
def compare? (x y : Binary64) : Option Ordering :=
  if x.isNaN || y.isNaN then none else some (compare x.place y.place)

/-- Whether two numbers are the same number. -/
def same (x y : Binary64) : Bool := compare? x y = some .eq

/-! ## Rounding -/

/-- The whole number nearest to a quotient; a half goes to the even neighbour. -/
def roundQuotient (num den : Nat) : Nat :=
  let below := num / den
  let twice := 2 * (num % den)
  if den < twice ∨ (twice = den ∧ below % 2 = 1) then below + 1 else below

/-- A quotient divided by a power of two, as numerator and denominator. -/
def scaleDown (num den : Nat) : Int → Nat × Nat
  | .ofNat exponent => (num, den * Nat.pow 2 exponent)
  | .negSucc exponent => (num * Nat.pow 2 (exponent + 1), den)

/-- A quotient in `precision` binary digits: the rounded significand and its exponent of two, which is at
least `lowest`. Rounding may carry the significand to the next power of two. -/
def nearest (precision : Nat) (lowest : Int) (num den : Nat) : Nat × Int :=
  let guess : Int := (num.log2 : Int) - den.log2 - precision
  let atGuess := scaleDown num (den * Nat.pow 2 precision) guess
  let exponent := max lowest (if atGuess.2 ≤ atGuess.1 then guess + 1 else guess)
  let scaled := scaleDown num den exponent
  (roundQuotient scaled.1 scaled.2, exponent)

/-- The number with a significand of at most 53 binary digits and an exponent of at least -1074; infinity if
it is too large. -/
def ofSignificand (negative : Bool) (significand : Nat) (exponent : Int) : Binary64 :=
  if significand = 0 then ofMagnitude negative 0
  else ofMagnitude negative (min infinityMagnitude ((exponent + 1074).toNat * Nat.pow 2 52 + significand))

/-- The number nearest to a quotient. -/
def ofQuotient (negative : Bool) (num den : Nat) : Binary64 :=
  if num = 0 then ofMagnitude negative 0
  else
    let rounded := nearest 53 (-1074) num den
    ofSignificand negative rounded.1 rounded.2

/-- The number nearest to an integer. -/
def ofInt (i : Int) : Binary64 := ofQuotient (decide (i < 0)) i.natAbs 1

/-- The nearest number of single precision: 24 binary digits, exponents from -149, below 2 to the 128. -/
def toSingle (x : Binary64) : Binary64 :=
  if !x.isFinite then x
  else if x.isZero then x
  else
    let exact := x.significand
    let quotient := scaleDown exact.1 1 (-exact.2)
    let rounded := nearest 24 (-149) quotient.1 quotient.2
    let whole := scaleDown rounded.1 1 (-rounded.2)
    if Nat.pow 2 128 * whole.2 ≤ whole.1 then infinity x.isNegative
    else ofQuotient x.isNegative whole.1 whole.2

end Binary64

end TaggedRecords
