import TaggedRecords.Binary64

/-!
# Numerals

Reading integers within bounds and floating-point numbers, each with the cause of a failure, and the shortest
decimal digits that read back as a given floating-point number, laid out as stored text has them.
-/

namespace TaggedRecords

/-- Why a text is no numeral of the wanted kind. -/
inductive NumeralFault where
  | empty
  | invalidDigit
  | tooLarge
  | tooSmall
  | invalidFloat
deriving DecidableEq

/-- What the fault says. -/
def NumeralFault.message : NumeralFault → String
  | .empty => "cannot parse integer from empty string"
  | .invalidDigit => "invalid digit found in string"
  | .tooLarge => "number too large to fit in target type"
  | .tooSmall => "number too small to fit in target type"
  | .invalidFloat => "invalid float literal"

namespace Numeral

/-- The value of a decimal digit. -/
def digit? (c : Char) : Option Nat := if c.isDigit then some (c.toNat - '0'.toNat) else none

/-! ## Integers -/

/-- Reads digits behind those already read. At each character an invalid digit is noticed before a number
above the limit. -/
def readDigits (limit : Nat) (overflow : NumeralFault) : Nat → List Char → Except NumeralFault Nat
  | value, [] => .ok value
  | value, c :: rest =>
    match digit? c with
    | none => .error .invalidDigit
    | some d =>
      if limit < 10 * value + d then .error overflow
      else readDigits limit overflow (10 * value + d) rest

/-- Reads an integer between `-lower` and `upper`; without a lower bound a minus sign is no digit. -/
def readInteger (lower : Option Nat) (upper : Nat) (text : List Char) : Except NumeralFault Int :=
  match text, lower with
  | [], _ => .error .empty
  | ['+'], _ => .error .invalidDigit
  | ['-'], _ => .error .invalidDigit
  | '+' :: digits, _ => (readDigits upper .tooLarge 0 digits).map Int.ofNat
  | '-' :: digits, some bound => (readDigits bound .tooSmall 0 digits).map fun n => -(Int.ofNat n)
  | digits, _ => (readDigits upper .tooLarge 0 digits).map Int.ofNat

/-- Reads a signed integer of 64 bits. -/
def readInt64 (text : String) : Except NumeralFault Int64 :=
  (readInteger (some (Nat.pow 2 63)) (Nat.pow 2 63 - 1) text.toList).map Int64.ofInt

/-- Reads an unsigned integer of 64 bits. -/
def readUInt64 (text : String) : Except NumeralFault UInt64 :=
  (readInteger none (Nat.pow 2 64 - 1) text.toList).map fun i => UInt64.ofNat i.toNat

/-! ## Floating-point numbers -/

/-- The number that a run of digits denotes. -/
def digitsValue (digits : List Char) : Nat :=
  digits.foldl (fun value c => 10 * value + (c.toNat - '0'.toNat)) 0

/-- The number nearest to `significand` times ten to the `exponent`. Far outside the range of the format the
answer is known without computing the power. -/
def ofDecimal (negative : Bool) (significand : Nat) (exponent : Int) : Binary64 :=
  let size : Int := (Nat.toDigits 10 significand).length
  if significand = 0 ∨ size + exponent < -330 then Binary64.ofMagnitude negative 0
  else if 320 < size + exponent then Binary64.infinity negative
  else
    match exponent with
    | .ofNat e => Binary64.ofQuotient negative (significand * Nat.pow 10 e) 1
    | .negSucc e => Binary64.ofQuotient negative significand (Nat.pow 10 (e + 1))

/-- The exponent behind the mantissa: nothing, or the letter e, a sign or none, and digits. -/
def readExponent : List Char → Option Int
  | [] => some 0
  | c :: rest =>
    if c = 'e' ∨ c = 'E' then
      match rest with
      | '-' :: digits => if digits.isEmpty ∨ !digits.all Char.isDigit then none else some (-(digitsValue digits))
      | '+' :: digits => if digits.isEmpty ∨ !digits.all Char.isDigit then none else some (digitsValue digits)
      | digits => if digits.isEmpty ∨ !digits.all Char.isDigit then none else some (digitsValue digits)
    else none

/-- Reads digits with a point among them or none, at least one digit, and an exponent or none. -/
def readUnsignedFloat (negative : Bool) (text : List Char) : Option Binary64 :=
  let whole := text.takeWhile Char.isDigit
  let behind := text.dropWhile Char.isDigit
  let fraction := match behind with
    | '.' :: rest => rest.takeWhile Char.isDigit
    | _ => []
  let tail := match behind with
    | '.' :: rest => rest.dropWhile Char.isDigit
    | rest => rest
  if whole.isEmpty && fraction.isEmpty then none
  else (readExponent tail).map fun exponent =>
    ofDecimal negative (digitsValue (whole ++ fraction)) (exponent - fraction.length)

/-- Reads a floating-point number: a sign or none, then a numeral, an infinity or a NaN in any case. -/
def readFloat (text : String) : Except NumeralFault Binary64 :=
  let split : Bool × List Char := match text.toList with
    | '-' :: rest => (true, rest)
    | '+' :: rest => (false, rest)
    | rest => (false, rest)
  let word := String.ofList (split.2.map Char.toLower)
  if word = "inf" ∨ word = "infinity" then .ok (Binary64.infinity split.1)
  else if word = "nan" then .ok Binary64.nan
  else
    match readUnsignedFloat split.1 split.2 with
    | some x => .ok x
    | none => .error .invalidFloat

/-! ## Shortest decimals -/

/-- The largest power of ten that a positive quotient reaches, looked for from a guess upwards. -/
def decimalOrderFrom (num den : Nat) : Nat → Int → Int
  | 0, order => order
  | fuel + 1, order =>
    let reaches := match order + 1 with
      | .ofNat e => decide (den * Nat.pow 10 e ≤ num)
      | .negSucc e => decide (den ≤ num * Nat.pow 10 (e + 1))
    if reaches then decimalOrderFrom num den fuel (order + 1) else order

/-- The largest exponent whose power of ten a positive quotient reaches. -/
def decimalOrder (num den : Nat) : Int :=
  decimalOrderFrom num den 4 (((num.log2 : Int) - den.log2 - 1) * 30103 / 100000 - 1)

/-- The decimals with `places` digits next to a number: of those that read back as the number, the nearer
one, and of two at the same distance the even one. The number is four times its significand in quarter steps;
`low` and `high` are the ends of the interval that reads back, `closed` says whether they belong to it. -/
def decimalAt? (quarter low high : Nat) (closed : Bool) (exponent order : Int) (places : Nat) :
    Option (Nat × Int) :=
  let grid := order + 1 - places
  let up := Nat.pow 2 exponent.toNat * Nat.pow 10 (-grid).toNat
  let unit := Nat.pow 2 (-exponent).toNat * Nat.pow 10 grid.toNat
  let within (d : Nat) : Bool :=
    if closed then decide (low * up ≤ d * unit) && decide (d * unit ≤ high * up)
    else decide (low * up < d * unit) && decide (d * unit < high * up)
  let below := quarter * up / unit
  let nearer := Binary64.roundQuotient (quarter * up) unit
  let other := if nearer = below then below + 1 else below
  if within nearer then some (nearer, grid)
  else if within other then some (other, grid)
  else none

/-- The decimal with the fewest digits that reads back as a positive number. -/
def shortest (x : Binary64) : Nat × Int :=
  let exact := x.significand
  let exponent := exact.2 - 2
  let quarter := 4 * exact.1
  let low := if x.magnitude % Nat.pow 2 52 = 0 ∧ Nat.pow 2 53 ≤ x.magnitude then quarter - 1 else quarter - 2
  let order := decimalOrder (quarter * Nat.pow 2 exponent.toNat) (Nat.pow 2 (-exponent).toNat)
  ((List.range 17).findSome? fun n =>
    decimalAt? quarter low (quarter + 2) (exact.1 % 2 == 0) exponent order (n + 1)).getD (0, 0)

/-- The digits of the shortest decimal without zeros at the end, and the place of its point: how many digits
stand before it, or how many zeros behind it if negative. -/
def shortestDigits (x : Binary64) : List Char × Int :=
  let decimal := shortest x
  let digits := Nat.toDigits 10 decimal.1
  ((digits.reverse.dropWhile (· == '0')).reverse, digits.length + decimal.2)

/-- Digits with the point at its place, and at least one digit on either side of it. -/
def positional (digits : List Char) (point : Int) : List Char :=
  if point ≤ 0 then '0' :: '.' :: List.replicate (-point).toNat '0' ++ digits
  else if (digits.length : Int) ≤ point then
    digits ++ List.replicate (point.toNat - digits.length) '0' ++ ['.', '0']
  else digits.take point.toNat ++ '.' :: digits.drop point.toNat

/-- One digit before the point, and the power of ten with its sign. -/
def scientific (digits : List Char) (point : Int) : List Char :=
  let mantissa := match digits with
    | first :: [] => [first]
    | first :: rest => first :: '.' :: rest
    | [] => []
  let power := point - 1
  mantissa ++ 'e' :: (if power < 0 then '-' else '+') :: Nat.toDigits 10 power.natAbs

/-- A finite number as stored text has it: positional from a hundred-thousandth to below ten to the
sixteenth, else with an exponent. -/
def storedText (x : Binary64) : String :=
  let body :=
    if x.isZero then ['0', '.', '0']
    else
      let (digits, point) := shortestDigits x
      if -5 < point ∧ point ≤ 16 then positional digits point else scientific digits point
  String.ofList (if x.isNegative then '-' :: body else body)

end Numeral

end TaggedRecords
