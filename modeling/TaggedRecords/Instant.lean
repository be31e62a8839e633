import TaggedRecords.Pieces

/-!
# Instants

Points in time as seconds since the start of 1970 and nanoseconds, a leap second being a second of more than
a thousand million nanoseconds. They are read and written as Internet timestamps of the Gregorian calendar.
-/

namespace TaggedRecords

/-- A point in time: seconds since the start of 1970 and nanoseconds behind them. -/
structure Instant where
  seconds : Int
  nanos : Nat
deriving DecidableEq

namespace Instant

/-- The start of 1970. -/
def epoch : Instant := ⟨0, 0⟩

/-- The earlier instant is the smaller one. -/
def order (x y : Instant) : Ordering := (compare x.seconds y.seconds).then (compare x.nanos y.nanos)

/-! ## The calendar -/

/-- Days from the start of 1970 to a date; the year is counted from March, so that a leap day ends it. -/
def dayNumber (year : Int) (month day : Nat) : Int :=
  let marchYear := if month ≤ 2 then year - 1 else year
  let era := marchYear / 400
  let yearOfEra := marchYear - era * 400
  let marchMonth : Int := ((month + 9) % 12 : Nat)
  let dayOfYear := (153 * marchMonth + 2) / 5 + day - 1
  era * 146097 + (yearOfEra * 365 + yearOfEra / 4 - yearOfEra / 100 + dayOfYear) - 719468

/-- Year, month and day of a day counted from the start of 1970. -/
def date (dayNumber : Int) : Int × Nat × Nat :=
  let shifted := dayNumber + 719468
  let era := shifted / 146097
  let dayOfEra := (shifted - era * 146097).toNat
  let yearOfEra := (dayOfEra - dayOfEra / 1460 + dayOfEra / 36524 - dayOfEra / 146096) / 365
  let dayOfYear := dayOfEra - (365 * yearOfEra + yearOfEra / 4 - yearOfEra / 100)
  let marchMonth := (5 * dayOfYear + 2) / 153
  let day := dayOfYear - (153 * marchMonth + 2) / 5 + 1
  let month := if marchMonth < 10 then marchMonth + 3 else marchMonth - 9
  let year : Int := yearOfEra + era * 400
  (if month ≤ 2 then year + 1 else year, month, day)

/-- Whether February has 29 days. -/
def isLeapYear (year : Int) : Bool := year % 4 == 0 && (year % 100 != 0 || year % 400 == 0)

/-- How many days the month has. -/
def monthLength (year : Int) (month : Nat) : Nat :=
  if month = 2 then (if isLeapYear year then 29 else 28)
  else if month = 4 ∨ month = 6 ∨ month = 9 ∨ month = 11 then 30
  else 31

/-! ## Writing -/

/-- At least so many digits, with zeros in front. -/
def padded (width n : Nat) : String :=
  let digits := Nat.toDigits 10 n
  String.ofList (List.replicate (width - digits.length) '0' ++ digits)

/-- A year of four digits; one outside them carries its sign. -/
def yearText (year : Int) : String :=
  if 0 ≤ year ∧ year ≤ 9999 then padded 4 year.toNat
  else (if year < 0 then "-" else "+") ++ padded 4 year.natAbs

/-- The fraction of a second in three, six or nine digits, or nothing if it is zero. -/
def fractionText (nanos : Nat) : String :=
  if nanos = 0 then ""
  else if nanos % 1000000 = 0 then "." ++ padded 3 (nanos / 1000000)
  else if nanos % 1000 = 0 then "." ++ padded 6 (nanos / 1000)
  else "." ++ padded 9 nanos

/-- The timestamp of an instant at Greenwich; a leap second is second 60. -/
def timestamp (t : Instant) : String :=
  let (year, month, day) := date (t.seconds / 86400)
  let second := (t.seconds % 86400).toNat
  let leap := decide (1000000000 ≤ t.nanos)
  yearText year ++ "-" ++ padded 2 month ++ "-" ++ padded 2 day ++ "T" ++ padded 2 (second / 3600) ++ ":" ++
    padded 2 (second / 60 % 60) ++ ":" ++ padded 2 (if leap then second % 60 + 1 else second % 60) ++
    fractionText (if leap then t.nanos - 1000000000 else t.nanos) ++ "Z"

/-! ## Reading, where a text is too short if it has too few bytes -/

/-- Why a text is no timestamp. -/
inductive TimestampFault where
  | invalid
  | outOfRange
  | tooShort
  | tooLong
deriving DecidableEq

/-- What the fault says. -/
def TimestampFault.message : TimestampFault → String
  | .invalid => "input contains invalid characters"
  | .outOfRange => "input is out of range"
  | .tooShort => "premature end of input"
  | .tooLong => "trailing input"

/-- A reader takes a part of the text from the front and leaves the rest. -/
abbrev Reader (α : Type) := List Char → Except TimestampFault (α × List Char)

/-- The value of exactly `width` digits, behind those already read. -/
def readNumber : Nat → Nat → Reader Nat
  | 0, value, rest => .ok (value, rest)
  | width + 1, value, c :: rest =>
    if c.isDigit then readNumber width (10 * value + (c.toNat - '0'.toNat)) rest else .error .invalid
  | _ + 1, _, [] => .error .tooShort

/-- One of the given characters. -/
def readMark (marks : List Char) : Reader Unit
  | [] => .error .tooShort
  | c :: rest => if c ∈ marks then .ok ((), rest) else .error .invalid

/-- The fraction of a second in nanoseconds: up to nine digits count, further ones are passed over. -/
def readFraction : Reader Nat
  | '.' :: rest => do
    let digits := rest.takeWhile Char.isDigit
    if digits.isEmpty then throw (if rest.isEmpty then .tooShort else .invalid)
    let (n, _) ← readNumber (min 9 digits.length) 0 digits
    return (n * Nat.pow 10 (9 - digits.length), rest.dropWhile Char.isDigit)
  | text => .ok (0, text)

/-- Hours and minutes of an offset from Greenwich, in minutes. -/
def readOffsetSize : Reader Nat := fun text => do
  if byteCount text < 2 then throw .tooShort
  let (hours, afterHours) ← readNumber 2 0 text
  let (_, afterColon) ← readMark [':'] afterHours
  if byteCount afterColon < 2 then throw .tooShort
  let (minutes, rest) ← readNumber 2 0 afterColon
  if 59 < minutes then throw .outOfRange
  return (60 * hours + minutes, rest)

/-- The offset from Greenwich in minutes: the letter Z, or a sign, hours and minutes. -/
def readOffset : Reader Int
  | [] => .error .tooShort
  | c :: rest =>
    if c = 'Z' ∨ c = 'z' then .ok (0, rest)
    else if c = '+' then (readOffsetSize rest).map fun read => ((read.1 : Int), read.2)
    else if c = '-' ∨ c = '\u2212' then (readOffsetSize rest).map fun read => (-(read.1 : Int), read.2)
    else .error .invalid

/-- Reads a whole timestamp. Nothing is read of a text that cannot hold a date and a time; the date is checked
before what follows it, then the time, then that nothing is left behind the offset, and last that the offset
is less than a day. -/
def ofTimestamp (text : String) : Except TimestampFault Instant := do
  let chars := text.toList
  if byteCount chars < 19 then throw .tooShort
  let (year, rest) ← readNumber 4 0 chars
  let (_, rest) ← readMark ['-'] rest
  let (month, rest) ← readNumber 2 0 rest
  let (_, rest) ← readMark ['-'] rest
  let (day, rest) ← readNumber 2 0 rest
  if month < 1 ∨ 12 < month ∨ day < 1 ∨ monthLength year month < day then throw .outOfRange
  let (_, rest) ← readMark ['T', 't', ' '] rest
  let (hour, rest) ← readNumber 2 0 rest
  let (_, rest) ← readMark [':'] rest
  let (minute, rest) ← readNumber 2 0 rest
  let (_, rest) ← readMark [':'] rest
  let (second, rest) ← readNumber 2 0 rest
  let (nanos, rest) ← readFraction rest
  if 23 < hour ∨ 59 < minute ∨ 60 < second then throw .outOfRange
  let (offset, rest) ← readOffset rest
  if !rest.isEmpty then throw .tooLong
  if 1439 < offset.natAbs then throw .outOfRange
  let clock : Int := (hour * 3600 + minute * 60 + min second 59 : Nat)
  return ⟨dayNumber year month day * 86400 + clock - offset * 60,
    if second = 60 then nanos + 1000000000 else nanos⟩

end Instant

end TaggedRecords
