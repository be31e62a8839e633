import TaggedRecords.Numeral
import TaggedRecords.Pieces

/-!
# Scanning JSON text

Taking strings, numbers and whole values from the front of a JSON text. Failures are of three classes: the text
is malformed, it ends too early, or it is fine and holds something else than wanted. Values that nobody wants
are skipped without recursion, so they may be nested as deeply as they like.
-/

namespace TaggedRecords

/-- Why a text does not give the wanted value. -/
inductive JsonFault where
  | malformed
  | unfinished
  | mismatched
deriving DecidableEq

namespace JsonScan

/-- A scanner takes a part from the front of the text and leaves the rest. -/
abbrev Scanner (α : Type) := List Char → Except JsonFault (α × List Char)

/-- The text behind blanks. -/
def skipBlanks (text : List Char) : List Char :=
  text.dropWhile fun c => c == ' ' || c == '\n' || c == '\t' || c == '\r'

/-- The rest of a word whose first letter has been taken. -/
def skipWord : List Char → List Char → Except JsonFault (List Char)
  | [], text => .ok text
  | _ :: _, [] => .error .unfinished
  | c :: word, d :: text => if c = d then skipWord word text else .error .malformed

/-! ## Strings -/

/-- The value of a hexadecimal digit. -/
def hexDigit? (c : Char) : Option Nat :=
  if c.isDigit then some (c.toNat - '0'.toNat)
  else if 'a' ≤ c ∧ c ≤ 'f' then some (c.toNat - 'a'.toNat + 10)
  else if 'A' ≤ c ∧ c ≤ 'F' then some (c.toNat - 'A'.toNat + 10)
  else none

/-- The value of four hexadecimal digits. -/
def scanHex4 (text : List Char) : Except JsonFault (Nat × List Char) :=
  if byteCount text < 4 then .error .unfinished
  else
    match text with
    | a :: b :: c :: d :: rest =>
      match hexDigit? a, hexDigit? b, hexDigit? c, hexDigit? d with
      | some a, some b, some c, some d => .ok (((a * 16 + b) * 16 + c) * 16 + d, rest)
      | _, _, _, _ => .error .malformed
    | _ => .error .malformed

/-- The character that an escape for one letter stands for. -/
def letterEscape? : Char → Option Char
  | '"' => some '"'
  | '\\' => some '\\'
  | '/' => some '/'
  | 'b' => some '\x08'
  | 'f' => some '\x0c'
  | 'n' => some '\n'
  | 'r' => some '\r'
  | 't' => some '\t'
  | _ => none

/-- The character behind a backslash and the letter u: a code unit, or two that make up one character. -/
def scanUnicode (text : List Char) : Except JsonFault (Char × List Char) := do
  let (high, rest) ← scanHex4 text
  if 0xdc00 ≤ high ∧ high ≤ 0xdfff then throw .malformed
  if high < 0xd800 ∨ 0xdbff < high then return (Char.ofNat high, rest)
  match rest with
  | [] => throw .unfinished
  | '\\' :: [] => throw .unfinished
  | '\\' :: 'u' :: rest =>
    let (low, rest) ← scanHex4 rest
    if low < 0xdc00 ∨ 0xdfff < low then throw .malformed
    return (Char.ofNat ((high - 0xd800) * 0x400 + (low - 0xdc00) + 0x10000), rest)
  | _ => throw .malformed

/-- The characters of a string up to its closing quote; every step takes a character, so the length of the
text is fuel enough. In a string that nobody wants, code units may be unpaired. -/
def scanStringWith (wanted : Bool) : Nat → List Char → Except JsonFault (List Char × List Char)
  | 0, _ => .error .unfinished
  | _ + 1, [] => .error .unfinished
  | fuel + 1, c :: rest =>
    if c = '"' then .ok ([], rest)
    else if c = '\\' then
      match rest with
      | [] => .error .unfinished
      | 'u' :: rest => do
        let (d, rest) ← if wanted then scanUnicode rest else (scanHex4 rest).map fun read => ('u', read.2)
        let (chars, rest) ← scanStringWith wanted fuel rest
        return (d :: chars, rest)
      | e :: rest =>
        match letterEscape? e with
        | some d => do
          let (chars, rest) ← scanStringWith wanted fuel rest
          return (d :: chars, rest)
        | none => .error .malformed
    else if c.toNat < 0x20 then .error .malformed
    else do
      let (chars, rest) ← scanStringWith wanted fuel rest
      return (c :: chars, rest)

/-- A string whose opening quote has been taken. -/
def scanString : Scanner String := fun text =>
  (scanStringWith true (text.length + 1) text).map fun read => (String.ofList read.1, read.2)

/-- Skips a string whose opening quote has been taken. -/
def skipString (text : List Char) : Except JsonFault (List Char) :=
  (scanStringWith false (text.length + 1) text).map Prod.snd

/-! ## Numbers -/

/-- The largest integer that is kept exactly. -/
def largest : Nat := Nat.pow 2 64 - 1

/-- Takes digits into a significand as long as it stays small enough; the digits left over. -/
def absorb (significand : Nat) : List Char → Nat × List Char
  | [] => (significand, [])
  | c :: rest =>
    let next := 10 * significand + (c.toNat - '0'.toNat)
    if largest < next then (significand, c :: rest) else absorb next rest

/-- Whether a significand times a power of ten is beyond the floating-point numbers. -/
def tooLarge (significand : Nat) (exponent : Int) : Bool :=
  if significand = 0 ∨ exponent < 0 then false
  else if 308 < exponent then true
  else
    let left := (Binary64.ofInt significand).significand
    let right := (Numeral.ofDecimal false 1 exponent).significand
    let product := Binary64.scaleDown (left.1 * right.1) 1 (-(left.2 + right.2))
    !(Binary64.ofQuotient false product.1 product.2).isFinite

/-- The exponent of a number behind the letter e. -/
def scanExponent : Scanner Int := fun text =>
  let (negative, digits) : Bool × List Char := match text with
    | '+' :: rest => (false, rest)
    | '-' :: rest => (true, rest)
    | rest => (false, rest)
  match digits with
  | [] => .error .unfinished
  | c :: _ =>
    if c.isDigit then
      let size := Numeral.digitsValue (digits.takeWhile Char.isDigit)
      .ok (if negative then -(size : Int) else size, digits.dropWhile Char.isDigit)
    else .error .malformed

/-- The end of a number that is no integer: its size is checked, its value is not wanted. -/
def endFloat (significand : Nat) (exponent : Int) (text : List Char) : Except JsonFault (List Char) :=
  match text with
  | c :: rest =>
    if c = 'e' ∨ c = 'E' then do
      let (shift, rest) ← scanExponent rest
      if tooLarge significand (exponent + shift) then throw .malformed
      return rest
    else if tooLarge significand exponent then .error .malformed
    else .ok (c :: rest)
  | [] => if tooLarge significand exponent then .error .malformed else .ok []

/-- A number without its sign: the integer if it is one and is kept exactly. -/
def scanNumber : Scanner (Option Nat) := fun text =>
  match text with
  | [] => .error .unfinished
  | first :: behind =>
    if !first.isDigit then .error .malformed
    else if first = '0' ∧ (behind.head?.any Char.isDigit) then .error .malformed
    else
      let (significand, left) := absorb 0 (text.takeWhile Char.isDigit)
      let rest := text.dropWhile Char.isDigit
      match rest with
      | '.' :: decimals =>
        let places := decimals.takeWhile Char.isDigit
        let tail := decimals.dropWhile Char.isDigit
        if places.isEmpty then .error (if tail.isEmpty then .unfinished else .malformed)
        else
          let (longer, unused) := absorb significand places
          (endFloat longer ((left.length : Int) - (places.length - unused.length : Nat)) tail).map fun rest =>
            (none, rest)
      | c :: _ =>
        if c = 'e' ∨ c = 'E' ∨ !left.isEmpty then
          (endFloat significand left.length rest).map fun rest => (none, rest)
        else .ok (some significand, rest)
      | [] =>
        if left.isEmpty then .ok (some significand, [])
        else (endFloat significand left.length []).map fun rest => (none, rest)

/-- Skips digits, of which there must be one. -/
def skipDigits : List Char → Except JsonFault (List Char)
  | c :: rest => if c.isDigit then .ok (rest.dropWhile Char.isDigit) else .error .malformed
  | [] => .error .malformed

/-- Skips an exponent if there is one. -/
def skipExponent : List Char → Except JsonFault (List Char)
  | c :: rest =>
    if c = 'e' ∨ c = 'E' then
      match rest with
      | '+' :: digits => skipDigits digits
      | '-' :: digits => skipDigits digits
      | digits => skipDigits digits
    else .ok (c :: rest)
  | [] => .ok []

/-- Skips a number without its sign, whatever its size. -/
def skipNumber (text : List Char) : Except JsonFault (List Char) := do
  let rest ← match text with
    | '0' :: rest => if rest.head?.any Char.isDigit then throw .malformed else pure rest
    | digits => skipDigits digits
  match rest with
  | '.' :: decimals => do
    let tail ← skipDigits decimals
    skipExponent tail
  | rest => skipExponent rest

/-! ## Values that nobody wants -/

/-- An array or object whose end has not been met. -/
inductive Frame where
  | array
  | object
deriving DecidableEq

/-- Skips ends of arrays and objects and one comma; the frames still open, innermost first, and whether
another value follows. Right behind an opening bracket there is no comma. -/
def closeFrames : List Frame → Bool → List Char → Except JsonFault (List Frame × List Char)
  | [], _, text => .ok ([], text)
  | frame :: outer, behindValue, text =>
    match skipBlanks text with
    | [] => .error .unfinished
    | c :: rest =>
      if c = ',' ∧ behindValue then .ok (frame :: outer, rest)
      else if (c = ']' ∧ frame = .array) ∨ (c = '\x7d' ∧ frame = .object) then closeFrames outer true rest
      else if behindValue then .error .malformed
      else .ok (frame :: outer, c :: rest)

/-- Skips a key and its colon. -/
def skipKey (text : List Char) : Except JsonFault (List Char) := do
  let rest ← match skipBlanks text with
    | '"' :: rest => skipString rest
    | _ :: _ => throw .malformed
    | [] => throw .unfinished
  match skipBlanks rest with
  | ':' :: rest => return rest
  | _ :: _ => throw .malformed
  | [] => throw .unfinished

/-- Skips a value that is no array and no object. -/
def skipScalar : List Char → Except JsonFault (List Char)
  | [] => .error .unfinished
  | c :: rest =>
    if c = 'n' then skipWord ['u', 'l', 'l'] rest
    else if c = 't' then skipWord ['r', 'u', 'e'] rest
    else if c = 'f' then skipWord ['a', 'l', 's', 'e'] rest
    else if c = '-' then skipNumber rest
    else if c.isDigit then skipNumber (c :: rest)
    else if c = '"' then skipString rest
    else .error .malformed

/-- Skips a value inside the given frames and all that is left in them. Every step takes a character. -/
def skipWithin : Nat → List Frame → List Char → Except JsonFault (List Char)
  | 0, _, _ => .error .unfinished
  | fuel + 1, frames, text => do
    let (opened, rest) ← match skipBlanks text with
      | '[' :: rest => closeFrames (.array :: frames) false rest
      | '\x7b' :: rest => closeFrames (.object :: frames) false rest
      | text => do
        let rest ← skipScalar text
        closeFrames frames true rest
    match opened with
    | [] => return rest
    | .array :: _ => skipWithin fuel opened rest
    | .object :: _ => do
      let rest ← skipKey rest
      skipWithin fuel opened rest

/-- Skips a whole value. -/
def skipValue (text : List Char) : Except JsonFault (List Char) := skipWithin (text.length + 1) [] text

end JsonScan

end TaggedRecords
