import TaggedRecords.LetterCaseTable

/-!
# Upper and lower case

Full case mapping of text: one letter may become several, and a sigma at the end of a word has a lower-case
form of its own.
-/

namespace TaggedRecords

/-- Where the shift takes a code point, if it covers it. -/
def Shift.moved? (shift : Shift) (code : Nat) : Option Char :=
  if shift.first ≤ code ∧ code ≤ shift.last ∧ (code - shift.first) % shift.step = 0 then
    some (Char.ofNat (code + shift.distance).toNat)
  else none

/-- The first shift that covers the character, or the character itself. -/
def shifted (table : List Shift) (c : Char) : Char :=
  (table.findSome? fun shift => shift.moved? c.toNat).getD c

/-- The upper-case form of one character. -/
def upperChar (c : Char) : List Char :=
  match upperExpansions.lookup c.toNat with
  | some codes => codes.map Char.ofNat
  | none => [shifted upperShifts c]

/-- The text in upper case. -/
def upperCase (text : String) : String := String.ofList (text.toList.flatMap upperChar)

/-- The lower-case form of one character, whatever stands around it. -/
def lowerChar (c : Char) : List Char :=
  if c = 'İ' then ['i', '\u0307'] else [shifted lowerShifts c]

/-- Whether a cased letter is the first character that is not looked through. -/
def meetsCased (cs : List Char) : Bool :=
  match cs.dropWhile caseIgnorableChars.contains with
  | [] => false
  | c :: _ => casedChars.contains c

/-- A capital sigma is final when a cased letter stands before it and none after it. -/
def lowerSigma (before after : List Char) : Char :=
  if meetsCased before && !meetsCased after then 'ς' else 'σ'

/-- Lower case of the characters still to come; `before` holds those passed, the nearest first. -/
def lowerFrom (before : List Char) : List Char → List Char
  | [] => []
  | c :: rest =>
    (if c = 'Σ' then [lowerSigma before rest] else lowerChar c) ++ lowerFrom (c :: before) rest

/-- The text in lower case. -/
def lowerCase (text : String) : String := String.ofList (lowerFrom [] text.toList)

end TaggedRecords
