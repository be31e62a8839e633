import TaggedRecords.EscapedCharTable
import TaggedRecords.Json

/-!
# Reading rows from documents

Decoding a document by way of its JSON into a row with a fixed set of columns: two that must be there, a list
that may be missing, and an optional text. Unknown members are ignored. The first member at fault, in the order
of the keys, decides the reason; missing columns are noticed at the end.
-/

namespace TaggedRecords

/-- A row: a name, an age of 32 bits, tags, and a nickname or none. -/
structure Row where
  name : String
  age : Nat
  tags : List String
  nick : Option String
deriving DecidableEq

/-! ## Reasons -/

/-- A code point in hexadecimal digits. -/
def codeEscape (c : Char) : List Char := ['\\', 'u', '\x7b'] ++ Nat.toDigits 16 c.toNat ++ ['\x7d']

/-- A character inside a quoted text of a reason: what has no shape of its own is written by its code. -/
def shownChar (c : Char) : List Char :=
  if c = '\x00' then ['\\', '0']
  else if c = '\t' then ['\\', 't']
  else if c = '\r' then ['\\', 'r']
  else if c = '\n' then ['\\', 'n']
  else if c = '\\' then ['\\', '\\']
  else if c = '"' then ['\\', '"']
  else if escapedChars.contains c then codeEscape c
  else [c]

/-- A text as reasons quote it. -/
def shownText (text : String) : String := "\"" ++ String.ofList (text.toList.flatMap shownChar) ++ "\""

/-- What was found in place of something else. -/
def Json.found : Json → String
  | .null => "null"
  | .bool true => "boolean `true`"
  | .bool false => "boolean `false`"
  | .integer i => "integer `" ++ toString i ++ "`"
  | .float x => "floating point `" ++ Numeral.storedText x ++ "`"
  | .string text => "string " ++ shownText text
  | .array _ => "sequence"
  | .object _ => "map"

/-- The reason for a value of the wrong type. -/
def wrongType (json : Json) (expected : String) : String :=
  "invalid type: " ++ json.found ++ ", expected " ++ expected

/-! ## Columns -/

/-- A text. -/
def Json.asText : Json → Except String String
  | .string text => .ok text
  | other => .error (wrongType other "a string")

/-- A text, or none for null. -/
def Json.asOptionalText : Json → Except String (Option String)
  | .null => .ok none
  | other => other.asText.map some

/-- An unsigned integer of 32 bits. -/
def Json.asAge : Json → Except String Nat
  | .integer i =>
    if 0 ≤ i ∧ i < Nat.pow 2 32 then .ok i.toNat
    else .error ("invalid value: " ++ (Json.integer i).found ++ ", expected u32")
  | other => .error (wrongType other "u32")

/-- A list of texts. -/
def Json.asTexts : Json → Except String (List String)
  | .array items => items.mapM Json.asText
  | other => .error (wrongType other "a sequence")

/-- The member under a key, read if it is there. -/
def readMember {α : Type} (members : Entries Json) (key : String) (read : Json → Except String α) :
    Except String (Option α) :=
  match Entries.get? members key with
  | some json => (read json).map some
  | none => .ok none

/-- The row that a document holds. -/
def Row.ofDocument (document : Document) : Except String Row :=
  match (Value.mapping document).toJson.sorted with
  | .object members => do
    let age ← readMember members "age" Json.asAge
    let name ← readMember members "name" Json.asText
    let nick ← readMember members "nick" Json.asOptionalText
    let tags ← readMember members "tags" Json.asTexts
    match name, age with
    | none, _ => throw "missing field `name`"
    | some _, none => throw "missing field `age`"
    | some name, some age => return { name := name, age := age, tags := tags.getD [], nick := nick.bind id }
  | other => .error (wrongType other "a row")

/-- A document as compact JSON with the members of every object ordered by key. -/
def jsonOfDocument (document : Document) : String := (Value.mapping document).toJson.sorted.text

end TaggedRecords
