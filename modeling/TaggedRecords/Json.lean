import TaggedRecords.Numeral
import TaggedRecords.Value

/-!
# JSON

Values as JSON and the compact text of it. Bytes become a list of numbers and instants timestamps; a tombstone
and a number that is not finite become null.
-/

namespace TaggedRecords

/-- A JSON value; integers and floating-point numbers are told apart. -/
inductive Json where
  | null
  | bool (b : Bool)
  | integer (i : Int)
  | float (x : Binary64)
  | string (text : String)
  | array (items : List Json)
  | object (members : List (String × Json))

mutual

/-- The JSON of a value. -/
def Value.toJson : Value → Json
  | .null => .null
  | .bool b => .bool b
  | .int i => .integer i.toInt
  | .uint u => .integer u.toNat
  | .float x => if x.isFinite then .float x else .null
  | .string text => .string text
  | .bytes octets => .array (octets.map fun octet => .integer octet.toNat)
  | .time t => .string t.timestamp
  | .sequence items => .array (itemsToJson items)
  | .mapping entries => .object (entriesToJson entries)
  | .record _ fields => .object (entriesToJson fields)
  | .delete => .null

/-- The JSON of items in order. -/
def itemsToJson : List Value → List Json
  | [] => []
  | value :: rest => value.toJson :: itemsToJson rest

/-- The JSON of entries under their keys. -/
def entriesToJson : List (String × Value) → List (String × Json)
  | [] => []
  | (key, value) :: rest => (key, value.toJson) :: entriesToJson rest

end

namespace Json

mutual

/-- The same JSON with the members of every object ordered by key, the last of several with one key alone. -/
def sorted : Json → Json
  | array items => array (sortedItems items)
  | object members => object (Entries.sortByKey (sortedMembers members))
  | other => other

/-- Items with their members ordered. -/
def sortedItems : List Json → List Json
  | [] => []
  | item :: rest => item.sorted :: sortedItems rest

/-- Members with their own members ordered. -/
def sortedMembers : List (String × Json) → List (String × Json)
  | [] => []
  | (key, member) :: rest => (key, member.sorted) :: sortedMembers rest

end

/-! ## Text -/

/-- A control character by its number in four hexadecimal digits. -/
def controlEscape (c : Char) : List Char :=
  ['\\', 'u', '0', '0'] ++ [Nat.digitChar (c.toNat / 16), Nat.digitChar (c.toNat % 16)]

/-- A character inside a string: quotes, backslashes and control characters are escaped, all others stand. -/
def escapedChar (c : Char) : List Char :=
  if c = '"' then ['\\', '"']
  else if c = '\\' then ['\\', '\\']
  else if c = '\n' then ['\\', 'n']
  else if c = '\r' then ['\\', 'r']
  else if c = '\t' then ['\\', 't']
  else if c = '\x08' then ['\\', 'b']
  else if c = '\x0c' then ['\\', 'f']
  else if c.toNat < 0x20 then controlEscape c
  else [c]

/-- A string between quotes. -/
def quoted (text : String) : String := "\"" ++ String.ofList (text.toList.flatMap escapedChar) ++ "\""

mutual

/-- The compact text. -/
def text : Json → String
  | null => "null"
  | bool true => "true"
  | bool false => "false"
  | integer i => toString i
  | float x => Numeral.storedText x
  | string text => quoted text
  | array items => "[" ++ ",".intercalate (itemTexts items) ++ "]"
  | object members => "\x7b" ++ ",".intercalate (memberTexts members) ++ "\x7d"

/-- The texts of items in order. -/
def itemTexts : List Json → List String
  | [] => []
  | item :: rest => item.text :: itemTexts rest

/-- The texts of members: the key between quotes, a colon, the value. -/
def memberTexts : List (String × Json) → List String
  | [] => []
  | (key, member) :: rest => (quoted key ++ ":" ++ member.text) :: memberTexts rest

end

end Json

end TaggedRecords
