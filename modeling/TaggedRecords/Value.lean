import TaggedRecords.Binary64
import TaggedRecords.Entries
import TaggedRecords.Instant

/-!
# Values

What a field holds while rules run on it and what documents are made of: scalars, containers, the snapshot
of a record, and the tombstone that asks a store to delete a field.
-/

namespace TaggedRecords

/-- What makes a record type the one it is: its place among all types. It is declared once and under one name, so the
name goes with the place. -/
structure TypeId where
  place : Nat
  name : String
deriving DecidableEq

/-- A record type. Two of them are the same exactly if their identities are. -/
structure RecordType where
  id : TypeId
deriving DecidableEq

/-- The name of the type, for messages. -/
def RecordType.name (type : RecordType) : String := type.id.name

/-- A value of any kind. A record carries its type and its declared names with their values. -/
inductive Value where
  | null
  | bool (b : Bool)
  | int (i : Int64)
  | uint (u : UInt64)
  | float (x : Binary64)
  | string (text : String)
  | bytes (octets : List UInt8)
  | time (t : Instant)
  | sequence (items : List Value)
  | mapping (entries : List (String × Value))
  | record (type : RecordType) (fields : List (String × Value))
  | delete

instance : Inhabited Value := ⟨.null⟩

/-- Output names with the values emitted for them. -/
abbrev Document := Entries Value

/-- The form of a value without its content. -/
inductive Kind where
  | null | bool | int | uint | float | string | bytes | time | sequence | mapping | record | delete
deriving DecidableEq

/-- The word for a kind. -/
def Kind.text : Kind → String
  | .null => "null"
  | .bool => "bool"
  | .int => "int"
  | .uint => "uint"
  | .float => "float"
  | .string => "string"
  | .bytes => "bytes"
  | .time => "time"
  | .sequence => "sequence"
  | .mapping => "mapping"
  | .record => "record"
  | .delete => "delete"

namespace Value

/-- The kind of a value. -/
def kind : Value → Kind
  | null => .null
  | bool _ => .bool
  | int _ => .int
  | uint _ => .uint
  | float _ => .float
  | string _ => .string
  | bytes _ => .bytes
  | time _ => .time
  | sequence _ => .sequence
  | mapping _ => .mapping
  | record _ _ => .record
  | delete => .delete

/-- Whether the value is absent. -/
def isNull : Value → Bool
  | null => true
  | _ => false

/-- Whether the value is a tombstone. -/
def isDelete : Value → Bool
  | delete => true
  | _ => false

/-- The text of a string value. -/
def text? : Value → Option String
  | string text => some text
  | _ => none

/-- The size that length rules look at: characters of a string, octets, or items of a container. -/
def size? : Value → Option Nat
  | string text => some text.length
  | bytes octets => some octets.length
  | sequence items => some items.length
  | mapping entries => some entries.length
  | _ => none

mutual

/-- Whether the value stands for nothing: null, false, a zero, the empty, the start of 1970, or a record of
such values. A tombstone is something. -/
def isZero : Value → Bool
  | null => true
  | bool b => !b
  | int i => i == 0
  | uint u => u == 0
  | float x => x.isZero
  | string text => text.isEmpty
  | bytes octets => octets.isEmpty
  | time t => decide (t = Instant.epoch)
  | sequence items => items.isEmpty
  | mapping entries => entries.isEmpty
  | record _ fields => allZero fields
  | delete => false

/-- Whether every field's value stands for nothing. -/
def allZero : List (String × Value) → Bool
  | [] => true
  | (_, value) :: rest => isZero value && allZero rest

end

/-! ## Equality -/

mutual

/-- Whether two values are the same: mappings whatever the order of their entries, records of one type with
the same fields in order, floating-point numbers as numbers. -/
def same : Value → Value → Bool
  | null, null => true
  | bool a, bool b => a == b
  | int a, int b => a == b
  | uint a, uint b => a == b
  | float a, float b => a.same b
  | string a, string b => a == b
  | bytes a, bytes b => a == b
  | time a, time b => decide (a = b)
  | sequence as, sequence bs => sameItems as bs
  | mapping as, mapping bs => as.length == bs.length && heldBy as bs
  | record t as, record u bs => decide (t = u) && sameFields as bs
  | delete, delete => true
  | _, _ => false

/-- Whether two lists hold the same values in the same places. -/
def sameItems : List Value → List Value → Bool
  | [], [] => true
  | a :: as, b :: bs => same a b && sameItems as bs
  | _, _ => false

/-- Whether the second entries hold, under each key of the first, the same value. -/
def heldBy : List (String × Value) → List (String × Value) → Bool
  | [], _ => true
  | (key, a) :: as, bs =>
    (match Entries.get? bs key with
      | some b => same a b
      | none => false) && heldBy as bs

/-- Whether two field lists have the same names and values in the same places. -/
def sameFields : List (String × Value) → List (String × Value) → Bool
  | [], [] => true
  | (name, a) :: as, (other, b) :: bs => name == other && same a b && sameFields as bs
  | _, _ => false

end

instance : BEq Value := ⟨same⟩

end Value

/-! ## Record snapshots -/

/-- The values of a record's fields under their declared names, in the order of the declarations. -/
structure RecordValue where
  type : RecordType
  fields : List (String × Value)

namespace RecordValue

/-- The snapshot as a value. -/
def toValue (record : RecordValue) : Value := .record record.type record.fields

/-- The value under a declared name; of several the first. -/
def get? (record : RecordValue) (name : String) : Option Value := Entries.get? record.fields name

/-- The value at a place in the order of the declarations. -/
def at? (record : RecordValue) (index : Nat) : Option Value := record.fields[index]?.map Prod.snd

end RecordValue

end TaggedRecords
