import TaggedRecords.FieldType

/-!
# Record data

The typed content of fields and records, its snapshot as a value, and the way back from a value to content
of a given type. Content of records is only ever changed in place, never rebuilt from a value.
-/

namespace TaggedRecords

/-- The content of a field. A field of an unsupported type is hidden. -/
inductive Data where
  | bool (b : Bool)
  | int (i : Int64)
  | uint (u : UInt64)
  | float (x : Binary64)
  | string (text : String)
  | bytes (octets : List UInt8)
  | time (t : Instant)
  | none
  | some (inner : Data)
  | sequence (items : List Data)
  | mapping (entries : List (String × Data))
  | record (type : RecordType) (fields : List Data)
  | hidden

instance : Inhabited Data := ⟨.hidden⟩

/-! ## Snapshots -/

mutual

/-- The content as a value: nothing of an absent or hidden content, declared names for the fields. -/
def Data.snapshot (catalog : Catalog) : Data → Value
  | .bool b => .bool b
  | .int i => .int i
  | .uint u => .uint u
  | .float x => .float x
  | .string text => .string text
  | .bytes octets => .bytes octets
  | .time t => .time t
  | .none => .null
  | .some inner => inner.snapshot catalog
  | .sequence items => .sequence (snapshotItems catalog items)
  | .mapping entries => .mapping (snapshotEntries catalog entries)
  | .record type fields => .record type (snapshotFields catalog (catalog.fields type) fields)
  | .hidden => .null

/-- The snapshots of items in order. -/
def snapshotItems (catalog : Catalog) : List Data → List Value
  | [] => []
  | item :: rest => item.snapshot catalog :: snapshotItems catalog rest

/-- The snapshots of entries under their keys. -/
def snapshotEntries (catalog : Catalog) : List (String × Data) → List (String × Value)
  | [] => []
  | (key, item) :: rest => (key, item.snapshot catalog) :: snapshotEntries catalog rest

/-- The snapshots of fields under their declared names. -/
def snapshotFields (catalog : Catalog) : List FieldDecl → List Data → List (String × Value)
  | decl :: decls, field :: fields => (decl.name, field.snapshot catalog) :: snapshotFields catalog decls fields
  | _, _ => []

end

/-- A record with the content of its fields. -/
structure TypedRecord where
  type : RecordType
  fields : List Data

namespace TypedRecord

/-- The record as the content of a field. -/
def toData (record : TypedRecord) : Data := .record record.type record.fields

/-- The snapshot of the record. -/
def snapshot (catalog : Catalog) (record : TypedRecord) : RecordValue :=
  ⟨record.type, snapshotFields catalog (catalog.fields record.type) record.fields⟩

end TypedRecord

/-! ## Failures of conversions and writes -/

/-- One step of the way to a part of a record: a field by its place, a sequence element, a mapping entry. -/
inductive Segment where
  | field (place : Nat)
  | index (place : Nat)
  | key (name : String)
deriving DecidableEq

/-- The step as messages write it. -/
def Segment.text : Segment → String
  | .field place => "#" ++ toString place
  | .index place => "[" ++ toString place ++ "]"
  | .key name => "." ++ name

/-- Why a value does not become the content of a field. -/
inductive ValueFault where
  | kindMismatch (expected : String) (found : Kind)
  | outOfRange (value target : String)
  | unexpectedSegment (segment target : String)
  | missingElement (segment : String)
  | notConstructible (typeName : String)
deriving DecidableEq

/-- What the fault says. -/
def ValueFault.message : ValueFault → String
  | .kindMismatch expected found => "expected `" ++ expected ++ "`, found `" ++ found.text ++ "`"
  | .outOfRange value target => "value `" ++ value ++ "` is out of range for `" ++ target ++ "`"
  | .unexpectedSegment segment target =>
    "path segment `" ++ segment ++ "` does not address a part of `" ++ target ++ "`"
  | .missingElement segment => "no element at `" ++ segment ++ "`"
  | .notConstructible typeName => "`" ++ typeName ++ "` cannot be rebuilt from a value"

/-! ## From values to content -/

/-- A signed integer of the given width. -/
def signedData (width : Width) (i : Int) : Except ValueFault Data :=
  if -(Nat.pow 2 (width.bits - 1) : Int) ≤ i ∧ i < Nat.pow 2 (width.bits - 1) then .ok (.int (Int64.ofInt i))
  else .error (.outOfRange (toString i) ("i" ++ width.suffix))

/-- An unsigned integer of the given width. -/
def unsignedData (width : Width) (i : Int) : Except ValueFault Data :=
  if 0 ≤ i ∧ i < Nat.pow 2 width.bits then .ok (.uint (UInt64.ofNat i.toNat))
  else .error (.outOfRange (toString i) ("u" ++ width.suffix))

/-- The entries as a map of the given order keeps them. -/
def MapOrder.arrange {α : Type} : MapOrder → List (String × α) → List (String × α)
  | .arrival, pairs => Entries.ofList pairs
  | .byKey, pairs => Entries.sortByKey pairs

/-- The content of each item, up to the first failure. -/
def convertItems (convert : Value → Except ValueFault Data) : List Value → Except ValueFault (List Data)
  | [] => .ok []
  | value :: rest => do
    let item ← convert value
    let items ← convertItems convert rest
    return item :: items

/-- The content of each entry, up to the first failure. -/
def convertEntries (convert : Value → Except ValueFault Data) :
    List (String × Value) → Except ValueFault (List (String × Data))
  | [] => .ok []
  | (key, value) :: rest => do
    let item ← convert value
    let entries ← convertEntries convert rest
    return (key, item) :: entries

/-- The content of the given type that a value denotes. -/
def FieldType.ofValue : FieldType → Value → Except ValueFault Data
  | .bool, .bool b => .ok (.bool b)
  | .bool, other => .error (.kindMismatch Kind.bool.text other.kind)
  | .signed width, .int i => signedData width i.toInt
  | .signed width, .uint u => signedData width u.toNat
  | .signed _, other => .error (.kindMismatch Kind.int.text other.kind)
  | .unsigned width, .int i => unsignedData width i.toInt
  | .unsigned width, .uint u => unsignedData width u.toNat
  | .unsigned _, other => .error (.kindMismatch Kind.uint.text other.kind)
  | .double, .float x => .ok (.float x)
  | .double, other => .error (.kindMismatch Kind.float.text other.kind)
  | .single, .float x => .ok (.float x.toSingle)
  | .single, other => .error (.kindMismatch Kind.float.text other.kind)
  | .string, .string text => .ok (.string text)
  | .string, other => .error (.kindMismatch Kind.string.text other.kind)
  | .bytes, .bytes octets => .ok (.bytes octets)
  | .bytes, other => .error (.kindMismatch Kind.bytes.text other.kind)
  | .time, .time t => .ok (.time t)
  | .time, other => .error (.kindMismatch Kind.time.text other.kind)
  | .optional _, .null => .ok .none
  | .optional inner, other => (inner.ofValue other).map .some
  | .boxed inner, value => inner.ofValue value
  | .sequence element, .sequence items => (convertItems element.ofValue items).map .sequence
  | .sequence element, other =>
    .error (.kindMismatch (FieldType.sequence element).descriptor.text other.kind)
  | .map order element, .mapping entries =>
    (convertEntries element.ofValue entries).map fun read => .mapping (order.arrange read)
  | .map order element, other => .error (.kindMismatch (FieldType.map order element).descriptor.text other.kind)
  | .record type, _ => .error (.notConstructible type.name)
  | .unsupported kind, _ => .error (.notConstructible kind)

end TaggedRecords
