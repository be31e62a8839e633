import TaggedRecords.Value

/-!
# Descriptors

The shape of a field's type as rules see it: which values are legal for the field, what its elements are,
and how the shape is written in messages.
-/

namespace TaggedRecords

/-- The shape of a field's type; the keys of a mapping are always text. -/
inductive Descriptor where
  | bool
  | int
  | uint
  | float
  | string
  | bytes
  | time
  | optional (inner : Descriptor)
  | sequence (element : Descriptor)
  | mapping (element : Descriptor)
  | record (type : RecordType)
  | unsupported (kind : String)
deriving DecidableEq

namespace Descriptor

/-- The shape as messages write it. -/
def text : Descriptor → String
  | bool => "bool"
  | int => "int"
  | uint => "uint"
  | float => "float"
  | string => "string"
  | bytes => "bytes"
  | time => "time"
  | optional inner => "optional<" ++ inner.text ++ ">"
  | sequence element => "sequence<" ++ element.text ++ ">"
  | mapping element => "mapping<string, " ++ element.text ++ ">"
  | record type => "record<" ++ type.name ++ ">"
  | unsupported kind => "unsupported<" ++ kind ++ ">"

/-- Whether the value may be absent. -/
def isOptional : Descriptor → Bool
  | optional _ => true
  | _ => false

/-- The shape under all optional layers. -/
def dereferenced : Descriptor → Descriptor
  | optional inner => inner.dereferenced
  | other => other

/-- The shape of the elements of a container, looked for under the optional layers. -/
def element? (d : Descriptor) : Option Descriptor :=
  match d.dereferenced with
  | sequence element => some element
  | mapping element => some element
  | _ => none

/-- The kind of the unsupported part, if there is one outside nested records. -/
def unsupportedKind? : Descriptor → Option String
  | unsupported kind => some kind
  | optional inner => inner.unsupportedKind?
  | sequence element => element.unsupportedKind?
  | mapping element => element.unsupportedKind?
  | _ => none

/-- Whether a value is legal for a field of this shape. A record is known by its type alone. -/
def admits : Descriptor → Value → Bool
  | optional _, .null => true
  | optional inner, value => inner.admits value
  | bool, .bool _ => true
  | int, .int _ => true
  | uint, .uint _ => true
  | float, .float _ => true
  | string, .string _ => true
  | bytes, .bytes _ => true
  | time, .time _ => true
  | sequence element, .sequence items => items.all fun item => element.admits item
  | mapping element, .mapping entries => entries.all fun entry => element.admits entry.2
  | record expected, .record type _ => decide (type = expected)
  | _, _ => false

end Descriptor

end TaggedRecords
