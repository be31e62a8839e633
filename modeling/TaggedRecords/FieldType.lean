import TaggedRecords.Descriptor

/-!
# Field types and record schemas

The types that a field may be declared with, the declarations of a record, and the catalog in which a record
type finds its declarations; a record may thus contain records of its own type.
-/

namespace TaggedRecords

/-- How many bits an integer type has; the size of an address is 64 bits. -/
inductive Width where
  | w8 | w16 | w32 | w64 | address
deriving DecidableEq

/-- The number of bits. -/
def Width.bits : Width → Nat
  | .w8 => 8
  | .w16 => 16
  | .w32 => 32
  | .w64 => 64
  | .address => 64

/-- The end of an integer type's name. -/
def Width.suffix : Width → String
  | .w8 => "8"
  | .w16 => "16"
  | .w32 => "32"
  | .w64 => "64"
  | .address => "size"

/-- The order in which a map keeps its entries. -/
inductive MapOrder where
  | arrival
  | byKey
deriving DecidableEq

/-- The type that a field is declared with. A box is transparent. -/
inductive FieldType where
  | bool
  | signed (width : Width)
  | unsigned (width : Width)
  | double
  | single
  | string
  | bytes
  | time
  | optional (inner : FieldType)
  | boxed (inner : FieldType)
  | sequence (element : FieldType)
  | map (order : MapOrder) (element : FieldType)
  | record (type : RecordType)
  | unsupported (kind : String)
deriving DecidableEq

namespace FieldType

/-- The shape of the type. -/
def descriptor : FieldType → Descriptor
  | bool => .bool
  | signed _ => .int
  | unsigned _ => .uint
  | double => .float
  | single => .float
  | string => .string
  | bytes => .bytes
  | time => .time
  | optional inner => .optional inner.descriptor
  | boxed inner => inner.descriptor
  | sequence element => .sequence element.descriptor
  | map _ element => .mapping element.descriptor
  | record type => .record type
  | unsupported kind => .unsupported kind

/-- The type inside all boxes around it. -/
def unboxed : FieldType → FieldType
  | boxed inner => inner.unboxed
  | other => other

end FieldType

/-- The declaration of one field. -/
structure FieldDecl where
  name : String
  tag : String
  type : FieldType
deriving DecidableEq

/-- The shape of the declared type. -/
def FieldDecl.descriptor (decl : FieldDecl) : Descriptor := decl.type.descriptor

/-- A field of an unsupported type holds no data. -/
def FieldDecl.isHidden (decl : FieldDecl) : Bool := decl.descriptor.unsupportedKind?.isSome

/-- The name and the declarations of a record type. -/
structure Schema where
  name : String
  fields : List FieldDecl
deriving DecidableEq

/-- All record types, each known by its place. -/
structure Catalog where
  schemas : List Schema
deriving DecidableEq

namespace Catalog

/-- The record type at a place. -/
def typeAt (catalog : Catalog) (place : Nat) : RecordType :=
  ⟨place, ((catalog.schemas[place]?).map Schema.name).getD ""⟩

/-- The declarations of a record type, in order. -/
def fields (catalog : Catalog) (type : RecordType) : List FieldDecl :=
  ((catalog.schemas[type.id.place]?).map Schema.fields).getD []

end Catalog

end TaggedRecords
