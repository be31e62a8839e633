/-!
# Record declarations in source code

Which fields of a declared type become fields of a record: the checks on the declaration, the tag of each
field, and the parts of field types that no value can represent.
-/

namespace TaggedRecords

/-- The form of a declared item. -/
inductive ItemForm where
  | namedStruct
  | tupleStruct
  | unitStruct
  | enumeration
  | union
deriving DecidableEq

/-- The arguments of an attribute. -/
inductive AttributeArgs where
  /-- No arguments in parentheses. -/
  | bare
  /-- String literals between commas. -/
  | literals (texts : List String)
  /-- Something that is no string literal. -/
  | other
deriving DecidableEq

/-- An attribute of a field. -/
structure Attribute where
  path : String
  args : AttributeArgs
deriving DecidableEq

mutual

/-- The type of a declared field as it is written. -/
inductive TypeSyntax where
  /-- Names between colons, each with its arguments. -/
  | path (segments : List PathSegment)
  | function
  | traitObject
  | pointer
  | reference
  | array
  | tuple (parts : List TypeSyntax)
  | parenthesized (inner : TypeSyntax)
  /-- A type without parts to look at. -/
  | plain
  /-- An argument that is no type. -/
  | noType

/-- A name in a path, and its arguments in angle brackets. -/
inductive PathSegment where
  | named (name : String) (args : List TypeSyntax)

end

/-- A field as it is declared. -/
structure DeclaredField where
  name : String
  attributes : List Attribute
  type : TypeSyntax

/-- An item as it is declared. -/
structure Declaration where
  form : ItemForm
  generics : List String
  fields : List DeclaredField

/-- A field that becomes part of the record; its type may have an unsupported part. -/
structure CollectedField where
  name : String
  tag : String
  unsupported : Option String
deriving DecidableEq

/-- What is wrong with the tag of a field. The fault points at the attribute at the place. -/
inductive TagFault where
  | duplicate (place : Nat)
  | malformed (place : Nat)
deriving DecidableEq

/-- What the fault says. -/
def TagFault.message : TagFault → String
  | .duplicate _ => "duplicate #[vault] attribute; put all rules in one annotation"
  | .malformed _ => "expected an annotation string, e.g. #[vault(\"name,required\")]"

/-- Why a declaration is refused. The first fault points at the parameters, the last one into the field at the place,
and the others at the whole item. -/
inductive DeclarationFault where
  | generic
  | unnamedFields
  | unit
  | noStruct
  | tag (field : Nat) (fault : TagFault)
deriving DecidableEq

/-- What the fault says. -/
def DeclarationFault.message : DeclarationFault → String
  | .generic => "#[derive(Record)] does not support generic structs"
  | .unnamedFields => "#[derive(Record)] requires named fields.\n\nTuple structs are not supported."
  | .unit => "#[derive(Record)] cannot be applied to unit structs."
  | .noStruct => "#[derive(Record)] can only be applied to structs"
  | .tag _ fault => fault.message

/-- Names of channel ends. -/
def channelNames : List String := ["Sender", "SyncSender", "Receiver", "UnboundedSender", "UnboundedReceiver"]

mutual

/-- The first part of a type that no value can represent, looked for from left to right. -/
def TypeSyntax.unsupportedKind? : TypeSyntax → Option String
  | .function => some "function"
  | .traitObject => some "trait object"
  | .pointer => some "pointer"
  | .reference => some "reference"
  | .array => some "array"
  | .tuple [] => some "unit"
  | .tuple (_ :: _) => some "tuple"
  | .parenthesized inner => inner.unsupportedKind?
  | .path segments => lastUnsupported? segments
  | .plain => none
  | .noType => none

/-- The first such part in the last segment of a path. -/
def lastUnsupported? : List PathSegment → Option String
  | [] => none
  | [segment] => segment.unsupportedKind?
  | _ :: next :: rest => lastUnsupported? (next :: rest)

/-- The first such part in a segment: its name, or else its arguments. -/
def PathSegment.unsupportedKind? : PathSegment → Option String
  | .named name args => if channelNames.contains name then some "channel" else firstUnsupported? args

/-- The first such part among arguments. -/
def firstUnsupported? : List TypeSyntax → Option String
  | [] => none
  | arg :: rest =>
    match arg.unsupportedKind? with
    | some kind => some kind
    | none => firstUnsupported? rest

end

namespace DeclaredField

/-- The name of the attribute that carries a tag. -/
def tagPath : String := "vault"

/-- The tag among the attributes from a place on, behind the one already found. -/
def tagFrom (place : Nat) : Option String → List Attribute → Except TagFault (Option String)
  | found, [] => .ok found
  | found, attr :: rest =>
    if attr.path ≠ tagPath then tagFrom (place + 1) found rest
    else
      match found, attr.args with
      | some _, _ => .error (.duplicate place)
      | none, .literals [text] => tagFrom (place + 1) (some text) rest
      | none, _ => .error (.malformed place)

/-- Whether a tag keeps the field out of the record. -/
def keepsOut (tag : String) : Bool := tag == "" || tag == "-"

/-- The field as part of the record, unless it has no tag or one that keeps it out. -/
def collect (field : DeclaredField) : Except TagFault (Option CollectedField) := do
  match ← tagFrom 0 none field.attributes with
  | none => return none
  | some tag =>
    if keepsOut tag then return none
    else return some ⟨field.name, tag, field.type.unsupportedKind?⟩

end DeclaredField

namespace Declaration

/-- The collected fields from a place on, up to the first that is refused. -/
def collectFields (place : Nat) : List DeclaredField → Except DeclarationFault (List CollectedField)
  | [] => .ok []
  | field :: rest => do
    let first ← field.collect.mapError (.tag place)
    let others ← collectFields (place + 1) rest
    return first.toList ++ others

/-- The fields of the record that a declaration describes. -/
def collect (declaration : Declaration) : Except DeclarationFault (List CollectedField) :=
  if !declaration.generics.isEmpty then .error .generic
  else
    match declaration.form with
    | .namedStruct => collectFields 0 declaration.fields
    | .tupleStruct => .error .unnamedFields
    | .unitStruct => .error .unit
    | .enumeration => .error .noStruct
    | .union => .error .noStruct

end Declaration

end TaggedRecords
