import TaggedRecords.DisplayName
import TaggedRecords.Options
import TaggedRecords.RecordData

/-!
# Rules

What a rule sees of the field it runs on, the failures of registration, preparation and validation, and the
two kinds of rules: validations accept or reject a value, transformations return another one.
-/

namespace TaggedRecords

/-- All that a rule sees of the field or element it runs on. -/
structure Scope where
  /-- The snapshot of the record that owns the field. -/
  owner : RecordValue
  /-- The output name; an element has its place or key. -/
  field : String
  /-- The declared name; an element has its place or key. -/
  declared : String
  /-- Output names from the root. -/
  path : String
  /-- Declared names from the root. -/
  declaredPath : String
  /-- The value that earlier transformations left. -/
  value : Value
  /-- The shape of the field's type without optional layers. -/
  descriptor : Descriptor
  /-- The name of the rule that runs. -/
  rule : String
  /-- The parameter of the rule that runs. -/
  param : Option String

/-- A field whose value a validation rejected. -/
structure FieldFailure where
  field : String
  declared : String
  display : String
  path : String
  declaredPath : String
  value : Value
  descriptor : Descriptor
  rule : String
  param : Option String

/-- The failure of the rule that runs on a scope. -/
def FieldFailure.ofScope (scope : Scope) : FieldFailure where
  field := scope.field
  declared := scope.declared
  display := displayName scope.declared
  path := scope.path
  declaredPath := scope.declaredPath
  value := scope.value
  descriptor := scope.descriptor
  rule := scope.rule
  param := scope.param

/-- What the failure says. -/
def FieldFailure.message (failure : FieldFailure) : String :=
  "field validation for '" ++ failure.field ++ "' failed on the '" ++ failure.rule ++ "' rule"

/-- Why registering, preparing or validating failed. -/
inductive Fault where
  | emptyRuleName
  | reservedRuleName (name reason : String)
  | unsupportedFieldType (record field kind : String)
  | unknownRule (record field rule : String)
  | missingParam (rule path : String)
  | invalidParam (rule param path reason : String)
  | invalidTarget (rule path : String) (kind : Kind)
  | typeMismatch (rule path expected : String) (found : Kind)
  | depthExceeded (path : String) (maxDepth : Nat)
  | readOnly
  | writeBack (path : String) (cause : ValueFault)
  | ruleFailed (failure : FieldFailure)
  | formatted (text : String)
  | custom (text : String)

namespace Fault

/-- What the fault says. A formatted failure and a rule's own error speak for themselves. -/
def message : Fault → String
  | emptyRuleName => "rule name must not be empty"
  | reservedRuleName name reason => "rule name `" ++ name ++ "` is reserved: " ++ reason
  | unsupportedFieldType record field kind =>
    "field `" ++ field ++ "` of `" ++ record ++ "` has unsupported type `" ++ kind ++ "`"
  | unknownRule record field rule =>
    "unknown rule `" ++ rule ++ "` on field `" ++ field ++ "` of `" ++ record ++ "`"
  | missingParam rule path => "rule `" ++ rule ++ "` on `" ++ path ++ "` requires a parameter"
  | invalidParam rule param path reason =>
    "invalid parameter `" ++ param ++ "` for rule `" ++ rule ++ "` on `" ++ path ++ "`: " ++ reason
  | invalidTarget rule path kind =>
    "rule `" ++ rule ++ "` cannot be applied to `" ++ kind.text ++ "` value at `" ++ path ++ "`"
  | typeMismatch rule path expected found =>
    "transformation `" ++ rule ++ "` on `" ++ path ++ "` returned `" ++ found.text ++ "`, expected `" ++
      expected ++ "`"
  | depthExceeded path maxDepth =>
    "maximum traversal depth " ++ toString maxDepth ++ " exceeded at `" ++ path ++ "`"
  | readOnly => "write back needs a mutable record, use `validate_mut`"
  | writeBack path cause => "failed to write `" ++ path ++ "` back into the record: " ++ cause.message
  | ruleFailed failure => failure.message
  | formatted text => text
  | custom text => text

/-- The code that programs tell faults apart by. -/
def code : Fault → String
  | emptyRuleName => "INVALID_RULE_NAME"
  | reservedRuleName _ _ => "RESERVED_RULE_NAME"
  | unsupportedFieldType _ _ _ => "UNSUPPORTED_FIELD_TYPE"
  | unknownRule _ _ _ => "UNKNOWN_RULE"
  | missingParam _ _ => "MISSING_PARAM"
  | invalidParam _ _ _ _ => "INVALID_PARAM"
  | invalidTarget _ _ _ => "INVALID_RULE_TARGET"
  | typeMismatch _ _ _ _ => "TYPE_MISMATCH"
  | depthExceeded _ _ => "DEPTH_EXCEEDED"
  | readOnly => "READ_ONLY_RECORD"
  | writeBack _ _ => "WRITE_BACK"
  | ruleFailed _ => "RULE_FAILED"
  | formatted _ => "FORMATTED"
  | custom _ => "RULE_ERROR"

/-- Whether the fault lies in the declarations of a record type, found while they were prepared. -/
def isBuildFault : Fault → Bool
  | unsupportedFieldType _ _ _ => true
  | unknownRule _ _ _ => true
  | _ => false

end Fault

/-- A rule that accepts or rejects; `runsOnNil` lets it run on zero values too. -/
structure Validation where
  check : Context → Option Transaction → Scope → Except Fault Bool
  runsOnNil : Bool

/-- A rule that returns the value to go on with; `runsOnNil` lets it run on zero values too. -/
structure Transformation where
  apply : Context → Option Transaction → Scope → Except Fault Value
  runsOnNil : Bool

/-- Words a failure anew for the caller, or leaves it to the next formatter. -/
abbrev Formatter := FieldFailure → Option String

end TaggedRecords
