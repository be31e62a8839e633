import TaggedRecords.Tag
import TaggedRecords.Rule

/-!
# The registry of rules

Validations and transformations under their names, in two name spaces, and the formatters in order. Built-in
names cannot be taken by other rules, and a name must be one that a tag can write.
-/

namespace TaggedRecords

/-- A rule as it is registered. -/
structure Registered (α : Type) where
  rule : α
  builtIn : Bool

/-- All registered rules and formatters. -/
structure Registry where
  validations : Entries (Registered Validation)
  transformations : Entries (Registered Transformation)
  formatters : List Formatter

/-- Characters that have a meaning in tags or are kept free for one. -/
def reservedChars : List Char :=
  ['.', '[', ']', ',', '|', '=', '+', '(', ')', '`', '~', '!', '@', '#', '$', '%', '^', '&', '*', '"', '/', '?',
    '<', '>', '\x7b', '\x7d', '\\', '\'', ';', ':']

/-- Whether a name is one of the marks for elements and zero values. -/
def isMark (name : String) : Bool :=
  name == diveMark || name == omitMark ||
    match Method.splitSuffix? name with
    | some (base, _) => base == omitMark
    | none => false

/-- Why a name cannot be registered, the first reason of several. -/
def nameFault? (name : String) (builtIn : Bool) : Option Fault :=
  if name.isEmpty then some .emptyRuleName
  else if builtIn then some (.reservedRuleName name "collides with a built-in rule")
  else if name.toList.any isBlank then some (.reservedRuleName name "contains whitespace")
  else if name.toList.any fun c => decide (c ∈ reservedChars) then
    some (.reservedRuleName name "contains a reserved character")
  else if isMark name then some (.reservedRuleName name "is a structural annotation token")
  else none

namespace Registry

/-- A registry without rules. -/
def empty : Registry := ⟨[], [], []⟩

/-- The validation under a name. -/
def validation? (registry : Registry) (name : String) : Option Validation :=
  (Entries.get? registry.validations name).map Registered.rule

/-- The transformation under a name. -/
def transformation? (registry : Registry) (name : String) : Option Transformation :=
  (Entries.get? registry.transformations name).map Registered.rule

/-- Whether a name belongs to a built-in rule of either kind. -/
def isBuiltIn (registry : Registry) (name : String) : Bool :=
  ((Entries.get? registry.validations name).any Registered.builtIn) ||
    ((Entries.get? registry.transformations name).any Registered.builtIn)

/-- Puts a validation under a name, whatever stood there. -/
def putValidation (registry : Registry) (name : String) (rule : Validation) (builtIn : Bool) : Registry :=
  { registry with validations := Entries.insert registry.validations name ⟨rule, builtIn⟩ }

/-- Puts a transformation under a name, whatever stood there. -/
def putTransformation (registry : Registry) (name : String) (rule : Transformation) (builtIn : Bool) : Registry :=
  { registry with transformations := Entries.insert registry.transformations name ⟨rule, builtIn⟩ }

/-- Registers a validation in place of an earlier one of the same name. -/
def registerValidation (registry : Registry) (name : String) (rule : Validation) : Except Fault Registry :=
  match nameFault? name (registry.isBuiltIn name) with
  | some fault => .error fault
  | none => .ok (registry.putValidation name rule false)

/-- Registers a transformation in place of an earlier one of the same name. -/
def registerTransformation (registry : Registry) (name : String) (rule : Transformation) : Except Fault Registry :=
  match nameFault? name (registry.isBuiltIn name) with
  | some fault => .error fault
  | none => .ok (registry.putTransformation name rule false)

/-- Adds a formatter behind the others. -/
def registerFormatter (registry : Registry) (formatter : Formatter) : Registry :=
  { registry with formatters := registry.formatters ++ [formatter] }

/-- The fault for a rejected field: the words of the first formatter that finds some, or the plain failure. -/
def failure (registry : Registry) (scope : Scope) : Fault :=
  let plain := FieldFailure.ofScope scope
  match registry.formatters.findSome? fun formatter => formatter plain with
  | some text => .formatted text
  | none => .ruleFailed plain

end Registry

end TaggedRecords
