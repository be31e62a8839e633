import TaggedRecords.EmailAddress
import TaggedRecords.LetterCase
import TaggedRecords.Numeral
import TaggedRecords.Registry

/-!
# Built-in rules

The rules that every engine starts with: a value that must be there, lower and upper bounds of numbers, sizes
and times, e-mail addresses, and the letter case and outer blanks of text.
-/

namespace TaggedRecords

namespace BuiltIns

/-- The name of the rule that wants a value; its forms for one method end in the method's name. -/
def requiredName : String := "required"

/-- Accepts what is no zero value. -/
def required : Validation where
  check _ _ scope := .ok (!scope.value.isZero)
  runsOnNil := true

/-! ## Bounds -/

/-- Which bound the parameter is. -/
inductive Bound where
  | lower
  | upper
deriving DecidableEq

/-- Whether an order lies within the bound, the bound itself included. -/
def Bound.holds : Bound → Option Ordering → Bool
  | .lower, some order => order != .lt
  | .upper, some order => order != .gt
  | _, none => false

/-- Whether an order lies strictly within the bound. -/
def Bound.holdsStrictly : Bound → Ordering → Bool
  | .lower, order => order == .gt
  | .upper, order => order == .lt

/-- The fault of a parameter that is no value of the wanted kind. -/
def paramFault (scope : Scope) (param reason : String) : Fault := .invalidParam scope.rule param scope.path reason

/-- A parameter as a signed integer. -/
def integerParam (scope : Scope) (param : String) : Except Fault Int64 :=
  match Numeral.readInt64 param with
  | .ok limit => .ok limit
  | .error fault => .error (paramFault scope param fault.message)

/-- The check of a value against a bound that is written in the parameter. -/
def checkBound (bound : Bound) (scope : Scope) (param : String) : Except Fault Bool :=
  match scope.value.size? with
  | some size =>
    (integerParam scope param).map fun limit => bound.holds (some (compare (size : Int) limit.toInt))
  | none =>
    match scope.value with
    | .int i => (integerParam scope param).map fun limit => bound.holds (some (compare i.toInt limit.toInt))
    | .uint u =>
      match Numeral.readUInt64 param with
      | .ok limit => .ok (bound.holds (some (compare u.toNat limit.toNat)))
      | .error fault => .error (paramFault scope param fault.message)
    | .float x =>
      match Numeral.readFloat param with
      | .ok limit => .ok (bound.holds (x.compare? limit))
      | .error fault => .error (paramFault scope param fault.message)
    | .time t =>
      match Instant.ofTimestamp param with
      | .ok limit => .ok (bound.holdsStrictly (t.order limit))
      | .error fault => .error (paramFault scope param fault.message)
    | other => .error (.invalidTarget scope.rule scope.path other.kind)

/-- A bound that must be written in the parameter. -/
def bounded (bound : Bound) : Validation where
  check _ _ scope :=
    match scope.param with
    | some param =>
      if param.isEmpty then .error (.missingParam scope.rule scope.path) else checkBound bound scope param
    | none => .error (.missingParam scope.rule scope.path)
  runsOnNil := false

/-! ## Text -/

/-- Accepts e-mail addresses; nothing but text can be one. -/
def email : Validation where
  check _ _ scope :=
    match scope.value with
    | .string text => .ok (isEmailAddress text)
    | other => .error (.invalidTarget scope.rule scope.path other.kind)
  runsOnNil := false

/-- Changes text and leaves every other value as it is. -/
def onText (change : String → String) : Transformation where
  apply _ _ scope :=
    match scope.value with
    | .string text => .ok (.string (change text))
    | other => .ok other
  runsOnNil := false

/-- The built-in validations under their names. -/
def validations : List (String × Validation) :=
  (requiredName, required) ::
    (Method.all.map fun method => (requiredName ++ "_" ++ method.text, required)) ++
    [("min", bounded .lower), ("max", bounded .upper), ("email", email)]

/-- The built-in transformations under their names. -/
def transformations : List (String × Transformation) :=
  [("uppercase", onText upperCase), ("lowercase", onText lowerCase), ("trim_space", onText trimBlanks)]

end BuiltIns

/-- The registry of the built-in rules alone. -/
def Registry.withBuiltIns : Registry :=
  let validated := BuiltIns.validations.foldl (fun made entry => made.putValidation entry.1 entry.2 true) empty
  BuiltIns.transformations.foldl (fun made entry => made.putTransformation entry.1 entry.2 true) validated

end TaggedRecords
