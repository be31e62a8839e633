import TaggedRecords.Pieces

/-!
# Methods

The operation that a record is validated for, and the ending by which a token restricts itself to one.
-/

namespace TaggedRecords

/-- The operation that a record is validated for. -/
inductive Method where
  | validate
  | create
  | update
deriving DecidableEq

namespace Method

/-- All methods, in the order in which endings are tried. -/
def all : List Method := [validate, create, update]

/-- The name of a method. -/
def text : Method → String
  | validate => "validate"
  | create => "create"
  | update => "update"

/-- Splits a token at an underscore and the method name that ends it; something must stand before them. -/
def splitSuffix? (token : String) : Option (String × Method) :=
  all.findSome? fun method =>
    match before? ("_" ++ method.text) token with
    | some base => if base.isEmpty then none else some (base, method)
    | none => none

end Method

end TaggedRecords
