import TaggedRecords.CharSet
import TaggedRecords.Method

/-!
# Tags

A tag is a list of pieces between commas: an output name or nothing, then tokens. A token is the mark
for entering elements, a mark for leaving zero values out, or a reference to a rule with its parameter.
-/

namespace TaggedRecords

/-- A field's tag: left out of the output, or with an output name or none and the tokens in order. -/
inductive Tag where
  | skip
  | field (rename : Option String) (tokens : List String)
deriving DecidableEq

/-- Reads a tag. Nothing at all and a lone dash skip the field; blanks around the pieces do not
count, and neither do empty tokens. -/
def Tag.parse (tag : String) : Tag :=
  let trimmed := trimBlanks tag
  if trimmed = "" ∨ trimmed = "-" then .skip
  else
    match (pieces ',' trimmed).map trimBlanks with
    | [] => .field none []
    | first :: rest => .field (if first = "" then none else some first) (rest.filter fun token => token ≠ "")

/-! ## Tokens -/

/-- A rule named by a token; `forced` looks for a transformation only. -/
structure RuleRef where
  name : String
  param : Option String
  forced : Bool
deriving DecidableEq

/-- What a token means. Leaving out may be restricted to one method. -/
inductive Token where
  | omitEmpty (method : Option Method)
  | dive
  | rule (ref : RuleRef)
deriving DecidableEq

/-- The mark for entering elements. -/
def diveMark : String := "dive"

/-- The mark for leaving zero values out. -/
def omitMark : String := "omitempty"

/-- The start of a token that names a transformation. -/
def transformMark : String := "transform="

/-- A rule name and its parameter, cut at the first equals sign; only around a sign blanks do not count. -/
def splitParam (token : String) : String × Option String :=
  match cutAt? '=' token with
  | some (name, param) => (trimBlanks name, some (trimBlanks param))
  | none => (token, none)

/-- The meaning of a token. -/
def Token.classify (token : String) : Token :=
  match behind? transformMark token with
  | some rest => .rule ⟨(splitParam rest).1, (splitParam rest).2, true⟩
  | none =>
    if token = diveMark then .dive
    else if token = omitMark then .omitEmpty none
    else
      match Method.splitSuffix? token with
      | some (base, method) =>
        if base = omitMark then .omitEmpty (some method)
        else .rule ⟨(splitParam token).1, (splitParam token).2, false⟩
      | none => .rule ⟨(splitParam token).1, (splitParam token).2, false⟩

/-! ## Leaving zero values out -/

/-- For which methods a field's zero value is left out. -/
structure OmitPolicy where
  always : Bool
  validate : Bool
  create : Bool
  update : Bool
deriving DecidableEq

namespace OmitPolicy

/-- Leaves nothing out. -/
def none : OmitPolicy := ⟨false, false, false, false⟩

/-- Also leaves out for one method, or for all. -/
def add (policy : OmitPolicy) : Option Method → OmitPolicy
  | .none => { policy with always := true }
  | some .validate => { policy with validate := true }
  | some .create => { policy with create := true }
  | some .update => { policy with update := true }

/-- Whether zero values are left out for the method. -/
def appliesTo (policy : OmitPolicy) : Method → Bool
  | .validate => policy.always || policy.validate
  | .create => policy.always || policy.create
  | .update => policy.always || policy.update

/-- Whether nothing is ever left out. -/
def isNone (policy : OmitPolicy) : Bool :=
  !(policy.always || policy.validate || policy.create || policy.update)

end OmitPolicy

end TaggedRecords
