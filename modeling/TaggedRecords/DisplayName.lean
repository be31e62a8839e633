/-!
# Display names

Field names as people read them: underscores become spaces, and a space separates a lower-case letter from an
upper-case one behind it and a letter from a digit behind it.
-/

namespace TaggedRecords

/-- Puts a space between neighbours of the given classes; a character belongs to one pair only. -/
def spaceBetween (left right : Char → Bool) : List Char → List Char
  | a :: b :: rest =>
    if left a && right b then a :: ' ' :: b :: spaceBetween left right rest
    else a :: spaceBetween left right (b :: rest)
  | short => short

/-- The display form of a name's characters, one kind of boundary after the other. -/
def displayChars (name : List Char) : List Char :=
  let spaced := name.map fun c => if c = '_' then ' ' else c
  spaceBetween Char.isAlpha Char.isDigit (spaceBetween Char.isLower Char.isUpper spaced)

/-- The display form of a name. -/
def displayName (name : String) : String := String.ofList (displayChars name.toList)

end TaggedRecords
