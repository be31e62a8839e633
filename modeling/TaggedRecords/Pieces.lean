/-!
# Pieces of text

Cutting text at a separator, at its first occurrence or at all of them, and taking a known start or end off.
-/

namespace TaggedRecords

/-- The pieces between the separators; there is always one more piece than separators. -/
def splitChars (separator : Char) : List Char → List (List Char)
  | [] => [[]]
  | c :: rest =>
    if c = separator then [] :: splitChars separator rest
    else
      match splitChars separator rest with
      | piece :: pieces => (c :: piece) :: pieces
      | [] => [[c]]

/-- What stands before and behind the first separator. -/
def splitFirst? (separator : Char) : List Char → Option (List Char × List Char)
  | [] => none
  | c :: rest =>
    if c = separator then some ([], rest)
    else (splitFirst? separator rest).map fun split => (c :: split.1, split.2)

/-- The rest of a text behind a known start. -/
def dropStart? : List Char → List Char → Option (List Char)
  | [], text => some text
  | _ :: _, [] => none
  | a :: start, c :: text => if a = c then dropStart? start text else none

/-- The rest of a text before a known end. -/
def dropEnd? (ending text : List Char) : Option (List Char) :=
  (dropStart? ending.reverse text.reverse).map List.reverse

/-- How many bytes of UTF-8 the characters take. -/
def byteCount (text : List Char) : Nat := text.foldl (fun count c => count + c.utf8Size) 0

/-- The pieces of a text between the separators. -/
def pieces (separator : Char) (text : String) : List String :=
  (splitChars separator text.toList).map String.ofList

/-- What stands before and behind the first separator of a text. -/
def cutAt? (separator : Char) (text : String) : Option (String × String) :=
  (splitFirst? separator text.toList).map fun split => (String.ofList split.1, String.ofList split.2)

/-- The rest of a text behind a known start. -/
def behind? (start text : String) : Option String := (dropStart? start.toList text.toList).map String.ofList

/-- The rest of a text before a known end. -/
def before? (ending text : String) : Option String := (dropEnd? ending.toList text.toList).map String.ofList

end TaggedRecords
