import TaggedRecords.Pattern

/-!
# E-mail addresses

The pattern of an address: a local part, bare or quoted, and a domain of labels between dots that may end in
a dot. Most characters beyond ASCII may stand in either part.
-/

namespace TaggedRecords

namespace EmailAddress

/-- The ranges beyond ASCII. -/
def beyond : List (Nat × Nat) := [(0xa0, 0xd7ff), (0xf900, 0xfdcf), (0xfdf0, 0xffef)]

/-- Digits of ASCII. -/
def digits : List (Nat × Nat) := [(0x30, 0x39)]

/-- Letters of ASCII. -/
def letters : List (Nat × Nat) := [(0x41, 0x5a), (0x61, 0x7a)]

/-- Characters of the bare local part between its dots: letters, digits, and the signs that need no quotes. -/
def atomChar : Pattern :=
  .one ⟨letters ++ digits ++ [(0x21, 0x21), (0x23, 0x27), (0x2a, 0x2b), (0x2d, 0x2d), (0x2f, 0x2f), (0x3d, 0x3d),
    (0x3f, 0x3f), (0x5e, 0x60), (0x7b, 0x7e)] ++ beyond⟩

/-- A bare local part: atoms between dots. -/
def dotAtom : Pattern := .seq atomChar.some (.many (.seq (.char '.') atomChar.some))

/-- Blanks of a line. -/
def lineBlank : Pattern := .one ⟨[(0x9, 0x9), (0x20, 0x20)]⟩

/-- Blanks, with a line break before the last of them or none, or nothing. -/
def folding : Pattern :=
  .maybe (.seq (.maybe (.sequence [.many lineBlank, .char '\r', .char '\n'])) lineBlank.some)

/-- Characters between quotes: all of ASCII but the null and the line feed, and those of the ranges beyond. -/
def quotedChar : Pattern := .one ⟨[(0x1, 0x9), (0xb, 0xc), (0xd, 0x7f)] ++ beyond⟩

/-- A local part in quotes. -/
def quotedString : Pattern := .sequence [.char '"', .many (.seq folding quotedChar), folding, .char '"']

/-- Characters inside a label. -/
def innerChar : Pattern := .one ⟨letters ++ digits ++ [(0x2d, 0x2e), (0x7e, 0x7e)] ++ beyond⟩

/-- A label whose first and last characters are of the given set. -/
def labelWithin (ends : Pattern) : Pattern := .either ends (.sequence [ends, .many innerChar, ends])

/-- A label of the domain. -/
def label : Pattern := labelWithin (.one ⟨letters ++ digits ++ beyond⟩)

/-- The last label of the domain. -/
def topLabel : Pattern := labelWithin (.one ⟨letters ++ beyond⟩)

/-- The domain: labels, each with a dot, the last label, and one more dot or none. -/
def domain : Pattern := .sequence [(Pattern.seq label (.char '.')).some, topLabel, .maybe (.char '.')]

/-- A whole address. -/
def address : Pattern := .sequence [.either dotAtom quotedString, .char '@', domain]

end EmailAddress

/-- Whether the text is an e-mail address. -/
def isEmailAddress (text : String) : Bool := EmailAddress.address.accepts text.toList

end TaggedRecords
