import TaggedRecords.CharSet

/-!
# Patterns of text

Patterns built from character sets by sequence, choice and repetition, and their matcher, which follows every
way of reading the text at once.
-/

namespace TaggedRecords

/-- A pattern of text. -/
inductive Pattern where
  | empty
  | one (set : CharSet)
  | seq (first second : Pattern)
  | either (first second : Pattern)
  | many (inner : Pattern)
deriving DecidableEq

namespace Pattern

/-- The pattern once or not at all. -/
def maybe (p : Pattern) : Pattern := either empty p

/-- The pattern at least once. -/
def some (p : Pattern) : Pattern := seq p (many p)

/-- The patterns one behind the other. -/
def sequence : List Pattern → Pattern
  | [] => empty
  | [p] => p
  | p :: rest => seq p (sequence rest)

/-- Exactly one character. -/
def char (c : Char) : Pattern := one ⟨[(c.toNat, c.toNat)]⟩

/-- Whether a text matches: the meaning of patterns. -/
inductive Matches : Pattern → List Char → Prop
  | empty : Matches .empty []
  | one {set : CharSet} {c : Char} (inside : set.contains c = true) : Matches (.one set) [c]
  | seq {p q : Pattern} {s t : List Char} (first : Matches p s) (second : Matches q t) :
      Matches (.seq p q) (s ++ t)
  | left {p q : Pattern} {s : List Char} (first : Matches p s) : Matches (.either p q) s
  | right {p q : Pattern} {s : List Char} (second : Matches q s) : Matches (.either p q) s
  | stop {p : Pattern} : Matches (.many p) []
  | more {p : Pattern} {s t : List Char} (first : Matches p s) (rest : Matches (.many p) t) :
      Matches (.many p) (s ++ t)

/-- Whether the empty text matches. -/
def matchesNothing : Pattern → Bool
  | empty => true
  | one _ => false
  | seq p q => p.matchesNothing && q.matchesNothing
  | either p q => p.matchesNothing || q.matchesNothing
  | many _ => true

/-- The patterns of what may follow a first character. -/
def after (c : Char) : Pattern → List Pattern
  | empty => []
  | one set => if set.contains c then [empty] else []
  | seq p q =>
    let inFirst := (p.after c).map fun rest => seq rest q
    if p.matchesNothing then inFirst ++ q.after c else inFirst
  | either p q => p.after c ++ q.after c
  | many p => (p.after c).map fun rest => seq rest (many p)

/-- Whether one of the patterns matches the whole text. -/
def anyAccepts : List Pattern → List Char → Bool
  | patterns, [] => patterns.any matchesNothing
  | patterns, c :: rest => anyAccepts (patterns.flatMap (after c)).eraseDups rest

/-- Whether the pattern matches the whole text. -/
def accepts (p : Pattern) (text : List Char) : Bool := anyAccepts [p] text

end Pattern

end TaggedRecords
