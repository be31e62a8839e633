import TaggedRecords.JsonScan

/-!
# Settings of an engine

The settings, and reading them from a JSON text: an object, whose other members are ignored, or an array with
the settings in order.
-/

namespace TaggedRecords

/-- The settings of an engine. -/
structure Settings where
  /-- How many levels below the root nested records are entered. -/
  maxDepth : Nat := 32
deriving DecidableEq

namespace Settings
open JsonScan

/-- The settings as a JSON text. -/
def text (settings : Settings) : String := "\x7b\"max_depth\":" ++ toString settings.maxDepth ++ "\x7d"

/-- The fault of a value that is not of the wanted form: scalars are looked at before they are refused. -/
def refuse : List Char → JsonFault
  | [] => .unfinished
  | c :: rest =>
    let verdict : Except JsonFault (List Char) :=
      if c = 'n' then skipWord ['u', 'l', 'l'] rest
      else if c = 't' then skipWord ['r', 'u', 'e'] rest
      else if c = 'f' then skipWord ['a', 'l', 's', 'e'] rest
      else if c = '-' then (scanNumber rest).map Prod.snd
      else if c.isDigit then (scanNumber (c :: rest)).map Prod.snd
      else if c = '"' then (scanString rest).map Prod.snd
      else if c = '[' ∨ c = '\x7b' then .ok rest
      else .error .malformed
    match verdict with
    | .ok _ => .mismatched
    | .error fault => fault

/-- An unsigned integer of 64 bits. -/
def scanSize : Scanner Nat := fun text =>
  match skipBlanks text with
  | [] => .error .unfinished
  | c :: rest =>
    if c.isDigit then do
      let (number, rest) ← scanNumber (c :: rest)
      match number with
      | some n => return (n, rest)
      | none => throw .mismatched
    else .error (refuse (c :: rest))

/-- The members of an object behind its opening brace, `first` before the first of them; the value of the
setting if it was met. Every step takes a character. -/
def scanMembers : Nat → Bool → Option Nat → Scanner (Option Nat)
  | 0, _, _, _ => .error .unfinished
  | fuel + 1, first, found, text =>
    match skipBlanks text with
    | [] => .error .unfinished
    | c :: rest =>
      if c = '\x7d' then .ok (found, rest)
      else do
        let behindComma ←
          if first then pure (c :: rest) else if c = ',' then pure (skipBlanks rest) else throw .malformed
        match behindComma with
        | [] => throw .unfinished
        | '"' :: rest =>
          let (key, rest) ← scanString rest
          if key = "max_depth" ∧ found.isSome then throw .mismatched
          match skipBlanks rest with
          | [] => throw .unfinished
          | ':' :: rest =>
            if key = "max_depth" then
              let (n, rest) ← scanSize rest
              scanMembers fuel false (some n) rest
            else
              let rest ← skipValue rest
              scanMembers fuel false found rest
          | _ :: _ => throw .malformed
        | _ :: _ => throw .malformed

/-- The elements of an array behind its opening bracket: the setting or nothing. -/
def scanElements : Scanner (Option Nat) := fun text =>
  match skipBlanks text with
  | [] => .error .unfinished
  | ']' :: rest => .ok (none, rest)
  | text => do
    let (n, rest) ← scanSize text
    match skipBlanks rest with
    | ']' :: rest => return (some n, rest)
    | [] => throw .unfinished
    | _ :: _ => throw .malformed

/-- Reads settings; one that is not given has its default. -/
def ofText (text : String) : Except JsonFault Settings := do
  let (found, rest) ← match skipBlanks text.toList with
    | '[' :: rest => scanElements rest
    | '\x7b' :: rest => scanMembers (rest.length + 1) true none rest
    | other => throw (refuse other)
  if !(skipBlanks rest).isEmpty then throw .malformed
  return { maxDepth := found.getD ({} : Settings).maxDepth }

end Settings

end TaggedRecords
