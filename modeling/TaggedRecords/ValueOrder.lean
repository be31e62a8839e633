import TaggedRecords.Value

/-!
# The order of stored values

Which of two values comes first in a query: values of comparable kinds by what they are, values of other kinds
by the rank of their kind.
-/

namespace TaggedRecords

/-- Octet strings in the order of a dictionary. -/
def compareOctets : List UInt8 → List UInt8 → Ordering
  | [], [] => .eq
  | [], _ :: _ => .lt
  | _ :: _, [] => .gt
  | a :: as, b :: bs => (compare a.toNat b.toNat).then (compareOctets as bs)

namespace Value

/-- A number of any kind as a floating-point number. -/
def toBinary64? : Value → Option Binary64
  | int i => some (Binary64.ofInt i.toInt)
  | uint u => some (Binary64.ofInt u.toNat)
  | float x => some x
  | _ => none

/-- The order of two values of comparable kinds. Numbers of different kinds are compared as floating-point
numbers. -/
def order? : Value → Value → Option Ordering
  | int a, int b => some (compare a.toInt b.toInt)
  | uint a, uint b => some (compare a.toNat b.toNat)
  | string a, string b => some (compare a b)
  | bool a, bool b => some (compare a b)
  | time a, time b => some (a.order b)
  | bytes a, bytes b => some (compareOctets a b)
  | null, null => some .eq
  | a, b =>
    match a.toBinary64?, b.toBinary64? with
    | some x, some y => x.compare? y
    | _, _ => none

/-- Whether a query takes two values for equal. -/
def equals (a b : Value) : Bool :=
  match order? a b with
  | some order => order == .eq
  | none => a.same b

/-- The rank of a value's kind; kinds of one rank are mixed. -/
def rank : Value → Nat
  | null => 0
  | delete => 0
  | bool _ => 1
  | int _ => 2
  | uint _ => 2
  | float _ => 2
  | time _ => 3
  | string _ => 4
  | bytes _ => 5
  | sequence _ => 6
  | mapping _ => 7
  | record _ _ => 7

/-- The order of any two values. -/
def order (a b : Value) : Ordering := (order? a b).getD (compare a.rank b.rank)

/-- The order of two values that may be missing; a missing one comes first. -/
def orderPresent : Option Value → Option Value → Ordering
  | some a, some b => order a b
  | some _, none => .gt
  | none, some _ => .lt
  | none, none => .eq

/-- The items of a sequence; no other value has any. -/
def items : Value → List Value
  | sequence items => items
  | _ => []

end Value

end TaggedRecords
