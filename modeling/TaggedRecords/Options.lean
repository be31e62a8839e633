import TaggedRecords.Entries
import TaggedRecords.Method

/-!
# What the caller hands to a run

The context and the transaction that rules may look at, and the options of one validation run.
-/

namespace TaggedRecords

/-- A value that the caller puts into a context. -/
inductive ContextValue where
  | text (value : String)
  | integer (value : Int)
deriving DecidableEq

/-- Values for the rules, and whether the caller has given the run up. The traversal itself never looks. -/
structure Context where
  values : Entries ContextValue := []
  cancelled : Bool := false

namespace Context

/-- Puts a value under a key in place of the old one. -/
def insert (context : Context) (key : String) (value : ContextValue) : Context :=
  { context with values := Entries.insert context.values key value }

/-- Whether there is a value of either kind. -/
def contains (context : Context) (key : String) : Bool := Entries.contains context.values key

/-- The value under a key if it is text. -/
def text? (context : Context) (key : String) : Option String :=
  match Entries.get? context.values key with
  | some (.text value) => some value
  | _ => none

/-- The value under a key if it is an integer. -/
def integer? (context : Context) (key : String) : Option Int :=
  match Entries.get? context.values key with
  | some (.integer value) => some value
  | _ => none

end Context

/-- What rules see of the caller's transaction: the names it holds. -/
structure Transaction where
  names : List String
deriving DecidableEq

/-- The options of one run. -/
structure Options where
  /-- The operation that the run is for. -/
  method : Method := .validate
  /-- Runs no rule at all. -/
  skipAll : Bool := false
  /-- Paths at and below which no rule runs. -/
  skipPaths : List String := []
  /-- Paths whose zero values are never left out. -/
  emptyPaths : List String := []
  /-- Writes transformed values back into the record. -/
  writesBack : Bool := false
  /-- Emits a tombstone for a field that is left out. -/
  tombstones : Bool := false
  /-- The caller's transaction, for the rules. -/
  transaction : Option Transaction := none

namespace Options

/-- Whether rules run at a path, as far as the path itself decides. -/
def validates (options : Options) (path : String) : Bool :=
  !options.skipAll && !options.skipPaths.contains path

/-- Whether a zero value at a path is emitted all the same. -/
def allowsEmpty (options : Options) (path : String) : Bool := options.emptyPaths.contains path

end Options

end TaggedRecords
