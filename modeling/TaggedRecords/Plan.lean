import TaggedRecords.Metadata
import TaggedRecords.WriteBack

/-!
# Plans of a run

A traversal does not act: it plans what to ask for, what to note and what to write. A plan is carried out with
a cache of metadata and, if there is one, a record that takes the writes; what a plan asks for is all that
differs between one way of carrying it out and another.
-/

namespace TaggedRecords

/-- Where a run is: the paths from the root and the way for writes. -/
structure Place where
  path : String
  declaredPath : String
  segments : List Segment
deriving DecidableEq

/-- What a run does, in order. -/
inductive Event where
  /-- A field or element is visited and holds this value. -/
  | reached (place : Place) (value : Value)
  /-- An entry's rule runs on a scope. -/
  | ran (entry : RuleEntry) (scope : Scope)

/-- The steps of a run: it ends, fails, asks for the metadata of a type, notes an event or writes. -/
inductive Plan (α : Type) where
  | done (result : α)
  | fail (fault : Fault)
  | describe (type : RecordType) (next : RecordMetadata → Plan α)
  | note (event : Event) (next : Plan α)
  | write (place : Place) (value : Value) (next : Plan α)

namespace Plan
variable {α β : Type}

/-- One plan behind the other; a failure ends both. -/
protected def bind : Plan α → (α → Plan β) → Plan β
  | done result, follow => follow result
  | fail fault, _ => fail fault
  | describe type next, follow => describe type fun metadata => (next metadata).bind follow
  | note event next, follow => note event (next.bind follow)
  | write place value next, follow => write place value (next.bind follow)

instance : Monad Plan where
  pure := done
  bind := Plan.bind

end Plan

/-! ## Carrying a plan out -/

/-- What a run comes to: its result, the cache it leaves, its events, and the record after the writes if it
took any. -/
structure Run (α : Type) where
  result : Except Fault α
  cache : MetadataCache
  events : List Event
  record : Option TypedRecord

namespace Run
variable {α : Type}

/-- The run with an event in front. -/
def prepend (event : Event) (run : Run α) : Run α := { run with events := event :: run.events }

end Run

/-- Carries a plan out. Without a record the writes are passed over; a write that fails ends the run. -/
def Plan.run {α : Type} (catalog : Catalog) (registry : Registry) :
    Plan α → MetadataCache → Option TypedRecord → Run α
  | .done result, cache, record => ⟨.ok result, cache, [], record⟩
  | .fail fault, cache, record => ⟨.error fault, cache, [], record⟩
  | .describe type next, cache, record =>
    match cache.getOrBuild catalog registry type with
    | (.ok metadata, kept) => (next metadata).run catalog registry kept record
    | (.error fault, kept) => ⟨.error fault, kept, [], record⟩
  | .note event next, cache, record => (next.run catalog registry cache record).prepend event
  | .write _ _ next, cache, none => next.run catalog registry cache none
  | .write place value next, cache, some record =>
    let written := record.writeAt catalog place.segments value
    match written.fault with
    | none => next.run catalog registry cache (some written.content)
    | some cause => ⟨.error (.writeBack place.path cause), cache, [], some written.content⟩

end TaggedRecords
