import TaggedRecords.Engine
import TaggedRecords.Store

/-!
# Collections of records

Records of one type stored as documents of one collection. Every write validates first, so nothing reaches the
store when validation fails.
-/

namespace TaggedRecords

/-- A collection of the store and the engine that its records pass. -/
structure Collection where
  name : String
  engine : Engine

/-- The outcome of an operation on a collection, with the cache that it leaves and the events of its validation. -/
structure Operation (α : Type) extends Outcome α where
  cache : MetadataCache
  events : List Event

/-- The outcome of an operation that validates nothing. -/
def Outcome.unvalidated {α : Type} (outcome : Outcome α) (cache : MetadataCache) : Operation α := ⟨outcome, cache, []⟩

/-- The operation with another form of its result. -/
def Operation.map {α β : Type} (form : α → β) (operation : Operation α) : Operation β :=
  ⟨operation.toOutcome.map form, operation.cache, operation.events⟩

namespace Collection

/-- The options of a creation, whatever method the caller set. -/
def createOptions (options : Options) : Options := { options with method := .create }

/-- The options of an update; with merge paths, fields left out become tombstones. -/
def updateOptions (options : Options) (mergePaths : List String) : Options :=
  { options with method := .update, tombstones := options.tombstones || !mergePaths.isEmpty }

/-- How an update writes: into everything, or into the merge paths alone. -/
def updateMode (mergePaths : List String) : WriteMode :=
  if mergePaths.isEmpty then .mergeAll else .mergePaths mergePaths

/-- An operation that validates a record and goes on with its document. -/
def validated {α : Type} (collection : Collection) (store : Store) (cache : MetadataCache) (context : Context)
    (options : Options) (record : TypedRecord) (next : Document → Outcome α) : Operation α :=
  let run := collection.engine.validate cache context options record
  match run.result with
  | .error fault => ⟨⟨.error (.validation fault), store⟩, run.cache, run.events⟩
  | .ok document => ⟨next document, run.cache, run.events⟩

/-- Validates a record for creation and inserts its document under an id. -/
def create (collection : Collection) (store : Store) (cache : MetadataCache) (context : Context)
    (options : Options) (record : TypedRecord) (id : String) : Operation String :=
  collection.validated store cache context (createOptions options) record fun document =>
    store.insertion collection.name id document

/-- Writes one document into each target, in order, up to the first write that fails. -/
def writeEach (name : String) (document : Document) (mode : WriteMode) : Store → List (String × Document) → Outcome Unit
  | store, [] => ⟨.ok (), store⟩
  | store, target :: rest =>
    (store.writing name target.1 document mode).andThen fun _ after => writeEach name document mode after rest

/-- Validates a record for update and writes its document into each document that the query finds; how many. -/
def update (collection : Collection) (store : Store) (cache : MetadataCache) (context : Context)
    (query : Query) (options : Options) (mergePaths : List String) (record : TypedRecord) : Operation Nat :=
  collection.validated store cache context (updateOptions options mergePaths) record fun document =>
    (store.reading fun store => store.find collection.name query).andThen fun targets store =>
      (writeEach collection.name document (updateMode mergePaths) store targets).map fun _ => targets.length

/-- Validates a record for update and writes its document under an id, which need not be there. -/
def updateById (collection : Collection) (store : Store) (cache : MetadataCache) (context : Context)
    (id : String) (options : Options) (mergePaths : List String) (record : TypedRecord) : Operation Unit :=
  collection.validated store cache context (updateOptions options mergePaths) record fun document =>
    store.writing collection.name id document (updateMode mergePaths)

/-- The documents that a query finds. -/
def find (collection : Collection) (store : Store) (query : Query) : Outcome (List (String × Document)) :=
  store.reading fun store => store.find collection.name query

/-- The document under an id. -/
def findById (collection : Collection) (store : Store) (id : String) : Outcome Document :=
  store.reading fun store => store.get collection.name id

/-- Takes documents out one by one, up to the first that is not there. -/
def deleteEach (name : String) : Store → List (String × Document) → Outcome Unit
  | store, [] => ⟨.ok (), store⟩
  | store, target :: rest => (store.deletion name target.1).andThen fun _ after => deleteEach name after rest

/-- Takes out each document that the query finds; how many. -/
def delete (collection : Collection) (store : Store) (query : Query) : Outcome Nat :=
  (store.reading fun store => store.find collection.name query).andThen fun targets store =>
    (deleteEach collection.name store targets).map fun _ => targets.length

/-- Takes out the document under an id. -/
def deleteById (collection : Collection) (store : Store) (id : String) : Outcome Unit :=
  store.deletion collection.name id

/-- How many documents a query finds. -/
def count (collection : Collection) (store : Store) (query : Query) : Outcome Nat :=
  store.reading fun store => store.count collection.name query

/-! ## Requests -/

/-- What can be asked of a collection. -/
inductive Request where
  | create (context : Context) (options : Options) (record : TypedRecord) (id : String)
  | update (context : Context) (query : Query) (options : Options) (mergePaths : List String) (record : TypedRecord)
  | updateById (context : Context) (id : String) (options : Options) (mergePaths : List String) (record : TypedRecord)
  | find (query : Query)
  | findById (id : String)
  | delete (query : Query)
  | deleteById (id : String)
  | count (query : Query)

/-- What a collection answers. -/
inductive Answer where
  | created (id : String)
  | counted (count : Nat)
  | found (documents : List (String × Document))
  | done

/-- Carries a request out. -/
def perform (collection : Collection) (store : Store) (cache : MetadataCache) : Request → Operation Answer
  | .create context options record id => (collection.create store cache context options record id).map .created
  | .update context query options mergePaths record =>
    (collection.update store cache context query options mergePaths record).map .counted
  | .updateById context id options mergePaths record =>
    (collection.updateById store cache context id options mergePaths record).map fun _ => .done
  | .find query => ((collection.find store query).map .found).unvalidated cache
  | .findById id => ((collection.findById store id).map fun document => .found [(id, document)]).unvalidated cache
  | .delete query => ((collection.delete store query).map .counted).unvalidated cache
  | .deleteById id => ((collection.deleteById store id).map fun _ => .done).unvalidated cache
  | .count query => ((collection.count store query).map .counted).unvalidated cache

end Collection

end TaggedRecords
