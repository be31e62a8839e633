import TaggedRecords.Query

/-!
# The document store

Collections of documents under ids, kept in the order of the ids. Tombstones are never stored as values of a
mapping: they take out what a write finds.
-/

namespace TaggedRecords

/-- How a write combines new data with the document that is there. -/
inductive WriteMode where
  | replace
  | mergeAll
  | mergePaths (paths : List String)
deriving DecidableEq

/-- The document after a write. -/
def WriteMode.apply (mode : WriteMode) (document data : Document) : Document :=
  match mode with
  | .replace => strippedEntries data
  | .mergeAll => mergeEntries document data
  | .mergePaths paths => paths.foldl (Document.takePath data) document

/-- Collections by name, each with its documents ordered by id. -/
structure Store where
  collections : Entries (Entries Document)

namespace Store

/-- A store without documents. -/
def empty : Store := ⟨[]⟩

/-- The documents of a collection. -/
def documents (store : Store) (collection : String) : Entries Document :=
  (Entries.get? store.collections collection).getD []

/-- How many documents a collection has. -/
def size (store : Store) (collection : String) : Nat := (store.documents collection).length

/-- The document under an id. -/
def document? (store : Store) (collection id : String) : Option Document :=
  Entries.get? (store.documents collection) id

/-- The store with other documents in a collection. -/
def withDocuments (store : Store) (collection : String) (documents : Entries Document) : Store :=
  ⟨Entries.insert store.collections collection documents⟩

/-- Puts a document under an id, whatever stood there. -/
def put (store : Store) (collection id : String) (document : Document) : Store :=
  store.withDocuments collection (Entries.insertByKey (store.documents collection) id document)

/-- Adds a document under an id that must be free. -/
def insert (store : Store) (collection id : String) (data : Document) : Except StoreFault Store :=
  match store.document? collection id with
  | some _ => .error (.alreadyExists collection id)
  | none => .ok (store.put collection id (strippedEntries data))

/-- The document under an id. -/
def get (store : Store) (collection id : String) : Except StoreFault Document :=
  match store.document? collection id with
  | some document => .ok document
  | none => .error (.notFound collection id)

/-- Writes data into a document, which is created if it is not there. -/
def write (store : Store) (collection id : String) (data : Document) (mode : WriteMode) : Store :=
  store.put collection id (mode.apply ((store.document? collection id).getD []) data)

/-- Takes a document out. -/
def delete (store : Store) (collection id : String) : Except StoreFault Store :=
  match store.document? collection id with
  | some _ => .ok (store.withDocuments collection (Entries.erase (store.documents collection) id))
  | none => .error (.notFound collection id)

/-- The documents that a query finds, with their ids. -/
def find (store : Store) (collection : String) (query : Query) : Except StoreFault (List (String × Document)) :=
  query.select (store.documents collection)

/-- How many documents a query finds. -/
def count (store : Store) (collection : String) (query : Query) : Except StoreFault Nat :=
  (store.find collection query).map List.length

end Store

/-! ## Outcomes -/

/-- What an operation comes to and the store that it leaves, also when it fails. -/
structure Outcome (α : Type) where
  result : Except StoreFault α
  store : Store

namespace Outcome

/-- Goes on with the result in the store that was left; a fault ends it there. -/
def andThen {α β : Type} (outcome : Outcome α) (next : α → Store → Outcome β) : Outcome β :=
  match outcome.result with
  | .ok a => next a outcome.store
  | .error fault => ⟨.error fault, outcome.store⟩

/-- The outcome with another form of its result. -/
def map {α β : Type} (form : α → β) (outcome : Outcome α) : Outcome β := ⟨outcome.result.map form, outcome.store⟩

end Outcome

namespace Store

/-- An insertion with its id. It opens the collection before it looks whether the id is free. -/
def insertion (store : Store) (collection id : String) (data : Document) : Outcome String :=
  match store.insert collection id data with
  | .ok after => ⟨.ok id, after⟩
  | .error fault => ⟨.error fault, store.withDocuments collection (store.documents collection)⟩

/-- A write, which never fails. -/
def writing (store : Store) (collection id : String) (data : Document) (mode : WriteMode) : Outcome Unit :=
  ⟨.ok (), store.write collection id data mode⟩

/-- A deletion. -/
def deletion (store : Store) (collection id : String) : Outcome Unit :=
  match store.delete collection id with
  | .ok after => ⟨.ok (), after⟩
  | .error fault => ⟨.error fault, store⟩

/-- An outcome that is only read from the store. -/
def reading {α : Type} (store : Store) (read : Store → Except StoreFault α) : Outcome α := ⟨read store, store⟩

end Store

end TaggedRecords
