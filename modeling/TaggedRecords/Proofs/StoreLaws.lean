import TaggedRecords.Proofs.DistinctKeys
import TaggedRecords.Store

/-!
# What a store holds after a write

Under its id a write leaves what its mode makes of the old content and the data; an insertion and a write that
replaces leave the data without its tombstones.
-/

namespace TaggedRecords.Store

/-- The document under an id, empty if there is none. -/
def content (store : Store) (collection id : String) : Document := (store.document? collection id).getD []

theorem document?_put (store : Store) (collection id : String) (document : Document) :
    (store.put collection id document).document? collection id = some document := by
  simp [put, withDocuments, document?, documents, Entries.get?_insert, Entries.get?_insertByKey]

/-- A write leaves under its id what its mode makes of the old content and the data. -/
theorem document?_write (store : Store) (collection id : String) (data : Document) (mode : WriteMode) :
    (store.write collection id data mode).document? collection id =
      some (mode.apply (store.content collection id) data) :=
  document?_put store collection id _

theorem content_write (store : Store) (collection id : String) (data : Document) (mode : WriteMode) :
    (store.write collection id data mode).content collection id = mode.apply (store.content collection id) data := by
  simp [content, document?_write]

/-- The data is stored as this document, whether it is inserted under the id or replaces what is there. -/
def Keeps (store : Store) (collection id : String) (data kept : Document) : Prop :=
  (store.write collection id data .replace).document? collection id = some kept ∧
    ∀ after, store.insert collection id data = .ok after → after.document? collection id = some kept

/-- What is stored of new data is the data without its tombstones. -/
theorem keeps_iff {store : Store} {collection id : String} {data kept : Document} :
    store.Keeps collection id data kept ↔ kept = strippedEntries data := by
  constructor
  · rintro ⟨written, _⟩
    rw [document?_write] at written
    exact (Option.some.inj written).symm
  · rintro rfl
    refine ⟨document?_write store collection id data .replace, fun after inserted => ?_⟩
    unfold insert at inserted
    split at inserted
    · cases inserted
    · cases inserted
      exact document?_put store collection id _

end TaggedRecords.Store
