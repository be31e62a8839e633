import TaggedRecords.Proofs.DeepMerge
import TaggedRecords.Proofs.FailedOperations

/-!
# Clean documents

A document is clean if its nested mappings hold no tombstone. New data is stripped of them, a merge of all data
erases what they stand for, and a path is set to a stripped value or removed, so whatever is done to a store its
documents are clean.
-/

namespace TaggedRecords

/-! ## Clean values -/

/-- Through nested mappings alone, the value leads to the part. -/
inductive Value.Nests : Value → Value → Prop where
  | here (value : Value) : Nests value value
  | inside {entries : List (String × Value)} {key : String} {value part : Value} (member : (key, value) ∈ entries)
      (nests : Nests value part) : Nests (.mapping entries) part

/-- No tombstone stands in the nested mappings of the value, nor is it one. -/
def Value.Clean (value : Value) : Prop := ¬ value.Nests .delete

/-- No tombstone stands in the nested mappings of the document. -/
def Document.Clean (document : Document) : Prop := ∀ entry ∈ document, entry.2.Clean

theorem Value.clean_mapping_iff {entries : List (String × Value)} :
    (Value.mapping entries).Clean ↔ Document.Clean entries := by
  constructor
  · intro clean entry member nests
    exact clean (.inside member nests)
  · intro clean nests
    cases nests with
    | inside member nests => exact clean _ member nests

/-- What is no mapping leads nowhere. -/
theorem Value.clean_of_leaf {value : Value} (leaf : ∀ entries, value ≠ .mapping entries) (solid : value ≠ .delete) :
    value.Clean := by
  intro nests
  cases nests with
  | here => exact solid rfl
  | inside _ _ => exact leaf _ rfl

/-! ## What a write puts into a document -/

namespace Document
variable {document : Document}

theorem Clean.insert (clean : document.Clean) (key : String) {value : Value} (new : value.Clean) :
    Clean (Entries.insert document key value) := by
  intro entry member
  rcases Entries.mem_of_mem_insert member with rfl | old
  · exact new
  · exact clean entry old

theorem Clean.erase (clean : document.Clean) (key : String) : Clean (Entries.erase document key) := by
  rw [Entries.erase_eq_filter]
  exact fun entry member => clean entry (List.mem_of_mem_filter member)

theorem Clean.of_get? (clean : document.Clean) {key : String} {value : Value}
    (held : Entries.get? document key = some value) : value.Clean :=
  clean (key, value) (Entries.mem_of_get? held)

theorem Clean.innerEntries (clean : document.Clean) (key : String) : Clean (Document.innerEntries document key) := by
  unfold Document.innerEntries
  split
  · next entries held => exact Value.clean_mapping_iff.mp (clean.of_get? held)
  · exact List.forall_mem_nil _

end Document

/-! ## Stripping -/

mutual

theorem Value.clean_stripped : ∀ {value : Value}, value ≠ .delete → value.stripped.Clean
  | .mapping entries, _ => Value.clean_mapping_iff.mpr (clean_strippedEntries entries)
  | .null, solid | .bool _, solid | .int _, solid | .uint _, solid | .float _, solid | .string _, solid
  | .bytes _, solid | .time _, solid | .sequence _, solid | .record _ _, solid | .delete, solid =>
    Value.clean_of_leaf nofun solid

theorem clean_strippedEntries : ∀ entries : List (String × Value), Document.Clean (strippedEntries entries)
  | [] => List.forall_mem_nil _
  | (key, value) :: rest => by
    rw [strippedEntries]
    split
    · exact clean_strippedEntries rest
    · next stays =>
      have solid : value ≠ .delete := fun gone => stays (Value.isDelete_iff.mpr gone)
      exact List.forall_mem_cons.mpr ⟨Value.clean_stripped solid, clean_strippedEntries rest⟩

end

/-! ## Merging -/

mutual

/-- Merging any data keeps a document clean. -/
theorem clean_mergeEntries : ∀ (data : List (String × Value)) {document : Document}, document.Clean →
    Document.Clean (mergeEntries document data)
  | [], _, clean => clean
  | (key, value) :: rest, _, clean => clean_mergeEntries rest (clean_mergeValue key value clean)

theorem clean_mergeValue (key : String) : ∀ (value : Value) {document : Document}, document.Clean →
    Document.Clean (mergeValue document key value)
  | .delete, _, clean => clean.erase key
  | .mapping entries, document, clean => by
    rw [mergeValue]
    split
    · next current held =>
      have inner : Document.Clean current := Value.clean_mapping_iff.mp (clean.of_get? held)
      exact clean.insert key (Value.clean_mapping_iff.mpr (clean_mergeEntries entries inner))
    · exact clean.insert key (Value.clean_mapping_iff.mpr (clean_strippedEntries entries))
    · have fresh : Document.Clean (mergeEntries [] entries) := clean_mergeEntries entries (List.forall_mem_nil _)
      exact clean.insert key (Value.clean_mapping_iff.mpr fresh)
  | .null, _, clean | .bool _, _, clean | .int _, _, clean | .uint _, _, clean | .float _, _, clean
  | .string _, _, clean | .bytes _, _, clean | .time _, _, clean | .sequence _, _, clean | .record _ _, _, clean =>
    clean.insert key (Value.clean_of_leaf nofun nofun)

end

namespace Document
variable {document : Document}

theorem Clean.setAt (clean : document.Clean) (keys : List String) {value : Value} (solid : value ≠ .delete) :
    Clean (setAt document keys value) := by
  induction keys generalizing document with
  | nil => exact clean
  | cons key rest ih =>
    cases rest with
    | nil => exact clean.insert key (Value.clean_stripped solid)
    | cons next more =>
      rw [setAt_cons document key (List.cons_ne_nil next more)]
      exact clean.insert key (Value.clean_mapping_iff.mpr (ih (clean.innerEntries key)))

theorem Clean.removeAt (clean : document.Clean) (keys : List String) : Clean (removeAt document keys) := by
  induction keys generalizing document with
  | nil => exact clean
  | cons key rest ih =>
    cases rest with
    | nil => exact clean.erase key
    | cons next more =>
      rcases removeAt_cons_cases document key (List.cons_ne_nil next more) with ⟨inner, held, eq⟩ | ⟨eq, _⟩
      · rw [eq]
        have below : Clean inner := Value.clean_mapping_iff.mp (clean.of_get? held)
        exact clean.insert key (Value.clean_mapping_iff.mpr (ih below))
      · rw [eq]
        exact clean

theorem Clean.takePath (clean : document.Clean) (data : Document) (path : String) :
    Clean (Document.takePath data document path) := by
  unfold Document.takePath
  split
  · exact clean.removeAt _
  · next value solid _ => exact clean.setAt _ solid
  · exact clean.removeAt _

theorem Clean.takePaths (clean : document.Clean) (data : Document) (paths : List String) :
    Clean (paths.foldl (Document.takePath data) document) := by
  induction paths generalizing document with
  | nil => exact clean
  | cons path rest ih => exact ih (clean.takePath data path)

end Document

/-- Every way of writing leaves a clean document clean, whatever the data. -/
theorem WriteMode.clean_apply (mode : WriteMode) {document : Document} (clean : document.Clean) (data : Document) :
    Document.Clean (mode.apply document data) := by
  cases mode with
  | replace => exact clean_strippedEntries data
  | mergeAll => exact clean_mergeEntries data clean
  | mergePaths paths => exact clean.takePaths data paths

/-! ## Stores -/

namespace Store
variable {store : Store}

/-- A change that a store is asked for. -/
inductive Change where
  | insert (collection id : String) (data : Document)
  | write (collection id : String) (data : Document) (mode : WriteMode)
  | delete (collection id : String)

/-- The store that a change leaves, be it carried out or refused. -/
def change (store : Store) : Change → Store
  | .insert collection id data => (store.insertion collection id data).store
  | .write collection id data mode => (store.writing collection id data mode).store
  | .delete collection id => (store.deletion collection id).store

theorem reachable_changes (changes : List Change) (reachable : store.Reachable) :
    (changes.foldl change store).Reachable := by
  induction changes generalizing store with
  | nil => exact reachable
  | cons first rest ih =>
    refine ih ?_
    cases first with
    | insert collection id data => exact reachable_insertion reachable collection id data
    | write collection id data mode => exact reachable.write collection id data mode
    | delete collection id => exact reachable_deletion reachable collection id

/-- Every document of the store is clean. -/
def Clean (store : Store) : Prop := ∀ collection, ∀ stored ∈ store.documents collection, Document.Clean stored.2

theorem Clean.content (clean : store.Clean) (collection id : String) : (store.content collection id).Clean := by
  unfold Store.content
  cases held : store.document? collection id with
  | none => exact List.forall_mem_nil _
  | some document => exact clean collection (id, document) (Entries.mem_of_get? held)

theorem Clean.put (clean : store.Clean) (collection id : String) {document : Document} (new : document.Clean) :
    (store.put collection id document).Clean := by
  intro name stored member
  rw [Store.put, documents_withDocuments] at member
  split at member
  · rcases Entries.mem_of_mem_insertByKey member with rfl | old
    · exact new
    · exact clean collection stored old
  · exact clean name stored member

/-- In a reachable store all documents are clean. -/
theorem Reachable.clean (reachable : store.Reachable) : store.Clean := by
  induction reachable with
  | empty => exact fun _ => List.forall_mem_nil _
  | insert _ inserted ih =>
    rw [insert_ok inserted]
    exact ih.put _ _ (clean_strippedEntries _)
  | write _ collection id data mode ih => exact ih.put collection id (mode.clean_apply (ih.content collection id) data)
  | @delete store after collection id _ deleted ih =>
    intro name stored member
    rw [delete_ok deleted, documents_withDocuments] at member
    split at member
    · rw [Entries.erase_eq_filter] at member
      exact ih collection stored (List.mem_of_mem_filter member)
    · exact ih name stored member

/-- However an empty store was changed, no document in it leads through nested mappings to a tombstone. -/
theorem changed_documents_clean (changes : List Change) (collection : String) :
    ∀ stored ∈ (changes.foldl change empty).documents collection, ¬ (Value.mapping stored.2).Nests .delete := by
  intro stored member
  have reachable : (changes.foldl change empty).Reachable := reachable_changes changes .empty
  exact Value.clean_mapping_iff.mpr (reachable.clean collection stored member)

/-- Changes to one document that bring tombstones in by every way of writing, and one that is refused. -/
def unsettled : List Change := [
  .insert "users" "ada" [("name", .string "Ada"), ("age", .int 36),
    ("home", .mapping [("city", .string "Bath"), ("street", .delete)])],
  .write "users" "ada" [("age", .mapping [("years", .int 36), ("months", .delete)]),
    ("home", .mapping [("city", .delete), ("past", .mapping [("city", .delete)])])] .mergeAll,
  .write "users" "ada" [("name", .mapping [("first", .string "Ada"), ("last", .delete)])]
    (.mergePaths ["name", "home.past"]),
  .delete "users" "bob"]

/-- The document that they leave. -/
def settled : Document :=
  [("name", .mapping [("first", .string "Ada")]), ("age", .mapping [("years", .int 36)]), ("home", .mapping [])]

theorem unsettled_documents_clean : ("ada", settled) ∈ (unsettled.foldl change empty).documents "users" ∧
    ¬ (Value.mapping settled).Nests .delete := by
  have stored : (unsettled.foldl change empty).documents "users" = [("ada", settled)] := by rfl
  have member : ("ada", settled) ∈ (unsettled.foldl change empty).documents "users" := by
    rw [stored]
    exact List.mem_singleton_self _
  exact ⟨member, changed_documents_clean unsettled "users" _ member⟩

end Store

end TaggedRecords
