import Mathlib.Data.String.Basic
import TaggedRecords.Proofs.StoreLaws

/-!
# Reachable stores

The stores that insertions, writes and deletions lead to from the empty one. In all of them the documents of a
collection stand in the order of their ids, so that no id stands twice.
-/

namespace TaggedRecords

namespace Entries
variable {α : Type} {entries : Entries α}

/-- The keys stand in ascending order. -/
def Ordered (entries : Entries α) : Prop := (keys entries).Pairwise fun key other => key < other

theorem Ordered.distinct (ordered : Ordered entries) : Distinct entries :=
  List.Pairwise.imp ne_of_lt ordered

theorem mem_keys_insertByKey {key other : String} {a : α} (member : other ∈ keys (insertByKey entries key a)) :
    other = key ∨ other ∈ keys entries := by
  by_cases same : key = other
  · exact .inl same.symm
  · right
    by_contra absent
    have gone : get? (insertByKey entries key a) other = none := by
      rw [get?_insertByKey, if_neg same, get?_eq_none_iff.mpr absent]
    exact get?_eq_none_iff.mp gone member

theorem ordered_insertByKey (ordered : Ordered entries) (key : String) (a : α) :
    Ordered (insertByKey entries key a) := by
  induction entries with
  | nil => exact List.pairwise_singleton _ _
  | cons head rest ih =>
    obtain ⟨k, b⟩ := head
    obtain ⟨first, below⟩ := List.pairwise_cons.mp (show (k :: keys rest).Pairwise (· < ·) from ordered)
    rw [insertByKey]
    split
    · next before =>
      refine List.pairwise_cons.mpr ⟨fun other member => ?_, ordered⟩
      rcases List.mem_cons.mp member with rfl | later
      · exact before
      · exact lt_trans before (first other later)
    · next notBefore =>
      split
      · next same =>
        subst same
        exact ordered
      · next differ =>
        refine List.pairwise_cons.mpr ⟨fun other member => ?_, ih below⟩
        rcases mem_keys_insertByKey member with rfl | later
        · exact lt_of_le_of_ne (le_of_not_gt notBefore) (Ne.symm differ)
        · exact first other later

theorem ordered_erase (ordered : Ordered entries) (key : String) : Ordered (erase entries key) := by
  rw [erase_eq_filter]
  exact List.Pairwise.sublist (List.filter_sublist.map Prod.fst) ordered

end Entries

namespace Store
variable {store after : Store}

/-- The store comes of the empty one by insertions, writes and deletions. -/
inductive Reachable : Store → Prop where
  | empty : Reachable .empty
  | insert {store after : Store} {collection id : String} {data : Document} (before : Reachable store)
      (inserted : store.insert collection id data = .ok after) : Reachable after
  | write {store : Store} (before : Reachable store) (collection id : String) (data : Document) (mode : WriteMode) :
      Reachable (store.write collection id data mode)
  | delete {store after : Store} {collection id : String} (before : Reachable store)
      (deleted : store.delete collection id = .ok after) : Reachable after

theorem documents_withDocuments (store : Store) (collection name : String) (documents : Entries Document) :
    (store.withDocuments collection documents).documents name =
      if collection = name then documents else store.documents name := by
  rw [Store.documents, withDocuments, Entries.get?_insert]
  split <;> rfl

theorem insert_ok {collection id : String} {data : Document} (inserted : store.insert collection id data = .ok after) :
    after = store.put collection id (strippedEntries data) := by
  unfold insert at inserted
  split at inserted
  · cases inserted
  · cases inserted
    rfl

theorem delete_ok {collection id : String} (deleted : store.delete collection id = .ok after) :
    after = store.withDocuments collection (Entries.erase (store.documents collection) id) := by
  unfold delete at deleted
  split at deleted
  · cases deleted
    rfl
  · cases deleted

theorem ordered_put (ordered : ∀ name, Entries.Ordered (store.documents name)) (collection id : String)
    (document : Document) (name : String) : Entries.Ordered ((store.put collection id document).documents name) := by
  rw [put, documents_withDocuments]
  split
  · exact Entries.ordered_insertByKey (ordered collection) id document
  · exact ordered name

/-- The documents of a collection stand in the order of their ids. -/
theorem Reachable.ordered (reachable : store.Reachable) (name : String) : Entries.Ordered (store.documents name) := by
  induction reachable generalizing name with
  | empty => exact List.Pairwise.nil
  | insert _ inserted ih =>
    rw [insert_ok inserted]
    exact ordered_put ih _ _ _ name
  | write _ collection id data mode ih => exact ordered_put ih collection id _ name
  | delete _ deleted ih =>
    rw [delete_ok deleted, documents_withDocuments]
    split
    · exact Entries.ordered_erase (ih _) _
    · exact ih name

/-- No id stands twice in a collection. -/
theorem Reachable.distinct (reachable : store.Reachable) (name : String) : Entries.Distinct (store.documents name) :=
  (reachable.ordered name).distinct

end Store

end TaggedRecords
