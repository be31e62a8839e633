import Mathlib.Data.List.DropRight
import TaggedRecords.Proofs.BlurredNumbers
import TaggedRecords.Proofs.ReachableStores

/-!
# What a query finds

A query finds each document that it asks for once, in the order that it asks for, and its offset and limits keep a
window of them. Windows of one size that follow each other make up the whole. Without cursors it always finds something
unless it asks for many documents that its order does not compare consistently.
-/

namespace TaggedRecords

/-! ## Sorting -/

section
variable {α : Type} {order : α → α → Ordering}

theorem insertLast_perm (item : α) (sorted : List α) : (insertLast order item sorted).Perm (item :: sorted) := by
  induction sorted with
  | nil => exact List.Perm.refl _
  | cons last rest ih =>
    rw [insertLast]
    split
    · exact (ih.cons last).trans (List.Perm.swap item last rest)
    · exact List.Perm.refl _

/-- Inserting an item leaves together with what is still to come the same items. -/
theorem insertLast_append_perm (item : α) (sorted rest : List α) :
    (insertLast order item sorted ++ rest).Perm (sorted ++ item :: rest) :=
  ((insertLast_perm item sorted).append_right rest).trans List.perm_middle.symm

theorem foldl_insertLast_perm (items sorted : List α) :
    (items.foldl (fun sorted item => insertLast order item sorted) sorted).Perm (sorted ++ items) := by
  induction items generalizing sorted with
  | nil => rw [List.foldl_nil, List.append_nil]
  | cons item rest ih => exact (ih _).trans (insertLast_append_perm item sorted rest)

/-- Sorting only rearranges the items. -/
theorem sortByInsertion_perm (items : List α) : (sortByInsertion order items).Perm items :=
  (List.reverse_perm _).trans (foldl_insertLast_perm items [])

variable {Before : α → α → Prop}

/-- An item finds its place among items that stand in descending order. -/
theorem insertLast_descends (trans : ∀ a b c, Before a b → Before b c → Before a c) {item : α} {sorted : List α}
    (decides : ∀ other ∈ sorted, order item other = .lt ↔ Before item other)
    (related : ∀ other ∈ sorted, Before item other ∨ Before other item)
    (descends : sorted.Pairwise fun later earlier => Before earlier later) :
    (insertLast order item sorted).Pairwise fun later earlier => Before earlier later := by
  induction sorted with
  | nil => exact List.pairwise_singleton _ _
  | cons last rest ih =>
    obtain ⟨below, restDescends⟩ := List.pairwise_cons.mp descends
    rw [insertLast]
    split
    · next less =>
      have before : Before item last := (decides last List.mem_cons_self).mp less
      refine List.pairwise_cons.mpr ⟨fun other member => ?_, ?_⟩
      · rcases List.mem_cons.mp ((insertLast_perm item rest).mem_iff.mp member) with rfl | inside
        · exact before
        · exact below other inside
      · exact ih (fun other inside => decides other (List.mem_cons_of_mem _ inside))
          (fun other inside => related other (List.mem_cons_of_mem _ inside)) restDescends
    · next notLess =>
      have behind : Before last item := by
        rcases related last List.mem_cons_self with before | behind
        · exact absurd ((decides last List.mem_cons_self).mpr before) notLess
        · exact behind
      refine List.pairwise_cons.mpr ⟨fun other member => ?_, descends⟩
      rcases List.mem_cons.mp member with rfl | inside
      · exact behind
      · exact trans other last item (below other inside) behind

/-- What has been sorted so far stays in descending order, if the comparison decides a transitive relation that holds one
way or the other between any two items, sorted or still to come. -/
theorem foldl_insertLast_descends (trans : ∀ a b c, Before a b → Before b c → Before a c) {items sorted : List α}
    (decides : ∀ a ∈ sorted ++ items, ∀ b ∈ sorted ++ items, order a b = .lt ↔ Before a b)
    (related : (sorted ++ items).Pairwise fun a b => Before a b ∨ Before b a)
    (descends : sorted.Pairwise fun later earlier => Before earlier later) :
    (items.foldl (fun sorted item => insertLast order item sorted) sorted).Pairwise
      fun later earlier => Before earlier later := by
  induction items generalizing sorted with
  | nil => exact descends
  | cons item rest ih =>
    have moved : (insertLast order item sorted ++ rest).Perm (sorted ++ item :: rest) :=
      insertLast_append_perm item sorted rest
    have here : item ∈ sorted ++ item :: rest := List.mem_append_right _ List.mem_cons_self
    refine ih ?_ ?_ ?_
    · exact fun a inside b alsoInside => decides a (moved.mem_iff.mp inside) b (moved.mem_iff.mp alsoInside)
    · exact (moved.pairwise_iff fun either => either.symm).mpr related
    · refine insertLast_descends trans (fun other inside => ?_) (fun other inside => ?_) descends
      · exact decides item here other (List.mem_append_left _ inside)
      · exact ((List.pairwise_append.mp related).2.2 other inside item List.mem_cons_self).symm

/-- Sorting has a result exactly for few items and for those that the comparison compares consistently. -/
theorem sortItems?_eq_some_iff {items sorted : List α} : sortItems? order items = some sorted ↔
    (items.length ≤ insertionLimit ∨ Consistent order (· ∈ items)) ∧ sortByInsertion order items = sorted := by
  rw [sortItems?, Option.ite_none_right_eq_some, Bool.or_eq_true, decide_eq_true_iff, isTotalOn_iff, Option.some.injEq]

/-- Items are sorted by a relation that the comparison decides. -/
theorem sortByInsertion_pairwise (trans : ∀ a b c, Before a b → Before b c → Before a c) {items : List α}
    (decides : ∀ a ∈ items, ∀ b ∈ items, order a b = .lt ↔ Before a b)
    (related : items.Pairwise fun a b => Before a b ∨ Before b a) : (sortByInsertion order items).Pairwise Before := by
  have nothing : ([] : List α).Pairwise fun later earlier => Before earlier later := List.Pairwise.nil
  exact List.pairwise_reverse.mpr (foldl_insertLast_descends trans decides related nothing)

end

/-! ## Matching -/

namespace Query

/-- The query asks for the document: its id is listed, if any is; at the path of each filter it has a value of which the
filter holds; and it has a value at the path of each order clause. -/
structure Asks (query : Query) (stored : String × Document) : Prop where
  listed : query.ids = [] ∨ stored.1 ∈ query.ids
  fulfilled : ∀ filter ∈ query.filters, ∃ value, Document.lookup? stored.2 filter.path = some value ∧
    filter.FulfilledBy value
  ordered : ∀ clause ∈ query.ordering, ∃ value, Document.lookup? stored.2 clause.path = some value

/-- At the path of each order clause the numbers in the documents that the query asks for are of one kind and no NaN. -/
def Sortable (query : Query) (documents : List (String × Document)) : Prop :=
  ∀ clause ∈ query.ordering, ∃ kind, ∀ stored ∈ documents, query.Asks stored → clause.RegularAt kind stored.2

/-- It is settled how what the query asks for is sorted: there are few such documents, or the order of the query
compares them consistently. -/
def Settled (query : Query) (documents : List (String × Document)) : Prop :=
  (documents.filter query.matches).length ≤ insertionLimit ∨
    Consistent (orderStored query.ordering) (· ∈ documents.filter query.matches)

/-- The documents that the query asks for, in the order that it asks for. -/
def sorted (query : Query) (documents : List (String × Document)) : List (String × Document) :=
  sortByInsertion (orderStored query.ordering) (documents.filter query.matches)

variable {query : Query} {documents : List (String × Document)}

theorem matches_iff (query : Query) (stored : String × Document) : query.matches stored = true ↔ query.Asks stored := by
  have held (filter : Filter) : filter.matches stored.2 = true ↔
      ∃ value, Document.lookup? stored.2 filter.path = some value ∧ filter.FulfilledBy value := by
    simp only [Filter.matches, Option.any_eq_true, Filter.accepts_iff_fulfilledBy]
  have present (clause : OrderClause) : (Document.lookup? stored.2 clause.path).isSome = true ↔
      ∃ value, Document.lookup? stored.2 clause.path = some value := Option.isSome_iff_exists
  simp only [Query.matches, Bool.and_eq_true, Bool.or_eq_true, List.isEmpty_iff, List.contains_iff_mem,
    List.all_eq_true, held, present]
  constructor
  · rintro ⟨⟨listed, fulfilled⟩, ordered⟩
    exact ⟨listed, fulfilled, ordered⟩
  · rintro ⟨listed, fulfilled, ordered⟩
    exact ⟨⟨listed, fulfilled⟩, ordered⟩

theorem mem_filter_matches {stored : String × Document} :
    stored ∈ documents.filter query.matches ↔ stored ∈ documents ∧ query.Asks stored := by
  rw [List.mem_filter, matches_iff]

theorem mem_sorted {stored : String × Document} :
    stored ∈ query.sorted documents ↔ stored ∈ documents ∧ query.Asks stored := by
  rw [sorted, (sortByInsertion_perm _).mem_iff, mem_filter_matches]

/-- No id is found twice. -/
theorem nodup_sorted (distinct : Entries.Distinct documents) : ((query.sorted documents).map Prod.fst).Nodup := by
  refine ((sortByInsertion_perm _).map Prod.fst).nodup_iff.mpr ?_
  exact List.Nodup.sublist (List.filter_sublist.map Prod.fst) distinct

/-- Documents with numbers of one kind at each path are compared consistently. -/
theorem Sortable.settled (sortable : query.Sortable documents) : query.Settled documents := by
  refine .inr (consistent_orderStored fun clause member => ?_)
  obtain ⟨kind, regular⟩ := sortable clause member
  have all : ∀ stored ∈ documents.filter query.matches, clause.RegularAt kind stored.2 := by
    intro stored inside
    obtain ⟨held, asked⟩ := mem_filter_matches.mp inside
    exact regular stored held asked
  exact OrderClause.clear_of_regular all

/-- What is settled for documents is settled for some of them. -/
theorem Settled.mono (settled : query.Settled documents) {fewer : List (String × Document)}
    (distinct : Entries.Distinct fewer) (within : ∀ stored ∈ fewer, stored ∈ documents) : query.Settled fewer := by
  have inside : fewer.filter query.matches ⊆ documents.filter query.matches := by
    intro stored member
    obtain ⟨held, asked⟩ := mem_filter_matches.mp member
    exact mem_filter_matches.mpr ⟨within stored held, asked⟩
  rcases settled with few | consistent
  · have once : (fewer.filter query.matches).Nodup := (List.Nodup.of_map Prod.fst distinct).filter _
    exact .inl ((once.subperm inside).length_le.trans few)
  · exact .inr (consistent.mono inside)

theorem sorted_precedes (distinct : Entries.Distinct documents) (sortable : query.Sortable documents) :
    (query.sorted documents).Pairwise (Precedes query.ordering) := by
  have trans : ∀ a b c, Precedes query.ordering a b → Precedes query.ordering b c → Precedes query.ordering a c :=
    fun _ _ _ => precedes_trans
  refine sortByInsertion_pairwise trans (fun a inside b alsoInside => ?_) ?_
  · refine orderStored_eq_lt_iff fun clause member => ?_
    obtain ⟨kind, regular⟩ := sortable clause member
    obtain ⟨stored, asked⟩ := List.mem_filter.mp inside
    obtain ⟨alsoStored, alsoAsked⟩ := List.mem_filter.mp alsoInside
    exact ⟨kind, regular a stored ((matches_iff query a).mp asked),
      regular b alsoStored ((matches_iff query b).mp alsoAsked)⟩
  · have apart : documents.Pairwise fun a b => a.1 ≠ b.1 := List.pairwise_map.mp distinct
    exact (apart.imp (precedes_total query.ordering)).sublist List.filter_sublist

/-! ## Windows -/

/-- Windows of one size make up what lies before the end of the last one. -/
theorem flatten_windows {α : Type} (items : List α) (size count : Nat) :
    ((List.range count).map fun page => (items.drop (page * size)).take size).flatten = items.take (count * size) := by
  induction count with
  | zero => simp
  | succ count ih =>
    rw [List.range_succ, List.map_append, List.flatten_append, ih, Nat.succ_mul, List.take_add]
    simp

/-- What a query finds, and when it finds something at all. -/
theorem select_eq_ok_iff {found : List (String × Document)} : query.select documents = .ok found ↔
    (query.start = none ∧ query.finish = none) ∧ query.Settled documents ∧
      query.window (query.sorted documents) = found := by
  have cursors : (query.start.isSome || query.finish.isSome) = true ↔ ¬ (query.start = none ∧ query.finish = none) := by
    cases query.start <;> cases query.finish <;> simp
  unfold select
  split
  · next cursor => exact iff_of_false (by simp) fun all => cursors.mp cursor all.1
  · next cursorless =>
    rw [and_iff_right (not_not.mp fun cursor => cursorless (cursors.mpr cursor))]
    cases sorts : sortItems? (orderStored query.ordering) (documents.filter query.matches) with
    | some result =>
      obtain ⟨settled, same⟩ := sortItems?_eq_some_iff.mp sorts
      have settles : query.Settled documents := settled
      rw [and_iff_right settles, sorted, same, Except.ok.injEq]
    | none =>
      refine iff_of_false (by simp) fun both => ?_
      rw [sortItems?_eq_some_iff.mpr ⟨both.1, rfl⟩] at sorts
      cases sorts

theorem select_eq (cursorless : query.start = none ∧ query.finish = none) (settled : query.Settled documents) :
    query.select documents = .ok (query.window (query.sorted documents)) :=
  select_eq_ok_iff.mpr ⟨cursorless, settled, rfl⟩

/-- What a query finds at all it finds in its order, each document once and only what it asks for. -/
theorem select_ok {found : List (String × Document)} (selected : query.select documents = .ok found) :
    found.Sublist (query.sorted documents) := by
  obtain ⟨-, -, rfl⟩ := select_eq_ok_iff.mp selected
  have rest := List.drop_sublist query.offset (query.sorted documents)
  unfold window
  split
  · exact (List.take_sublist _ _).trans rest
  · exact (List.drop_sublist _ _).trans rest
  · exact rest

end Query

/-! ## Finding -/

namespace Store

/-- In a reachable store a query without cursors finds its window of one list: of the documents that it asks for, each
once, in the strict order of its clauses and last of the ids. The offset drops documents in front, a limit keeps so
many of the first or of the last. Pages of one size that follow each other make up the whole list. -/
theorem find_selects {store : Store} (reachable : store.Reachable) (collection : String) (query : Query)
    (cursorless : query.start = none ∧ query.finish = none) (sortable : query.Sortable (store.documents collection)) :
    ∃ sorted : List (String × Document),
      (∀ stored, stored ∈ sorted ↔ store.document? collection stored.1 = some stored.2 ∧ query.Asks stored) ∧
      (sorted.map Prod.fst).Nodup ∧
      sorted.Pairwise (fun a b => Precedes query.ordering a b ∧ ¬ Precedes query.ordering b a) ∧
      (query.limit = none → store.find collection query = .ok (sorted.drop query.offset)) ∧
      (∀ count, query.limit = some (.first count) →
        store.find collection query = .ok ((sorted.drop query.offset).take count)) ∧
      (∀ count, query.limit = some (.last count) →
        store.find collection query = .ok ((sorted.drop query.offset).rtake count)) ∧
      store.find collection { query with offset := 0, limit := none } = .ok sorted ∧
      ∀ size count, sorted.length ≤ count * size → ∃ pages : List (List (String × Document)),
        (List.range count).mapM (fun page =>
          store.find collection { query with offset := page * size, limit := some (.first size) }) = .ok pages ∧
        pages.flatten = sorted := by
  have distinct := reachable.distinct collection
  have windowed (windowing : Query) (same : windowing.sorted (store.documents collection) =
      query.sorted (store.documents collection)) (also : windowing.start = none ∧ windowing.finish = none)
      (settled : windowing.Settled (store.documents collection)) :
      store.find collection windowing = .ok (windowing.window (query.sorted (store.documents collection))) := by
    rw [Store.find, Query.select_eq also settled, same]
  refine ⟨query.sorted (store.documents collection), ?_, Query.nodup_sorted distinct, ?_, ?_, ?_, ?_, ?_, ?_⟩
  · intro stored
    rw [Query.mem_sorted, document?]
    refine and_congr_left fun _ => ⟨fun member => ?_, Entries.mem_of_get?⟩
    exact Entries.get?_of_mem distinct member
  · exact (Query.sorted_precedes distinct sortable).imp fun before => ⟨before, precedes_asymm before⟩
  · intro unlimited
    rw [windowed query rfl cursorless sortable.settled, Query.window, unlimited]
  · intro count limited
    rw [windowed query rfl cursorless sortable.settled, Query.window, limited]
  · intro count limited
    rw [windowed query rfl cursorless sortable.settled, Query.window, limited]
    rfl
  · exact windowed _ rfl cursorless sortable.settled
  · intro size count long
    have page (number : Nat) :
        store.find collection { query with offset := number * size, limit := some (.first size) } =
          .ok (((query.sorted (store.documents collection)).drop (number * size)).take size) :=
      windowed _ rfl cursorless sortable.settled
    refine ⟨(List.range count).map fun number =>
      ((query.sorted (store.documents collection)).drop (number * size)).take size, ?_, ?_⟩
    · simp only [page]
      exact List.mapM_pure
    · rw [Query.flatten_windows, List.take_of_length_le long]

/-- Three writes and a document without a score. -/
def scores : Store :=
  (((empty.write "games" "ada" [("score", .int 2)] .replace).write "games" "bob" [("score", .int 5)] .replace).write
    "games" "cyd" [("score", .string "none")] .replace).write "games" "dan" [("name", .string "Dan")] .replace

/-- Of three players those without five points, the best ones first but for the very best. -/
def rivals : Query where
  ids := ["ada", "bob", "cyd"]
  filters := [⟨"score", .notEqual, .int 5⟩]
  ordering := [⟨"score", .descending⟩]
  offset := 1
  limit := some (.last 1)

/-- A score that is no number is none of five points, and stands among the numbers by its kind. -/
theorem find_selects_scores :
    ∃ sorted : List (String × Document),
      ("cyd", [("score", .string "none")]) ∈ sorted ∧ ("bob", [("score", .int 5)]) ∉ sorted ∧
      ("dan", [("name", .string "Dan")]) ∉ sorted ∧
      sorted.Pairwise (fun a b => Precedes rivals.ordering a b ∧ ¬ Precedes rivals.ordering b a) ∧
      scores.find "games" rivals = .ok ((sorted.drop 1).rtake 1) := by
  have reachable : scores.Reachable :=
    (((Reachable.empty.write "games" "ada" _ .replace).write "games" "bob" _ .replace).write
      "games" "cyd" _ .replace).write "games" "dan" _ .replace
  have sortable : rivals.Sortable (scores.documents "games") := by
    intro clause member
    obtain rfl : clause = ⟨"score", .descending⟩ := List.mem_singleton.mp member
    refine ⟨.int, fun stored inside _ value held number => ?_⟩
    have documents : scores.documents "games" = [("ada", [("score", .int 2)]), ("bob", [("score", .int 5)]),
      ("cyd", [("score", .string "none")]), ("dan", [("name", .string "Dan")])] := rfl
    rw [documents] at inside
    simp only [List.mem_cons, List.not_mem_nil, or_false] at inside
    rcases inside with rfl | rfl | rfl | rfl
    · cases (show some (Value.int 2) = some value from held)
      exact ⟨rfl, rfl⟩
    · cases (show some (Value.int 5) = some value from held)
      exact ⟨rfl, rfl⟩
    · cases (show some (Value.string "none") = some value from held)
      cases number
    · cases (show (none : Option Value) = some value from held)
  obtain ⟨sorted, members, _, ordered, _, _, last, _⟩ := find_selects reachable "games" rivals ⟨rfl, rfl⟩ sortable
  refine ⟨sorted, (members _).mpr ⟨rfl, .inr (by decide), ?_, ?_⟩, fun bob => ?_, fun dan => ?_, ordered, last 1 rfl⟩
  · intro filter member
    obtain rfl : filter = ⟨"score", .notEqual, .int 5⟩ := List.mem_singleton.mp member
    refine ⟨.string "none", rfl, Filter.accepts_iff_fulfilledBy.mp ?_⟩
    simp [Filter.accepts, Value.equals, Value.order?, Value.toBinary64?, Value.same]
  · intro clause member
    obtain rfl : clause = ⟨"score", .descending⟩ := List.mem_singleton.mp member
    exact ⟨.string "none", rfl⟩
  · obtain ⟨value, held, fulfilled⟩ := ((members _).mp bob).2.fulfilled ⟨"score", .notEqual, .int 5⟩ List.mem_cons_self
    cases (show some (Value.int 5) = some value from held)
    cases Filter.accepts_iff_fulfilledBy.mpr fulfilled
  · rcases ((members _).mp dan).2.listed with nothing | listed
    · cases nothing
    · exact absurd listed (by decide)

end Store

end TaggedRecords
