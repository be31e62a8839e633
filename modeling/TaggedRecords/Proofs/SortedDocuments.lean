import TaggedRecords.Proofs.Selection

/-!
# Sorted documents

A query sorts the documents that it asks for by its comparison, as long as no document among them blurs two others.
Where one does, the comparison by that clause is no total preorder, and sorting many documents by it may come to no
result.
-/

namespace TaggedRecords

namespace Query
variable {query : Query} {documents : List (String × Document)}

/-- What the query asks for among the documents. -/
def Candidate (query : Query) (documents : List (String × Document)) (stored : String × Document) : Prop :=
  stored ∈ documents ∧ query.Asks stored

/-- Clear documents are sorted. -/
theorem sorted_clear (distinct : Entries.Distinct documents)
    (clear : ∀ clause ∈ query.ordering, clause.Clear (query.Candidate documents)) :
    (query.sorted documents).Pairwise fun a b => orderStored query.ordering a b = .lt := by
  have consistent := consistent_orderStored clear
  have candidate {stored : String × Document} (member : stored ∈ documents.filter query.matches) :
      query.Candidate documents stored := mem_filter_matches.mp member
  let Before (a b : String × Document) : Prop :=
    query.Candidate documents a ∧ query.Candidate documents b ∧ orderStored query.ordering a b = .lt
  have trans : ∀ a b c, Before a b → Before b c → Before a c := by
    rintro a b c ⟨first, middle, left⟩ ⟨_, last, right⟩
    exact ⟨first, last, @Std.TransCmp.lt_trans _ _ consistent ⟨a, first⟩ ⟨b, middle⟩ ⟨c, last⟩ left right⟩
  have apart : documents.Pairwise fun a b => a.1 ≠ b.1 := List.pairwise_map.mp distinct
  have asked : (documents.filter query.matches).Pairwise fun a b => Before a b ∨ Before b a := by
    refine (apart.sublist List.filter_sublist).imp_of_mem fun {a b} inside alsoInside differ => ?_
    cases compared : orderStored query.ordering a b with
    | eq => exact absurd compared (orderStored_ne_eq query.ordering differ)
    | lt => exact .inl ⟨candidate inside, candidate alsoInside, compared⟩
    | gt =>
      refine .inr ⟨candidate alsoInside, candidate inside, ?_⟩
      rw [orderStored_swap, compared]
      rfl
  refine (sortByInsertion_pairwise trans (fun a inside b alsoInside => ?_) asked).imp fun before => before.2.2
  exact ⟨fun less => ⟨candidate inside, candidate alsoInside, less⟩, fun before => before.2.2⟩

end Query

namespace Store

/-- Comparing values that may be missing is reflexive, turns with its arguments, and coming before is transitive. Not
coming after and being tied are so but for a value that blurs two others: then, and only then, they fail. So the
comparison by a clause is a total preorder on the documents of a store that a query asks for exactly if none of them
blurs two others that are apart; and if that holds of each of its clauses the whole comparison is one, without cursors
something is found, and what is found is sorted by it. -/
theorem find_compares {store : Store} (reachable : store.Reachable) (collection : String) (query : Query) :
    (∀ x, Value.orderPresent x x = .eq) ∧
    (∀ x y, Value.orderPresent x y = (Value.orderPresent y x).swap) ∧
    (∀ x y z, Value.orderPresent x y = .lt → Value.orderPresent y z = .lt → Value.orderPresent x z = .lt) ∧
    (∀ x y z, ((Value.orderPresent x y).isLE = true ∧ (Value.orderPresent y z).isLE = true ∧
      Value.orderPresent x z = .gt) ↔ Value.BlursPresent y x z ∧ Value.orderPresent x z = .gt) ∧
    (∀ x y z, (Value.orderPresent x y = .eq ∧ Value.orderPresent y z = .eq ∧ Value.orderPresent x z ≠ .eq) ↔
      Value.BlursPresent y x z ∧ Value.orderPresent x z ≠ .eq) ∧
    (∀ clause : OrderClause,
      Consistent (fun a b => clause.order a.2 b.2) (query.Candidate (store.documents collection)) ↔
        clause.Clear (query.Candidate (store.documents collection))) ∧
    ((∀ clause ∈ query.ordering, clause.Clear (query.Candidate (store.documents collection))) →
      Consistent (orderStored query.ordering) (query.Candidate (store.documents collection)) ∧
      ((query.start = none ∧ query.finish = none) → ∃ found, store.find collection query = .ok found) ∧
      ∀ found, store.find collection query = .ok found →
        found.Pairwise fun a b => orderStored query.ordering a b = .lt) := by
  refine ⟨Value.orderPresent_self, Value.orderPresent_swap, fun _ _ _ => Value.orderPresent_lt_trans,
    fun _ _ _ => Value.orderPresent_gt_iff, fun _ _ _ => Value.orderPresent_apart_iff,
    fun clause => OrderClause.consistent_iff, fun clear => ?_⟩
  have consistent := consistent_orderStored clear
  refine ⟨consistent, fun cursorless => ?_, fun found selected => ?_⟩
  · have settled : query.Settled (store.documents collection) :=
      .inr (consistent.mono fun _ member => Query.mem_filter_matches.mp member)
    exact ⟨_, Query.select_eq cursorless settled⟩
  · exact (Query.sorted_clear (reachable.distinct collection) clear).sublist (Query.select_ok selected)

/-- Two whole numbers and the floating-point number that both of them become. -/
def readings : Store :=
  ((empty.write "logs" "a" [("n", .int 9007199254740993)] .replace).write "logs" "b"
    [("n", .float ⟨0x4340000000000000⟩)] .replace).write "logs" "c" [("n", .int 9007199254740992)] .replace

/-- The floating-point number is tied with both whole numbers, which are apart and are sorted without it. -/
theorem readings_compared :
    Value.order (.int 9007199254740993) (.int 9007199254740992) = .gt ∧
    ¬ Consistent (fun a b => (⟨"n", .ascending⟩ : OrderClause).order a.2 b.2)
      (Query.Candidate {} (readings.documents "logs")) ∧
    ∀ found, readings.find "logs" { ids := ["a", "c"], ordering := [⟨"n", .ascending⟩] } = .ok found →
      found.Pairwise fun a b => orderStored [⟨"n", .ascending⟩] a b = .lt := by
  have reachable : readings.Reachable :=
    ((Reachable.empty.write "logs" "a" _ .replace).write "logs" "b" _ .replace).write "logs" "c" _ .replace
  have asked (id : String) (document : Document) (stored : (id, document) ∈ readings.documents "logs") :
      Query.Candidate {} (readings.documents "logs") (id, document) := by
    refine ⟨stored, .inl rfl, fun filter member => ?_, fun clause member => ?_⟩
    · cases member
    · cases member
  have blurs : Value.Blurs (.float ⟨0x4340000000000000⟩) (.int 9007199254740993) (.int 9007199254740992) :=
    .rounding rfl rfl rfl rfl (by decide) (by decide +kernel) (by decide +kernel)
  refine ⟨by decide, fun consistent => ?_, ?_⟩
  · obtain ⟨_, _, _, _, _, exactly, _⟩ := find_compares reachable "logs" {}
    have tied := (exactly ⟨"n", .ascending⟩).mp consistent ("a", [("n", .int 9007199254740993)])
      ("b", [("n", .float ⟨0x4340000000000000⟩)]) ("c", [("n", .int 9007199254740992)])
      (asked _ _ (List.mem_cons_self)) (asked _ _ (List.mem_cons_of_mem _ List.mem_cons_self))
      (asked _ _ (List.mem_cons_of_mem _ (List.mem_cons_of_mem _ List.mem_cons_self)))
      ⟨_, _, _, rfl, rfl, rfl, blurs⟩
    revert tied
    decide
  · obtain ⟨_, _, _, _, _, _, sorts⟩ := find_compares reachable "logs"
      { ids := ["a", "c"], ordering := [⟨"n", .ascending⟩] }
    refine (sorts fun clause member => ?_).2.2
    obtain rfl : clause = ⟨"n", .ascending⟩ := List.mem_singleton.mp member
    -- Only whole numbers are asked for, and none of them is of another kind.
    have regular : ∀ stored, Query.Candidate { ids := ["a", "c"], ordering := [⟨"n", .ascending⟩] }
        (readings.documents "logs") stored → OrderClause.RegularAt ⟨"n", .ascending⟩ .int stored.2 := by
      rintro stored ⟨inside, listed, _, _⟩ value held _
      have documents : readings.documents "logs" = [("a", [("n", .int 9007199254740993)]),
        ("b", [("n", .float ⟨0x4340000000000000⟩)]), ("c", [("n", .int 9007199254740992)])] := rfl
      rw [documents] at inside
      simp only [List.mem_cons, List.not_mem_nil, or_false] at inside
      rcases inside with rfl | rfl | rfl
      · cases (show some (Value.int 9007199254740993) = some value from held)
        exact ⟨rfl, rfl⟩
      · simp at listed
      · cases (show some (Value.int 9007199254740992) = some value from held)
        exact ⟨rfl, rfl⟩
    exact OrderClause.clear_of_regular regular

end Store

end TaggedRecords
