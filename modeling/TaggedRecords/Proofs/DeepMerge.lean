import TaggedRecords.Proofs.MergePaths

/-!
# Merging all of the data

A write that merges all of the data lays the data over the document: behind every list of keys stands what the data
has to say there, and what the document held where the data says nothing.
-/

namespace TaggedRecords

/-- The keys leave the value inside a mapping that lacks the next of them. -/
def Value.Lacks (value : Value) (keys : List String) : Prop :=
  ∃ above key more entries, keys = above ++ key :: more ∧ value.at? above = some (.mapping entries) ∧
    Entries.get? entries key = none

/-- The keys go on behind something that is no mapping. -/
def Value.Blocks (value : Value) (keys : List String) : Prop :=
  ∃ above key more inner, keys = above ++ key :: more ∧ value.at? above = some inner ∧ inner.kind ≠ .mapping

/-- What a new value leaves in the place of the entries that it is merged into. -/
def Value.mergedInto (current : Document) : Value → Option Value
  | .delete => none
  | .mapping entries => some (.mapping (mergeEntries current entries))
  | other => some other

/-- The entries behind keys; there are none if no mapping stands there. -/
def Document.entriesAt (document : Document) (keys : List String) : Document :=
  match (Value.mapping document).at? keys with
  | some (.mapping entries) => entries
  | _ => []

namespace Document

@[simp] theorem entriesAt_nil (document : Document) : entriesAt document [] = document := by
  simp [entriesAt]

theorem entriesAt_single (document : Document) (key : String) :
    entriesAt document [key] = innerEntries document key := by
  unfold entriesAt innerEntries
  cases found : Entries.get? document key with
  | none => simp [found]
  | some inner => cases inner <;> simp [found]

theorem entriesAt_cons (document : Document) (key : String) (rest : List String) :
    entriesAt document (key :: rest) = entriesAt (innerEntries document key) rest := by
  cases rest with
  | nil => rw [entriesAt_single, entriesAt_nil]
  | cons next more =>
    unfold entriesAt
    rw [at?_innerEntries document key (by simp)]

/-- One key below a mapping or below nothing, a document holds what the entries there hold. -/
theorem at?_entriesAt (document : Document) (above : List String) (key : String) (more : List String) :
    (Value.mapping (entriesAt document above)).at? (key :: more) =
      (Value.mapping document).at? (above ++ key :: more) := by
  rw [Value.at?_append]
  unfold entriesAt
  cases found : (Value.mapping document).at? above with
  | none => rfl
  | some inner => cases inner <;> rfl

end Document

/-! ## Merging where nothing stands -/

mutual

theorem mergeValue_fresh : ∀ {value : Value}, value.Proper → ∀ {document : Document} {key : String},
    key ∉ Entries.keys document → mergeValue document key value = document ++ strippedEntries [(key, value)]
  | .delete, _, document, key, fresh => by
    rw [mergeValue, Entries.erase_of_get?_none (Entries.get?_eq_none_iff.mpr fresh)]
    simp [strippedEntries, Value.isDelete]
  | .mapping entries, ⟨distinct, proper⟩, document, key, fresh => by
    have inner : mergeEntries [] entries = strippedEntries entries :=
      mergeEntries_fresh distinct proper fun _ _ => List.not_mem_nil
    rw [mergeValue, Entries.get?_eq_none_iff.mpr fresh]
    simp only [inner, Entries.insert_of_absent _ fresh]
    rfl
  | .null, _, _, _, fresh | .bool _, _, _, _, fresh | .int _, _, _, _, fresh | .uint _, _, _, _, fresh
  | .float _, _, _, _, fresh | .string _, _, _, _, fresh | .bytes _, _, _, _, fresh | .time _, _, _, _, fresh
  | .sequence _, _, _, _, fresh | .record _ _, _, _, _, fresh => Entries.insert_of_absent _ fresh

/-- Entries under new keys come behind the old ones, without their tombstones. -/
theorem mergeEntries_fresh : ∀ {entries : List (String × Value)}, Entries.Distinct entries → EntriesProper entries →
    ∀ {document : Document}, (∀ key ∈ Entries.keys entries, key ∉ Entries.keys document) →
      mergeEntries document entries = document ++ strippedEntries entries
  | [], _, _, document, _ => by simp [mergeEntries, strippedEntries]
  | (key, value) :: rest, distinct, ⟨head, tail⟩, document, fresh => by
    obtain ⟨first, others⟩ := List.nodup_cons.mp (show (key :: Entries.keys rest).Nodup from distinct)
    have still : ∀ other ∈ Entries.keys rest,
        other ∉ Entries.keys (document ++ strippedEntries [(key, value)]) := by
      intro other member inside
      rw [Entries.keys, List.map_append] at inside
      rcases List.mem_append.mp inside with old | new
      · exact fresh other (List.mem_cons_of_mem _ member) old
      · have same : other = key := by simpa [Entries.keys] using keys_strippedEntries_subset new
        exact first (same ▸ member)
    have split : strippedEntries ((key, value) :: rest) = strippedEntries [(key, value)] ++ strippedEntries rest := by
      simp only [strippedEntries]
      split <;> rfl
    rw [mergeEntries, mergeValue_fresh head (fresh key List.mem_cons_self), mergeEntries_fresh others tail still,
      List.append_assoc, split]

end

/-- Merging into an empty document only strips. -/
theorem mergeEntries_nil {data : Document} (proper : data.Proper) : mergeEntries [] data = strippedEntries data :=
  mergeEntries_fresh proper.1 proper.2 fun _ _ => List.not_mem_nil

/-! ## Merging one value -/

/-- A value is put where it belongs, or its place is emptied. -/
theorem mergeValue_eq {value : Value} (proper : value.Proper) (document : Document) (key : String) :
    mergeValue document key value =
      match value.mergedInto (Document.innerEntries document key) with
      | none => Entries.erase document key
      | some merged => Entries.insert document key merged := by
  cases value with
  | mapping entries =>
    simp only [mergeValue, Value.mergedInto, Document.innerEntries]
    cases found : Entries.get? document key with
    | none => rfl
    | some old =>
      cases old with
      | mapping current => rfl
      | _ => exact congrArg (fun inner => Entries.insert document key (.mapping inner)) (mergeEntries_nil proper).symm
  | _ => rfl

theorem get?_mergeValue {value : Value} (proper : value.Proper) (document : Document) (key other : String) :
    Entries.get? (mergeValue document key value) other =
      if key = other then value.mergedInto (Document.innerEntries document key) else Entries.get? document other := by
  rw [mergeValue_eq proper]
  cases value.mergedInto (Document.innerEntries document key) with
  | none => exact Entries.get?_erase document key other
  | some merged => exact Entries.get?_insert document key other merged

/-- Merging what stands there already changes nothing. -/
theorem mergeValue_of_held {value : Value} (proper : value.Proper) {document : Document} {key : String}
    (held : Entries.get? document key = value.mergedInto (Document.innerEntries document key)) :
    mergeValue document key value = document := by
  rw [mergeValue_eq proper]
  cases merged : value.mergedInto (Document.innerEntries document key) with
  | none => exact Entries.erase_of_get?_none (held.trans merged)
  | some left => exact Entries.insert_of_get? (held.trans merged)

/-! ## Merging entries -/

/-- Under a key of the data stands what its value leaves there, under any other what the document held. -/
theorem get?_mergeEntries {data : List (String × Value)} (distinct : Entries.Distinct data)
    (proper : EntriesProper data) (document : Document) (key : String) :
    Entries.get? (mergeEntries document data) key =
      match Entries.get? data key with
      | none => Entries.get? document key
      | some value => value.mergedInto (Document.innerEntries document key) := by
  induction data generalizing document with
  | nil => rfl
  | cons entry rest ih =>
    obtain ⟨first, value⟩ := entry
    obtain ⟨fresh, below⟩ := List.nodup_cons.mp (show (first :: Entries.keys rest).Nodup from distinct)
    rw [mergeEntries, ih below proper.2, Entries.get?_cons]
    by_cases same : first = key
    · -- The key comes first in the data, so nothing merged later touches it.
      have absent : Entries.get? rest key = none := Entries.get?_eq_none_iff.mpr (same ▸ fresh)
      simp [absent, same, get?_mergeValue proper.1]
    · have inner : Document.innerEntries (mergeValue document first value) key = Document.innerEntries document key := by
        unfold Document.innerEntries
        rw [get?_mergeValue proper.1, if_neg same]
      simp [same, inner, get?_mergeValue proper.1]

/-- Behind keys of the data stands what the value there leaves of the entries that it is merged into. -/
theorem Document.at?_mergeEntries {data : Document} (proper : data.Proper) (document : Document)
    {keys : List String} {value : Value} (held : (Value.mapping data).at? keys = some value) :
    (Value.mapping (mergeEntries document data)).at? keys = value.mergedInto (entriesAt document keys) := by
  induction keys generalizing data document with
  | nil =>
    rw [Value.at?_nil] at held
    cases held
    simp [Value.mergedInto]
  | cons key rest ih =>
    rw [Value.at?_mapping_cons] at held ⊢
    rw [get?_mergeEntries proper.1 proper.2, entriesAt_cons]
    cases found : Entries.get? data key with
    | none =>
      rw [found] at held
      cases held
    | some inner =>
      rw [found, Option.bind_some] at held
      cases inner with
      | mapping entries =>
        have below : Document.Proper entries := proper_of_get? proper.2 found
        exact ih below (innerEntries document key) held
      | _ =>
        -- Nothing lies below what is no mapping, so these are all the keys.
        cases rest with
        | nil =>
          rw [Value.at?_nil] at held
          cases held
          simp [Value.mergedInto]
        | cons next more => cases held

/-- A document that has what the data says under each of its keys is left as it is. -/
theorem mergeEntries_of_held {data : List (String × Value)} (proper : EntriesProper data) {document : Document}
    (held : ∀ key value, (key, value) ∈ data →
      Entries.get? document key = value.mergedInto (Document.innerEntries document key)) :
    mergeEntries document data = document := by
  induction data with
  | nil => rfl
  | cons entry rest ih =>
    obtain ⟨key, value⟩ := entry
    rw [mergeEntries, mergeValue_of_held proper.1 (held key value List.mem_cons_self)]
    exact ih proper.2 fun other inner member => held other inner (List.mem_cons_of_mem _ member)

/-- A second merge of the same data changes nothing. -/
theorem mergeEntries_again {data : List (String × Value)} (distinct : Entries.Distinct data)
    (proper : EntriesProper data) (document : Document) :
    mergeEntries (mergeEntries document data) data = mergeEntries document data := by
  refine mergeEntries_of_held proper fun key value member => ?_
  have found : Entries.get? data key = some value := Entries.get?_of_mem distinct member
  have merged : Entries.get? (mergeEntries document data) key =
      value.mergedInto (Document.innerEntries document key) := by
    rw [get?_mergeEntries distinct proper, found]
  rw [merged]
  cases value with
  | mapping entries =>
    have smaller : sizeOf entries < sizeOf data := by
      have := List.sizeOf_lt_of_mem member
      simp at this
      omega
    have below : (Value.mapping entries).Proper := proper_of_get? proper found
    have inner : Document.innerEntries (mergeEntries document data) key =
        mergeEntries (Document.innerEntries document key) entries := by
      rw [Document.innerEntries, merged]
      rfl
    rw [inner, Value.mergedInto, Value.mergedInto, mergeEntries_again below.1 below.2]
  | _ => rfl
termination_by sizeOf data

/-! ## The write -/

namespace Store

/-- A write that merges all of the data lays it over the old document. What is no mapping in the data stands in the
result, a tombstone leaves nothing, and a mapping leaves a mapping. Where the keys leave the data inside a mapping
the old document shows, and behind what is no mapping there is nothing. So the same write once more changes nothing,
and into an empty document goes the data without its tombstones. -/
theorem write_all_overlays (store : Store) (collection id : String) {data : Document} (proper : data.Proper) :
    ∃ result, (store.write collection id data .mergeAll).document? collection id = some result ∧
      (∀ keys value, (Value.mapping data).at? keys = some value → value.kind ≠ .mapping → value ≠ .delete →
        (Value.mapping result).at? keys = some value) ∧
      (∀ keys, (Value.mapping data).at? keys = some .delete → (Value.mapping result).at? keys = none) ∧
      (∀ keys entries, (Value.mapping data).at? keys = some (.mapping entries) →
        ∃ merged, (Value.mapping result).at? keys = some (.mapping merged)) ∧
      (∀ keys, (Value.mapping data).Lacks keys →
        (Value.mapping result).at? keys = (Value.mapping (store.content collection id)).at? keys) ∧
      (∀ keys, (Value.mapping data).Blocks keys → (Value.mapping result).at? keys = none) ∧
      ((store.write collection id data .mergeAll).write collection id data .mergeAll).document? collection id =
        some result ∧
      (store.content collection id = [] → result = strippedEntries data) := by
  have overlaid {keys : List String} {value : Value} (held : (Value.mapping data).at? keys = some value) :=
    Document.at?_mergeEntries proper (store.content collection id) held
  refine ⟨mergeEntries (store.content collection id) data, document?_write store collection id data _,
    ?_, ?_, ?_, ?_, ?_, ?_, ?_⟩
  · intro keys value held leaf solid
    rw [overlaid held]
    cases value with
    | mapping entries => exact absurd rfl leaf
    | delete => exact absurd rfl solid
    | _ => rfl
  · intro keys held
    exact overlaid held
  · intro keys entries held
    exact ⟨_, overlaid held⟩
  · rintro _ ⟨above, key, more, entries, rfl, held, absent⟩
    have below : Document.Proper entries := Value.proper_at? proper held
    rw [Value.at?_append, overlaid held, Value.mergedInto, Option.bind_some, ← Document.at?_entriesAt,
      Value.at?_mapping_cons, Value.at?_mapping_cons, get?_mergeEntries below.1 below.2, absent]
  · rintro _ ⟨above, key, more, inner, rfl, held, leaf⟩
    rw [Value.at?_append, overlaid held]
    cases inner with
    | mapping entries => exact absurd rfl leaf
    | _ => rfl
  · rw [document?_write, content_write]
    exact congrArg some (mergeEntries_again proper.1 proper.2 _)
  · intro empty
    rw [empty]
    exact mergeEntries_nil proper

/-- Over a name, a mapping and a scalar are laid a tombstone, a mapping that goes on below one key, and a mapping with a
tombstone of its own. -/
theorem write_all_overlays_mixed :
    ∃ result, ((empty.put "users" "ada" [("name", .string "Ada"), ("home", .mapping [("zip", .int 1)]),
        ("nick", .bool true)]).write "users" "ada"
          [("name", .delete), ("home", .mapping [("city", .string "Rome")]),
            ("nick", .mapping [("x", .delete), ("y", .int 2)])] .mergeAll).document? "users" "ada" = some result ∧
      (Value.mapping result).at? ["name"] = none ∧
      (Value.mapping result).at? ["home", "city"] = some (.string "Rome") ∧
      (Value.mapping result).at? ["home", "zip"] = some (.int 1) ∧
      (Value.mapping result).at? ["nick", "x"] = none ∧ (Value.mapping result).at? ["nick", "y"] = some (.int 2) ∧
      (Value.mapping result).at? ["nick", "y", "z"] = none := by
  have new : Document.Proper [("name", .delete), ("home", .mapping [("city", .string "Rome")]),
      ("nick", .mapping [("x", .delete), ("y", .int 2)])] := by
    simp [Document.Proper, Value.Proper, EntriesProper, Entries.Distinct, Entries.keys]
  obtain ⟨result, written, solid, gone, _, lacking, blocked, _⟩ :=
    write_all_overlays (empty.put "users" "ada" [("name", .string "Ada"), ("home", .mapping [("zip", .int 1)]),
      ("nick", .bool true)]) "users" "ada" new
  refine ⟨result, written, gone ["name"] rfl, solid ["home", "city"] _ rfl (by decide) (by simp), ?_,
    gone ["nick", "x"] rfl, solid ["nick", "y"] _ rfl (by decide) (by simp),
    blocked _ ⟨["nick", "y"], "z", [], _, rfl, rfl, by decide⟩⟩
  rw [lacking ["home", "zip"] ⟨["home"], "zip", [], _, rfl, rfl, rfl⟩, content, document?_put]
  rfl

end Store

end TaggedRecords
