import TaggedRecords.Proofs.FailedOperations

/-!
# Bulk operations

A deletion or an update by query goes through the documents that its search has found, while every step changes the
collection that they come from. A step treats the document under one id and leaves the others, so that all steps
together treat what was found as one pass over the collection would, in whatever order they are taken.
-/

namespace TaggedRecords

namespace Entries
variable {α : Type} {entries : Entries α} {left : α → Option α}

/-- What is left of an item under one of the keys, if anything is; any other item as it is. -/
def treated? (ids : List String) (left : α → Option α) (entry : String × α) : Option (String × α) :=
  if entry.1 ∈ ids then (left entry.2).map (entry.1, ·) else some entry

/-- Puts what is left of each item under one of the keys in its place, or takes it out if nothing is left. -/
def treat (ids : List String) (left : α → Option α) (entries : Entries α) : Entries α :=
  entries.filterMap (treated? ids left)

theorem treat_cons (ids : List String) (left : α → Option α) (entry : String × α) (rest : Entries α) :
    treat ids left (entry :: rest) = (treated? ids left entry).toList ++ treat ids left rest := by
  unfold treat
  cases kept : treated? ids left entry with
  | none => exact List.filterMap_cons_none kept
  | some treated => exact List.filterMap_cons_some kept

theorem key_of_treated? {ids : List String} {entry treated : String × α}
    (kept : treated? ids left entry = some treated) : treated.1 = entry.1 := by
  unfold treated? at kept
  split at kept
  · obtain ⟨a, -, rfl⟩ := Option.map_eq_some_iff.mp kept
    rfl
  · cases kept
    rfl

theorem keys_treat_sublist (ids : List String) (left : α → Option α) (entries : Entries α) :
    (keys (treat ids left entries)).Sublist (keys entries) := by
  induction entries with
  | nil => exact List.Sublist.refl _
  | cons entry rest ih =>
    rw [treat_cons]
    cases kept : treated? ids left entry with
    | none => exact ih.cons entry.1
    | some treated =>
      show (treated.1 :: keys (treat ids left rest)).Sublist (entry.1 :: keys rest)
      rw [key_of_treated? kept]
      exact ih.cons_cons entry.1

theorem ordered_treat (ordered : Ordered entries) (ids : List String) (left : α → Option α) :
    Ordered (treat ids left entries) :=
  List.Pairwise.sublist (keys_treat_sublist ids left entries) ordered

/-- Items under other keys are left alone. -/
theorem treat_of_absent {ids : List String} (absent : ∀ key ∈ keys entries, key ∉ ids) :
    treat ids left entries = entries := by
  induction entries with
  | nil => rfl
  | cons entry rest ih =>
    have here : entry.1 ∉ ids := absent entry.1 List.mem_cons_self
    have below : treat ids left rest = rest := ih fun key member => absent key (List.mem_cons_of_mem _ member)
    simp [treat_cons, treated?, here, below]

theorem get?_treat (distinct : Distinct entries) (ids : List String) (left : α → Option α) (key : String) :
    get? (treat ids left entries) key = if key ∈ ids then (get? entries key).bind left else get? entries key := by
  induction entries with
  | nil => simp [treat]
  | cons entry rest ih =>
    obtain ⟨k, a⟩ := entry
    obtain ⟨fresh, below⟩ := List.nodup_cons.mp (show (k :: keys rest).Nodup from distinct)
    have behind := ih below
    rw [treat_cons, get?_cons]
    by_cases same : k = key
    · subst same
      have gone : get? rest k = none := get?_eq_none_iff.mpr fresh
      by_cases here : k ∈ ids
      · cases kept : left a with
        | none => simpa [treated?, here, kept, gone] using behind
        | some b => simp [treated?, here, kept, get?]
      · simp [treated?, here, get?]
    · have passed :
          get? ((treated? ids left (k, a)).toList ++ treat ids left rest) key = get? (treat ids left rest) key := by
        cases kept : treated? ids left (k, a) with
        | none => rfl
        | some entry => exact if_neg fun here => same ((key_of_treated? kept).symm.trans here)
      rw [passed, behind, if_neg same]

/-- Treating one key and then others is treating them all. -/
theorem treat_treat {id : String} {ids : List String} (fresh : id ∉ ids) (entries : Entries α) :
    treat ids left (treat [id] left entries) = treat (id :: ids) left entries := by
  induction entries with
  | nil => rfl
  | cons entry rest ih =>
    rw [treat_cons, treat_cons (id :: ids), ← ih]
    by_cases same : entry.1 = id
    · cases kept : left entry.2 with
      | none => simp [treated?, same, kept]
      | some a => simp [treated?, same, kept, treat_cons, fresh]
    · simp [treated?, same, treat_cons]

theorem treat_congr {ids others : List String} (same : ∀ id, id ∈ ids ↔ id ∈ others) (entries : Entries α) :
    treat ids left entries = treat others left entries := by
  unfold treat treated?
  simp only [same]

theorem erase_eq_treat (entries : Entries α) (key : String) :
    erase entries key = treat [key] (fun _ => none) entries := by
  induction entries with
  | nil => rfl
  | cons entry rest ih =>
    obtain ⟨k, a⟩ := entry
    by_cases here : k = key
    · simp [erase, here, treat_cons, treated?, ih]
    · simp [erase, here, treat_cons, treated?, ih]

/-- In ordered entries an item put under a key that is there takes the place of the old one. -/
theorem insertByKey_eq_treat (ordered : Ordered entries) {key : String} {a : α} (held : get? entries key = some a)
    (change : α → α) : insertByKey entries key (change a) = treat [key] (fun old => some (change old)) entries := by
  induction entries with
  | nil => cases held
  | cons entry rest ih =>
    obtain ⟨k, b⟩ := entry
    obtain ⟨first, below⟩ := List.pairwise_cons.mp (show (k :: keys rest).Pairwise (· < ·) from ordered)
    rw [get?_cons] at held
    rw [insertByKey, treat_cons]
    by_cases same : k = key
    · subst same
      have old : b = a := by simpa using held
      have others : treat [k] (fun old => some (change old)) rest = rest :=
        treat_of_absent fun other member inside => by
          have larger := first other member
          rw [List.mem_singleton.mp inside] at larger
          exact lt_irrefl k larger
      simp [treated?, old, others]
    · have later : get? rest key = some a := by simpa [same] using held
      have larger : k < key := first key (mem_keys_of_get? later)
      simp [treated?, same, Ne.symm same, not_lt_of_gt larger, ih below later]

theorem insert_insert (entries : Entries α) (key : String) (a b : α) :
    insert (insert entries key a) key b = insert entries key b := by
  induction entries with
  | nil => simp [insert]
  | cons entry rest ih =>
    obtain ⟨k, old⟩ := entry
    by_cases here : k = key
    · simp [insert, here]
    · simp [insert, here, ih]

end Entries

/-! ## Documents treated in a store -/

namespace Store
variable {store : Store} {name : String} {left : Document → Option Document}

/-- The store in which the documents of a collection under some ids have been treated. -/
def treated (store : Store) (name : String) (ids : List String) (left : Document → Option Document) : Store :=
  store.withDocuments name (Entries.treat ids left (store.documents name))

theorem documents_treated (store : Store) (name : String) (ids : List String) (left : Document → Option Document)
    (other : String) : (store.treated name ids left).documents other =
      if name = other then Entries.treat ids left (store.documents name) else store.documents other :=
  documents_withDocuments store name other _

theorem document?_treated (distinct : Entries.Distinct (store.documents name)) (ids : List String)
    (left : Document → Option Document) (id : String) : (store.treated name ids left).document? name id =
      if id ∈ ids then (store.document? name id).bind left else store.document? name id := by
  rw [document?, documents_treated, if_pos rfl]
  exact Entries.get?_treat distinct ids left id

theorem treated_treated {id : String} {ids : List String} (fresh : id ∉ ids) :
    (store.treated name [id] left).treated name ids left = store.treated name (id :: ids) left := by
  rw [treated, documents_treated, if_pos rfl, Entries.treat_treat fresh]
  exact congrArg Store.mk (Entries.insert_insert _ _ _ _)

/-- Taking out a document that is there treats it. -/
theorem deletion_treats {id : String} (held : store.document? name id ≠ none) :
    store.deletion name id = ⟨.ok (), store.treated name [id] fun _ => none⟩ := by
  obtain ⟨document, found⟩ := Option.ne_none_iff_exists'.mp held
  rw [deletion, delete, found, treated, Entries.erase_eq_treat]

/-- Writing into a document that is there treats it. -/
theorem writing_treats (ordered : Entries.Ordered (store.documents name)) {id : String}
    (held : store.document? name id ≠ none) (data : Document) (mode : WriteMode) :
    store.writing name id data mode =
      ⟨.ok (), store.treated name [id] fun document => some (mode.apply document data)⟩ := by
  obtain ⟨document, found⟩ := Option.ne_none_iff_exists'.mp held
  have replaced := Entries.insertByKey_eq_treat ordered found fun document => mode.apply document data
  rw [writing, write, put, found, Option.getD_some, replaced]
  rfl

/-- What a bulk operation has done to what it found in a collection. -/
structure Treats (after before : Store) (name : String) (found : List (String × Document))
    (left : Document → Option Document) : Prop where
  /-- Every document was found once. -/
  once : (found.map Prod.fst).Nodup
  /-- It was there, and what is left of it is there now. -/
  treated : ∀ id document, (id, document) ∈ found →
    before.document? name id = some document ∧ after.document? name id = left document
  /-- Under every other id stands what stood there. -/
  rest : ∀ id, id ∉ found.map Prod.fst → after.document? name id = before.document? name id
  /-- No id has come up. -/
  ids : ∀ id, after.document? name id ≠ none → before.document? name id ≠ none
  /-- Other collections are left alone. -/
  others : ∀ other, name ≠ other → after.documents other = before.documents other

end Store

/-! ## Loops over what was found -/

namespace Collection
variable {name : String} {left : Document → Option Document}
  {loop : Store → List (String × Document) → Outcome Unit} {store : Store} {targets : List (String × Document)}

/-- The loop treats one document after the other. -/
structure TreatsEach (loop : Store → List (String × Document) → Outcome Unit) (name : String)
    (left : Document → Option Document) : Prop where
  nothing : ∀ store, loop store [] = ⟨.ok (), store⟩
  step : ∀ (store : Store) target rest, Entries.Ordered (store.documents name) →
    store.document? name target.1 ≠ none → loop store (target :: rest) = loop (store.treated name [target.1] left) rest

theorem deleteEach_treatsEach (name : String) : TreatsEach (deleteEach name) name fun _ => none where
  nothing _ := rfl
  step store target rest _ held := by rw [deleteEach, Store.deletion_treats held, Outcome.andThen]

theorem writeEach_treatsEach (name : String) (document : Document) (mode : WriteMode) :
    TreatsEach (writeEach name document mode) name fun held => some (mode.apply held document) where
  nothing _ := rfl
  step store target rest ordered held := by
    rw [writeEach, Store.writing_treats ordered held, Outcome.andThen]

namespace TreatsEach

/-- All steps together treat all documents at once: no step takes away what a later one is to meet. -/
theorem run (each : TreatsEach loop name left) (ordered : Entries.Ordered (store.documents name))
    (held : ∀ target ∈ targets, store.document? name target.1 ≠ none) (once : (targets.map Prod.fst).Nodup)
    (something : targets ≠ []) : loop store targets = ⟨.ok (), store.treated name (targets.map Prod.fst) left⟩ := by
  induction targets generalizing store with
  | nil => exact absurd rfl something
  | cons target rest ih =>
    obtain ⟨fresh, below⟩ := List.nodup_cons.mp (show (target.1 :: rest.map Prod.fst).Nodup from once)
    rw [each.step store target rest ordered (held target List.mem_cons_self)]
    cases rest with
    | nil => exact each.nothing _
    | cons next more =>
      have stillOrdered : Entries.Ordered ((store.treated name [target.1] left).documents name) := by
        rw [Store.documents_treated, if_pos rfl]
        exact Entries.ordered_treat ordered _ _
      have stillHeld : ∀ other ∈ next :: more, (store.treated name [target.1] left).document? name other.1 ≠ none := by
        intro other member
        have apart : other.1 ∉ [target.1] := fun same =>
          fresh (List.mem_singleton.mp same ▸ List.mem_map_of_mem member)
        rw [Store.document?_treated ordered.distinct, if_neg apart]
        exact held other (List.mem_cons_of_mem _ member)
      rw [ih stillOrdered stillHeld below (List.cons_ne_nil _ _), Store.treated_treated fresh]
      rfl

/-- The order of the documents does not matter. -/
theorem perm (each : TreatsEach loop name left) (ordered : Entries.Ordered (store.documents name))
    (held : ∀ target ∈ targets, store.document? name target.1 ≠ none) (once : (targets.map Prod.fst).Nodup)
    {reordered : List (String × Document)} (perm : reordered.Perm targets) :
    loop store reordered = loop store targets := by
  by_cases nothing : targets = []
  · subst nothing
    rw [List.perm_nil.mp perm]
  · have something : reordered ≠ [] := fun nil => nothing (List.perm_nil.mp (nil ▸ perm.symm))
    have keys : (reordered.map Prod.fst).Perm (targets.map Prod.fst) := perm.map Prod.fst
    rw [each.run ordered held once nothing, each.run ordered (fun target member => held target (perm.mem_iff.mp member))
      (keys.nodup_iff.mpr once) something, Store.treated, Store.treated,
      Entries.treat_congr fun id => keys.mem_iff]

/-- A loop over what a query finds comes to its end, having treated each document that was found. -/
theorem found (each : TreatsEach loop name left) (reachable : store.Reachable) {query : Query}
    (found : store.find name query = .ok targets) :
    (loop store targets).store.Treats store name targets left ∧
      ∀ reordered : List (String × Document), reordered.Perm targets → loop store reordered = loop store targets := by
  have ordered := reachable.ordered name
  obtain ⟨held, once⟩ := Store.held_of_find reachable found
  refine ⟨?_, fun reordered => each.perm ordered held once⟩
  · -- What stands under an id behind the loop, whether anything was found or not.
    have shown : ∀ id, (loop store targets).store.document? name id =
        if id ∈ targets.map Prod.fst then (store.document? name id).bind left else store.document? name id := by
      intro id
      by_cases nothing : targets = []
      · rw [nothing, each.nothing]
        rfl
      · rw [each.run ordered held once nothing]
        exact Store.document?_treated ordered.distinct _ left id
    have there : ∀ id document, (id, document) ∈ targets → store.document? name id = some document := by
      intro id document member
      have stored := (Query.mem_sorted.mp ((Query.select_ok found).subset member)).1
      exact Entries.get?_of_mem ordered.distinct stored
    refine ⟨once, fun id document member => ⟨there id document member, ?_⟩, fun id absent => ?_, fun id left => ?_,
      fun other apart => ?_⟩
    · have listed : id ∈ targets.map Prod.fst := List.mem_map.mpr ⟨_, member, rfl⟩
      rw [shown, if_pos listed, there id document member]
      rfl
    · rw [shown, if_neg absent]
    · intro absent
      rw [shown, absent] at left
      exact left (by simp)
    · by_cases nothing : targets = []
      · rw [nothing, each.nothing]
      · rw [each.run ordered held once nothing, Store.documents_treated, if_neg apart]

end TreatsEach

/-- Behind a deletion nothing is left that a query without a window asks for. -/
theorem find_of_treats {after : Store} (left : after.Reachable) {query : Query}
    (whole : query.offset = 0 ∧ query.limit = none) (found : store.find name query = .ok targets)
    (removes : after.Treats store name targets fun _ => none) : after.find name query = .ok [] := by
  have unwindowed (items : List (String × Document)) : query.window items = items := by
    simp [Query.window, whole]
  obtain ⟨cursorless, settled, same⟩ := Query.select_eq_ok_iff.mp found
  rw [unwindowed] at same
  -- What stands there now was there before, and it was not found.
  have kept (stored : String × Document) (stands : stored ∈ after.documents name) :
      stored ∈ store.documents name ∧ stored.1 ∉ targets.map Prod.fst := by
    have held : after.document? name stored.1 = some stored.2 := Entries.get?_of_mem (left.distinct name) stands
    have absent : stored.1 ∉ targets.map Prod.fst := by
      intro listed
      obtain ⟨⟨id, document⟩, target, same⟩ := List.mem_map.mp listed
      cases same
      rw [(removes.treated _ document target).2] at held
      cases held
    rw [removes.rest stored.1 absent] at held
    exact ⟨Entries.mem_of_get? held, absent⟩
  have alsoSettled := settled.mono (left.distinct name) fun stored stands => (kept stored stands).1
  rw [Store.find, Query.select_eq cursorless alsoSettled, unwindowed]
  refine congrArg Except.ok (List.eq_nil_iff_forall_not_mem.mpr fun stored member => ?_)
  obtain ⟨stands, asked⟩ := Query.mem_sorted.mp member
  obtain ⟨before, absent⟩ := kept stored stands
  refine absent (List.mem_map.mpr ⟨stored, ?_, rfl⟩)
  rw [← same]
  exact Query.mem_sorted.mpr ⟨before, asked⟩

/-! ## Bulk operations on a collection -/

/-- What an update is carried out with if its caller wants some options and merge paths: the options that the record is
validated with, and the mode of the writes. -/
structure Chosen (options : Options) (mergePaths : List String) (chosen : Options) (mode : WriteMode) : Prop where
  /-- Without merge paths everything is written. -/
  everything : mergePaths = [] → mode = .mergeAll
  /-- With merge paths these are written, and nothing else. -/
  listed : mergePaths ≠ [] → mode = .mergePaths mergePaths
  /-- The record is validated for an update, whatever method the caller set. -/
  method : chosen.method = .update
  /-- Fields left out become tombstones if the caller wants that, or if there are merge paths. -/
  tombstones : chosen.tombstones = true ↔ options.tombstones = true ∨ mergePaths ≠ []
  /-- All else is as the caller wants it. -/
  others : { chosen with method := options.method, tombstones := options.tombstones } = options

section
variable {options chosen : Options} {mergePaths : List String} {mode : WriteMode}

/-- What an update does is what it should be carried out with. -/
theorem chosen_update (options : Options) (mergePaths : List String) :
    Chosen options mergePaths (updateOptions options mergePaths) (updateMode mergePaths) where
  everything nothing := if_pos (List.isEmpty_iff.mpr nothing)
  listed something := if_neg fun nothing => something (List.isEmpty_iff.mp nothing)
  method := rfl
  tombstones := by simp [updateOptions]
  others := rfl

theorem Chosen.options_eq (chose : Chosen options mergePaths chosen mode) :
    chosen = updateOptions options mergePaths := by
  have tombstones : chosen.tombstones = (options.tombstones || !mergePaths.isEmpty) := by
    rw [Bool.eq_iff_iff, chose.tombstones]
    simp
  calc chosen
    _ = { { chosen with method := options.method, tombstones := options.tombstones } with
          method := chosen.method, tombstones := chosen.tombstones } := rfl
    _ = updateOptions options mergePaths := by
      rw [chose.others, chose.method, tombstones]
      rfl

end

/-- A query without cursors finds something if it is settled how it sorts. What is found a deletion by query takes out,
and nothing else, and an update by query writes the validated document once into each of them: everything, or if there
are merge paths only these. Both return how many these are, leave everything else as it was and come to the same in
whatever order the documents are taken. Behind a deletion a query without offset and limit finds nothing. -/
theorem bulk_operations_treat_found (collection : Collection) {store : Store} (reachable : store.Reachable)
    (query : Query) :
    ((query.start = none ∧ query.finish = none) → query.Settled (store.documents collection.name) →
      ∃ targets, store.find collection.name query = .ok targets) ∧
    ∀ targets, store.find collection.name query = .ok targets →
      ((collection.delete store query).result = .ok targets.length ∧
        (collection.delete store query).store.Treats store collection.name targets (fun _ => none) ∧
        (∀ reordered : List (String × Document), reordered.Perm targets → collection.delete store query =
          (deleteEach collection.name store reordered).map fun _ => reordered.length) ∧
        (query.offset = 0 → query.limit = none →
          (collection.delete store query).store.find collection.name query = .ok [])) ∧
      ∀ options mergePaths, ∃ chosen mode, Chosen options mergePaths chosen mode ∧
        ∀ cache context record document,
          (collection.engine.validate cache context chosen record).result = .ok document →
          (collection.update store cache context query options mergePaths record).result = .ok targets.length ∧
          (collection.update store cache context query options mergePaths record).store.Treats store collection.name
            targets (fun held => some (mode.apply held document)) ∧
          ∀ reordered : List (String × Document), reordered.Perm targets →
            (collection.update store cache context query options mergePaths record).toOutcome =
              (writeEach collection.name document mode store reordered).map fun _ => reordered.length := by
  refine ⟨fun cursorless settled => ⟨_, Query.select_eq cursorless settled⟩, fun targets found => ⟨?_, ?_⟩⟩
  · have deletion : collection.delete store query =
        (deleteEach collection.name store targets).map fun _ => targets.length := by
      simp [delete, Outcome.andThen, Store.reading, found]
    obtain ⟨removes, anyOrder⟩ := (deleteEach_treatsEach collection.name).found reachable found
    have removed : (collection.delete store query).store.Treats store collection.name targets fun _ => none := by
      rw [deletion]
      exact removes
    refine ⟨collection.delete_of_found reachable found, removed, fun reordered perm => ?_,
      fun unshifted unlimited => ?_⟩
    · rw [deletion, anyOrder reordered perm, perm.length_eq]
    · have left := collection.reachable_perform reachable .empty (.delete query)
      exact find_of_treats left ⟨unshifted, unlimited⟩ found removed
  · intro options mergePaths
    refine ⟨_, _, chosen_update options mergePaths, fun cache context record document valid => ?_⟩
    obtain ⟨writes, anyOrder⟩ :=
      (writeEach_treatsEach collection.name document (updateMode mergePaths)).found reachable found
    have update : (collection.update store cache context query options mergePaths record).toOutcome =
        (writeEach collection.name document (updateMode mergePaths) store targets).map fun _ => targets.length := by
      simp [Collection.update, validated, valid, Outcome.andThen, Store.reading, found]
    refine ⟨collection.update_of_found found valid, ?_, fun reordered perm => ?_⟩
    · rw [update]
      exact writes
    · rw [update, anyOrder reordered perm, perm.length_eq]

/-- Three users, two of them with a city. -/
def crowd : Store :=
  ((Store.empty.write "users" "ada" [("name", .string "Ada"), ("city", .string "Rome")] .replace).write
    "users" "bob" [("name", .string "Bob")] .replace).write
    "users" "cyd" [("name", .string "Cyd"), ("city", .string "Oslo")] .replace

/-- The last two by name. -/
def lastTwo : Query := { ordering := [⟨"name", .descending⟩], limit := some (.first 2) }

/-- The last two users are taken out or named Eve, or they lose their city and keep their names. The first one is left
alone. -/
theorem crowd_treated :
    (users.delete crowd lastTwo).result = .ok 2 ∧
    (users.delete crowd lastTwo).store.document? "users" "cyd" = none ∧
    (users.delete crowd lastTwo).store.document? "users" "ada" =
      some [("name", .string "Ada"), ("city", .string "Rome")] ∧
    (users.update crowd .empty {} lastTwo {} [] ⟨⟨0, "User"⟩, [.string "Eve"]⟩).result = .ok 2 ∧
    (users.update crowd .empty {} lastTwo {} [] ⟨⟨0, "User"⟩, [.string "Eve"]⟩).store.document? "users" "cyd" =
      some [("name", .string "Eve"), ("city", .string "Oslo")] ∧
    (users.update crowd .empty {} lastTwo {} ["city"] ⟨⟨0, "User"⟩, [.string "Eve"]⟩).store.document? "users" "cyd" =
      some [("name", .string "Cyd")] ∧
    (users.delete crowd {}).store.find "users" {} = .ok [] := by
  have reachable : crowd.Reachable := ((Store.Reachable.empty.write "users" "ada" _ .replace).write
    "users" "bob" _ .replace).write "users" "cyd" _ .replace
  have valid (mergePaths : List String) : (users.engine.validate .empty {} (updateOptions {} mergePaths)
      ⟨⟨0, "User"⟩, [.string "Eve"]⟩).result = .ok [("name", .string "Eve")] := rfl
  have lists : crowd.find "users" lastTwo =
    .ok [("cyd", [("name", .string "Cyd"), ("city", .string "Oslo")]), ("bob", [("name", .string "Bob")])] := rfl
  obtain ⟨-, treats⟩ := bulk_operations_treat_found users reachable lastTwo
  obtain ⟨⟨deleted, removes, -, -⟩, updates⟩ := treats _ lists
  obtain ⟨finds, alsoTreats⟩ := bulk_operations_treat_found users reachable {}
  obtain ⟨everyone, found⟩ := finds ⟨rfl, rfl⟩ (.inl (by decide))
  obtain ⟨⟨-, -, -, empties⟩, -⟩ := alsoTreats everyone found
  obtain ⟨chosen, mode, chose, writes⟩ := updates {} []
  obtain ⟨alsoChosen, paths, alsoChose, writesCity⟩ := updates {} ["city"]
  cases chose.options_eq
  cases chose.everything rfl
  cases alsoChose.options_eq
  cases alsoChose.listed (List.cons_ne_nil _ _)
  obtain ⟨updated, written, -⟩ := writes .empty {} _ _ (valid [])
  obtain ⟨-, cut, -⟩ := writesCity .empty {} _ _ (valid ["city"])
  have member : ("cyd", [("name", Value.string "Cyd"), ("city", .string "Oslo")]) ∈
    [("cyd", [("name", Value.string "Cyd"), ("city", .string "Oslo")]), ("bob", [("name", .string "Bob")])] :=
    List.mem_cons_self
  exact ⟨deleted, (removes.treated _ _ member).2, removes.rest "ada" (by decide), updated,
    (written.treated _ _ member).2, (cut.treated _ _ member).2, empties rfl rfl⟩

end Collection

end TaggedRecords
