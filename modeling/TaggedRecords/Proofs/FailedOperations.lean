import TaggedRecords.Collection
import TaggedRecords.Proofs.Selection

/-!
# Operations that fail

An operation on a collection leaves a reachable store, and if it fails it leaves the store as it was. A single
insertion, write or deletion either is carried out or changes nothing, and the loops over found documents meet each of
them where it was found, so that they never break off.
-/

namespace TaggedRecords

namespace Outcome
variable {α β : Type} {outcome : Outcome α} {store : Store}

/-- If the outcome is a fault, it leaves this store. -/
def Keeps (outcome : Outcome α) (store : Store) : Prop := ∀ fault, outcome.result = .error fault → outcome.store = store

theorem keeps_of_ok {a : α} (ok : outcome.result = .ok a) : outcome.Keeps store := by
  intro fault failed
  rw [ok] at failed
  cases failed

theorem Keeps.map (keeps : outcome.Keeps store) (form : α → β) : (outcome.map form).Keeps store := by
  intro fault failed
  refine keeps fault ?_
  cases result : outcome.result with
  | ok a => simp [Outcome.map, result, Except.map] at failed
  | error other => simpa [Outcome.map, result, Except.map] using failed

theorem reachable_andThen {next : α → Store → Outcome β} (left : outcome.store.Reachable)
    (each : ∀ a, outcome.result = .ok a → (next a outcome.store).store.Reachable) :
    (outcome.andThen next).store.Reachable := by
  unfold andThen
  split
  · next a ok => exact each a ok
  · exact left

end Outcome

namespace Store
variable {store : Store}

/-- An insertion that fails has found its collection open. -/
theorem insertion_keeps (store : Store) (collection id : String) (data : Document) :
    (store.insertion collection id data).Keeps store := by
  unfold insertion
  cases inserted : store.insert collection id data with
  | ok after => exact Outcome.keeps_of_ok rfl
  | error fault =>
    intro _ _
    have held : store.document? collection id ≠ none := by
      intro free
      rw [insert, free] at inserted
      cases inserted
    have opened : Entries.get? store.collections collection = some (store.documents collection) := by
      cases found : Entries.get? store.collections collection with
      | none => simp [document?, documents, found] at held
      | some documents => simp [Store.documents, found]
    exact congrArg Store.mk (Entries.insert_of_get? opened)

theorem deletion_keeps (store : Store) (collection id : String) : (store.deletion collection id).Keeps store := by
  unfold deletion
  cases store.delete collection id with
  | ok after => exact Outcome.keeps_of_ok rfl
  | error fault => exact fun _ _ => rfl

theorem reachable_insertion (reachable : store.Reachable) (collection id : String) (data : Document) :
    (store.insertion collection id data).store.Reachable := by
  cases inserted : store.insert collection id data with
  | ok after =>
    rw [insertion, inserted]
    exact reachable.insert inserted
  | error fault =>
    have failed : (store.insertion collection id data).result = .error fault := by rw [insertion, inserted]
    rw [store.insertion_keeps collection id data fault failed]
    exact reachable

theorem reachable_deletion (reachable : store.Reachable) (collection id : String) :
    (store.deletion collection id).store.Reachable := by
  unfold deletion
  cases deleted : store.delete collection id with
  | ok after => exact reachable.delete deleted
  | error fault => exact reachable

theorem reading_keeps {α : Type} (store : Store) (read : Store → Except StoreFault α) :
    (store.reading read).Keeps store :=
  fun _ _ => rfl

/-- A document that is there is taken out, and all others stay. -/
theorem deletion_of_held {collection id : String} (held : store.document? collection id ≠ none) :
    (store.deletion collection id).result = .ok () ∧ ∀ other, id ≠ other →
      (store.deletion collection id).store.document? collection other = store.document? collection other := by
  obtain ⟨document, found⟩ := Option.ne_none_iff_exists'.mp held
  have deleted : store.delete collection id =
      .ok (store.withDocuments collection (Entries.erase (store.documents collection) id)) := by
    rw [delete, found]
  rw [deletion, deleted]
  refine ⟨rfl, fun other differ => ?_⟩
  rw [document?, documents_withDocuments, if_pos rfl, Entries.get?_erase, if_neg differ]
  rfl

/-- What a query finds is there, each document under an id of its own. -/
theorem held_of_find (reachable : store.Reachable) {collection : String} {query : Query}
    {targets : List (String × Document)} (found : store.find collection query = .ok targets) :
    (∀ target ∈ targets, store.document? collection target.1 ≠ none) ∧ (targets.map Prod.fst).Nodup := by
  have distinct := reachable.distinct collection
  have within := Query.select_ok found
  refine ⟨fun target member => ?_, (Query.nodup_sorted distinct).sublist (within.map Prod.fst)⟩
  have stored := (Query.mem_sorted.mp (within.subset member)).1
  rw [document?, Entries.get?_of_mem distinct stored]
  exact Option.some_ne_none _

end Store

namespace Collection
variable {store : Store}

/-! ## The loops -/

theorem writeEach_ok (name : String) (document : Document) (mode : WriteMode) (store : Store)
    (targets : List (String × Document)) : (writeEach name document mode store targets).result = .ok () := by
  induction targets generalizing store with
  | nil => rfl
  | cons target rest ih => exact ih _

/-- Taking one document out leaves the others there, so the loop goes through. -/
theorem deleteEach_ok (name : String) {targets : List (String × Document)}
    (held : ∀ target ∈ targets, store.document? name target.1 ≠ none) (distinct : (targets.map Prod.fst).Nodup) :
    (deleteEach name store targets).result = .ok () := by
  induction targets generalizing store with
  | nil => rfl
  | cons target rest ih =>
    obtain ⟨fresh, below⟩ := List.nodup_cons.mp (show (target.1 :: rest.map Prod.fst).Nodup from distinct)
    obtain ⟨deleted, others⟩ := Store.deletion_of_held (held target List.mem_cons_self)
    rw [deleteEach, Outcome.andThen, deleted]
    refine ih (fun other member => ?_) below
    have differ : target.1 ≠ other.1 := fun same => fresh (same ▸ List.mem_map.mpr ⟨other, member, rfl⟩)
    rw [others other.1 differ]
    exact held other (List.mem_cons_of_mem _ member)

theorem reachable_writeEach (name : String) (document : Document) (mode : WriteMode) (reachable : store.Reachable)
    (targets : List (String × Document)) : (writeEach name document mode store targets).store.Reachable := by
  induction targets generalizing store with
  | nil => exact reachable
  | cons target rest ih => exact ih (reachable.write name target.1 document mode)

theorem reachable_deleteEach (name : String) (reachable : store.Reachable) (targets : List (String × Document)) :
    (deleteEach name store targets).store.Reachable := by
  induction targets generalizing store with
  | nil => exact reachable
  | cons target rest ih =>
    have left := Store.reachable_deletion reachable name target.1
    exact Outcome.reachable_andThen left fun _ _ => ih left

/-! ## The operations -/

theorem reachable_validated {α : Type} (collection : Collection) (cache : MetadataCache) (context : Context)
    (options : Options) (record : TypedRecord) {next : Document → Outcome α} (reachable : store.Reachable)
    (each : ∀ document, (next document).store.Reachable) :
    (collection.validated store cache context options record next).store.Reachable := by
  dsimp only [validated]
  cases (collection.engine.validate cache context options record).result with
  | error fault => exact reachable
  | ok document => exact each document

/-- Whatever is asked of a collection, a reachable store stays reachable. -/
theorem reachable_perform (collection : Collection) (reachable : store.Reachable) (cache : MetadataCache)
    (request : Request) : (collection.perform store cache request).store.Reachable := by
  cases request with
  | create context options record id =>
    have created : (collection.create store cache context options record id).store.Reachable :=
      reachable_validated collection cache context _ record reachable fun document =>
        Store.reachable_insertion reachable collection.name id document
    exact created
  | update context query options mergePaths record =>
    have updated : (collection.update store cache context query options mergePaths record).store.Reachable :=
      reachable_validated collection cache context _ record reachable fun document =>
        Outcome.reachable_andThen reachable fun targets _ =>
          reachable_writeEach collection.name document _ reachable targets
    exact updated
  | updateById context id options mergePaths record =>
    have updated : (collection.updateById store cache context id options mergePaths record).store.Reachable :=
      reachable_validated collection cache context _ record reachable fun document =>
        reachable.write collection.name id document _
    exact updated
  | delete query =>
    have deleted : (collection.delete store query).store.Reachable :=
      Outcome.reachable_andThen reachable fun targets _ => reachable_deleteEach collection.name reachable targets
    exact deleted
  | deleteById id => exact Store.reachable_deletion reachable collection.name id
  | find _ | findById _ | count _ => exact reachable

theorem validated_keeps {α : Type} (collection : Collection) (cache : MetadataCache) (context : Context)
    (options : Options) (record : TypedRecord) {next : Document → Outcome α}
    (each : ∀ document, (next document).Keeps store) :
    (collection.validated store cache context options record next).toOutcome.Keeps store := by
  dsimp only [validated]
  cases (collection.engine.validate cache context options record).result with
  | error fault => exact fun _ _ => rfl
  | ok document => exact each document

/-- A loop over what a query finds only fails if the query does, before the loop begins. -/
theorem found_keeps {α : Type} {name : String} {query : Query}
    {next : List (String × Document) → Store → Outcome α}
    (loop : ∀ targets, store.find name query = .ok targets → (next targets store).Keeps store) :
    ((store.reading fun store => store.find name query).andThen next).Keeps store := by
  dsimp only [Outcome.andThen, Store.reading]
  cases found : store.find name query with
  | error fault => exact fun _ _ => rfl
  | ok targets => exact loop targets found

theorem update_keeps (collection : Collection) (cache : MetadataCache) (context : Context) (query : Query)
    (options : Options) (mergePaths : List String) (record : TypedRecord) :
    (collection.update store cache context query options mergePaths record).toOutcome.Keeps store := by
  refine validated_keeps collection cache context _ record fun document => found_keeps fun targets _ => ?_
  exact (Outcome.keeps_of_ok (writeEach_ok collection.name document _ store targets)).map _

theorem delete_keeps (collection : Collection) (reachable : store.Reachable) (query : Query) :
    (collection.delete store query).Keeps store := by
  refine found_keeps fun targets found => ?_
  obtain ⟨held, distinct⟩ := Store.held_of_find reachable found
  exact (Outcome.keeps_of_ok (deleteEach_ok collection.name held distinct)).map _

/-- Whatever is asked of a collection, a failure leaves a reachable store as it was. -/
theorem perform_keeps (collection : Collection) (reachable : store.Reachable) (cache : MetadataCache)
    (request : Request) : (collection.perform store cache request).toOutcome.Keeps store := by
  cases request with
  | create context options record id =>
    have created : (collection.create store cache context options record id).toOutcome.Keeps store :=
      validated_keeps collection cache context _ record fun document =>
        store.insertion_keeps collection.name id document
    exact created.map _
  | update context query options mergePaths record =>
    exact (update_keeps collection cache context query options mergePaths record).map _
  | updateById context id options mergePaths record =>
    have updated : (collection.updateById store cache context id options mergePaths record).toOutcome.Keeps store :=
      validated_keeps collection cache context _ record fun document => Outcome.keeps_of_ok rfl
    exact updated.map _
  | find query => exact (store.reading_keeps _).map _
  | findById id => exact (store.reading_keeps _).map _
  | delete query => exact (delete_keeps collection reachable query).map _
  | deleteById id => exact (store.deletion_keeps collection.name id).map _
  | count query => exact (store.reading_keeps _).map _

/-- What a query finds is taken out to the last document. -/
theorem delete_of_found (collection : Collection) (reachable : store.Reachable) {query : Query}
    {targets : List (String × Document)} (found : store.find collection.name query = .ok targets) :
    (collection.delete store query).result = .ok targets.length := by
  obtain ⟨held, distinct⟩ := Store.held_of_find reachable found
  have deleted := deleteEach_ok collection.name held distinct
  simp [delete, Outcome.andThen, Store.reading, found, Outcome.map, deleted, Except.map]

/-- A document that validation returns is written into all that the query finds. -/
theorem update_of_found (collection : Collection) {cache : MetadataCache} {context : Context} {query : Query}
    {options : Options} {mergePaths : List String} {record : TypedRecord} {document : Document}
    {targets : List (String × Document)} (found : store.find collection.name query = .ok targets)
    (valid : (collection.engine.validate cache context (updateOptions options mergePaths) record).result =
      .ok document) :
    (collection.update store cache context query options mergePaths record).result = .ok targets.length := by
  have written := writeEach_ok collection.name document (updateMode mergePaths) store targets
  simp [update, validated, valid, Outcome.andThen, Store.reading, found, Outcome.map, written, Except.map]

/-- In a reachable store an operation on a collection that fails leaves the store as it was, and one that succeeds leaves
a reachable store. The loops that write or take out what a query has found never fail, so that a bulk update or
deletion that gets as far as its first document ends with the last one. -/
theorem failed_request_keeps_store (collection : Collection) {store : Store} (reachable : store.Reachable)
    (cache : MetadataCache) :
    (∀ request fault, (collection.perform store cache request).result = .error fault →
      (collection.perform store cache request).store = store) ∧
    (∀ request, (collection.perform store cache request).store.Reachable) ∧
    ∀ query targets, store.find collection.name query = .ok targets →
      (collection.delete store query).result = .ok targets.length ∧
      ∀ context options mergePaths record document,
        (collection.engine.validate cache context (updateOptions options mergePaths) record).result = .ok document →
        (collection.update store cache context query options mergePaths record).result = .ok targets.length := by
  refine ⟨fun request => perform_keeps collection reachable cache request,
    collection.reachable_perform reachable cache, fun query targets found => ⟨?_, ?_⟩⟩
  · exact delete_of_found collection reachable found
  · exact fun context options mergePaths record document valid => update_of_found collection found valid

/-- A collection of users with a name. -/
def users : Collection := ⟨"users", ⟨⟨[⟨"User", [⟨"name", "name", .string⟩]⟩]⟩, .empty, ⟨3⟩⟩⟩

/-- A user whose id is taken is refused, and taking out all users reaches both of them. -/
theorem failed_request_keeps_store_taken : ∃ store : Store, store.size "users" = 2 ∧
    (users.perform store .empty (.create {} {} ⟨⟨0, "User"⟩, [.string "Eve"]⟩ "ada")).result.isOk = false ∧
    (users.perform store .empty (.create {} {} ⟨⟨0, "User"⟩, [.string "Eve"]⟩ "ada")).store = store ∧
    (users.delete store {}).result = .ok 2 := by
  have reachable := (Store.Reachable.empty.write "users" "ada" [("name", .string "Ada")] .replace).write
    "users" "bob" [("name", .string "Bob")] .replace
  obtain ⟨kept, _, loops⟩ := failed_request_keeps_store users reachable .empty
  have refused : (users.perform ((Store.empty.write "users" "ada" [("name", .string "Ada")] .replace).write
      "users" "bob" [("name", .string "Bob")] .replace) .empty
        (.create {} {} ⟨⟨0, "User"⟩, [.string "Eve"]⟩ "ada")).result.isOk = false := by decide +kernel
  refine ⟨_, rfl, refused, ?_, (loops {} _ rfl).1⟩
  cases ended : (users.perform _ .empty (.create {} {} ⟨⟨0, "User"⟩, [.string "Eve"]⟩ "ada")).result with
  | error fault => exact kept _ fault ended
  | ok answer =>
    rw [ended] at refused
    cases refused

end Collection

end TaggedRecords
