import TaggedRecords.Proofs.FailedOperations

/-!
# Updates among deletions

An update by query makes one search and then one write for each document found, and another client's deletions may fall
between these calls. The update keeps no hold on what it has found: a write creates the document if it is not there any
more. So the ids in the end are among those of the beginning, but a document that was found and deleted before its write
stands there again, with what is written alone. Once the search has returned nothing keeps the update from its end, and
the search returns wherever it is settled how the documents of the beginning are sorted.
-/

namespace TaggedRecords

/-- An update by query behind its validation: what it searches for, and what it writes into all that it finds. -/
structure BulkWrite where
  name : String
  query : Query
  document : Document
  mode : WriteMode

/-- How far such an update has come. -/
inductive Progress where
  | searching
  | writing (written rest : List (String × Document))
  | refused (fault : StoreFault)

/-- What a call changed. -/
inductive Change where
  | wrote (id : String)
  | removed (id : String)
deriving DecidableEq

/-- Whose call is next: the update's, or the deletion of a document by the other client. -/
inductive Turn where
  | update
  | deletion (id : String)

/-- Whether the next call is the update's. -/
def Turn.isUpdate : Turn → Bool
  | update => true
  | deletion _ => false

/-- The store that both clients work on, the progress of the update, and what was changed so far. -/
structure Race where
  store : Store
  progress : Progress
  changes : List Change

/-- What the update has found, in the order of its writes. -/
def Progress.found : Progress → List (String × Document)
  | searching => []
  | writing written rest => written ++ rest
  | refused _ => []

/-- What the update has written. -/
def Progress.written : Progress → List (String × Document)
  | searching => []
  | writing written _ => written
  | refused _ => []

/-- What the update returns, once it has nothing left to do. -/
def Progress.result? : Progress → Option (Except StoreFault Nat)
  | searching => none
  | writing written [] => some (.ok written.length)
  | writing _ (_ :: _) => none
  | refused fault => some (.error fault)

/-- The id that was written. -/
def Change.written? : Change → Option String
  | wrote id => some id
  | removed _ => none

namespace BulkWrite

/-- The next call of the update. -/
def call (update : BulkWrite) (race : Race) : Race :=
  match race.progress with
  | .searching =>
    match race.store.find update.name update.query with
    | .ok targets => { race with progress := .writing [] targets }
    | .error fault => { race with progress := .refused fault }
  | .writing written (target :: rest) =>
    ⟨(race.store.writing update.name target.1 update.document update.mode).store, .writing (written ++ [target]) rest,
      race.changes ++ [.wrote target.1]⟩
  | .writing _ [] => race
  | .refused _ => race

/-- One call of either client. -/
def turn (update : BulkWrite) (race : Race) : Turn → Race
  | .update => update.call race
  | .deletion id =>
    { race with store := (race.store.deletion update.name id).store, changes := race.changes ++ [.removed id] }

/-- The calls of both clients from a store, one after the other. -/
def race (update : BulkWrite) (store : Store) (turns : List Turn) : Race :=
  turns.foldl update.turn ⟨store, .searching, []⟩

/-- What stands under an id after a change. -/
def behind (update : BulkWrite) (id : String) (held : Option Document) : Change → Option Document
  | .wrote other => if other = id then some (update.mode.apply (held.getD []) update.document) else held
  | .removed other => if other = id then none else held

end BulkWrite

/-- What the calls of both clients have done to a store. -/
structure Race.Settles (race : Race) (update : BulkWrite) (store : Store) (turns : List Turn) : Prop where
  /-- No id is there that was not there before. -/
  ids : ∀ id, race.store.document? update.name id ≠ none → store.document? update.name id ≠ none
  /-- What is written was found in the store as it stood when the update searched it. -/
  found : ∀ written rest, race.progress = .writing written rest → ∃ earlier later,
    turns = earlier ++ Turn.update :: later ∧ (update.race store earlier).progress = .searching ∧
      (update.race store earlier).store.find update.name update.query = .ok (written ++ rest)
  /-- It is written in this order, each document once. -/
  writes : race.changes.filterMap Change.written? = race.progress.written.map Prod.fst
  once : (race.progress.found.map Prod.fst).Nodup
  /-- A document that nobody has deleted is as it was, or as the write of the update leaves it. -/
  kept : ∀ id, .removed id ∉ race.changes → race.store.document? update.name id =
    if .wrote id ∈ race.changes then some (update.mode.apply (store.content update.name id) update.document)
    else store.document? update.name id
  /-- A deleted document stays away, unless it is written after its last deletion: then nothing else stands in it. -/
  deleted : ∀ id earlier later, race.changes = earlier ++ .removed id :: later → .removed id ∉ later →
    race.store.document? update.name id =
      if .wrote id ∈ later then some (update.mode.apply [] update.document) else none
  /-- Other collections are left alone. -/
  others : ∀ other, update.name ≠ other → race.store.documents other = store.documents other

/-! ## Single calls -/

namespace Store
variable (store : Store) (collection id : String)

theorem document?_put_of (document : Document) (other : String) :
    (store.put collection id document).document? collection other =
      if id = other then some document else store.document? collection other := by
  rw [document?, put, documents_withDocuments, if_pos rfl, Entries.get?_insertByKey]
  rfl

theorem document?_deletion (other : String) :
    (store.deletion collection id).store.document? collection other =
      if id = other then none else store.document? collection other := by
  unfold deletion delete
  cases found : store.document? collection id with
  | none =>
    by_cases same : id = other
    · rw [if_pos same, ← same]
      exact found
    · rw [if_neg same]
  | some document =>
    simp only
    rw [document?, documents_withDocuments, if_pos rfl, Entries.get?_erase]
    rfl

theorem documents_deletion {other : String} (apart : collection ≠ other) :
    (store.deletion collection id).store.documents other = store.documents other := by
  unfold deletion delete
  cases store.document? collection id with
  | none => rfl
  | some document => simp only [documents_withDocuments, if_neg apart]

end Store

/-! ## What changes leave under an id -/

namespace BulkWrite
variable {update : BulkWrite} {id : String}

theorem behind_unwritten {changes : List Change} (held : Option Document) (unremoved : .removed id ∉ changes)
    (unwritten : .wrote id ∉ changes) : changes.foldl (update.behind id) held = held := by
  induction changes with
  | nil => rfl
  | cons change rest ih =>
    have here : update.behind id held change = held := by
      cases change with
      | wrote other =>
        have apart : other ≠ id := fun same => unwritten (same ▸ List.mem_cons_self)
        exact if_neg apart
      | removed other =>
        have apart : other ≠ id := fun same => unremoved (same ▸ List.mem_cons_self)
        exact if_neg apart
    rw [List.foldl_cons, here]
    exact ih (fun later => unremoved (List.mem_cons_of_mem _ later))
      fun later => unwritten (List.mem_cons_of_mem _ later)

/-- What stands under an id that no change has written stood there before. -/
theorem held_of_behind {changes : List Change} {held : Option Document} {document : Document}
    (unwritten : .wrote id ∉ changes) (left : changes.foldl (update.behind id) held = some document) :
    held = some document := by
  induction changes generalizing held with
  | nil => exact left
  | cons change rest ih =>
    have here := ih (fun later => unwritten (List.mem_cons_of_mem _ later)) left
    cases change with
    | wrote other =>
      have apart : other ≠ id := fun same => unwritten (same ▸ List.mem_cons_self)
      rwa [behind, if_neg apart] at here
    | removed other =>
      rw [behind] at here
      split at here
      · cases here
      · exact here

theorem mem_written {changes : List Change} : id ∈ changes.filterMap Change.written? ↔ .wrote id ∈ changes := by
  rw [List.mem_filterMap]
  constructor
  · rintro ⟨change, member, same⟩
    cases change with
    | wrote other =>
      cases same
      exact member
    | removed other => cases same
  · exact fun member => ⟨_, member, rfl⟩

/-- Changes that write each id once and do not remove this one leave it as its write does. -/
theorem behind_unremoved {changes : List Change} (held : Option Document) (unremoved : .removed id ∉ changes)
    (once : (changes.filterMap Change.written?).Nodup) : changes.foldl (update.behind id) held =
      if .wrote id ∈ changes then some (update.mode.apply (held.getD []) update.document) else held := by
  by_cases writes : .wrote id ∈ changes
  · rw [if_pos writes]
    obtain ⟨earlier, later, rfl⟩ := List.append_of_mem writes
    have parts : (earlier ++ .wrote id :: later).filterMap Change.written? =
        earlier.filterMap Change.written? ++ id :: later.filterMap Change.written? := by
      rw [List.filterMap_append]
      rfl
    rw [parts, List.nodup_append, List.nodup_cons] at once
    have before : .wrote id ∉ earlier := fun twice =>
      once.2.2 id (mem_written.mpr twice) id List.mem_cons_self rfl
    rw [List.foldl_append, List.foldl_cons,
      behind_unwritten held (fun among => unremoved (List.mem_append_left _ among)) before,
      behind_unwritten _ (fun among => unremoved (List.mem_append_right _ (List.mem_cons_of_mem _ among)))
        fun among => once.2.1.1 (mem_written.mpr among)]
    exact if_pos rfl
  · rw [if_neg writes, behind_unwritten held unremoved writes]

end BulkWrite

/-! ## What every call keeps -/

/-- What holds between the calls, wherever the update stands. -/
structure Race.Sound (race : Race) (update : BulkWrite) (store : Store) : Prop where
  reachable : race.store.Reachable
  ids : ∀ id, race.store.document? update.name id ≠ none → store.document? update.name id ≠ none
  traced : ∀ id, race.store.document? update.name id =
    race.changes.foldl (update.behind id) (store.document? update.name id)
  writes : race.changes.filterMap Change.written? = race.progress.written.map Prod.fst
  held : ∀ target ∈ race.progress.found, store.document? update.name target.1 ≠ none
  once : (race.progress.found.map Prod.fst).Nodup
  others : ∀ other, update.name ≠ other → race.store.documents other = store.documents other

namespace Race.Sound
variable {update : BulkWrite} {store : Store} {race : Race}

/-- A deletion only takes something out. -/
theorem deletion (sound : race.Sound update store) (id : String) :
    (update.turn race (.deletion id)).Sound update store where
  reachable := Store.reachable_deletion sound.reachable update.name id
  ids other there := by
    refine sound.ids other fun absent => there ?_
    rw [BulkWrite.turn, Store.document?_deletion, absent, ite_self]
  traced other := by
    rw [BulkWrite.turn, Store.document?_deletion, List.foldl_append, ← sound.traced other]
    rfl
  writes := by
    rw [BulkWrite.turn, List.filterMap_append]
    exact (List.append_nil _).trans sound.writes
  held := sound.held
  once := sound.once
  others other apart := (Store.documents_deletion race.store update.name id apart).trans (sound.others other apart)

/-- A search reads what the store still holds. -/
theorem search {targets : List (String × Document)} (sound : race.Sound update store)
    (searching : race.progress = .searching) (found : race.store.find update.name update.query = .ok targets) :
    Race.Sound { race with progress := .writing [] targets } update store where
  reachable := sound.reachable
  ids := sound.ids
  traced := sound.traced
  writes := by
    have writes := sound.writes
    rw [searching] at writes
    exact writes
  held target member := sound.ids target.1 ((Store.held_of_find sound.reachable found).1 target member)
  once := (Store.held_of_find sound.reachable found).2
  others := sound.others

/-- A write puts something under an id that was there when the update began. -/
theorem write {written rest : List (String × Document)} {target : String × Document} (sound : race.Sound update store)
    (writing : race.progress = .writing written (target :: rest)) :
    Race.Sound ⟨race.store.write update.name target.1 update.document update.mode, .writing (written ++ [target]) rest,
      race.changes ++ [.wrote target.1]⟩ update store where
  reachable := sound.reachable.write update.name target.1 update.document update.mode
  ids other there := by
    by_cases same : target.1 = other
    · rw [← same]
      exact sound.held target (by simp [writing, Progress.found])
    · refine sound.ids other fun absent => there ?_
      rw [Store.write, Store.document?_put_of, if_neg same, absent]
  traced other := by
    rw [Store.write, Store.document?_put_of, List.foldl_append, ← sound.traced other]
    by_cases same : target.1 = other
    · simp [BulkWrite.behind, same]
    · simp [BulkWrite.behind, same]
  writes := by
    have writes := sound.writes
    rw [writing] at writes
    rw [List.filterMap_append, writes]
    simp [Progress.written, Change.written?]
  held other member := sound.held other (by simpa [writing, Progress.found] using member)
  once := by
    have once := sound.once
    rw [writing] at once
    simpa [Progress.found] using once
  others other apart := by
    rw [Store.write, Store.put, Store.documents_withDocuments, if_neg apart]
    exact sound.others other apart

/-- Every call of either client keeps the race sound. -/
theorem turn (sound : race.Sound update store) (turn : Turn) : (update.turn race turn).Sound update store := by
  cases turn with
  | deletion id => exact sound.deletion id
  | update =>
    show (update.call race).Sound update store
    cases progress : race.progress with
    | searching =>
      cases found : race.store.find update.name update.query with
      | ok targets => simpa only [BulkWrite.call, progress, found] using sound.search progress found
      | error fault =>
        have writes := sound.writes
        rw [progress] at writes
        simp only [BulkWrite.call, progress, found]
        exact ⟨sound.reachable, sound.ids, sound.traced, writes, nofun, List.nodup_nil, sound.others⟩
    | writing written rest =>
      cases rest with
      | nil => simpa only [BulkWrite.call, progress] using sound
      | cons target rest =>
        simp only [BulkWrite.call, progress]
        exact sound.write progress
    | refused fault => simpa only [BulkWrite.call, progress] using sound

/-- As long as the update searches, the documents are among those of the beginning. -/
theorem mem_documents (sound : race.Sound update store) (searching : race.progress = .searching)
    {stored : String × Document} (stands : stored ∈ race.store.documents update.name) :
    stored ∈ store.documents update.name := by
  have nothing : race.changes.filterMap Change.written? = [] := by
    rw [sound.writes, searching]
    rfl
  have unwritten : .wrote stored.1 ∉ race.changes := fun writes => by
    rw [← BulkWrite.mem_written, nothing] at writes
    cases writes
  have held : race.store.document? update.name stored.1 = some stored.2 :=
    Entries.get?_of_mem (sound.reachable.distinct update.name) stands
  rw [sound.traced] at held
  exact Entries.mem_of_get? (BulkWrite.held_of_behind unwritten held)

/-- The update has found no more documents than there were in the beginning. -/
theorem length_found_le (sound : race.Sound update store) :
    race.progress.found.length ≤ (store.documents update.name).length := by
  have inside : race.progress.found.map Prod.fst ⊆ Entries.keys (store.documents update.name) := by
    intro id member
    obtain ⟨target, found, rfl⟩ := List.mem_map.mp member
    obtain ⟨document, held⟩ := Option.ne_none_iff_exists'.mp (sound.held target found)
    exact Entries.mem_keys_of_get? held
  have few := (sound.once.subperm inside).length_le
  rwa [List.length_map, Entries.keys, List.length_map] at few

end Race.Sound

/-- How far an update has come after so many of its calls, if its search returns. -/
inductive Progress.After (calls : Nat) : Progress → Prop
  | searching (none : calls = 0) : After calls .searching
  | writing {written rest : List (String × Document)} (behind : rest = [] ∨ calls = written.length + 1) :
      After calls (.writing written rest)

namespace BulkWrite
variable (update : BulkWrite) {store : Store}

theorem race_concat (store : Store) (turns : List Turn) (turn : Turn) :
    update.race store (turns ++ [turn]) = update.turn (update.race store turns) turn := by
  rw [race, List.foldl_append]
  rfl

theorem sound_race (reachable : store.Reachable) (turns : List Turn) :
    (update.race store turns).Sound update store := by
  induction turns using List.reverseRecOn with
  | nil => exact ⟨reachable, fun _ => id, fun _ => rfl, rfl, nofun, List.nodup_nil, fun _ _ => rfl⟩
  | append_singleton turns turn ih =>
    rw [race_concat]
    exact ih.turn turn

/-- Behind its search an update writes what it has found then. -/
theorem found_race (store : Store) (turns : List Turn) {written rest : List (String × Document)}
    (writing : (update.race store turns).progress = .writing written rest) : ∃ earlier later,
      turns = earlier ++ Turn.update :: later ∧ (update.race store earlier).progress = .searching ∧
        (update.race store earlier).store.find update.name update.query = .ok (written ++ rest) := by
  induction turns using List.reverseRecOn generalizing written rest with
  | nil => cases writing
  | append_singleton turns turn ih =>
    -- All turns but the search leave what was found, so that it comes of the turns before.
    have before : ∀ written' rest', (update.race store turns).progress = .writing written' rest' →
        written' ++ rest' = written ++ rest → ∃ earlier later,
          turns ++ [turn] = earlier ++ Turn.update :: later ∧ (update.race store earlier).progress = .searching ∧
            (update.race store earlier).store.find update.name update.query = .ok (written ++ rest) := by
      intro written' rest' progress same
      obtain ⟨earlier, later, rfl, searching, found⟩ := ih progress
      exact ⟨earlier, later ++ [turn], by simp, searching, same ▸ found⟩
    rw [race_concat] at writing
    cases turn with
    | deletion id => exact before written rest writing rfl
    | update =>
      rw [BulkWrite.turn] at writing
      cases progress : (update.race store turns).progress with
      | searching =>
        cases found : (update.race store turns).store.find update.name update.query with
        | ok targets =>
          simp only [call, progress, found, Progress.writing.injEq] at writing
          obtain ⟨rfl, rfl⟩ := writing
          exact ⟨turns, [], rfl, progress, found⟩
        | error fault => simp [call, progress, found] at writing
      | writing written' rest' =>
        refine before written' rest' progress ?_
        cases rest' with
        | nil =>
          simp only [call, progress, Progress.writing.injEq] at writing
          rw [writing.1, writing.2]
        | cons target others =>
          simp only [call, progress, Progress.writing.injEq] at writing
          simp [← writing.1, ← writing.2]
      | refused fault => simp [call, progress] at writing

/-- Left to itself, an update that has found something writes it as one loop does. -/
theorem race_writing (written rest : List (String × Document)) (changes : List Change) :
    (List.replicate rest.length Turn.update).foldl update.turn ⟨store, .writing written rest, changes⟩ =
      ⟨(Collection.writeEach update.name update.document update.mode store rest).store, .writing (written ++ rest) [],
        changes ++ rest.map fun target => .wrote target.1⟩ := by
  induction rest generalizing store written changes with
  | nil => simp [Collection.writeEach]
  | cons target rest ih =>
    rw [List.length_cons, List.replicate_succ, List.foldl_cons, turn, call, ih]
    simp [Collection.writeEach, Outcome.andThen, Store.writing]

/-! ## How an update ends -/

/-- Whenever it comes, the search returns if it is settled how the documents of the beginning are sorted. -/
theorem after_race (reachable : store.Reachable) (cursorless : update.query.start = none ∧ update.query.finish = none)
    (settled : update.query.Settled (store.documents update.name)) (turns : List Turn) :
    (update.race store turns).progress.After (turns.countP Turn.isUpdate) := by
  induction turns using List.reverseRecOn with
  | nil => exact .searching rfl
  | append_singleton turns turn ih =>
    have sound := update.sound_race reachable turns
    rw [race_concat, List.countP_append]
    cases turn with
    | deletion id => exact ih
    | update =>
      show (update.call (update.race store turns)).progress.After (turns.countP Turn.isUpdate + 1)
      cases progress : (update.race store turns).progress with
      | searching =>
        rw [progress] at ih
        cases ih with
        | searching none =>
          have stillSettled := settled.mono (sound.reachable.distinct update.name) fun _ stands =>
            sound.mem_documents progress stands
          have returns := Query.select_eq cursorless stillSettled
          rw [call, progress, none]
          simp only [Store.find, returns]
          exact .writing (.inr rfl)
      | writing written rest =>
        rw [progress] at ih
        cases ih with
        | writing behind =>
          cases rest with
          | nil =>
            rw [call, progress]
            simp only [progress]
            exact .writing (.inl rfl)
          | cons target rest =>
            have calls := behind.resolve_left (List.cons_ne_nil _ _)
            rw [call, progress, calls]
            exact .writing (.inr (by simp))
      | refused fault =>
        rw [progress] at ih
        cases ih

/-- Behind its search an update ends after one call for each document that is left, whatever deletions fall between. -/
theorem ends_writing {race : Race} {written rest : List (String × Document)}
    (writing : race.progress = .writing written rest) {later : List Turn}
    (enough : rest.length ≤ later.countP Turn.isUpdate) :
    (later.foldl update.turn race).progress.result? = some (.ok (written.length + rest.length)) := by
  induction later generalizing race written rest with
  | nil =>
    obtain rfl : rest = [] := List.eq_nil_of_length_eq_zero (Nat.le_zero.mp enough)
    rw [List.foldl_nil, writing]
    rfl
  | cons turn later ih =>
    rw [List.foldl_cons]
    cases turn with
    | deletion id => exact ih writing enough
    | update =>
      rw [List.countP_cons_of_pos rfl] at enough
      cases rest with
      | nil =>
        have still : (update.call race).progress = .writing written [] := by
          rw [call, writing]
          exact writing
        exact ih still (Nat.zero_le _)
      | cons target rest =>
        have next : (update.call race).progress = .writing (written ++ [target]) rest := by rw [call, writing]
        have ended := ih next (Nat.le_of_succ_le_succ enough)
        rw [List.length_append, List.length_singleton, Nat.add_assoc, Nat.add_comm 1] at ended
        exact ended

/-- An update that can search ends after one call more than there were documents, whatever deletions fall between. -/
theorem ends_race (reachable : store.Reachable) (cursorless : update.query.start = none ∧ update.query.finish = none)
    (settled : update.query.Settled (store.documents update.name)) {turns : List Turn}
    (enough : (store.documents update.name).length < turns.countP Turn.isUpdate) :
    ∃ count, (update.race store turns).progress.result? = some (.ok count) := by
  have sound := update.sound_race reachable turns
  have after := update.after_race reachable cursorless settled turns
  have few := sound.length_found_le
  cases progress : (update.race store turns).progress with
  | searching =>
    rw [progress] at after
    cases after with
    | searching none => omega
  | writing written rest =>
    rw [progress] at after few
    cases after with
    | writing behind =>
      have nothing : rest = [] := by
        refine behind.elim id fun calls => List.eq_nil_of_length_eq_zero ?_
        rw [Progress.found, List.length_append] at few
        omega
      rw [nothing]
      exact ⟨written.length, rfl⟩
  | refused fault =>
    rw [progress] at after
    cases after

/-- Whatever deletions fall between its calls, the update brings in no id. -/
theorem settles_race (reachable : store.Reachable) (turns : List Turn) :
    (update.race store turns).Settles update store turns := by
  have sound := update.sound_race reachable turns
  have once : ((update.race store turns).changes.filterMap Change.written?).Nodup := by
    rw [sound.writes]
    refine sound.once.sublist (List.Sublist.map Prod.fst ?_)
    cases (update.race store turns).progress with
    | writing written rest => exact List.sublist_append_left written rest
    | searching | refused _ => exact List.Sublist.refl _
  refine ⟨sound.ids, fun _ _ => update.found_race store turns, sound.writes, sound.once, fun id unremoved => ?_,
    fun id earlier later changes unremoved => ?_, sound.others⟩
  · rw [sound.traced id, behind_unremoved _ unremoved once]
    rfl
  · rw [changes, List.filterMap_append, List.nodup_append] at once
    rw [sound.traced id, changes, List.foldl_append, List.foldl_cons, behind, if_pos rfl,
      behind_unremoved none unremoved once.2.1]
    rfl

end BulkWrite

/-! ## Updates of a collection -/

namespace Collection

/-- The calls that an update of the collection makes of the store, once validation has returned a document. -/
def bulkWrite (collection : Collection) (query : Query) (mergePaths : List String) (document : Document) : BulkWrite :=
  ⟨collection.name, query, document, updateMode mergePaths⟩

/-- Left to itself, an update is a run of its calls. -/
theorem update_alone (collection : Collection) (store : Store) {cache : MetadataCache} {context : Context}
    (query : Query) {options : Options} {mergePaths : List String} {record : TypedRecord} {document : Document}
    (valid : (collection.engine.validate cache context (updateOptions options mergePaths) record).result =
      .ok document) : ∃ count,
    ((collection.bulkWrite query mergePaths document).race store (List.replicate count .update)).progress.result? =
      some (collection.update store cache context query options mergePaths record).result ∧
    ((collection.bulkWrite query mergePaths document).race store (List.replicate count .update)).store =
      (collection.update store cache context query options mergePaths record).store := by
  cases found : store.find collection.name query with
  | error fault =>
    have searched : (collection.bulkWrite query mergePaths document).race store [.update] =
        ⟨store, .refused fault, []⟩ := by
      simp only [BulkWrite.race, List.foldl_cons, List.foldl_nil, BulkWrite.turn, BulkWrite.call, bulkWrite, found]
    refine ⟨1, ?_⟩
    rw [List.replicate_one, searched]
    simp [Progress.result?, update, validated, valid, Outcome.andThen, Store.reading, found]
  | ok targets =>
    refine ⟨targets.length + 1, ?_⟩
    have searched : (collection.bulkWrite query mergePaths document).turn ⟨store, .searching, []⟩ .update =
        ⟨store, .writing [] targets, []⟩ := by
      simp only [BulkWrite.turn, BulkWrite.call, bulkWrite, found]
    rw [BulkWrite.race, List.replicate_succ, List.foldl_cons, searched, BulkWrite.race_writing]
    have written := writeEach_ok collection.name document (updateMode mergePaths) store targets
    simp [Progress.result?, bulkWrite, update, validated, valid, Outcome.andThen, Outcome.map, Store.reading, found,
      written, Except.map]

/-- Whatever deletions by another client fall between the calls of an update by query, no id is there in the end that
was not there before. A document that is deleted stays away, unless the search had found it and its write comes behind
the deletion: that creates it again, with nothing in it but what is written. Once the search has returned the update ends
after one call for each document that is left, and it always ends if it has no cursors and it is settled how the
documents of the beginning are sorted. Left to itself it does what an update does. -/
theorem update_among_deletions (collection : Collection) {store : Store} (reachable : store.Reachable) (query : Query)
    (mergePaths : List String) (document : Document) :
    (∀ turns, ((collection.bulkWrite query mergePaths document).race store turns).Settles
      (collection.bulkWrite query mergePaths document) store turns) ∧
    (∀ earlier later written rest,
      ((collection.bulkWrite query mergePaths document).race store earlier).progress = .writing written rest →
      rest.length ≤ later.countP Turn.isUpdate →
      ((collection.bulkWrite query mergePaths document).race store (earlier ++ later)).progress.result? =
        some (.ok (written.length + rest.length))) ∧
    ((query.start = none ∧ query.finish = none) → query.Settled (store.documents collection.name) →
      ∀ turns, (store.documents collection.name).length < turns.countP Turn.isUpdate →
        ∃ count, ((collection.bulkWrite query mergePaths document).race store turns).progress.result? =
          some (.ok count)) ∧
    ∀ cache context options record,
      (collection.engine.validate cache context (updateOptions options mergePaths) record).result = .ok document →
      ∃ count,
        ((collection.bulkWrite query mergePaths document).race store (List.replicate count .update)).progress.result? =
          some (collection.update store cache context query options mergePaths record).result ∧
        ((collection.bulkWrite query mergePaths document).race store (List.replicate count .update)).store =
          (collection.update store cache context query options mergePaths record).store := by
  refine ⟨(collection.bulkWrite query mergePaths document).settles_race reachable,
    fun earlier later written rest writing enough => ?_, fun cursorless settled turns enough => ?_,
    fun cache context options record valid => collection.update_alone store query valid⟩
  · rw [BulkWrite.race, List.foldl_append]
    exact (collection.bulkWrite query mergePaths document).ends_writing writing enough
  · exact (collection.bulkWrite query mergePaths document).ends_race reachable cursorless settled enough

/-- Ada, who lives in Rome, and Bob. -/
def neighbours : Store :=
  (Store.empty.write "users" "ada" [("name", .string "Ada"), ("city", .string "Rome")] .replace).write
    "users" "bob" [("name", .string "Bob")] .replace

/-- All users are named Eve. -/
def overwriting : BulkWrite := users.bulkWrite {} [] [("name", .string "Eve")]

theorem neighbours_reachable : neighbours.Reachable :=
  (Store.Reachable.empty.write "users" "ada" _ .replace).write "users" "bob" _ .replace

/-- Ada is deleted behind the search, and Bob behind his write: she is there again, without a city, and he is not. -/
theorem overwriting_among_deletions :
    (overwriting.race neighbours [.update, .deletion "ada", .update, .update, .deletion "bob"]).progress.result? =
      some (.ok 2) ∧
    (overwriting.race neighbours [.update, .deletion "ada", .update, .update, .deletion "bob"]).store.document?
      "users" "ada" = some [("name", .string "Eve")] ∧
    (overwriting.race neighbours [.update, .deletion "ada", .update, .update, .deletion "bob"]).store.document?
      "users" "bob" = none ∧
    (∃ count, (overwriting.race neighbours [.update, .update, .deletion "bob", .update]).progress.result? =
      some (.ok count)) ∧
    ∃ count, (overwriting.race neighbours (List.replicate count .update)).progress.result? =
      some (users.update neighbours .empty {} {} {} [] ⟨⟨0, "User"⟩, [.string "Eve"]⟩).result := by
  have valid : (users.engine.validate .empty {} (updateOptions {} []) ⟨⟨0, "User"⟩, [.string "Eve"]⟩).result =
    .ok [("name", .string "Eve")] := rfl
  obtain ⟨settles, ends, returns, alone⟩ :=
    update_among_deletions users neighbours_reachable {} [] [("name", .string "Eve")]
  have settled := settles [.update, .deletion "ada", .update, .update, .deletion "bob"]
  obtain ⟨count, ended, -⟩ := alone .empty {} {} ⟨⟨0, "User"⟩, [.string "Eve"]⟩ valid
  exact ⟨ends [.update] [.deletion "ada", .update, .update, .deletion "bob"] [] _ rfl (by decide),
    settled.deleted "ada" [] [.wrote "ada", .wrote "bob", .removed "bob"] rfl (by decide),
    settled.deleted "bob" [.removed "ada", .wrote "ada", .wrote "bob"] [] rfl (by decide),
    returns ⟨rfl, rfl⟩ (.inl (by decide)) [.update, .update, .deletion "bob", .update] (by decide), count, ended⟩

/-- A document that is deleted behind the search need not stay away. -/
theorem deletion_undone : ¬ ∀ (collection : Collection) (store : Store) (query : Query) (mergePaths : List String)
    (document : Document) (earlier later : List Turn) (id : String), store.Reachable →
    (∃ written rest, ((collection.bulkWrite query mergePaths document).race store earlier).progress =
      .writing written rest) →
    (((collection.bulkWrite query mergePaths document).race store earlier).store.deletion collection.name id).result =
      .ok () →
    ((collection.bulkWrite query mergePaths document).race store (earlier ++ .deletion id :: later)).store.document?
      collection.name id = none := by
  intro stays
  have gone := stays users neighbours {} [] [("name", .string "Eve")] [.update] [.update] "ada" neighbours_reachable
    ⟨[], _, rfl⟩ rfl
  cases gone

end Collection

end TaggedRecords
