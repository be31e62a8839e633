import TaggedRecords.Proofs.Stripping

/-!
# Tombstones in documents

Where tombstones stand in a value, when a fresh write takes all of them out, and when that leaves the document that
was there before they came in.
-/

namespace TaggedRecords

mutual

/-- Whether no tombstone stands anywhere in the value. -/
def Value.isFree : Value → Bool
  | .delete => false
  | .sequence items => itemsFree items
  | .mapping entries => entriesFree entries
  | .record _ fields => entriesFree fields
  | _ => true

/-- Whether no item has a tombstone. -/
def itemsFree : List Value → Bool
  | [] => true
  | item :: rest => item.isFree && itemsFree rest

/-- Whether no entry has a tombstone. -/
def entriesFree : List (String × Value) → Bool
  | [] => true
  | (_, value) :: rest => value.isFree && entriesFree rest

end

mutual

/-- Whether every tombstone stands behind keys of mappings alone, and none inside a sequence or a record. -/
def Value.isShallow : Value → Bool
  | .mapping entries => entriesShallow entries
  | other => other.isFree

/-- Whether every entry is a tombstone or has only such tombstones. -/
def entriesShallow : List (String × Value) → Bool
  | [] => true
  | (_, value) :: rest => (value.isDelete || value.isShallow) && entriesShallow rest

end

/-- A tombstone of the first value stands where the second holds something. -/
def Value.Displaces (marked plain : Value) : Prop := ∃ keys, marked.at? keys = some .delete ∧ plain.at? keys ≠ none

/-- The second value is the first but for tombstones in its mappings: they may be added under new keys or stand in
the place of what was there. -/
inductive Value.Marked : Value → Value → Prop where
  | same (value : Value) : Marked value value
  | sequence {as bs : List Value} (length : as.length = bs.length)
      (each : ∀ (place : Nat) a b, as[place]? = some a → bs[place]? = some b → Marked a b) :
      Marked (.sequence as) (.sequence bs)
  | mapping {as bs : List (String × Value)}
      (added : ∀ key, Entries.get? as key = none → Entries.get? bs key = none ∨ Entries.get? bs key = some .delete)
      (kept : ∀ key a, Entries.get? as key = some a → Entries.get? bs key ≠ none)
      (each : ∀ key a b, Entries.get? as key = some a → Entries.get? bs key = some b → b ≠ .delete → Marked a b) :
      Marked (.mapping as) (.mapping bs)

/-! ## Values without tombstones -/

theorem itemsFree_iff {items : List Value} : itemsFree items = true ↔ ∀ item ∈ items, item.isFree = true := by
  induction items with
  | nil => simp [itemsFree]
  | cons item rest ih => simp [itemsFree, ih]

theorem entriesFree_iff {entries : List (String × Value)} :
    entriesFree entries = true ↔ ∀ entry ∈ entries, entry.2.isFree = true := by
  induction entries with
  | nil => simp [entriesFree]
  | cons entry rest ih =>
    obtain ⟨key, value⟩ := entry
    simp [entriesFree, ih]

theorem entriesShallow_iff {entries : List (String × Value)} :
    entriesShallow entries = true ↔ ∀ entry ∈ entries, entry.2 = .delete ∨ entry.2.isShallow = true := by
  induction entries with
  | nil => simp [entriesShallow]
  | cons entry rest ih =>
    obtain ⟨key, value⟩ := entry
    simp [entriesShallow, ih, Value.isDelete_iff]

mutual

/-- What has no tombstones is stripped of nothing. -/
theorem Value.stripped_of_isFree : ∀ {value : Value}, value.isFree = true → value.stripped = value
  | .mapping _, free => congrArg Value.mapping (strippedEntries_of_free free)
  | .sequence _, _ | .record _ _, _ | .null, _ | .bool _, _ | .int _, _ | .uint _, _ | .float _, _ | .string _, _
  | .bytes _, _ | .time _, _ | .delete, _ => rfl

theorem strippedEntries_of_free : ∀ {entries : List (String × Value)}, entriesFree entries = true →
    strippedEntries entries = entries
  | [], _ => rfl
  | (key, value) :: rest, free => by
    obtain ⟨head, tail⟩ := Bool.and_eq_true_iff.mp free
    have stays : value.isDelete = false := by
      cases value <;> first | rfl | cases head
    rw [strippedEntries, stays, Value.stripped_of_isFree head, strippedEntries_of_free tail]
    rfl

end

mutual

/-- What has no tombstones behind keys or elsewhere has none. -/
theorem Value.isShallow_of_isFree : ∀ {value : Value}, value.isFree = true → value.isShallow = true
  | .mapping _, free => entriesShallow_of_free free
  | .sequence _, free | .record _ _, free => free
  | .null, _ | .bool _, _ | .int _, _ | .uint _, _ | .float _, _ | .string _, _ | .bytes _, _ | .time _, _ => rfl

theorem entriesShallow_of_free : ∀ {entries : List (String × Value)}, entriesFree entries = true →
    entriesShallow entries = true
  | [], _ => rfl
  | (_, value) :: _, free => by
    obtain ⟨head, tail⟩ := Bool.and_eq_true_iff.mp free
    rw [entriesShallow, Value.isShallow_of_isFree head, entriesShallow_of_free tail, Bool.or_true]
    rfl

end

mutual

/-- A value is free of tombstones if one that is like it is. -/
theorem Value.isFree_of_alike : ∀ {value other : Value}, value.Alike other → value.isFree = true → other.isFree = true
  | .sequence _, other, alike, free => by
    cases other with
    | sequence _ => exact itemsFree_of_alike alike free
    | _ => cases alike
  | .mapping _, other, alike, free => by
    cases other with
    | mapping _ =>
      obtain ⟨reordered, perm, inPlace⟩ := alike
      refine entriesFree_iff.mpr fun entry member => ?_
      exact entriesFree_iff.mp (entriesFree_of_alike inPlace free) entry (perm.mem_iff.mpr member)
    | _ => cases alike
  | .record _ _, other, alike, free => by
    cases other with
    | record _ _ => exact entriesFree_of_alike alike.2 free
    | _ => cases alike
  | .null, other, alike, _ | .bool _, other, alike, _ | .int _, other, alike, _ | .uint _, other, alike, _
  | .float _, other, alike, _ | .string _, other, alike, _ | .bytes _, other, alike, _ | .time _, other, alike, _ => by
    cases other <;> cases alike; rfl

theorem itemsFree_of_alike : ∀ {items others : List Value}, ItemsAlike items others → itemsFree items = true →
    itemsFree others = true
  | [], [], _, _ => rfl
  | _ :: _, _ :: _, ⟨head, tail⟩, free => by
    obtain ⟨here, below⟩ := Bool.and_eq_true_iff.mp free
    exact Bool.and_eq_true_iff.mpr ⟨Value.isFree_of_alike head here, itemsFree_of_alike tail below⟩

theorem entriesFree_of_alike : ∀ {entries others : List (String × Value)}, EntriesAlike entries others →
    entriesFree entries = true → entriesFree others = true
  | [], [], _, _ => rfl
  | (_, _) :: _, (_, _) :: _, ⟨_, head, tail⟩, free => by
    obtain ⟨here, below⟩ := Bool.and_eq_true_iff.mp free
    exact Bool.and_eq_true_iff.mpr ⟨Value.isFree_of_alike head here, entriesFree_of_alike tail below⟩

end

theorem Value.isFree_of_at? {value found : Value} (free : value.isFree = true) {keys : List String}
    (held : value.at? keys = some found) : found.isFree = true := by
  induction keys generalizing value with
  | nil =>
    rw [at?_nil] at held
    cases held
    exact free
  | cons key rest ih =>
    cases value with
    | mapping entries =>
      rw [at?_mapping_cons] at held
      obtain ⟨inner, inside, below⟩ := Option.bind_eq_some_iff.mp held
      exact ih (entriesFree_iff.mp free _ (Entries.mem_of_get? inside)) below
    | _ => cases held

mutual

/-- A value has no tombstones if none stands behind keys and none elsewhere. -/
theorem Value.isFree_of_isShallow : ∀ {value : Value}, value.Proper → value.isShallow = true →
    (∀ keys, value.at? keys ≠ some .delete) → value.isFree = true
  | .mapping _, ⟨distinct, proper⟩, shallow, nowhere =>
    entriesFree_of_shallow proper shallow fun key value member keys held => nowhere (key :: keys) (by
      rw [Value.at?_mapping_cons, Entries.get?_of_mem distinct member]
      exact held)
  | .sequence _, _, shallow, _ | .record _ _, _, shallow, _ => shallow
  | .delete, _, shallow, _ => shallow
  | .null, _, _, _ | .bool _, _, _, _ | .int _, _, _, _ | .uint _, _, _, _ | .float _, _, _, _ | .string _, _, _, _
  | .bytes _, _, _, _ | .time _, _, _, _ => rfl

theorem entriesFree_of_shallow : ∀ {entries : List (String × Value)}, EntriesProper entries →
    entriesShallow entries = true →
    (∀ key value, (key, value) ∈ entries → ∀ keys, value.at? keys ≠ some .delete) → entriesFree entries = true
  | [], _, _, _ => rfl
  | (key, value) :: _, ⟨head, tail⟩, shallow, inNone => by
    obtain ⟨here, below⟩ := Bool.and_eq_true_iff.mp shallow
    have nowhere : ∀ keys, value.at? keys ≠ some .delete := inNone key value List.mem_cons_self
    have stays : value.isDelete = false := by
      cases gone : value.isDelete with
      | false => rfl
      | true => exact absurd (by rw [Value.isDelete_iff.mp gone]; exact Value.at?_nil _) (nowhere [])
    rw [stays, Bool.false_or] at here
    exact Bool.and_eq_true_iff.mpr ⟨Value.isFree_of_isShallow head here nowhere,
      entriesFree_of_shallow tail below fun k v member => inNone k v (List.mem_cons_of_mem _ member)⟩

end

/-! ## Stripping marked values -/

/-- Stripping gives the plain entries if it does so under every key of theirs and only tombstones stand elsewhere. -/
theorem strippedEntries_alike {as bs : List (String × Value)} (distinct : Entries.Distinct as)
    (alsoDistinct : Entries.Distinct bs)
    (added : ∀ key, Entries.get? as key = none → Entries.get? bs key = none ∨ Entries.get? bs key = some .delete)
    (kept : ∀ key a, Entries.get? as key = some a → Entries.get? bs key ≠ none)
    (below : ∀ key a b, Entries.get? as key = some a → Entries.get? bs key = some b →
      b ≠ .delete ∧ b.stripped.Alike a ∧ b.stripped.isFree = true) :
    (Value.mapping (strippedEntries bs)).Alike (.mapping as) ∧ entriesFree (strippedEntries bs) = true := by
  have gone : ∀ key, Entries.get? as key = none → Entries.get? (strippedEntries bs) key = none := by
    intro key absent
    rw [get?_strippedEntries alsoDistinct]
    rcases added key absent with none | tombstone
    · rw [none]
      rfl
    · rw [tombstone]
      rfl
  have left : ∀ key a, Entries.get? as key = some a → ∃ b, Entries.get? (strippedEntries bs) key = some b ∧
      b.Alike a ∧ b.isFree = true := by
    intro key a held
    obtain ⟨b, heldB⟩ := Option.ne_none_iff_exists'.mp (kept key a held)
    obtain ⟨solid, alike, free⟩ := below key a b held heldB
    refine ⟨b.stripped, ?_, alike, free⟩
    rw [get?_strippedEntries alsoDistinct, heldB, Option.bind_some, Value.kept?_of_ne solid]
  refine ⟨alike_of_get? (distinct_strippedEntries alsoDistinct) distinct fun key => ?_, ?_⟩
  · cases held : Entries.get? as key with
    | none =>
      rw [gone key held]
      exact .none
    | some a =>
      obtain ⟨b, found, alike, _⟩ := left key a held
      rw [found]
      exact .some alike
  · refine entriesFree_iff.mpr fun entry member => ?_
    have found := Entries.get?_of_mem (distinct_strippedEntries alsoDistinct)
      (show (entry.1, entry.2) ∈ strippedEntries bs from member)
    cases held : Entries.get? as entry.1 with
    | none => cases found.symm.trans (gone entry.1 held)
    | some a =>
      obtain ⟨b, foundB, _, free⟩ := left entry.1 a held
      rwa [Option.some.inj (found.symm.trans foundB)]

/-- If all tombstones stand behind keys where the plain value holds nothing, stripping gives the plain value. -/
theorem Value.stripped_of_marked {plain marked : Value} (related : plain.Marked marked) (proper : plain.Proper)
    (alsoProper : marked.Proper) (shallow : marked.isShallow = true) (apart : ¬ marked.Displaces plain) :
    marked.stripped.Alike plain ∧ marked.stripped.isFree = true := by
  induction related with
  | same value =>
    have nowhere : ∀ keys, value.at? keys ≠ some .delete :=
      fun keys held => apart ⟨keys, held, by rw [held]; nofun⟩
    have free := Value.isFree_of_isShallow proper shallow nowhere
    rw [Value.stripped_of_isFree free]
    exact ⟨Value.alike_refl value, free⟩
  | @sequence as bs length each ih =>
    -- A sequence is not entered, so its items are free of tombstones as they are.
    have alike : ItemsAlike bs as := by
      refine itemsAlike_of_getElem? length.symm fun place b a heldB heldA => ?_
      have free : b.isFree = true := itemsFree_iff.mp shallow b (List.mem_of_getElem? heldB)
      have still := ih place a b heldA heldB (itemsProper_iff.mp proper a (List.mem_of_getElem? heldA))
        (itemsProper_iff.mp alsoProper b (List.mem_of_getElem? heldB)) (Value.isShallow_of_isFree free)
        (fun ⟨keys, held, _⟩ => by cases Value.isFree_of_at? free held)
      rw [Value.stripped_of_isFree free] at still
      exact still.1
    exact ⟨alike, shallow⟩
  | @mapping as bs added kept each ih =>
    obtain ⟨distinct, properEntries⟩ := proper
    obtain ⟨alsoDistinct, alsoProperEntries⟩ := alsoProper
    refine strippedEntries_alike distinct alsoDistinct added kept fun key a b heldA heldB => ?_
    have atKey : ∀ keys, (Value.mapping bs).at? (key :: keys) = b.at? keys ∧
        (Value.mapping as).at? (key :: keys) = a.at? keys := by
      intro keys
      rw [Value.at?_mapping_cons, Value.at?_mapping_cons, heldB, heldA]
      exact ⟨rfl, rfl⟩
    have apartBelow : ¬ b.Displaces a := by
      rintro ⟨keys, tombstone, present⟩
      exact apart ⟨key :: keys, (atKey keys).1.trans tombstone, by rwa [(atKey keys).2]⟩
    have solid : b ≠ .delete := by
      rintro rfl
      exact apartBelow ⟨[], Value.at?_nil _, by rw [Value.at?_nil]; nofun⟩
    have shallowBelow : b.isShallow = true := by
      rcases entriesShallow_iff.mp shallow _ (Entries.mem_of_get? heldB) with tombstone | deeper
      · exact absurd tombstone solid
      · exact deeper
    exact ⟨solid, ih key a b heldA heldB solid (proper_of_get? properEntries heldA)
      (proper_of_get? alsoProperEntries heldB) shallowBelow apartBelow⟩

mutual

/-- If nothing is left of the tombstones, all of them stood behind keys. -/
theorem Value.isShallow_of_stripped : ∀ {value : Value}, value.stripped.isFree = true → value.isShallow = true
  | .mapping _, free => entriesShallow_of_stripped free
  | .sequence _, free | .record _ _, free | .delete, free => free
  | .null, _ | .bool _, _ | .int _, _ | .uint _, _ | .float _, _ | .string _, _ | .bytes _, _ | .time _, _ => rfl

theorem entriesShallow_of_stripped : ∀ {entries : List (String × Value)},
    entriesFree (strippedEntries entries) = true → entriesShallow entries = true
  | [], _ => rfl
  | (key, value) :: rest, free => by
    rw [strippedEntries] at free
    cases gone : value.isDelete with
    | true =>
      rw [gone] at free
      rw [entriesShallow, gone, entriesShallow_of_stripped free]
      rfl
    | false =>
      rw [gone] at free
      obtain ⟨head, tail⟩ := Bool.and_eq_true_iff.mp free
      rw [entriesShallow, Value.isShallow_of_stripped head, entriesShallow_of_stripped tail, Bool.or_true]
      rfl

end

/-- Stripping a marked value gives the plain value, free of tombstones, exactly if all tombstones stand behind keys
where the plain value holds nothing. -/
theorem Value.stripped_of_marked_iff {plain marked : Value} (related : plain.Marked marked) (proper : plain.Proper)
    (alsoProper : marked.Proper) :
    (marked.stripped.Alike plain ∧ marked.stripped.isFree = true) ↔
      (marked.isShallow = true ∧ ¬ marked.Displaces plain) := by
  constructor
  · rintro ⟨alike, free⟩
    refine ⟨Value.isShallow_of_stripped free, ?_⟩
    rintro ⟨keys, held, present⟩
    by_cases top : keys = []
    · rw [top, at?_nil] at held
      cases held
      cases free
    · have gone := Value.at?_stripped alsoProper top
      rw [held] at gone
      exact present (eq_none_of_rel_left (Value.at?_alike alike proper keys) gone)
  · rintro ⟨shallow, apart⟩
    exact Value.stripped_of_marked related proper alsoProper shallow apart

end TaggedRecords
