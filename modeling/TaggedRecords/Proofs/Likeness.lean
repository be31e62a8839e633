import Mathlib.Data.List.Nodup
import TaggedRecords.Proofs.DistinctKeys

/-!
# Proper values and likeness

A value is proper if no mapping in it has a key twice, as is every value that a typed record holds. Two
values are alike if they are the same but for the order of the entries in their mappings; floating-point
numbers are compared by their bits, so a NaN is like itself.
-/

namespace TaggedRecords

mutual

/-- The keys of every mapping in the value are distinct. -/
def Value.Proper : Value → Prop
  | .sequence items => ItemsProper items
  | .mapping entries => Entries.Distinct entries ∧ EntriesProper entries
  | .record _ fields => EntriesProper fields
  | _ => True

/-- Every item is proper. -/
def ItemsProper : List Value → Prop
  | [] => True
  | item :: rest => item.Proper ∧ ItemsProper rest

/-- Every entry's value is proper. -/
def EntriesProper : List (String × Value) → Prop
  | [] => True
  | (_, value) :: rest => value.Proper ∧ EntriesProper rest

end

mutual

/-- The same value but for the order of entries in mappings. -/
def Value.Alike : Value → Value → Prop
  | .sequence as, .sequence bs => ItemsAlike as bs
  | .mapping as, .mapping bs => ∃ cs : List (String × Value), cs.Perm bs ∧ EntriesAlike as cs
  | .record t as, .record u bs => t = u ∧ EntriesAlike as bs
  | a, b => a = b

/-- Alike values in the same places. -/
def ItemsAlike : List Value → List Value → Prop
  | [], [] => True
  | a :: as, b :: bs => a.Alike b ∧ ItemsAlike as bs
  | _, _ => False

/-- Alike values under the same names in the same places. -/
def EntriesAlike : List (String × Value) → List (String × Value) → Prop
  | [], [] => True
  | (k, a) :: as, (l, b) :: bs => k = l ∧ a.Alike b ∧ EntriesAlike as bs
  | _, _ => False

end

/-- A document whose mappings have distinct keys throughout. -/
def Document.Proper (document : Document) : Prop := (Value.mapping document).Proper

/-- The same document but for the order of entries. -/
def Document.Alike (left right : Document) : Prop := (Value.mapping left).Alike (.mapping right)

/-! ## Proper values -/

theorem itemsProper_iff {items : List Value} : ItemsProper items ↔ ∀ item ∈ items, item.Proper := by
  induction items with
  | nil => simp [ItemsProper]
  | cons item rest ih => simp [ItemsProper, ih]

theorem entriesProper_iff {entries : List (String × Value)} :
    EntriesProper entries ↔ ∀ entry ∈ entries, entry.2.Proper := by
  induction entries with
  | nil => simp [EntriesProper]
  | cons entry rest ih =>
    obtain ⟨key, value⟩ := entry
    simp [EntriesProper, ih]

theorem proper_of_get? {entries : List (String × Value)} (proper : EntriesProper entries) {key : String}
    {value : Value} (found : Entries.get? entries key = some value) : value.Proper :=
  entriesProper_iff.mp proper _ (Entries.mem_of_get? found)

theorem entriesProper_insert {entries : Entries Value} {value : Value} (proper : EntriesProper entries)
    (new : value.Proper) (key : String) : EntriesProper (Entries.insert entries key value) := by
  induction entries with
  | nil => exact ⟨new, trivial⟩
  | cons entry rest ih =>
    obtain ⟨k, old⟩ := entry
    by_cases here : k = key
    · simpa [Entries.insert, here, EntriesProper] using And.intro new proper.2
    · simpa [Entries.insert, here, EntriesProper] using And.intro proper.1 (ih proper.2)

theorem Document.proper_insert {document : Document} {value : Value} (proper : document.Proper)
    (new : value.Proper) (key : String) : Document.Proper (Entries.insert document key value) :=
  ⟨Entries.distinct_insert proper.1 key value, entriesProper_insert proper.2 new key⟩

theorem Document.proper_erase {document : Document} (proper : document.Proper) (key : String) :
    Document.Proper (Entries.erase document key) := by
  refine ⟨Entries.distinct_erase proper.1 key, entriesProper_iff.mpr ?_⟩
  intro entry member
  rw [Entries.erase_eq_filter] at member
  exact entriesProper_iff.mp proper.2 entry (List.mem_filter.mp member).1

theorem Document.proper_nil : Document.Proper [] := ⟨List.nodup_nil, trivial⟩

/-! ## Likeness -/

mutual

theorem Value.alike_refl : ∀ value : Value, value.Alike value
  | .null | .bool _ | .int _ | .uint _ | .float _ | .string _ | .bytes _ | .time _ | .delete => by
    simp [Value.Alike]
  | .sequence items => itemsAlike_refl items
  | .mapping entries => ⟨entries, List.Perm.refl _, entriesAlike_refl entries⟩
  | .record _ fields => ⟨rfl, entriesAlike_refl fields⟩

theorem itemsAlike_refl : ∀ items : List Value, ItemsAlike items items
  | [] => trivial
  | item :: rest => ⟨item.alike_refl, itemsAlike_refl rest⟩

theorem entriesAlike_refl : ∀ entries : List (String × Value), EntriesAlike entries entries
  | [] => trivial
  | (_, value) :: rest => ⟨rfl, value.alike_refl, entriesAlike_refl rest⟩

end

theorem keys_of_entriesAlike {as bs : List (String × Value)} (alike : EntriesAlike as bs) :
    Entries.keys as = Entries.keys bs := by
  induction as generalizing bs with
  | nil =>
    cases bs with
    | nil => rfl
    | cons entry rest => exact alike.elim
  | cons entry rest ih =>
    cases bs with
    | nil => exact alike.elim
    | cons other others =>
      obtain ⟨same, _, below⟩ := alike
      have tails : rest.map Prod.fst = others.map Prod.fst := ih below
      simp [Entries.keys, same, tails]

theorem alike_sequence_iff {value : Value} {items : List Value} :
    value.Alike (.sequence items) ↔ ∃ others, value = .sequence others ∧ ItemsAlike others items := by
  cases value <;> simp [Value.Alike]

theorem alike_mapping_iff {value : Value} {entries : List (String × Value)} :
    value.Alike (.mapping entries) ↔
      ∃ others, value = .mapping others ∧ (Value.mapping others).Alike (.mapping entries) := by
  cases value <;> simp [Value.Alike]

theorem alike_record_iff {value : Value} {type : RecordType} {fields : List (String × Value)} :
    value.Alike (.record type fields) ↔ ∃ others, value = .record type others ∧ EntriesAlike others fields := by
  cases value <;> simp [Value.Alike]

theorem Value.kind_of_alike {value other : Value} (alike : value.Alike other) : value.kind = other.kind := by
  cases value <;> cases other <;> first | rfl | cases alike

mutual

/-- A value is proper if one that is like it is. -/
theorem Value.proper_of_alike : ∀ {value other : Value}, value.Alike other → value.Proper → other.Proper
  | .sequence _, other, alike, proper => by
    cases other with
    | sequence _ => exact itemsProper_of_alike alike proper
    | _ => cases alike
  | .mapping _, other, alike, proper => by
    cases other with
    | mapping _ =>
      obtain ⟨reordered, perm, inPlace⟩ := alike
      have distinct : (Entries.keys reordered).Nodup := keys_of_entriesAlike inPlace ▸ proper.1
      refine ⟨(perm.map Prod.fst).nodup_iff.mp distinct, entriesProper_iff.mpr fun entry member => ?_⟩
      exact entriesProper_iff.mp (entriesProper_of_alike inPlace proper.2) entry (perm.mem_iff.mpr member)
    | _ => cases alike
  | .record _ _, other, alike, proper => by
    cases other with
    | record _ _ => exact entriesProper_of_alike alike.2 proper
    | _ => cases alike
  | .null, other, alike, _ | .bool _, other, alike, _ | .int _, other, alike, _ | .uint _, other, alike, _
  | .float _, other, alike, _ | .string _, other, alike, _ | .bytes _, other, alike, _ | .time _, other, alike, _
  | .delete, other, alike, _ => by cases other <;> cases alike; trivial

theorem itemsProper_of_alike : ∀ {items others : List Value}, ItemsAlike items others → ItemsProper items →
    ItemsProper others
  | [], [], _, _ => trivial
  | _ :: _, _ :: _, ⟨head, tail⟩, ⟨proper, below⟩ =>
    ⟨Value.proper_of_alike head proper, itemsProper_of_alike tail below⟩

theorem entriesProper_of_alike : ∀ {entries others : List (String × Value)}, EntriesAlike entries others →
    EntriesProper entries → EntriesProper others
  | [], [], _, _ => trivial
  | (_, _) :: _, (_, _) :: _, ⟨_, head, tail⟩, ⟨proper, below⟩ =>
    ⟨Value.proper_of_alike head proper, entriesProper_of_alike tail below⟩

end

theorem itemsAlike_length {as bs : List Value} (alike : ItemsAlike as bs) : as.length = bs.length := by
  induction as generalizing bs with
  | nil =>
    cases bs with
    | nil => rfl
    | cons b rest => exact alike.elim
  | cons a rest ih =>
    cases bs with
    | nil => exact alike.elim
    | cons b others => exact congrArg (· + 1) (ih alike.2)

theorem itemsAlike_getElem? {as bs : List Value} (alike : ItemsAlike as bs) (place : Nat) :
    Option.Rel Value.Alike as[place]? bs[place]? := by
  induction as generalizing bs place with
  | nil =>
    cases bs with
    | nil => exact .none
    | cons b rest => exact alike.elim
  | cons a rest ih =>
    cases bs with
    | nil => exact alike.elim
    | cons b others =>
      cases place with
      | zero => exact .some alike.1
      | succ place => exact ih alike.2 place

theorem itemsAlike_of_getElem? {as bs : List Value} (length : as.length = bs.length)
    (each : ∀ (place : Nat) a b, as[place]? = some a → bs[place]? = some b → a.Alike b) : ItemsAlike as bs := by
  induction as generalizing bs with
  | nil =>
    cases bs with
    | nil => trivial
    | cons b rest => cases length
  | cons a rest ih =>
    cases bs with
    | nil => cases length
    | cons b others => exact ⟨each 0 a b rfl rfl, ih (Nat.succ.inj length) fun place => each (place + 1)⟩

theorem entriesAlike_getElem? {as bs : List (String × Value)} (alike : EntriesAlike as bs) {place : Nat}
    {name : String} {a : Value} (held : as[place]? = some (name, a)) :
    ∃ b, bs[place]? = some (name, b) ∧ a.Alike b := by
  induction as generalizing bs place with
  | nil => cases held
  | cons entry rest ih =>
    cases bs with
    | nil => exact alike.elim
    | cons other others =>
      obtain ⟨same, head, tail⟩ := alike
      cases place with
      | zero =>
        cases held
        obtain ⟨key, b⟩ := other
        cases same
        exact ⟨b, rfl, head⟩
      | succ place => exact ih tail held

/-- Entries that agree in place agree under every key. -/
theorem get?_of_entriesAlike {as bs : List (String × Value)} (alike : EntriesAlike as bs) (key : String) :
    Option.Rel Value.Alike (Entries.get? as key) (Entries.get? bs key) := by
  induction as generalizing bs with
  | nil =>
    cases bs with
    | nil => exact .none
    | cons entry rest => exact alike.elim
  | cons entry rest ih =>
    cases bs with
    | nil => exact alike.elim
    | cons other others =>
      obtain ⟨k, a⟩ := entry
      obtain ⟨l, b⟩ := other
      obtain ⟨same, heads, below⟩ := alike
      cases same
      rw [Entries.get?_cons, Entries.get?_cons]
      by_cases here : k = key
      · simpa [here] using Option.Rel.some heads
      · simpa [here] using ih below

theorem entriesAlike_insert {as bs : Entries Value} {a b : Value} (alike : EntriesAlike as bs) (new : a.Alike b)
    (key : String) : EntriesAlike (Entries.insert as key a) (Entries.insert bs key b) := by
  induction as generalizing bs with
  | nil =>
    cases bs with
    | nil => exact ⟨rfl, new, trivial⟩
    | cons entry rest => exact alike.elim
  | cons entry rest ih =>
    cases bs with
    | nil => exact alike.elim
    | cons other others =>
      obtain ⟨k, old⟩ := entry
      obtain ⟨l, otherOld⟩ := other
      obtain ⟨same, head, tail⟩ := alike
      cases same
      by_cases here : k = key
      · simp only [Entries.insert, here, if_true]
        exact ⟨rfl, new, tail⟩
      · simp only [Entries.insert, here, if_false]
        exact ⟨rfl, head, ih tail⟩

/-- Under every key, alike mappings hold alike values. -/
theorem get?_of_alike {as bs : List (String × Value)} (alike : (Value.mapping as).Alike (.mapping bs))
    (distinct : Entries.Distinct bs) (key : String) :
    Option.Rel Value.Alike (Entries.get? as key) (Entries.get? bs key) := by
  obtain ⟨cs, perm, inPlace⟩ := alike
  rw [← Entries.get?_perm perm distinct key]
  exact get?_of_entriesAlike inPlace key

/-- Entries are alike in place to what is read out of others in the order of their keys. -/
theorem entriesAlike_readOut {as bs : List (String × Value)}
    (each : ∀ key a, (key, a) ∈ as → ∃ b, Entries.get? bs key = some b ∧ a.Alike b) :
    EntriesAlike as ((Entries.keys as).filterMap (Entries.read? bs)) := by
  induction as with
  | nil => trivial
  | cons entry rest ih =>
    obtain ⟨key, a⟩ := entry
    obtain ⟨b, found, alike⟩ := each key a List.mem_cons_self
    have read : Entries.read? bs key = some (key, b) := by
      rw [Entries.read?, found]
      rfl
    rw [Entries.keys, List.map_cons, List.filterMap_cons_some read]
    exact ⟨rfl, alike, ih fun k v member => each k v (List.mem_cons_of_mem _ member)⟩

/-- Mappings with distinct keys that hold alike values under every key are alike. -/
theorem alike_of_get? {as bs : List (String × Value)} (left : Entries.Distinct as) (right : Entries.Distinct bs)
    (agree : ∀ key, Option.Rel Value.Alike (Entries.get? as key) (Entries.get? bs key)) :
    (Value.mapping as).Alike (.mapping bs) := by
  have sameKeys : (Entries.keys as).Perm (Entries.keys bs) := by
    refine (List.perm_ext_iff_of_nodup left right).mpr fun key => ?_
    rw [← not_iff_not, ← Entries.get?_eq_none_iff, ← Entries.get?_eq_none_iff]
    exact ⟨eq_none_of_rel_left (agree key), eq_none_of_rel_right (agree key)⟩
  refine ⟨_, Entries.readOut_perm right sameKeys, entriesAlike_readOut fun key a member => ?_⟩
  exact exists_of_rel_left (agree key) (Entries.get?_of_mem left member)

end TaggedRecords
