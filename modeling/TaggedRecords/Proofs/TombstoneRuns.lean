import TaggedRecords.Proofs.ChainWrites
import TaggedRecords.Proofs.StoreLaws
import TaggedRecords.Proofs.Tombstones

/-!
# Runs that leave tombstones

The run that emits tombstones for what it leaves out fails where the run without tombstones fails, and otherwise
its document is the other one but for tombstones. A fresh write of it stores the other document exactly if the
tombstones stand behind keys of mappings alone and displace nothing.
-/

namespace TaggedRecords

/-! ## Two plans that agree -/

/-- The same failure, or related results. -/
inductive Agree {α β : Type} (Rel : α → β → Prop) : Except Fault α → Except Fault β → Prop where
  | failed (fault : Fault) : Agree Rel (.error fault) (.error fault)
  | ended {a : α} {b : β} (related : Rel a b) : Agree Rel (.ok a) (.ok b)

/-- The outcomes of the plans agree. -/
def Plan.Agree (catalog : Catalog) (registry : Registry) {α β : Type} (Rel : α → β → Prop) (left : Plan α)
    (right : Plan β) : Prop :=
  TaggedRecords.Agree Rel (left.outcome catalog registry) (right.outcome catalog registry)

section
variable {catalog : Catalog} {registry : Registry} {α β γ δ : Type}

theorem Agree.bind {Rel : α → β → Prop} {Next : γ → δ → Prop} {left : Except Fault α} {right : Except Fault β}
    {follow : α → Except Fault γ} {alsoFollow : β → Except Fault δ} (first : TaggedRecords.Agree Rel left right)
    (second : ∀ a b, Rel a b → TaggedRecords.Agree Next (follow a) (alsoFollow b)) :
    TaggedRecords.Agree Next (left.bind follow) (right.bind alsoFollow) := by
  cases first with
  | failed fault => exact .failed fault
  | ended related => exact second _ _ related

theorem Agree.cases {Rel : α → β → Prop} {left : Except Fault α} {right : Except Fault β}
    (agree : TaggedRecords.Agree Rel left right) :
    (∃ fault, left = .error fault ∧ right = .error fault) ∨ ∃ a b, left = .ok a ∧ right = .ok b ∧ Rel a b := by
  cases agree with
  | failed fault => exact .inl ⟨fault, rfl, rfl⟩
  | ended related => exact .inr ⟨_, _, rfl, rfl, related⟩

theorem Plan.Agree.bind {Rel : α → β → Prop} {Next : γ → δ → Prop} {left : Plan α} {right : Plan β}
    {follow : α → Plan γ} {alsoFollow : β → Plan δ} (first : left.Agree catalog registry Rel right)
    (second : ∀ a b, Rel a b → (follow a).Agree catalog registry Next (alsoFollow b)) :
    (left.bind follow).Agree catalog registry Next (right.bind alsoFollow) := by
  unfold Plan.Agree at *
  rw [Plan.outcome_bind, Plan.outcome_bind]
  exact TaggedRecords.Agree.bind first second

theorem Plan.Agree.describe {Rel : α → β → Prop} {type : RecordType} {left : RecordMetadata → Plan α}
    {right : RecordMetadata → Plan β}
    (below : ∀ metadata, RecordMetadata.build catalog registry type = .ok metadata →
      (left metadata).Agree catalog registry Rel (right metadata)) :
    (Plan.describe type left).Agree catalog registry Rel (.describe type right) := by
  unfold Plan.Agree at *
  rw [Plan.outcome_describe, Plan.outcome_describe]
  cases built : RecordMetadata.build catalog registry type with
  | error fault => exact .failed fault
  | ok metadata => exact below metadata built

end

/-! ## Values with and without tombstones -/

/-- Proper values, the second the first but for tombstones. -/
structure MarkedPair (plain marked : Value) : Prop where
  proper : plain.Proper
  alsoProper : marked.Proper
  related : plain.Marked marked

theorem MarkedPair.same {value : Value} (proper : value.Proper) : MarkedPair value value :=
  ⟨proper, proper, .same value⟩

/-- What a field emits with and without tombstones. -/
inductive MarkedField : Option Value → Option Value → Prop where
  | omitted : MarkedField none (some .delete)
  | emitted {plain marked : Value} (pair : MarkedPair plain marked) : MarkedField (some plain) (some marked)

theorem marked_mapping_iff {as bs : List (String × Value)} : (Value.mapping as).Marked (.mapping bs) ↔
    (∀ key, Entries.get? as key = none → Entries.get? bs key = none ∨ Entries.get? bs key = some .delete) ∧
    (∀ key a, Entries.get? as key = some a → Entries.get? bs key ≠ none) ∧
    ∀ key a b, Entries.get? as key = some a → Entries.get? bs key = some b → b ≠ .delete → a.Marked b := by
  constructor
  · intro related
    cases related with
    | same _ =>
      refine ⟨fun key absent => .inl absent, fun key a held => by rw [held]; nofun, fun key a b heldA heldB _ => ?_⟩
      cases heldA.symm.trans heldB
      exact .same a
    | mapping added kept each => exact ⟨added, kept, each⟩
  · rintro ⟨added, kept, each⟩
    exact .mapping added kept each

theorem MarkedPair.insert {document other : Document} {plain marked : Value}
    (documents : MarkedPair (.mapping document) (.mapping other)) (values : MarkedPair plain marked) (name : String) :
    MarkedPair (.mapping (Entries.insert document name plain)) (.mapping (Entries.insert other name marked)) := by
  obtain ⟨added, kept, each⟩ := marked_mapping_iff.mp documents.related
  refine ⟨Document.proper_insert documents.proper values.proper name,
    Document.proper_insert documents.alsoProper values.alsoProper name, marked_mapping_iff.mpr ⟨?_, ?_, ?_⟩⟩
  · intro key absent
    rw [Entries.get?_insert] at absent ⊢
    by_cases here : name = key
    · simp [here] at absent
    · simpa [here] using added key (by simpa [here] using absent)
  · intro key a held
    rw [Entries.get?_insert] at held ⊢
    by_cases here : name = key
    · simp [here]
    · simpa [here] using kept key a (by simpa [here] using held)
  · intro key a b heldA heldB solid
    rw [Entries.get?_insert] at heldA heldB
    by_cases here : name = key
    · simp only [here, if_true, Option.some.injEq] at heldA heldB
      rw [← heldA, ← heldB]
      exact values.related
    · simp only [here, if_false] at heldA heldB
      exact each key a b heldA heldB solid

theorem MarkedPair.mark {document other : Document} (documents : MarkedPair (.mapping document) (.mapping other))
    (name : String) : MarkedPair (.mapping document) (.mapping (Entries.insert other name .delete)) := by
  obtain ⟨added, kept, each⟩ := marked_mapping_iff.mp documents.related
  refine ⟨documents.proper, Document.proper_insert documents.alsoProper (show Value.delete.Proper from trivial) name,
    marked_mapping_iff.mpr ⟨?_, ?_, ?_⟩⟩
  · intro key absent
    rw [Entries.get?_insert]
    by_cases here : name = key
    · simp [here]
    · simpa [here] using added key absent
  · intro key a held
    rw [Entries.get?_insert]
    by_cases here : name = key
    · simp [here]
    · simpa [here] using kept key a held
  · intro key a b heldA heldB solid
    rw [Entries.get?_insert] at heldB
    by_cases here : name = key
    · simp only [here, if_true, Option.some.injEq] at heldB
      exact absurd heldB.symm solid
    · simp only [here, if_false] at heldB
      exact each key a b heldA heldB solid

theorem MarkedPair.sequence {as bs : List Value} (each : List.Forall₂ MarkedPair as bs) :
    MarkedPair (.sequence as) (.sequence bs) := by
  have proper : ItemsProper as ∧ ItemsProper bs := by
    induction each with
    | nil => exact ⟨trivial, trivial⟩
    | cons pair _ ih => exact ⟨⟨pair.proper, ih.1⟩, pair.alsoProper, ih.2⟩
  refine ⟨proper.1, proper.2, .sequence each.length_eq fun place a b heldA heldB => ?_⟩
  obtain ⟨found, held, pair⟩ := forall₂_getElem? each heldB
  cases heldA.symm.trans held
  exact pair.related

theorem MarkedPair.mapping {as bs : List (String × Value)} (distinct : Entries.Distinct as)
    (each : List.Forall₂ (fun a b => a.1 = b.1 ∧ MarkedPair a.2 b.2) as bs) :
    MarkedPair (.mapping as) (.mapping bs) := by
  have proper : EntriesProper as ∧ EntriesProper bs := by
    clear distinct
    induction each with
    | nil => exact ⟨trivial, trivial⟩
    | cons pair _ ih => exact ⟨⟨pair.2.proper, ih.1⟩, pair.2.alsoProper, ih.2⟩
  have alsoDistinct : Entries.Distinct bs := by
    unfold Entries.Distinct
    rw [Entries.keys_of_forall₂ each]
    exact distinct
  have under := Entries.get?_of_forall₂ each
  refine ⟨⟨distinct, proper.1⟩, ⟨alsoDistinct, proper.2⟩, .mapping ?_ ?_ ?_⟩
  · intro key absent
    exact .inl (eq_none_of_rel_left (under key) absent)
  · intro key a held absent
    cases held.symm.trans (eq_none_of_rel_right (under key) absent)
  · intro key a b heldA heldB _
    obtain ⟨found, held, pair⟩ := exists_of_rel_left (under key) heldA
    cases heldB.symm.trans held
    exact pair.related

/-! ## The traversal with and without tombstones -/

/-- The setting of a run that leaves tombstones or does not. -/
def Setting.marking (setting : Setting) (tombstones : Bool) : Setting :=
  { setting with options := { setting.options with tombstones := tombstones } }

/-- Records are entered with documents that differ by tombstones alone. -/
def Nested.Agree (catalog : Catalog) (registry : Registry) (plain marked : Nested) : Prop :=
  ∀ record place validate, EntriesProper record.fields →
    (plain record place validate).Agree catalog registry
      (fun document other => MarkedPair (.mapping document) (.mapping other)) (marked record place validate)

section
variable {catalog : Catalog} {registry : Registry} {setting : Setting} {plain marked : Nested}

/-- A chain does the same in both runs, and what it gives is proper. -/
theorem agree_runChain {nullable : Bool} {place : Place} {entries : List RuleEntry}
    (properRules : ∀ entry ∈ entries, entry.Proper) {scope : Scope} (proper : scope.Proper) :
    (runChain (setting.marking false) nullable place scope entries).Agree catalog registry
      (fun value other => value = other ∧ value.Proper)
      (runChain (setting.marking true) nullable place scope entries) := by
  have same : runChain (setting.marking true) nullable place scope entries =
      runChain (setting.marking false) nullable place scope entries := by
    apply runChain_congr <;> rfl
  rw [same]
  clear same
  induction entries generalizing scope with
  | nil => exact .ended ⟨rfl, proper.2⟩
  | cons entry rest ih =>
    have otherRules : ∀ other ∈ rest, other.Proper :=
      fun other member => properRules other (List.mem_cons_of_mem _ member)
    rw [runChain]
    split
    · rcases runEntry_cases (setting.marking false) nullable place scope entry with
        ⟨fault, eq⟩ | eq | ⟨rule, next, action, given, _, eq⟩
      · rw [eq]
        exact .failed fault
      · rw [eq]
        exact ih otherRules (show (scope.seenBy entry).Proper from proper)
      · rw [eq]
        have seen : (scope.seenBy entry).Proper := proper
        have properNext : next.Proper := properRules entry List.mem_cons_self rule action _ _ _ _ seen given
        exact ih otherRules (show ((scope.seenBy entry).holding next).Proper from ⟨proper.1, properNext⟩)
    · exact ih otherRules proper

theorem agree_emit (enter : Nested.Agree catalog registry plain marked) (validate : Bool) (place : Place)
    {value : Value} (proper : value.Proper) :
    (emit plain validate place value).Agree catalog registry MarkedPair (emit marked validate place value) := by
  cases value with
  | record type fields => exact (enter ⟨type, fields⟩ place validate proper).bind fun _ _ documents => .ended documents
  | _ => exact .ended (.same proper)

variable {owner : RecordValue} {dive : Dive} {validate : Bool} {place : Place}

theorem agree_walkElement (enter : Nested.Agree catalog registry plain marked) (proper : EntriesProper owner.fields)
    (properRules : ∀ entry ∈ dive.rules, entry.Proper) {name : String} {item : Value} (properItem : item.Proper) :
    (walkElement (setting.marking false) plain owner dive validate place name item).Agree catalog registry MarkedPair
      (walkElement (setting.marking true) marked owner dive validate place name item) := by
  unfold walkElement
  dsimp only [Setting.marking, Options.validates]
  split
  · refine (agree_runChain properRules ⟨proper, properItem⟩).bind ?_
    rintro value _ ⟨rfl, properValue⟩
    exact agree_emit enter _ place properValue
  · exact agree_emit enter _ place properItem

theorem agree_walkItems (enter : Nested.Agree catalog registry plain marked) (proper : EntriesProper owner.fields)
    (properRules : ∀ entry ∈ dive.rules, entry.Proper) {items : List Value} (properItems : ItemsProper items)
    (index : Nat) :
    (walkItems (setting.marking false) plain owner dive validate place index items).Agree catalog registry
      (List.Forall₂ MarkedPair) (walkItems (setting.marking true) marked owner dive validate place index items) := by
  induction items generalizing index with
  | nil => exact .ended .nil
  | cons item rest ih =>
    refine (agree_walkElement enter proper properRules properItems.1).bind fun emitted other pair => ?_
    exact (ih properItems.2 (index + 1)).bind fun _ _ pairs => .ended (.cons pair pairs)

theorem agree_walkEntries (enter : Nested.Agree catalog registry plain marked) (proper : EntriesProper owner.fields)
    (properRules : ∀ entry ∈ dive.rules, entry.Proper) {entries : List (String × Value)}
    (properEntries : EntriesProper entries) :
    (walkEntries (setting.marking false) plain owner dive validate place entries).Agree catalog registry
      (fun as bs => Entries.keys as = Entries.keys entries ∧
        List.Forall₂ (fun a b => a.1 = b.1 ∧ MarkedPair a.2 b.2) as bs)
      (walkEntries (setting.marking true) marked owner dive validate place entries) := by
  induction entries with
  | nil => exact .ended ⟨rfl, .nil⟩
  | cons entry rest ih =>
    refine (agree_walkElement enter proper properRules properEntries.1).bind fun emitted other pair => ?_
    refine (ih properEntries.2).bind ?_
    rintro as bs ⟨sameKeys, pairs⟩
    exact .ended ⟨congrArg (entry.1 :: ·) sameKeys, .cons ⟨rfl, pair⟩ pairs⟩

theorem agree_finish (enter : Nested.Agree catalog registry plain marked) (proper : EntriesProper owner.fields)
    {dive? : Option Dive} (properRules : ∀ dive, dive? = some dive → ∀ entry ∈ dive.rules, entry.Proper) {value : Value}
    (properValue : value.Proper) :
    (finish (setting.marking false) plain owner dive? validate place value).Agree catalog registry MarkedPair
      (finish (setting.marking true) marked owner dive? validate place value) := by
  unfold finish
  split
  · next items dive =>
    refine (agree_walkItems enter proper (properRules dive rfl) properValue 0).bind fun as bs pairs => ?_
    exact .ended (.sequence pairs)
  · next entries dive =>
    refine (agree_walkEntries enter proper (properRules dive rfl) properValue.2).bind ?_
    rintro as bs ⟨sameKeys, pairs⟩
    have distinct : Entries.Distinct as := by
      unfold Entries.Distinct
      rw [sameKeys]
      exact properValue.1
    exact .ended (.mapping distinct pairs)
  · exact agree_emit enter validate place properValue

theorem agree_walkField (enter : Nested.Agree catalog registry plain marked) (proper : EntriesProper owner.fields)
    {field : FieldMetadata} (properRules : ∀ entry ∈ field.rules, entry.Proper)
    (properElementRules : ∀ entry ∈ field.elementRules, entry.Proper) {value : Value} (properValue : value.Proper) :
    (walkField (setting.marking false) plain owner field validate place value).Agree catalog registry MarkedField
      (walkField (setting.marking true) marked owner field validate place value) := by
  have entered : ∀ dive, field.dive? = some dive → ∀ entry ∈ dive.rules, entry.Proper :=
    fun dive found => (FieldMetadata.dive?_eq_some found).2 ▸ properElementRules
  have omits : (setting.marking true).omits field place.path value =
      (setting.marking false).omits field place.path value := rfl
  have validates : (setting.marking true).options.validates place.path =
      (setting.marking false).options.validates place.path := rfl
  unfold walkField
  rw [omits, validates]
  cases (setting.marking false).omits field place.path value with
  | true => exact .ended .omitted
  | false =>
    refine Plan.Agree.bind (Plan.Agree.bind ?_ fun value other (same : value = other ∧ value.Proper) => ?_)
      fun _ _ pair => .ended (.emitted pair)
    · split
      · exact agree_runChain properRules ⟨proper, properValue⟩
      · exact .ended ⟨rfl, properValue⟩
    · obtain ⟨rfl, properValue⟩ := same
      exact agree_finish enter proper entered properValue

theorem agree_walkFields (enter : Nested.Agree catalog registry plain marked) (proper : EntriesProper owner.fields)
    {fields : List FieldMetadata} (properRules : ∀ field ∈ fields, (∀ entry ∈ field.rules, entry.Proper) ∧
      ∀ entry ∈ field.elementRules, entry.Proper) {document other : Document}
    (documents : MarkedPair (.mapping document) (.mapping other)) :
    (walkFields (setting.marking false) plain owner validate place document fields).Agree catalog registry
      (fun document other => MarkedPair (.mapping document) (.mapping other))
      (walkFields (setting.marking true) marked owner validate place other fields) := by
  induction fields generalizing document other with
  | nil => exact .ended documents
  | cons field rest ih =>
    have others : ∀ field ∈ rest, (∀ entry ∈ field.rules, entry.Proper) ∧ ∀ entry ∈ field.elementRules, entry.Proper :=
      fun field member => properRules field (List.mem_cons_of_mem _ member)
    obtain ⟨here, elements⟩ := properRules field List.mem_cons_self
    have properValue : ((owner.at? field.index).getD .null).Proper := by
      unfold RecordValue.at?
      cases found : owner.fields[field.index]? with
      | none => exact trivial
      | some entry => exact entriesProper_iff.mp proper entry (List.mem_of_getElem? found)
    refine (agree_walkField enter proper here elements properValue).bind fun emitted otherEmitted pair => ?_
    cases pair with
    | omitted => exact ih others (documents.mark field.name)
    | emitted pair => exact ih others (documents.insert pair field.name)

/-- At every depth, the traversal with tombstones fails where the other fails and else differs by tombstones. -/
theorem agree_walkRecord (properRules : registry.Proper) (room : Nat) :
    Nested.Agree catalog registry (walkRecord (setting.marking false) room)
      (walkRecord (setting.marking true) room) := by
  induction room with
  | zero => exact fun record place validate _ => .failed _
  | succ room ih =>
    intro record place validate proper
    refine Plan.Agree.describe fun metadata built => ?_
    have bound : ∀ field ∈ metadata.fields, (∀ entry ∈ field.rules, entry.Proper) ∧
        ∀ entry ∈ field.elementRules, entry.Proper := by
      intro field member
      obtain ⟨decl, _, describes⟩ := (describes_of_build built).1 field member
      exact ⟨proper_of_registered properRules describes.rules, proper_of_registered properRules describes.elementRules⟩
    exact agree_walkFields ih proper bound (.same Document.proper_nil)

end

/-! ## Fresh writes -/

namespace Document

/-- No tombstone stands anywhere in the document. -/
def isFree (document : Document) : Bool := (Value.mapping document).isFree

/-- Every tombstone stands behind keys of mappings alone, and none inside a sequence or a record. -/
def isShallow (document : Document) : Bool := (Value.mapping document).isShallow

/-- A tombstone stands where the other document holds something. -/
def Displaces (marked document : Document) : Prop := (Value.mapping marked).Displaces (.mapping document)

/-- A fresh write of either document, to whatever store, stores the first of them and no tombstone anywhere. -/
def StoredAlike (document marked : Document) : Prop :=
  ∀ (store : Store) (collection id : String), ∃ kept, store.Keeps collection id marked kept ∧
    store.Keeps collection id document document ∧ kept.Alike document ∧ kept.isFree = true

theorem storedAlike_iff {document marked : Document} (pair : MarkedPair (.mapping document) (.mapping marked)) :
    document.StoredAlike marked ↔ marked.isShallow = true ∧ ¬ marked.Displaces document := by
  refine Iff.trans ?_ (Value.stripped_of_marked_iff pair.related pair.proper pair.alsoProper)
  constructor
  · intro stored
    obtain ⟨kept, keepsMarked, _, alike, free⟩ := stored .empty "" ""
    rw [Store.keeps_iff] at keepsMarked
    subst keepsMarked
    exact ⟨alike, free⟩
  · rintro ⟨alike, free⟩ store collection id
    have whole : strippedEntries document = document :=
      strippedEntries_of_free (Value.isFree_of_alike alike free)
    exact ⟨_, Store.keeps_iff.mpr rfl, Store.keeps_iff.mpr whole.symm, alike, free⟩

end Document

namespace Engine

/-- With and without tombstones a run fails alike, or gives two documents that differ by tombstones alone. A fresh write
stores the same data of both exactly if all tombstones stand behind keys of mappings, in no element of a sequence, and
displace nothing. -/
theorem validate_marking (engine : Engine) {first second : MetadataCache} (context : Context) {options : Options}
    (record : TypedRecord) (plain : options.tombstones = false) (fits : record.Fits engine.catalog)
    (properRules : engine.registry.Proper) (faithful : first.Faithful engine.catalog engine.registry)
    (alsoFaithful : second.Faithful engine.catalog engine.registry) :
    (∃ fault, (engine.validate first context options record).result = .error fault ∧
      (engine.validate second context { options with tombstones := true } record).result = .error fault) ∨
    ∃ document marked, (engine.validate first context options record).result = .ok document ∧
      (engine.validate second context { options with tombstones := true } record).result = .ok marked ∧
      (Value.mapping document).Marked (.mapping marked) ∧
      (document.StoredAlike marked ↔ marked.isShallow = true ∧ ¬ marked.Displaces document) := by
  unfold validate validateSnapshot
  by_cases writes : options.writesBack = true
  · exact .inl ⟨.readOnly, by rw [if_pos writes], by rw [if_pos writes]⟩
  · have agree : (engine.plan context options (record.snapshot engine.catalog)).Agree engine.catalog engine.registry
        (fun document other => MarkedPair (.mapping document) (.mapping other))
        (engine.plan context { options with tombstones := true } (record.snapshot engine.catalog)) := by
      have unmarked : engine.setting context options = (engine.setting context options).marking false := by
        simp [Setting.marking, setting, ← plain]
      unfold plan
      rw [unmarked]
      exact agree_walkRecord properRules (engine.settings.maxDepth + 1) _ Place.root true (proper_snapshotFields fits)
    have alsoReads : ¬ ({ options with tombstones := true } : Options).writesBack = true := writes
    rw [if_neg writes, if_neg alsoReads, Plan.run_outcome _ faithful, Plan.run_outcome _ alsoFaithful]
    rcases agree.cases with failed | ⟨document, marked, ended, alsoEnded, pair⟩
    · exact .inl failed
    · exact .inr ⟨document, marked, ended, alsoEnded, pair.related, Document.storedAlike_iff pair⟩

/-- Orders whose items may have no name. -/
def ordering : Engine where
  catalog := ⟨[⟨"Item", [⟨"name", "name,omitempty", .string⟩]⟩,
    ⟨"Order", [⟨"items", "items,dive", .sequence (.record ⟨0, "Item"⟩)⟩]⟩]⟩
  registry := .empty
  settings := ⟨3⟩

/-- An order of one item without a name. -/
def order : TypedRecord := ⟨⟨1, "Order"⟩, [.sequence [.record ⟨0, "Item"⟩ [.string ""]]]⟩

/-- The tombstone of the item's name stands in a sequence and is stored. -/
theorem ordering_stores_tombstone : ∃ document marked,
    (ordering.validate .empty {} {} order).result = .ok document ∧
    (ordering.validate .empty {} { tombstones := true } order).result = .ok marked ∧ ¬ document.StoredAlike marked := by
  have fits : order.Fits ordering.catalog := by
    simp [order, TypedRecord.Fits, ordering, Catalog.fields, FieldsFit, FieldDecl.isHidden, FieldDecl.descriptor,
      FieldType.descriptor, Descriptor.unsupportedKind?, Data.Fits, FieldType.unboxed, ItemsFit]
  have proper : ordering.registry.Proper := proper_empty
  have passes : (ordering.validate .empty {} {} order).result.isOk = true := by decide +kernel
  have deep : (ordering.validate .empty {} { tombstones := true } order).result.toOption.all
      (fun marked => !marked.isShallow) = true := by decide +kernel
  rcases validate_marking ordering {} order (show ({} : Options).tombstones = false from rfl) fits proper
    (MetadataCache.faithful_empty _ _) (MetadataCache.faithful_empty _ _) with
    ⟨fault, failed, _⟩ | ⟨document, marked, ended, alsoEnded, _, exact⟩
  · rw [failed] at passes
    cases passes
  · refine ⟨document, marked, ended, alsoEnded, fun stored => ?_⟩
    rw [alsoEnded] at deep
    have shallow := (exact.mp stored).1
    simp [Except.toOption, shallow] at deep

end Engine

end TaggedRecords
