import TaggedRecords.Proofs.ChainWrites
import TaggedRecords.Proofs.WalkParts

/-!
# Coherence of writing back

After a run that writes transformed values back, the record holds the data of the returned document: a run over it
that skips all rules returns that document again.
-/

namespace TaggedRecords

/-! ## What coherence rests on -/

/-- The record types that the fields of a record type lead to, itself among them. -/
inductive Catalog.Reaches (catalog : Catalog) (root : RecordType) : RecordType → Prop where
  | root : Reaches catalog root root
  | field {owner type : RecordType} {decl : FieldDecl} (above : Reaches catalog root owner)
      (declared : decl ∈ catalog.fields owner) (holds : decl.type.core = .record type) : Reaches catalog root type

/-- No field that the record type leads to has numbers of single precision. -/
def Catalog.Precise (catalog : Catalog) (root : RecordType) : Prop :=
  ∀ owner, catalog.Reaches root owner → ∀ decl ∈ catalog.fields owner, decl.type.core ≠ .single

/-- The type of some content below a record of the root's type. -/
def FieldType.Below (catalog : Catalog) (root : RecordType) (type : FieldType) : Prop :=
  type.core ≠ .single ∧ ∀ recordType, type.core = .record recordType → catalog.Reaches root recordType

/-- The field is emitted in any case, and no transformation runs where records are. -/
structure FieldMetadata.Steady (method : Method) (field : FieldMetadata) : Prop where
  emitted : field.omission.appliesTo method = false
  plain : (∃ entry ∈ field.rules, entry.action.isTransform = true) → field.descriptor.holdsRecord = false
  plainElement : ∀ element, field.element = some element →
    (∃ entry ∈ field.elementRules, entry.action.isTransform = true) → element.holdsRecord = false

instance (method : Method) (field : FieldMetadata) : Decidable (field.Steady method) :=
  decidable_of_iff (field.omission.appliesTo method = false ∧
    ((∃ entry ∈ field.rules, entry.action.isTransform = true) → field.descriptor.holdsRecord = false) ∧
    ∀ element ∈ field.element, (∃ entry ∈ field.elementRules, entry.action.isTransform = true) →
      element.holdsRecord = false)
    ⟨fun ⟨emitted, plain, plainElement⟩ => ⟨emitted, plain, plainElement⟩,
      fun ⟨emitted, plain, plainElement⟩ => ⟨emitted, plain, plainElement⟩⟩

/-- All fields of the record type are steady. -/
def RecordMetadata.Steady (method : Method) (metadata : RecordMetadata) : Prop :=
  ∀ field ∈ metadata.fields, field.Steady method

/-- The dive is for elements of the type, and no transformation runs where records are. -/
structure Dive.Suits (type : FieldType) (dive : Dive) : Prop where
  shape : type.descriptor.element? = some dive.element
  proper : ∀ entry ∈ dive.rules, entry.Proper
  plain : (∃ entry ∈ dive.rules, entry.action.isTransform = true) → dive.element.holdsRecord = false

theorem FieldType.below_element {catalog : Catalog} {root : RecordType} {type element : FieldType}
    (below : type.Below catalog root) (found : type.element? = some element) : element.Below catalog root := by
  unfold FieldType.Below
  rw [FieldType.core_of_element? found]
  exact below

theorem Dive.Suits.element {type element : FieldType} {dive : Dive} (suits : dive.Suits type)
    (found : type.element? = some element) : element.descriptor = dive.element := by
  have shape := suits.shape
  rw [type.descriptor_element?, found] at shape
  exact Option.some.inj shape

/-! ## What is emitted again -/

/-- What is emitted for the value, wherever it stands. -/
def Emits (catalog : Catalog) (registry : Registry) (nested : Nested) (value emitted : Value) : Prop :=
  ∀ place validate, (emit nested validate place value).outcome catalog registry = .ok emitted

section
variable {catalog : Catalog} {registry : Registry} {setting : Setting} {nested : Nested}

theorem emit_eq_done {value : Value} (plain : ∀ type fields, value ≠ .record type fields) (validate : Bool)
    (place : Place) : emit nested validate place value = .done value := by
  cases value with
  | record type fields => exact absurd rfl (plain type fields)
  | _ => rfl

/-- Without rules, an element is emitted as it is found. -/
theorem outcome_walkElement (skips : setting.options.skipAll = true) {item emitted : Value}
    (emits : Emits catalog registry nested item emitted) (owner : RecordValue) (dive : Dive) (validate : Bool)
    (place : Place) (name : String) :
    (walkElement setting nested owner dive validate place name item).outcome catalog registry = .ok emitted := by
  simp only [walkElement, Options.validates, skips, Bool.not_true, Bool.false_and, Bool.and_false,
    Bool.false_eq_true, if_false, Plan.outcome_note]
  exact emits place false

theorem outcome_walkItems (skips : setting.options.skipAll = true) {items results : List Value}
    (each : List.Forall₂ (Emits catalog registry nested) items results) (owner : RecordValue) (dive : Dive)
    (validate : Bool) (place : Place) (index : Nat) :
    (walkItems setting nested owner dive validate place index items).outcome catalog registry = .ok results := by
  induction each generalizing index with
  | nil => rfl
  | cons emits _ ih =>
    rw [walkItems, Plan.outcome_bind_ok _ _ (outcome_walkElement skips emits owner dive validate _ _),
      Plan.outcome_bind_ok _ _ (ih (index + 1))]
    rfl

theorem outcome_walkEntries (skips : setting.options.skipAll = true) {entries results : List (String × Value)}
    (each : List.Forall₂ (fun entry result => entry.1 = result.1 ∧ Emits catalog registry nested entry.2 result.2)
      entries results) (owner : RecordValue) (dive : Dive) (validate : Bool) (place : Place) :
    (walkEntries setting nested owner dive validate place entries).outcome catalog registry = .ok results := by
  induction each with
  | nil => rfl
  | cons emits _ ih =>
    obtain ⟨sameKey, emits⟩ := emits
    rw [walkEntries, Plan.outcome_bind_ok _ _ (outcome_walkElement skips emits owner dive validate _ _),
      Plan.outcome_bind_ok _ _ ih, sameKey]
    rfl

/-- Without rules and omissions, a field is emitted as what is emitted for its value. -/
theorem outcome_walkField (skips : setting.options.skipAll = true) {field : FieldMetadata} {value emitted : Value}
    (kept : field.omission.appliesTo setting.options.method = false) {owner : RecordValue} {validate : Bool}
    {place : Place} (finishes : ∀ validate, (finish setting nested owner field.dive? validate place value).outcome
      catalog registry = .ok emitted) :
    (walkField setting nested owner field validate place value).outcome catalog registry = .ok (some emitted) := by
  have stays : setting.omits field place.path value = false := by simp [Setting.omits, kept]
  simp only [walkField, Options.validates, skips, stays, Bool.not_true, Bool.false_and, Bool.and_false,
    Bool.false_eq_true, if_false, Plan.outcome_note, Plan.bind_done]
  rw [Plan.outcome_bind_ok _ _ (finishes false)]
  rfl

end

/-! ## One part at a time -/

/-- After a run, the content gives again what was emitted. -/
def Data.Returns (catalog : Catalog) (registry : Registry) (nested : Nested) (data : Data) (emitted : Value) : Prop :=
  ∃ again, again.Alike emitted ∧ Emits catalog registry nested (data.snapshot catalog) again

/-- Records entered by the first traversal, with writes, are emitted again by the second. -/
def Coheres (catalog : Catalog) (registry : Registry) (root : RecordType) (method : Method)
    (first second : Nested) : Prop :=
  ∀ {type : FieldType} {recordType : RecordType} {fields : List (String × Value)} {place : Place} {validate : Bool}
    {data after : Data} {document : Document}, type.Below catalog root →
    data.Denotes catalog type (.record recordType fields) →
    (first ⟨recordType, fields⟩ place validate).Leaves catalog registry (RecordMetadata.Steady method) type
      place.segments data document after →
    ∃ left again, after.snapshot catalog = .record recordType left ∧ EntriesAlike again document ∧
      ∀ place validate, (second ⟨recordType, left⟩ place validate).outcome catalog registry = .ok again

section
variable {catalog : Catalog} {registry : Registry} {root : RecordType} {method : Method} {first second : Nested}

theorem returns_of_emit (coheres : Coheres catalog registry root method first second) {type : FieldType}
    {place : Place} {validate : Bool} {value emitted : Value} {data after : Data} (below : type.Below catalog root)
    (denotes : data.Denotes catalog type value)
    (leaves : (emit first validate place value).Leaves catalog registry (RecordMetadata.Steady method) type
      place.segments data emitted after) :
    (after.snapshot catalog).kind = value.kind ∧ after.Returns catalog registry second emitted := by
  by_cases held : ∃ recordType fields, value = .record recordType fields
  · obtain ⟨recordType, fields, rfl⟩ := held
    obtain ⟨document, between, ran, rest⟩ := leaves.of_bind
    cases rest
    obtain ⟨left, again, shape, alike, returns⟩ := coheres below denotes ran
    refine ⟨by rw [shape]; rfl, .mapping again, ⟨document, List.Perm.refl _, alike⟩, fun place validate => ?_⟩
    rw [shape, emit, Plan.outcome_bind_ok _ _ (returns place validate)]
    rfl
  · have plain : ∀ recordType fields, value ≠ .record recordType fields :=
      fun recordType fields same => held ⟨recordType, fields, same⟩
    rw [emit_eq_done plain] at leaves
    cases leaves
    have alsoPlain : ∀ recordType fields, data.snapshot catalog ≠ .record recordType fields := by
      intro recordType fields same
      have alike := denotes.2
      rw [same] at alike
      cases value with
      | record other others => exact plain other others rfl
      | _ => cases alike
    refine ⟨Value.kind_of_alike denotes.2, data.snapshot catalog, denotes.2, fun place validate => ?_⟩
    rw [emit_eq_done alsoPlain]
    rfl

variable {setting again : Setting}

theorem returns_of_walkElement (coheres : Coheres catalog registry root method first second) {owner : RecordValue}
    {dive : Dive} {container element : FieldType} {validate : Bool} {place : Place} {name : String}
    {item emitted : Value} {data after : Data} (below : container.Below catalog root) (suits : dive.Suits container)
    (isElement : container.element? = some element) (proper : EntriesProper owner.fields)
    (denotes : data.Denotes catalog element item)
    (leaves : (walkElement setting first owner dive validate place name item).Leaves catalog registry
      (RecordMetadata.Steady method) element place.segments data emitted after) :
    after.Returns catalog registry second emitted := by
  have elementBelow := FieldType.below_element below isElement
  have shape := suits.element isElement
  cases leaves with
  | note leaves =>
    split at leaves
    · obtain ⟨value, between, chained, leaves⟩ := leaves.of_bind
      rw [← shape] at chained
      have plain := shape ▸ suits.plain
      have denotesStill := denotes_of_runChain elementBelow.1 suits.proper plain rfl proper denotes chained
      exact (returns_of_emit coheres elementBelow denotesStill leaves).2
    · exact (returns_of_emit coheres elementBelow denotes leaves).2

/-- Values for each item, one by one, make up a sequence. -/
theorem exists_alikes {Gives : Value → Value → Prop} {items results : List Value}
    (length : items.length = results.length)
    (each : ∀ (place : Nat) item result, items[place]? = some item → results[place]? = some result →
      ∃ given, given.Alike result ∧ Gives item given) :
    ∃ givens, ItemsAlike givens results ∧ List.Forall₂ Gives items givens := by
  induction items generalizing results with
  | nil =>
    have none : results = [] := List.length_eq_zero_iff.mp length.symm
    subst none
    exact ⟨[], trivial, .nil⟩
  | cons item rest ih =>
    cases results with
    | nil => cases length
    | cons result results =>
      obtain ⟨given, alike, gives⟩ := each 0 item result rfl rfl
      obtain ⟨givens, alikes, givesAll⟩ := ih (Nat.succ.inj length) fun place => each (place + 1)
      exact ⟨given :: givens, ⟨alike, alikes⟩, .cons gives givesAll⟩

/-- Values for each entry, one by one, make up a mapping. -/
theorem exists_alike_entries {Gives : Value → Value → Prop} {entries results : List (String × Value)}
    (distinct : Entries.Distinct results) (sameKeys : (Entries.keys entries).Perm (Entries.keys results))
    (each : ∀ name item, (name, item) ∈ entries → ∃ result, Entries.get? results name = some result ∧
      ∃ given, given.Alike result ∧ Gives item given) :
    ∃ givens, (Value.mapping givens).Alike (.mapping results) ∧
      List.Forall₂ (fun entry given => entry.1 = given.1 ∧ Gives entry.2 given.2) entries givens := by
  have inPlace : ∃ givens, EntriesAlike givens ((Entries.keys entries).filterMap (Entries.read? results)) ∧
      List.Forall₂ (fun entry given => entry.1 = given.1 ∧ Gives entry.2 given.2) entries givens := by
    clear sameKeys
    induction entries with
    | nil => exact ⟨[], trivial, .nil⟩
    | cons entry rest ih =>
      obtain ⟨result, found, given, alike, gives⟩ := each entry.1 entry.2 List.mem_cons_self
      obtain ⟨givens, alikes, givesAll⟩ := ih fun name item member => each name item (List.mem_cons_of_mem _ member)
      refine ⟨(entry.1, given) :: givens, ?_, .cons ⟨rfl, gives⟩ givesAll⟩
      have read : Entries.read? results entry.1 = some (entry.1, result) := by rw [Entries.read?, found]; rfl
      rw [Entries.keys, List.map_cons, List.filterMap_cons_some read]
      exact ⟨rfl, alike, alikes⟩
  obtain ⟨givens, alike, gives⟩ := inPlace
  exact ⟨givens, ⟨_, Entries.readOut_perm distinct sameKeys, alike⟩, gives⟩

variable {owner : RecordValue} {dive : Dive} {type : FieldType} {validate : Bool} {place : Place} {data after : Data}

/-- The items of a sequence are emitted again from the content that visiting them leaves. -/
theorem returns_of_walkItems (coheres : Coheres catalog registry root method first second)
    (enter : first.WritesBelow) {items results : List Value} (below : type.Below catalog root) (suits : dive.Suits type)
    (proper : EntriesProper owner.fields) (denotes : data.Denotes catalog type (.sequence items))
    (leaves : (walkItems setting first owner dive validate place 0 items).Leaves catalog registry
      (RecordMetadata.Steady method) type place.segments data results after) :
    ∃ left again, after.snapshot catalog = .sequence left ∧ ItemsAlike again results ∧
      List.Forall₂ (Emits catalog registry second) left again := by
  obtain ⟨outline, element, isElement, parts⟩ := denotes.items
  have present : ∀ position item, items[position]? = some item →
      (data.part? catalog type (.index position)).isSome = true := by
    intro position item held
    obtain ⟨part, found, _⟩ := parts position item held
    rw [found]
    rfl
  obtain ⟨ran, frame⟩ := walkItems_on_parts enter present leaves
  obtain ⟨left, shape, length, snapshots⟩ := snapshot_of_items catalog (frame.trans outline)
  have lengths : left.length = results.length := by rw [length, ← ran.length_eq, List.length_zipIdx]
  have each : ∀ (position : Nat) item result, left[position]? = some item → results[position]? = some result →
      ∃ given, given.Alike result ∧ Emits catalog registry second item given := by
    intro position item result heldItem heldResult
    obtain ⟨⟨visited, index⟩, held, element', part, leftPart, found, ranHere, kept⟩ := forall₂_getElem? ran heldResult
    rw [List.getElem?_zipIdx, Nat.zero_add] at held
    obtain ⟨value, inside, same⟩ := Option.map_eq_some_iff.mp held
    cases same
    obtain ⟨_, foundAgain, denotesItem⟩ := parts position visited inside
    cases found.symm.trans foundAgain
    have last := snapshots type position element leftPart kept
    rw [heldItem] at last
    cases last
    exact returns_of_walkElement coheres below suits isElement proper denotesItem
      (show (walkElement setting first owner dive validate (place.item position) _ visited).Leaves catalog registry _
        element (place.item position).segments part result leftPart from ranHere)
  obtain ⟨again, alike, emits⟩ := exists_alikes lengths each
  exact ⟨left, again, shape, alike, emits⟩

/-- Each entry of a mapping is emitted under its key, and again from the content left under that key. -/
theorem returns_under_keys (coheres : Coheres catalog registry root method first second) {element : FieldType}
    {entries results left : List (String × Value)} (below : type.Below catalog root) (suits : dive.Suits type)
    (proper : EntriesProper owner.fields) (distinct : Entries.Distinct entries)
    (isElement : type.element? = some element)
    (parts : ∀ name item, Entries.get? entries name = some item →
      ∃ part, data.part? catalog type (.key name) = some (element, part) ∧ part.Denotes catalog element item)
    (ran : List.Forall₂ (fun entry => RanOnPart catalog registry (RecordMetadata.Steady method) type place.segments data
      after (entryStep setting first owner dive validate place entry)) entries results)
    (snapshots : ∀ type name element part, after.part? catalog type (.key name) = some (element, part) →
      Entries.get? left name = some (part.snapshot catalog)) :
    List.Forall₂ (fun entry result => entry.1 = result.1 ∧ ∃ part : Data,
      Entries.get? left entry.1 = some (part.snapshot catalog) ∧ part.Returns catalog registry second result.2)
      entries results := by
  refine List.forall₂_iff_zip.mpr ⟨ran.length_eq, fun {entry result} paired => ?_⟩
  obtain ⟨_, part, leftPart, found, ranHere, kept⟩ := (List.forall₂_iff_zip.mp ran).2 paired
  have held := Entries.get?_of_mem distinct (show (entry.1, entry.2) ∈ entries from (List.of_mem_zip paired).1)
  obtain ⟨_, foundAgain, denotesItem⟩ := parts entry.1 entry.2 held
  cases found.symm.trans foundAgain
  obtain ⟨emitted, between, ranHere, ends⟩ := ranHere.of_bind
  cases ends
  refine ⟨rfl, leftPart, snapshots type entry.1 element leftPart kept, ?_⟩
  exact returns_of_walkElement coheres below suits isElement proper denotesItem
    (show (walkElement setting first owner dive validate (place.entry entry.1) _ entry.2).Leaves catalog registry _
      element (place.entry entry.1).segments part emitted leftPart from ranHere)

/-- The entries of a mapping are emitted again from the content that visiting them leaves. -/
theorem returns_of_walkEntries (coheres : Coheres catalog registry root method first second)
    (enter : first.WritesBelow) {entries results : List (String × Value)} (below : type.Below catalog root)
    (suits : dive.Suits type) (proper : EntriesProper owner.fields)
    (denotes : data.Denotes catalog type (.mapping entries))
    (leaves : (walkEntries setting first owner dive validate place entries).Leaves catalog registry
      (RecordMetadata.Steady method) type place.segments data results after) :
    ∃ left again, after.snapshot catalog = .mapping left ∧ (Value.mapping again).Alike (.mapping results) ∧
      List.Forall₂ (fun entry given => entry.1 = given.1 ∧ Emits catalog registry second entry.2 given.2)
        left again := by
  have distinct : Entries.Distinct entries := denotes.proper.1
  obtain ⟨keys, outline, perm, element, isElement, parts⟩ := denotes.entries
  have present : ∀ name item, Entries.get? entries name = some item →
      (data.part? catalog type (.key name)).isSome = true := by
    intro name item held
    obtain ⟨part, found, _⟩ := parts name item held
    rw [found]
    rfl
  obtain ⟨ran, frame⟩ := walkEntries_on_parts enter distinct present leaves
  obtain ⟨left, shape, leftKeys, snapshots⟩ := snapshot_of_entries catalog (frame.trans outline)
  have visited := returns_under_keys coheres below suits proper distinct isElement parts ran snapshots
  have resultKeys := Entries.keys_of_forall₂ visited
  have leftPerm : (Entries.keys left).Perm (Entries.keys entries) := leftKeys ▸ perm
  have leftDistinct : Entries.Distinct left := leftPerm.nodup_iff.mpr distinct
  have resultsDistinct : Entries.Distinct results := by
    unfold Entries.Distinct
    rw [resultKeys]
    exact distinct
  -- The content may keep its entries in another order, so each is found by its key.
  have each : ∀ name item, (name, item) ∈ left → ∃ result, Entries.get? results name = some result ∧
      ∃ given, given.Alike result ∧ Emits catalog registry second item given := by
    intro name item inside
    have nameKept : name ∈ Entries.keys left := List.mem_map_of_mem inside
    obtain ⟨source, member, sameKey⟩ := List.mem_map.mp (leftPerm.mem_iff.mp nameKept)
    obtain ⟨result, emitted, resultKey, leftPart, held, given, alike, emits⟩ := forall₂_mem_left visited member
    rw [sameKey] at held resultKey
    have sameItem := Option.some.inj ((Entries.get?_of_mem leftDistinct inside).symm.trans held)
    have found := Entries.get?_of_mem resultsDistinct (show (result.1, result.2) ∈ results from emitted)
    rw [← resultKey] at found
    exact ⟨result.2, found, given, alike, sameItem ▸ emits⟩
  obtain ⟨again, alike, emits⟩ := exists_alike_entries resultsDistinct (resultKeys ▸ leftPerm) each
  exact ⟨left, again, shape, alike, emits⟩

theorem finish_eq_emit {dive? : Option Dive} {value : Value}
    (whole : dive? = none ∨ value.kind ≠ .sequence ∧ value.kind ≠ .mapping) (nested : Nested) (owner : RecordValue)
    (validate : Bool) (place : Place) :
    finish setting nested owner dive? validate place value = emit nested validate place value := by
  unfold finish
  split
  · rcases whole with none | ⟨noSequence, _⟩
    · cases none
    · exact absurd rfl noSequence
  · rcases whole with none | ⟨_, noMapping⟩
    · cases none
    · exact absurd rfl noMapping
  · rfl

/-- What is emitted for a field's value is emitted again from the content that this leaves. -/
theorem returns_of_finish (coheres : Coheres catalog registry root method first second) (enter : first.WritesBelow)
    (skips : again.options.skipAll = true) {dive? : Option Dive} {value emitted : Value}
    (below : type.Below catalog root) (suits : ∀ dive, dive? = some dive → dive.Suits type)
    (proper : EntriesProper owner.fields) (denotes : data.Denotes catalog type value)
    (leaves : (finish setting first owner dive? validate place value).Leaves catalog registry
      (RecordMetadata.Steady method) type place.segments data emitted after) :
    ∃ given, given.Alike emitted ∧ ∀ owner validate place, (finish again second owner dive? validate place
      (after.snapshot catalog)).outcome catalog registry = .ok given := by
  by_cases whole : dive? = none ∨ value.kind ≠ .sequence ∧ value.kind ≠ .mapping
  · rw [finish_eq_emit whole] at leaves
    obtain ⟨sameKind, given, alike, emits⟩ := returns_of_emit coheres below denotes leaves
    rw [← sameKind] at whole
    refine ⟨given, alike, fun owner validate place => ?_⟩
    rw [finish_eq_emit whole]
    exact emits place validate
  · obtain ⟨dive, rfl⟩ : ∃ dive, dive? = some dive :=
      Option.ne_none_iff_exists'.mp fun none => whole (.inl none)
    cases value with
    | sequence items =>
      obtain ⟨results, between, ran, ends⟩ := leaves.of_bind
      cases ends
      obtain ⟨left, given, shape, alike, emits⟩ :=
        returns_of_walkItems coheres enter below (suits dive rfl) proper denotes ran
      refine ⟨.sequence given, alike, fun owner validate place => ?_⟩
      rw [shape, finish, Plan.outcome_bind_ok _ _ (outcome_walkItems skips emits owner dive validate place 0)]
      rfl
    | mapping entries =>
      obtain ⟨results, between, ran, ends⟩ := leaves.of_bind
      cases ends
      obtain ⟨left, given, shape, alike, emits⟩ :=
        returns_of_walkEntries coheres enter below (suits dive rfl) proper denotes ran
      refine ⟨.mapping given, alike, fun owner validate place => ?_⟩
      rw [shape, finish, Plan.outcome_bind_ok _ _ (outcome_walkEntries skips emits owner dive validate place)]
      rfl
    | _ => exact absurd (.inr (by simp [Value.kind])) whole

/-- A field that is emitted in any case is emitted again from the content that visiting it leaves. -/
theorem returns_of_walkField (coheres : Coheres catalog registry root method first second) (enter : first.WritesBelow)
    (skips : again.options.skipAll = true) (sameMethod : setting.options.method = method)
    (methodAgain : again.options.method = method) (properRules : registry.Proper) {field : FieldMetadata}
    {decl : FieldDecl} (describes : field.Describes registry field.index decl) (steady : field.Steady method)
    {value : Value} {result : Option Value} (below : decl.type.Below catalog root)
    (proper : EntriesProper owner.fields) (denotes : data.Denotes catalog decl.type value)
    (leaves : (walkField setting first owner field validate place value).Leaves catalog registry
      (RecordMetadata.Steady method) decl.type place.segments data result after) :
    ∃ emitted given, result = some emitted ∧ given.Alike emitted ∧ ∀ owner validate place,
      (walkField again second owner field validate place (after.snapshot catalog)).outcome catalog registry =
        .ok (some given) := by
  have stays : setting.omits field place.path value = false := by
    simp [Setting.omits, sameMethod, steady.emitted]
  have suits : ∀ dive, field.dive? = some dive → dive.Suits decl.type := by
    intro dive entered
    obtain ⟨isElement, rules⟩ := FieldMetadata.dive?_eq_some entered
    exact ⟨describes.element.symm.trans isElement, rules ▸ proper_of_registered properRules describes.elementRules,
      rules ▸ steady.plainElement dive.element isElement⟩
  have plain := steady.plain
  rw [describes.descriptor] at plain
  cases leaves with
  | note leaves =>
    rw [stays] at leaves
    simp only [Bool.false_eq_true, if_false] at leaves
    obtain ⟨emitted, between, leaves, ends⟩ := leaves.of_bind
    cases ends
    obtain ⟨value, between, chained, leaves⟩ := leaves.of_bind
    have denotesStill : between.Denotes catalog decl.type value := by
      split at chained
      · rw [describes.descriptor] at chained
        exact denotes_of_runChain below.1 (proper_of_registered properRules describes.rules) plain rfl proper denotes
          chained
      · cases chained
        exact denotes
    obtain ⟨given, alike, finishes⟩ := returns_of_finish coheres enter skips below suits proper denotesStill leaves
    refine ⟨emitted, given, rfl, alike, fun owner validate place => ?_⟩
    exact outcome_walkField skips (by rw [methodAgain]; exact steady.emitted)
      fun validate => finishes owner validate place

theorem outcome_walkFields {fields : List FieldMetadata} {results : List (Option Value)} {owner : RecordValue}
    (each : List.Forall₂ (fun field result => ∃ emitted given, result = some emitted ∧ given.Alike emitted ∧
      ∀ validate place, (walkField again second owner field validate place
        ((owner.at? field.index).getD .null)).outcome catalog registry = .ok (some given)) fields results)
    {document other : Document} (alike : EntriesAlike other document) :
    ∃ given, EntriesAlike given (document.collect fields results) ∧ ∀ validate place,
      (walkFields again second owner validate place other fields).outcome catalog registry = .ok given := by
  induction each generalizing document other with
  | nil => exact ⟨other, alike, fun _ _ => rfl⟩
  | @cons field _ fields _ first _ ih =>
    obtain ⟨emitted, given, rfl, alikeHere, returns⟩ := first
    obtain ⟨givens, alikes, follows⟩ := ih (entriesAlike_insert alike alikeHere field.name)
    refine ⟨givens, alikes, fun validate place => ?_⟩
    rw [walkFields, Plan.outcome_bind_ok _ _ (returns validate _)]
    exact follows validate place

end

/-! ## Records -/

section
variable {catalog : Catalog} {registry : Registry} {root : RecordType} {setting again : Setting}

/-- Each field of a record is emitted, and again from the content left at its place. -/
theorem returns_at_fields {first second : Nested} {type : FieldType} {recordType : RecordType}
    {fields left : List (String × Value)} {place : Place} {validate : Bool} {data after : Data}
    {metadata : RecordMetadata} {results : List (Option Value)}
    (coheres : Coheres catalog registry root setting.options.method first second) (enter : first.WritesBelow)
    (skips : again.options.skipAll = true) (sameMethod : again.options.method = setting.options.method)
    (precise : catalog.Precise root) (properRules : registry.Proper) (reached : catalog.Reaches root recordType)
    (proper : EntriesProper fields) (built : RecordMetadata.build catalog registry recordType = .ok metadata)
    (steady : metadata.Steady setting.options.method)
    (parts : ∀ place decl, (catalog.fields recordType)[place]? = some decl → decl.isHidden = false →
      ∃ part item, data.part? catalog type (.field place) = some (decl.type, part) ∧
        fields[place]? = some (decl.name, item) ∧ part.Denotes catalog decl.type item)
    (ran : List.Forall₂ (fun field => RanOnPart catalog registry (RecordMetadata.Steady setting.options.method) type
      place.segments data after (fieldStep setting first ⟨recordType, fields⟩ validate place field))
      metadata.fields results)
    (snapshots : ∀ type place element part, after.part? catalog type (.field place) = some (element, part) →
      ∃ name, left[place]? = some (name, part.snapshot catalog)) :
    List.Forall₂ (fun field result => ∃ emitted given, result = some emitted ∧ given.Alike emitted ∧
      ∀ validate place, (walkField again second ⟨recordType, left⟩ field validate place
        ((RecordValue.at? ⟨recordType, left⟩ field.index).getD .null)).outcome catalog registry = .ok (some given))
      metadata.fields results := by
  refine List.forall₂_iff_zip.mpr ⟨ran.length_eq, fun {field result} paired => ?_⟩
  have member := (List.of_mem_zip paired).1
  obtain ⟨decl, declared, describes⟩ := (describes_of_build built).1 field member
  obtain ⟨part, item, found, held, denotesItem⟩ := parts field.index decl declared describes.visible
  obtain ⟨element, _, leftPart, foundAgain, ranHere, kept⟩ := (List.forall₂_iff_zip.mp ran).2 paired
  cases found.symm.trans foundAgain
  have declBelow : decl.type.Below catalog root := ⟨precise _ reached decl (List.mem_of_getElem? declared),
    fun _ holds => .field reached (List.mem_of_getElem? declared) holds⟩
  have value : (RecordValue.at? ⟨recordType, fields⟩ field.index).getD .null = item := by
    simp [RecordValue.at?, held]
  obtain ⟨name, last⟩ := snapshots type field.index decl.type leftPart kept
  have valueLeft : (RecordValue.at? ⟨recordType, left⟩ field.index).getD .null = leftPart.snapshot catalog := by
    simp [RecordValue.at?, last]
  have owner : EntriesProper (RecordValue.mk recordType fields).fields := proper
  simp only [fieldStep, value] at ranHere
  obtain ⟨emitted, given, some, alike, returns⟩ := returns_of_walkField coheres enter skips rfl sameMethod properRules
    describes (steady field member) declBelow owner denotesItem
    (show (walkField setting _ _ field _ (place.field field.name field.declared field.index) _).Leaves catalog
      registry _ decl.type (place.field field.name field.declared field.index).segments _ result _ from ranHere)
  refine ⟨emitted, given, some, alike, fun validate place => ?_⟩
  rw [valueLeft]
  exact returns _ validate place

/-- At every depth, a traversal that runs no rules emits again what one with writes emitted. -/
theorem coheres_walkRecord (precise : catalog.Precise root) (properRules : registry.Proper)
    (skips : again.options.skipAll = true) (sameMethod : again.options.method = setting.options.method) (room : Nat) :
    Coheres catalog registry root setting.options.method (walkRecord setting room) (walkRecord again room) := by
  induction room with
  | zero =>
    intro type recordType fields place validate data after document _ _ leaves
    cases leaves
  | succ room ih =>
    intro type recordType fields place validate data after document below denotes leaves
    cases leaves with
    | @describe _ _ metadata _ _ _ built steady leaves =>
      obtain ⟨coreIs, ⟨count, outline⟩, parts⟩ := denotes.fields
      obtain ⟨described, distinct⟩ := describes_of_build built
      have present : ∀ field ∈ metadata.fields, (data.part? catalog type (.field field.index)).isSome = true := by
        intro field member
        obtain ⟨decl, declared, describes⟩ := described field member
        obtain ⟨part, item, found, _⟩ := parts field.index decl declared describes.visible
        rw [found]
        rfl
      have enter := writesBelow_walkRecord setting room
      obtain ⟨results, ran, collected, frame⟩ := walkFields_on_parts enter distinct present leaves
      obtain ⟨left, shape, snapshots⟩ := snapshot_of_fields catalog (frame.trans outline)
      have each := returns_at_fields ih enter skips sameMethod precise properRules (below.2 recordType coreIs)
        denotes.proper built steady parts ran snapshots
      obtain ⟨given, alike, follows⟩ := outcome_walkFields each (show EntriesAlike [] [] from trivial)
      refine ⟨left, given, shape, by rw [collected]; exact alike, fun place validate => ?_⟩
      rw [walkRecord, Plan.outcome_describe, built]
      exact follows validate place

end

/-! ## Runs of an engine -/

theorem precise_of_schemas {catalog : Catalog} (all : ∀ schema ∈ catalog.schemas, ∀ decl ∈ schema.fields,
    decl.type.core ≠ .single) (root : RecordType) : catalog.Precise root := by
  intro owner _ decl declared
  unfold Catalog.fields at declared
  cases found : catalog.schemas[owner.id.place]? with
  | none => rw [found] at declared; cases declared
  | some schema =>
    rw [found] at declared
    exact all schema (List.mem_of_getElem? found) decl declared

namespace Engine

/-- The run comes to this field. -/
def Visits (engine : Engine) (context : Context) (options : Options) (record : TypedRecord) (field : FieldMetadata) :
    Prop :=
  ∃ metadata ∈ (engine.plan context options (record.snapshot engine.catalog)).described engine.catalog engine.registry,
    field ∈ metadata.fields

/-- A run that writes back and ends well leaves a record that holds the document's data: validating it with the
same options, without writing and without rules, gives the document again. -/
theorem validateMut_coherent (engine : Engine) {first second : MetadataCache} (context : Context) {options : Options}
    (record : TypedRecord) {document : Document} (writes : options.writesBack = true)
    (fits : record.Fits engine.catalog) (properRules : engine.registry.Proper)
    (precise : engine.catalog.Precise record.type)
    (steady : ∀ field, engine.Visits context options record field → field.Steady options.method)
    (faithful : first.Faithful engine.catalog engine.registry)
    (alsoFaithful : second.Faithful engine.catalog engine.registry)
    (ended : (engine.validateMut first context options record).result = .ok document) :
    ∃ left again, (engine.validateMut first context options record).record = some left ∧
      (engine.validate second context { options with writesBack := false, skipAll := true } left).result = .ok again ∧
      again.Alike document := by
  unfold validateMut at ended ⊢
  simp only [writes, if_true] at ended ⊢
  have steadyRecords : ∀ metadata ∈ (engine.plan context options (record.snapshot engine.catalog)).described
      engine.catalog engine.registry, metadata.Steady options.method :=
    fun metadata asked field member => steady field ⟨metadata, asked, member⟩
  obtain ⟨left, kept, leaves⟩ := Plan.leaves_of_run faithful steadyRecords ended
  have denotes : record.toData.Denotes engine.catalog (.record record.type)
      (.record record.type (record.snapshot engine.catalog).fields) := ⟨⟨rfl, fits⟩, Value.alike_refl _⟩
  have below : (FieldType.record record.type).Below engine.catalog record.type := by
    refine ⟨nofun, fun recordType same => ?_⟩
    cases same
    exact .root
  have skips :
      (engine.setting context { options with writesBack := false, skipAll := true }).options.skipAll = true := rfl
  have walked : (walkRecord (engine.setting context options) (engine.settings.maxDepth + 1)
      ⟨record.type, (record.snapshot engine.catalog).fields⟩ Place.root true).Leaves engine.catalog engine.registry
      (RecordMetadata.Steady options.method) (.record record.type) Place.root.segments record.toData document
      left.toData := leaves
  obtain ⟨fields, again, shape, alike, returns⟩ := coheres_walkRecord precise properRules skips
    (show _ = (engine.setting context options).options.method from rfl) (engine.settings.maxDepth + 1) below
    denotes walked
  refine ⟨left, again, kept, ?_, ⟨document, List.Perm.refl _, alike⟩⟩
  have snapshot : left.snapshot engine.catalog = ⟨record.type, fields⟩ := by
    obtain ⟨leftType, leftFields⟩ := Value.record.inj (show (left.snapshot engine.catalog).toValue = _ from shape)
    exact congrArg₂ RecordValue.mk leftType leftFields
  simp only [validate, validateSnapshot, Bool.false_eq_true, if_false]
  rw [Plan.run_outcome _ alsoFaithful, snapshot]
  exact returns Place.root true

/-- People with notes and an address, whose texts are all stamped. -/
def stamping : Engine where
  catalog := ⟨[
    ⟨"Person", [⟨"name", "name,stamp", .string⟩, ⟨"notes", "notes,dive,stamp", .optional (.sequence .string)⟩,
      ⟨"home", "home", .record ⟨1, "Address"⟩⟩]⟩,
    ⟨"Address", [⟨"street", "street,stamp", .string⟩]⟩]⟩
  registry := Registry.empty.putTransformation "stamp"
    ⟨fun _ _ scope => .ok (.string (scope.value.text?.getD "" ++ "!")), false⟩ false
  settings := ⟨3⟩

/-- One of them. -/
def ada : TypedRecord := ⟨⟨0, "Person"⟩, [.string "Ada", .some (.sequence [.string "early", .string "late"]),
  .record ⟨1, "Address"⟩ [.string "Mill Lane"]]⟩

theorem stamping_coherent : ∃ document left again,
    (stamping.validateMut .empty {} { writesBack := true } ada).result = .ok document ∧
    (stamping.validateMut .empty {} { writesBack := true } ada).record = some left ∧
    (stamping.validate .empty {} { skipAll := true } left).result = .ok again ∧ again.Alike document := by
  have passes : (stamping.validateMut .empty {} { writesBack := true } ada).result.isOk = true := by decide +kernel
  cases ended : (stamping.validateMut .empty {} { writesBack := true } ada).result with
  | error fault => rw [ended] at passes; cases passes
  | ok document =>
    have fits : ada.Fits stamping.catalog := by
      simp [ada, TypedRecord.Fits, stamping, Catalog.fields, FieldsFit, FieldDecl.isHidden, FieldDecl.descriptor,
        FieldType.descriptor, Descriptor.unsupportedKind?, Data.Fits, FieldType.unboxed, ItemsFit]
    have proper : stamping.registry.Proper := by
      intro name rule found
      have stamp : rule.apply = fun _ _ scope => .ok (.string (scope.value.text?.getD "" ++ "!")) := by
        simp only [stamping, Registry.putTransformation, Registry.empty, Registry.transformation?, Entries.insert,
          Entries.get?_cons, Entries.get?_nil] at found
        split at found
        · cases found
          rfl
        · cases found
      intro context transaction scope value _ given
      rw [stamp] at given
      cases given
      trivial
    have precise : stamping.catalog.Precise ada.type := precise_of_schemas (by decide) _
    have steady : ∀ metadata ∈ (stamping.plan {} { writesBack := true } (ada.snapshot stamping.catalog)).described
        stamping.catalog stamping.registry, ∀ field ∈ metadata.fields, field.Steady .validate := by decide +kernel
    obtain ⟨left, again, kept, returns, alike⟩ := validateMut_coherent stamping {} ada
      (show ({ writesBack := true } : Options).writesBack = true from rfl) fits proper precise
      (fun field visited => visited.elim fun metadata both => steady metadata both.1 field both.2)
      (MetadataCache.faithful_empty _ _) (MetadataCache.faithful_empty _ _) ended
    exact ⟨document, left, again, rfl, kept, returns, alike⟩

end Engine

end TaggedRecords
