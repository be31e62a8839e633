import TaggedRecords.Proofs.ComparedRuns
import TaggedRecords.Proofs.PlanOutcomes
import TaggedRecords.Proofs.VisitRuns

/-!
# Independent fields

What a run puts into the document for a field depends on the field's own declaration and on the values of the record.
The tags of the other fields, what their rules do and whether they are left out or entered make no difference, and a
rule that reads other fields sees the values that the record came with.
-/

namespace TaggedRecords

/-- The name of the field's entry in documents; a skipped field has none. -/
def FieldDecl.outputName? (decl : FieldDecl) : Option String :=
  match Tag.parse decl.tag with
  | .skip => none
  | .field rename _ => some (rename.getD decl.name)

/-- Two record types with the same fields but for their tags, and one field, with a name of its own in documents, whose
tag is the same in both. -/
structure Catalog.Shares (catalog : Catalog) (a b : RecordType) (index : Nat) (name : String) : Prop where
  shapes : (catalog.fields a).map (fun decl => (decl.name, decl.type)) =
    (catalog.fields b).map fun decl => (decl.name, decl.type)
  shared : (catalog.fields a)[index]? = (catalog.fields b)[index]?
  named : (catalog.fields a)[index]?.bind FieldDecl.outputName? = some name
  alone : ∀ other decl, other ≠ index → (catalog.fields a)[other]? = some decl → decl.outputName? ≠ some name
  alsoAlone : ∀ other decl, other ≠ index → (catalog.fields b)[other]? = some decl → decl.outputName? ≠ some name

/-- Transformations read the owner of a field through its fields alone. -/
def Registry.ReadsFields (registry : Registry) : Prop :=
  ∀ name rule, registry.transformation? name = some rule → ∀ context transaction scope owner,
    owner.fields = scope.owner.fields →
    rule.apply context transaction { scope with owner := owner } = rule.apply context transaction scope

/-! ## Plans that both pass -/

/-- If both plans have a result, the results belong together. -/
def Plan.PassAlike (catalog : Catalog) (registry : Registry) {α β : Type} (Rel : α → β → Prop) (left : Plan α)
    (right : Plan β) : Prop :=
  ∀ a b, left.outcome catalog registry = .ok a → right.outcome catalog registry = .ok b → Rel a b

namespace Plan.PassAlike
variable {catalog : Catalog} {registry : Registry} {α β γ δ : Type} {Rel : α → β → Prop}

theorem done {a : α} {b : β} (related : Rel a b) :
    Plan.PassAlike catalog registry Rel (.done a) (.done b) := by
  rintro _ _ ⟨⟩ ⟨⟩
  exact related

theorem bind {Next : γ → δ → Prop} {left : Plan α} {right : Plan β} {follow : α → Plan γ} {alsoFollow : β → Plan δ}
    (first : left.PassAlike catalog registry Rel right)
    (second : ∀ a b, Rel a b → (follow a).PassAlike catalog registry Next (alsoFollow b)) :
    (left.bind follow).PassAlike catalog registry Next (right.bind alsoFollow) := by
  intro c d ended alsoEnded
  obtain ⟨a, comes, follows⟩ := (Plan.outcome_bind_eq_ok catalog registry).mp ended
  obtain ⟨b, alsoComes, alsoFollows⟩ := (Plan.outcome_bind_eq_ok catalog registry).mp alsoEnded
  exact second a b (first a b comes alsoComes) c d follows alsoFollows

theorem describe {type : RecordType} {left : RecordMetadata → Plan α} {right : RecordMetadata → Plan β}
    (next : ∀ metadata, RecordMetadata.build catalog registry type = .ok metadata →
      (left metadata).PassAlike catalog registry Rel (right metadata)) :
    (Plan.describe type left).PassAlike catalog registry Rel (.describe type right) := by
  intro a b ended alsoEnded
  rw [Plan.outcome_describe] at ended alsoEnded
  cases built : RecordMetadata.build catalog registry type with
  | ok metadata =>
    rw [built] at ended alsoEnded
    exact next metadata built a b ended alsoEnded
  | error fault => rw [built] at ended; cases ended

end Plan.PassAlike

/-! ## Owners with the same fields -/

/-- An entry does the same in two scopes whose owners have the same fields, where it passes in both. -/
theorem runEntry_passAlike {catalog : Catalog} {setting : Setting} (reads : setting.registry.ReadsFields)
    {entry : RuleEntry} (registered : entry.action.Registered setting.registry) (nullable : Bool) (place : Place)
    {scope other : Scope} (resembles : scope.Resembles (fun a b => a.fields = b.fields) Eq other) :
    (runEntry setting nullable place scope entry).PassAlike catalog setting.registry
      (Scope.Resembles (fun a b => a.fields = b.fields) Eq) (runEntry setting nullable place other entry) := by
  obtain ⟨owners, values, rest⟩ := resembles
  obtain ⟨owner, rfl⟩ : ∃ owner, other = { scope with owner := owner } := ⟨other.owner, by rw [rest, ← values]⟩
  have seen : Scope.seenBy { scope with owner := owner } entry = { scope.seenBy entry with owner := owner } := rfl
  have passes (value : Value) : ((scope.seenBy entry).holding value).Resembles (fun a b => a.fields = b.fields) Eq
      (Scope.holding { scope.seenBy entry with owner := owner } value) := ⟨owners, rfl, rfl⟩
  rw [runEntry_eq, runEntry_eq, seen]
  intro a b ended alsoEnded
  rw [Plan.outcome_note] at ended alsoEnded
  cases action : entry.action with
  | validate rule =>
    simp only [action] at ended alsoEnded
    split at ended <;> cases ended
    split at alsoEnded <;> cases alsoEnded
    exact passes scope.value
  | transform rule =>
    rw [action] at registered
    obtain ⟨name, found⟩ := registered
    have sameResult := reads name rule found setting.context setting.options.transaction (scope.seenBy entry) owner
      owners.symm
    simp only [action, sameResult] at ended alsoEnded
    split at ended
    · cases ended
    · next value given =>
      rw [given] at alsoEnded
      have allows : Scope.allows { scope.seenBy entry with owner := owner } nullable value =
          (scope.seenBy entry).allows nullable value := rfl
      simp only [allows] at alsoEnded
      split at ended
      · cases ended
      · next allowed =>
        rw [if_neg allowed] at alsoEnded
        split at ended
        · next unchanged =>
          rw [if_pos unchanged] at alsoEnded
          cases ended
          cases alsoEnded
          exact passes scope.value
        · next changed =>
          rw [if_neg changed] at alsoEnded
          cases ended
          cases alsoEnded
          exact passes value

/-- Plans whose results belong together if both have one. -/
def PlanRelation.passAlike (catalog : Catalog) (registry : Registry) : PlanRelation catalog registry where
  Plans := Plan.PassAlike catalog registry
  done := .done
  bind := .bind
  describe := .describe

/-- Two traversals of the same records, the fields of whose root may be declared by another type. -/
def Comparison.ofOwners (catalog : Catalog) (setting : Setting) (reads : setting.registry.ReadsFields) :
    Comparison catalog setting :=
  .ofSame (.passAlike catalog setting.registry) (fun a b => a.fields = b.fields) (fun _ => rfl)
    (fun _ _ _ next => next) fun nullable place _ _ registered resembles =>
      runEntry_passAlike reads registered nullable place resembles

/-! ## The entry of one field -/

section
variable {catalog : Catalog} {setting : Setting} {nested : Nested} {owner : RecordValue} {validate : Bool}
  {place : Place} {name : String}

/-- The traversal of fields with other names leaves what stands under a name. -/
theorem get?_of_others {fields : List FieldMetadata} (others : ∀ field ∈ fields, field.name ≠ name)
    {start document : Document}
    (ended : (walkFields setting nested owner validate place start fields).outcome catalog setting.registry =
      .ok document) : Entries.get? document name = Entries.get? start name := by
  induction fields generalizing start with
  | nil =>
    cases ended
    rfl
  | cons field rest ih =>
    obtain ⟨here, below⟩ := List.forall_mem_cons.mp others
    obtain ⟨emitted, _, follows⟩ := (Plan.outcome_bind_eq_ok catalog setting.registry).mp ended
    rw [ih below follows]
    cases emitted with
    | none => rfl
    | some value => exact (Entries.get?_insert _ _ _ _).trans (if_neg here)

/-- Where one field alone has a name, what it emits stands under that name in the end. -/
theorem get?_of_walkFields {before after : List FieldMetadata} {field : FieldMetadata}
    (others : ∀ other ∈ before ++ after, other.name ≠ field.name) {start document : Document}
    (fresh : Entries.get? start field.name = none)
    (ended : (walkFields setting nested owner validate place start (before ++ field :: after)).outcome catalog
      setting.registry = .ok document) :
    (walkField setting nested owner field validate (place.field field.name field.declared field.index)
      ((owner.at? field.index).getD .null)).outcome catalog setting.registry =
        .ok (Entries.get? document field.name) := by
  induction before generalizing start with
  | nil =>
    obtain ⟨emitted, comes, follows⟩ := (Plan.outcome_bind_eq_ok catalog setting.registry).mp ended
    rw [comes, get?_of_others others follows]
    cases emitted with
    | none => rw [fresh]
    | some value => rw [Entries.get?_insert, if_pos rfl]
  | cons first rest ih =>
    obtain ⟨here, below⟩ := List.forall_mem_cons.mp others
    obtain ⟨emitted, _, follows⟩ := (Plan.outcome_bind_eq_ok catalog setting.registry).mp ended
    refine ih below ?_ follows
    cases emitted with
    | none => exact fresh
    | some value => rw [Entries.get?_insert, if_neg here, fresh]

end

/-! ## Two declarations of one field -/

section
variable {catalog : Catalog} {registry : Registry}

theorem name_of_fieldMetadata {record : String} {index : Nat} {decl : FieldDecl} {field? : Option FieldMetadata}
    (built : fieldMetadata registry record index decl = .ok field?) :
    field?.map FieldMetadata.name = decl.outputName? := by
  unfold fieldMetadata at built
  split at built
  · next skips =>
    cases built
    rw [FieldDecl.outputName?, skips]
    rfl
  · next rename tokens shows =>
    split at built
    · cases built
    · cases read : Chains.empty.addAll registry record decl.name tokens with
      | error fault => rw [read] at built; cases built
      | ok chains =>
        rw [read] at built
        cases built
        rw [FieldDecl.outputName?, shows]
        rfl

theorem names_of_fieldsMetadata {record : String} {decls : List FieldDecl} {start : Nat} {fields : List FieldMetadata}
    (built : fieldsMetadata registry record start decls = .ok fields) :
    fields.map FieldMetadata.name = decls.filterMap FieldDecl.outputName? := by
  induction decls generalizing start fields with
  | nil =>
    cases built
    rfl
  | cons decl rest ih =>
    rw [fieldsMetadata] at built
    cases first : fieldMetadata registry record start decl with
    | error fault => rw [first] at built; cases built
    | ok field? =>
      cases others : fieldsMetadata registry record (start + 1) rest with
      | error fault => rw [first, others] at built; cases built
      | ok tail =>
        have named := name_of_fieldMetadata first
        rw [first, others] at built
        cases field? with
        | none =>
          cases built
          rw [List.filterMap_cons_none named.symm, ih others]
        | some field =>
          cases built
          rw [List.filterMap_cons_some named.symm, List.map_cons, ih others]

/-- The built metadata has the output names of the declarations, in their order. -/
theorem names_of_build {type : RecordType} {metadata : RecordMetadata}
    (built : RecordMetadata.build catalog registry type = .ok metadata) :
    metadata.fields.map FieldMetadata.name = (catalog.fields type).filterMap FieldDecl.outputName? := by
  unfold RecordMetadata.build at built
  cases read : fieldsMetadata registry type.name 0 (catalog.fields type) with
  | error fault => rw [read] at built; cases built
  | ok fields =>
    rw [read] at built
    cases built
    exact names_of_fieldsMetadata read

/-- The built metadata holds a field for a declaration with an output name, and no other of that name if no other
declaration has it. -/
theorem exists_field {type : RecordType} {metadata : RecordMetadata}
    (built : RecordMetadata.build catalog registry type = .ok metadata) {index : Nat} {name : String}
    (named : (catalog.fields type)[index]?.bind FieldDecl.outputName? = some name)
    (alone : ∀ other decl, other ≠ index → (catalog.fields type)[other]? = some decl →
      decl.outputName? ≠ some name) :
    ∃ before field after, metadata.fields = before ++ field :: after ∧ field.name = name ∧
      (∀ other ∈ before ++ after, other.name ≠ name) ∧
      ∃ decl, (catalog.fields type)[index]? = some decl ∧
        fieldMetadata registry type.name index decl = .ok (some field) := by
  obtain ⟨decl, declared, output⟩ := Option.bind_eq_some_iff.mp named
  have shows : Tag.parse decl.tag ≠ .skip := by
    intro skips
    simp [FieldDecl.outputName?, skips] at output
  obtain ⟨field, member, rfl⟩ := List.mem_map.mp ((mem_indices_iff built declared).mpr shows)
  obtain ⟨before, after, fields⟩ := List.append_of_mem member
  have describes {other : FieldMetadata} (among : other ∈ metadata.fields) : ∃ otherDecl,
      (catalog.fields type)[other.index]? = some otherDecl ∧
        fieldMetadata registry type.name other.index otherDecl = .ok (some other) := by
    obtain ⟨place, otherDecl, found, comes⟩ := (mem_fields_iff built).mp among
    rw [(describes_of_fieldMetadata comes).index]
    exact ⟨otherDecl, found, comes⟩
  obtain ⟨sameDecl, found, comes⟩ := describes member
  cases declared.symm.trans found
  refine ⟨before, field, after, fields, ?_, fun other among named => ?_, decl, declared, comes⟩
  · exact Option.some.inj ((name_of_fieldMetadata comes).trans output)
  · have distinct := (describes_of_build built).2
    have front : metadata.fields.Perm (field :: (before ++ after)) := fields ▸ List.perm_middle
    rw [(front.map FieldMetadata.index).nodup_iff, List.map_cons, List.nodup_cons] at distinct
    obtain ⟨otherDecl, otherFound, otherComes⟩ := describes (front.mem_iff.mpr (List.mem_cons_of_mem _ among))
    have differs : other.index ≠ field.index := fun same => distinct.1 (List.mem_map.mpr ⟨other, among, same⟩)
    refine alone other.index otherDecl differs otherFound ?_
    rw [← name_of_fieldMetadata otherComes, ← named]
    rfl

end

/-- The snapshot of a record's content takes nothing but the names from the declarations. -/
theorem snapshotFields_congr (catalog : Catalog) {decls others : List FieldDecl}
    (names : decls.map FieldDecl.name = others.map FieldDecl.name) (fields : List Data) :
    snapshotFields catalog decls fields = snapshotFields catalog others fields := by
  induction decls generalizing others fields with
  | nil =>
    cases others with
    | nil => rfl
    | cons _ _ => cases names
  | cons decl rest ih =>
    cases others with
    | nil => cases names
    | cons other others =>
      obtain ⟨name, names⟩ := List.cons.inj names
      cases fields with
      | nil => rfl
      | cons field fields => rw [snapshotFields, snapshotFields, name, ih names]

/-! ## Runs of an engine -/

namespace Engine

/-- What a passing plan puts under the name of one field is what its visit alone comes to. -/
theorem emits_of_plan (engine : Engine) (context : Context) (options : Options) {type : RecordType} {index : Nat}
    {name : String} (named : (engine.catalog.fields type)[index]?.bind FieldDecl.outputName? = some name)
    (alone : ∀ other decl, other ≠ index → (engine.catalog.fields type)[other]? = some decl →
      decl.outputName? ≠ some name) {fields : List (String × Value)} {document : Document}
    (ended : (engine.plan context options ⟨type, fields⟩).outcome engine.catalog engine.registry = .ok document) :
    ∃ decl field, (engine.catalog.fields type)[index]? = some decl ∧
      fieldMetadata engine.registry type.name index decl = .ok (some field) ∧
      (walkField (engine.setting context options)
        (walkRecord (engine.setting context options) engine.settings.maxDepth) ⟨type, fields⟩ field true
        (Place.root.field field.name field.declared field.index)
        ((RecordValue.at? ⟨type, fields⟩ field.index).getD .null)).outcome engine.catalog engine.registry =
          .ok (Entries.get? document name) := by
  unfold plan at ended
  rw [walkRecord, Plan.outcome_describe] at ended
  cases built : RecordMetadata.build engine.catalog engine.registry type with
  | error fault => rw [built] at ended; cases ended
  | ok metadata =>
    rw [built] at ended
    obtain ⟨before, field, after, holds, rfl, others, decl, declared, comes⟩ := exists_field built named alone
    refine ⟨decl, field, declared, comes, ?_⟩
    have whole : (walkFields (engine.setting context options) (walkRecord (engine.setting context options)
        engine.settings.maxDepth) ⟨type, fields⟩ true .root [] (before ++ field :: after)).outcome engine.catalog
          (engine.setting context options).registry = .ok document := holds ▸ ended
    exact get?_of_walkFields others (Entries.get?_nil _) whole

/-- If runs of two record types that share a field both pass, on the same values, what stands under the field's name in
the document is the same. -/
theorem shared_field_independent (engine : Engine) {first second : MetadataCache} (context : Context)
    (options : Options) {a b : RecordType} {index : Nat} {name : String}
    (shares : engine.catalog.Shares a b index name) (reads : engine.registry.ReadsFields)
    (faithful : first.Faithful engine.catalog engine.registry)
    (alsoFaithful : second.Faithful engine.catalog engine.registry) :
    (∀ fields document other,
      (engine.validateSnapshot first context options ⟨a, fields⟩).result = .ok document →
      (engine.validateSnapshot second context options ⟨b, fields⟩).result = .ok other →
      Entries.get? document name = Entries.get? other name) ∧
    ∀ fields document other,
      (engine.validateMut first context options ⟨a, fields⟩).result = .ok document →
      (engine.validateMut second context options ⟨b, fields⟩).result = .ok other →
      Entries.get? document name = Entries.get? other name := by
  have plans (fields : List (String × Value)) (document other : Document)
      (ended : (engine.plan context options ⟨a, fields⟩).outcome engine.catalog engine.registry = .ok document)
      (alsoEnded : (engine.plan context options ⟨b, fields⟩).outcome engine.catalog engine.registry = .ok other) :
      Entries.get? document name = Entries.get? other name := by
    obtain ⟨decl, field, declared, comes, emits⟩ := engine.emits_of_plan context options shares.named shares.alone ended
    obtain ⟨sameDecl, sameField, alsoDeclared, alsoComes, alsoEmits⟩ :=
      engine.emits_of_plan context options (shares.shared ▸ shares.named) shares.alsoAlone alsoEnded
    cases (shares.shared ▸ declared).symm.trans alsoDeclared
    cases (fieldMetadata_of_fieldMetadata comes).symm.trans alsoComes
    have enters := (Comparison.ofOwners engine.catalog (engine.setting context options) reads).enters_walkRecord_same
      (fun _ _ _ _ _ _ _ failed => by cases failed) engine.settings.maxDepth
    have describes := describes_of_fieldMetadata comes
    have related := (Comparison.ofOwners engine.catalog (engine.setting context options) reads).plans_walkField
      enters (show RecordValue.fields ⟨a, fields⟩ = RecordValue.fields ⟨b, fields⟩ from rfl) describes.rules
      describes.elementRules rfl _ _ emits alsoEmits
    generalize Entries.get? document name = emitted, Entries.get? other name = alsoEmitted at related ⊢
    cases related with
    | some same => exact congrArg some same
    | none => rfl
  have names : (engine.catalog.fields a).map FieldDecl.name = (engine.catalog.fields b).map FieldDecl.name := by
    simpa [Function.comp_def] using congrArg (List.map Prod.fst) shares.shapes
  constructor
  · intro fields document other ended alsoEnded
    unfold validateSnapshot at ended alsoEnded
    split at ended
    · cases ended
    · next reads =>
      rw [if_neg reads] at alsoEnded
      exact plans fields document other (Plan.outcome_of_run _ faithful ended)
        (Plan.outcome_of_run _ alsoFaithful alsoEnded)
  · intro fields document other ended alsoEnded
    have sameSnapshot : TypedRecord.snapshot engine.catalog ⟨b, fields⟩ =
        ⟨b, (TypedRecord.snapshot engine.catalog ⟨a, fields⟩).fields⟩ :=
      congrArg (RecordValue.mk b) (snapshotFields_congr engine.catalog names fields).symm
    have first := Plan.outcome_of_run _ faithful ended
    have second := Plan.outcome_of_run _ alsoFaithful alsoEnded
    rw [sameSnapshot] at second
    exact plans _ document other first second

/-- Cards that greet a person by the name on the record. One kind shouts the name, the other skips it. -/
def greeting : Engine where
  catalog := ⟨[
    ⟨"Card", [⟨"name", "name,transform=shout", .string⟩, ⟨"text", "text,transform=greet", .string⟩]⟩,
    ⟨"Note", [⟨"name", "-", .string⟩, ⟨"text", "text,transform=greet", .string⟩]⟩]⟩
  registry := (Registry.empty.putTransformation "shout"
    ⟨fun _ _ scope => .ok (.string (scope.value.text?.getD "" ++ "!")), false⟩ false).putTransformation "greet"
    ⟨fun _ _ scope =>
      .ok (.string (scope.value.text?.getD "" ++ (((scope.owner.at? 0).bind Value.text?).getD ""))), false⟩ false
  settings := ⟨3⟩

/-- The greeting has the name that the record came with, whatever becomes of the name itself. -/
theorem greeting_independent : ∃ document other,
    (greeting.validateMut .empty {} {} ⟨⟨0, "Card"⟩, [.string "Ada", .string "Dear "]⟩).result = .ok document ∧
    (greeting.validateMut .empty {} {} ⟨⟨1, "Note"⟩, [.string "Ada", .string "Dear "]⟩).result = .ok other ∧
    Entries.get? document "text" = Entries.get? other "text" ∧
    (Entries.get? other "text").bind Value.text? = some "Dear Ada" := by
  have others (type : RecordType) (size : (greeting.catalog.fields type).length = 2)
      (first : ((greeting.catalog.fields type)[0]?.bind FieldDecl.outputName?) ≠ some "text") (place : Nat)
      (decl : FieldDecl) (differs : place ≠ 1) (declared : (greeting.catalog.fields type)[place]? = some decl) :
      decl.outputName? ≠ some "text" := by
    have below := (List.getElem?_eq_some_iff.mp declared).1
    obtain rfl : place = 0 := by omega
    rwa [declared] at first
  have shares : greeting.catalog.Shares ⟨0, "Card"⟩ ⟨1, "Note"⟩ 1 "text" :=
    ⟨by decide, by decide, by decide +kernel, others _ (by decide) (by decide +kernel),
      others _ (by decide) (by decide +kernel)⟩
  have reads : greeting.registry.ReadsFields := by
    intro name rule found context transaction scope owner fields
    simp only [greeting, Registry.putTransformation, Registry.empty, Registry.transformation?, Entries.insert,
      Entries.get?_cons, Entries.get?_nil, String.reduceEq, if_false] at found
    split at found
    · cases found
      rfl
    · split at found
      · cases found
        simp only [RecordValue.at?, fields]
      · cases found
  have faithful : MetadataCache.empty.Faithful greeting.catalog greeting.registry := MetadataCache.faithful_empty _ _
  have passes : (greeting.validateMut .empty {} {}
      ⟨⟨0, "Card"⟩, [.string "Ada", .string "Dear "]⟩).result.isOk = true := by decide +kernel
  have greets : (greeting.validateMut .empty {} {}
      ⟨⟨1, "Note"⟩, [.string "Ada", .string "Dear "]⟩).result.toOption.any
        (fun document => (Entries.get? document "text").bind Value.text? == some "Dear Ada") = true := by
    decide +kernel
  obtain ⟨-, independent⟩ := shared_field_independent greeting {} {} shares reads faithful faithful
  cases ended : (greeting.validateMut .empty {} {} ⟨⟨0, "Card"⟩, [.string "Ada", .string "Dear "]⟩).result with
  | error fault => rw [ended] at passes; cases passes
  | ok document =>
    cases alsoEnded : (greeting.validateMut .empty {} {} ⟨⟨1, "Note"⟩, [.string "Ada", .string "Dear "]⟩).result with
    | error fault => rw [alsoEnded] at greets; cases greets
    | ok other =>
      rw [alsoEnded] at greets
      exact ⟨document, other, rfl, rfl, independent _ document other ended alsoEnded, eq_of_beq greets⟩

end Engine

end TaggedRecords
