import TaggedRecords.Proofs.PlanOutcomes
import TaggedRecords.Proofs.ShownFields

/-!
# Skipped fields

A run comes to alike results for records that differ in skipped fields alone, if its rules do not tell such values apart
and they agree on being zero where that makes a difference. Without these conditions skipped fields can tell.
-/

namespace TaggedRecords

/-! ## Plans with alike results -/

/-- The plans come to results that are alike. -/
def Plan.EndAlike (catalog : Catalog) (registry : Registry) (tests : FieldDecl → ZeroTests) {α β : Type}
    (Rel : α → β → Prop) (left : Plan α) (right : Plan β) : Prop :=
  TaggedRecords.EndAlike catalog tests Rel (left.outcome catalog registry) (right.outcome catalog registry)

namespace Plan.EndAlike
variable {catalog : Catalog} {registry : Registry} {tests : FieldDecl → ZeroTests} {α β γ δ : Type} {Rel : α → β → Prop}

theorem bind {Next : γ → δ → Prop} {left : Plan α} {right : Plan β} {follow : α → Plan γ} {alsoFollow : β → Plan δ}
    (first : left.EndAlike catalog registry tests Rel right)
    (second : ∀ a b, Rel a b → (follow a).EndAlike catalog registry tests Next (alsoFollow b)) :
    (left.bind follow).EndAlike catalog registry tests Next (right.bind alsoFollow) := by
  unfold Plan.EndAlike at *
  rw [Plan.outcome_bind, Plan.outcome_bind]
  exact TaggedRecords.EndAlike.bind first second

theorem describe {type : RecordType} {left : RecordMetadata → Plan α} {right : RecordMetadata → Plan β}
    (next : ∀ metadata, RecordMetadata.build catalog registry type = .ok metadata →
      (left metadata).EndAlike catalog registry tests Rel (right metadata)) :
    (Plan.describe type left).EndAlike catalog registry tests Rel (.describe type right) := by
  unfold Plan.EndAlike at *
  rw [Plan.outcome_describe, Plan.outcome_describe]
  cases built : RecordMetadata.build catalog registry type with
  | error fault => exact .failed (.same fault)
  | ok metadata => exact next metadata built

end Plan.EndAlike

/-! ## One entry of a chain -/

section
variable {catalog : Catalog} {method : Method} {tests : ZeroTests} {scope other : Scope}

theorem Scope.ShownAlike.seenBy (alike : scope.ShownAlike catalog method tests other) (entry : RuleEntry) :
    (scope.seenBy entry).ShownAlike catalog method tests (other.seenBy entry) := by
  obtain ⟨tested, owners, values, rest⟩ := alike
  refine ⟨tested, owners, values, ?_⟩
  rw [Scope.seenBy, rest]
  rfl

theorem findSome?_of_blind {formatters : List Formatter}
    (blind : ∀ formatter ∈ formatters, Formatter.Blind catalog method formatter)
    (alike : scope.ShownAlike catalog method tests other) :
    formatters.findSome? (fun formatter => formatter (.ofScope scope)) =
      formatters.findSome? fun formatter => formatter (.ofScope other) := by
  induction formatters with
  | nil => rfl
  | cons formatter rest ih =>
    obtain ⟨here, below⟩ := List.forall_mem_cons.mp blind
    rw [List.findSome?_cons, List.findSome?_cons, here tests scope other alike, ih below]

/-- A rejection of alike values is worded in the same way, or reports alike values. -/
theorem failure_alike {registry : Registry} (blind : registry.Blind catalog method)
    (alike : scope.ShownAlike catalog method tests other) :
    (registry.failure scope).ShownAlike catalog (FieldDecl.tests method) (registry.failure other) := by
  unfold Registry.failure
  simp only [findSome?_of_blind blind.formatters alike]
  split
  · exact .same _
  · have reported : FieldFailure.ofScope other = { FieldFailure.ofScope scope with value := other.value } := by
      rw [alike.resembles.rest]
      rfl
    rw [reported]
    exact .rejected alike.resembles.values.untested

/-- Where a transformation returns a value, the next entry finds what it leaves. -/
theorem outcome_holding (registry : Registry) (place : Place) (seen : Scope) (next : Value) :
    (if next.same seen.value then .done seen else .write place next (.done (seen.holding next)) : Plan Scope).outcome
      catalog registry = .ok (seen.holding (seen.value.updated next)) := by
  unfold Value.updated
  split <;> rfl

/-- An entry does the same in scopes with alike values, and leaves them alike. -/
theorem runEntry_endAlike {setting : Setting} (blind : setting.registry.Blind catalog setting.options.method)
    {entry : RuleEntry} (registered : entry.action.Registered setting.registry) (nullable : Bool) (place : Place)
    (alike : scope.ShownAlike catalog setting.options.method tests other) :
    (runEntry setting nullable place scope entry).EndAlike catalog setting.registry
      (FieldDecl.tests setting.options.method)
      (Scope.Resembles (fun _ _ => True) (Value.ShownAlike catalog (FieldDecl.tests setting.options.method) tests))
      (runEntry setting nullable place other entry) := by
  have seen := alike.seenBy entry
  rw [runEntry_eq, runEntry_eq]
  show TaggedRecords.EndAlike _ _ _ (Plan.outcome _ _ (.note _ _)) (Plan.outcome _ _ (.note _ _))
  rw [Plan.outcome_note, Plan.outcome_note]
  cases action : entry.action with
  | validate rule =>
    rw [action] at registered
    obtain ⟨name, found⟩ := registered
    have answers := blind.validations name rule found setting.context setting.options.transaction tests _ _ seen
    simp only
    generalize rule.check _ _ (scope.seenBy entry) = answer, rule.check _ _ (other.seenBy entry) = otherAnswer
      at answers ⊢
    cases answers with
    | failed faults => exact .failed faults
    | @passed accepted _ same =>
      subst same
      cases accepted with
      | true => exact .passed seen.resembles
      | false => exact .failed (failure_alike blind seen)
  | transform rule =>
    rw [action] at registered
    obtain ⟨name, found⟩ := registered
    have answers := blind.transformations name rule found setting.context setting.options.transaction tests _ _ seen
    simp only
    generalize rule.apply _ _ (scope.seenBy entry) = answer, rule.apply _ _ (other.seenBy entry) = otherAnswer
      at answers ⊢
    cases answers with
    | failed faults => exact .failed faults
    | @passed value otherValue both =>
      obtain ⟨values, left⟩ := both
      have descriptor : (other.seenBy entry).descriptor = (scope.seenBy entry).descriptor := by
        rw [seen.resembles.rest]
      have allows : (other.seenBy entry).allows nullable otherValue = (scope.seenBy entry).allows nullable value := by
        rw [Scope.allows, Scope.allows, descriptor, values.isNull_eq, values.admits_eq]
      simp only [allows, descriptor, ← values.parallel.kind_eq]
      cases (scope.seenBy entry).allows nullable value with
      | false => exact .failed (.same _)
      | true =>
        simp only [Bool.not_true, Bool.false_eq_true, if_false, outcome_holding]
        refine .passed ⟨trivial, left, ?_⟩
        rw [seen.resembles.rest]
        rfl

end

/-! ## Runs -/

/-- Plans that come to alike results. -/
def PlanRelation.endAlike (catalog : Catalog) (registry : Registry) (tests : FieldDecl → ZeroTests) :
    PlanRelation catalog registry where
  Plans := Plan.EndAlike catalog registry tests
  done := .passed
  bind := .bind
  describe := .describe

/-- Two traversals of records that differ in skipped fields. -/
def Comparison.ofShown (catalog : Catalog) (setting : Setting)
    (blind : setting.registry.Blind catalog setting.options.method) : Comparison catalog setting where
  toPlanRelation := .endAlike catalog setting.registry (FieldDecl.tests setting.options.method)
  owners _ _ := True
  records := RecordValue.ShownAlike catalog (FieldDecl.tests setting.options.method)
  values := Value.ShownAlike catalog (FieldDecl.tests setting.options.method)
  parallel := Value.ShownAlike.parallel
  untested := Value.ShownAlike.untested
  zero := Value.ShownAlike.isZero_eq
  delete := .same .none .delete
  sequence items := Value.ShownAlike.of_items items
  mapping entries := Value.ShownAlike.of_entries entries
  type := RecordValue.ShownAlike.type_eq
  owner _ := trivial
  field := by
    intro a b metadata field alike built member
    obtain ⟨place, decl, declared, comes⟩ := (mem_fields_iff built).mp member
    rw [tests_of_fieldMetadata setting.options.method comes, (describes_of_fieldMetadata comes).index]
    exact alike.field declared (shows_of_fieldMetadata comes)
  reached _ next := next
  entry tested registered resembles := runEntry_endAlike blind registered _ _ ⟨tested, resembles⟩

/-- The traversals of records that differ in skipped fields come to alike documents, or fail alike. -/
theorem endAlike_walkRecord {catalog : Catalog} {setting : Setting}
    (blind : setting.registry.Blind catalog setting.options.method) (room : Nat) {a b : RecordValue}
    (alike : a.ShownAlike catalog (FieldDecl.tests setting.options.method) b) (place : Place) (validate : Bool) :
    EndAlike catalog (FieldDecl.tests setting.options.method)
      (Document.ShownAlike catalog (FieldDecl.tests setting.options.method))
      ((walkRecord setting room a place validate).outcome catalog setting.registry)
      ((walkRecord setting room b place validate).outcome catalog setting.registry) := by
  have enters := (Comparison.ofShown catalog setting blind).enters_walkRecord_same
    (fun _ _ place _ _ => EndAlike.failed (.same (.depthExceeded place.path setting.maxDepth))) room
  exact EndAlike.imp (fun _ _ => Value.ShownAlike.of_entries) (enters a b place validate alike)

namespace Engine

/-- Runs over records that differ in skipped fields alone come to alike results, if rules and formatters do not tell
alike values apart and records are zero in both or in neither where that makes a difference. The results are the same,
unless a document holds a record as it is or a failure reports one. So it is of any snapshots, those of records to
validate among them. -/
theorem skipped_fields_silent (engine : Engine) {first second : MetadataCache} (context : Context) (options : Options)
    {a b : RecordValue} (blind : engine.registry.Blind engine.catalog options.method)
    (faithful : first.Faithful engine.catalog engine.registry)
    (alsoFaithful : second.Faithful engine.catalog engine.registry)
    (alike : a.ShownAlike engine.catalog (FieldDecl.tests options.method) b) :
    EndAlike engine.catalog (FieldDecl.tests options.method)
      (Document.ShownAlike engine.catalog (FieldDecl.tests options.method))
      (engine.validateSnapshot first context options a).result
      (engine.validateSnapshot second context options b).result ∧
    (∀ document, (engine.validateSnapshot first context options a).result = .ok document →
      EntriesRecordless document → (engine.validateSnapshot second context options b).result = .ok document) ∧
    ∀ fault, (engine.validateSnapshot first context options a).result = .error fault →
      (∀ failure, fault = .ruleFailed failure → failure.value.Recordless) →
      (engine.validateSnapshot second context options b).result = .error fault := by
  have related : EndAlike engine.catalog (FieldDecl.tests options.method)
      (Document.ShownAlike engine.catalog (FieldDecl.tests options.method))
      (engine.validateSnapshot first context options a).result
      (engine.validateSnapshot second context options b).result := by
    unfold validateSnapshot
    split
    · exact .failed (.same _)
    · rw [Plan.run_outcome _ faithful, Plan.run_outcome _ alsoFaithful]
      exact @endAlike_walkRecord engine.catalog (engine.setting context options) blind _ _ _ alike .root true
  refine ⟨related, fun document ended plain => ?_, fun fault failed plain => ?_⟩
  · rw [ended] at related
    generalize (engine.validateSnapshot second context options b).result = other at related
    cases related with
    | passed documents => exact congrArg Except.ok (Value.mapping.inj (documents.eq_of_recordless plain)).symm
  · rw [failed] at related
    generalize (engine.validateSnapshot second context options b).result = other at related
    cases related with
    | failed faults =>
      cases faults with
      | same fault => rfl
      | rejected values => rw [← values.eq_of_recordless (plain _ rfl)]

/-- Files with a number that is skipped, an author and readers, who have each a secret. -/
def filing : Engine where
  catalog := ⟨[⟨"Person", [⟨"secret", "-", .string⟩, ⟨"name", "name,required", .string⟩]⟩,
    ⟨"File", [⟨"number", " - ", .unsigned .w64⟩, ⟨"author", "author,required,omitempty", .record ⟨0, "Person"⟩⟩,
      ⟨"readers", "readers,dive", .sequence (.record ⟨0, "Person"⟩)⟩]⟩]⟩
  registry := Registry.withBuiltIns
  settings := ⟨3⟩

/-- A person with a secret. -/
def person (secret name : String) : Value := .record ⟨0, "Person"⟩ [("secret", .string secret), ("name", .string name)]

/-- A file that Ada wrote for Ben. -/
def file (number : UInt64) (secret other : String) : RecordValue :=
  ⟨⟨1, "File"⟩, [("number", .uint number), ("author", person secret "Ada"), ("readers", .sequence [person other "Ben"])]⟩

/-- The number and the secrets of a file make no difference. -/
theorem filing_silent : ∃ document,
    (filing.validateSnapshot .empty {} {} (file 1 "" "x")).result = .ok document ∧
    (filing.validateSnapshot .empty {} {} (file 2 "y" "")).result = .ok document ∧
    document.map Prod.fst = ["author", "readers"] := by
  have people (tests : ZeroTests) (secret other : String) {name : String} (named : name.isEmpty = false) :
      (person secret name).ShownAlike filing.catalog (FieldDecl.tests .validate) tests (person other name) := by
    refine .of_declared rfl rfl ?_ fun _ => by simp [Value.allZero, Value.isZero, named]
    change ∀ field ∈ [_, _], _
    simp only [List.forall_mem_cons]
    exact ⟨fun shows => absurd (by decide +kernel) shows, fun _ => .same _ _, nofun⟩
  have alike : (file 1 "" "x").ShownAlike filing.catalog (FieldDecl.tests .validate) (file 2 "y" "") := by
    refine .of_declared rfl rfl ?_ nofun
    change ∀ field ∈ [_, _, _], _
    simp only [List.forall_mem_cons]
    refine ⟨fun shows => absurd (by decide +kernel) shows, fun _ => people _ _ _ rfl, fun _ => ?_, nofun⟩
    exact .of_items (.cons (people _ _ _ rfl) .nil)
  have faithful : MetadataCache.empty.Faithful filing.catalog filing.registry := MetadataCache.faithful_empty _ _
  have passes : (filing.validateSnapshot .empty {} {} (file 1 "" "x")).result.toOption.any (fun document =>
      decide (EntriesRecordless document ∧ document.map Prod.fst = ["author", "readers"])) = true := by
    decide +kernel
  obtain ⟨-, silent, -⟩ := skipped_fields_silent filing {} {} blind_withBuiltIns faithful faithful alike
  cases ended : (filing.validateSnapshot .empty {} {} (file 1 "" "x")).result with
  | error fault => rw [ended] at passes; cases passes
  | ok document =>
    rw [ended] at passes
    obtain ⟨plain, names⟩ := of_decide_eq_true passes
    exact ⟨document, rfl, silent document ended plain, names⟩

end Engine

/-! ## Skipped fields that tell -/

/-- No rule reads what owns its value. -/
def Registry.ReadsNoOwner (registry : Registry) : Prop :=
  (∀ name rule, registry.validation? name = some rule → ∀ context transaction scope owner,
    rule.check context transaction { scope with owner := owner } = rule.check context transaction scope) ∧
  ∀ name rule, registry.transformation? name = some rule → ∀ context transaction scope owner,
    rule.apply context transaction { scope with owner := owner } = rule.apply context transaction scope

namespace Engine

/-- A record with nothing but a secret. -/
def sealedText (secret : String) : Value := .record ⟨0, "Seal"⟩ [("secret", .string secret)]

/-- A record of a type with one field. -/
def holding (id : Nat) (name : String) (inner : Value) : RecordValue := ⟨⟨id, name⟩, [("inner", inner)]⟩

/-- Types that leave such a record out if it is zero, keep it in a container as it is, refuse it with a failure that
reports it, and have a rule that reads the secret. -/
def telling : Engine where
  catalog := ⟨[⟨"Seal", [⟨"secret", "-", .string⟩]⟩,
    ⟨"Leaving", [⟨"inner", "inner,omitempty", .record ⟨0, "Seal"⟩⟩]⟩,
    ⟨"Keeping", [⟨"inner", "inner", .sequence (.record ⟨0, "Seal"⟩)⟩]⟩,
    ⟨"Refusing", [⟨"inner", "inner,refuse", .record ⟨0, "Seal"⟩⟩]⟩,
    ⟨"Reading", [⟨"inner", "inner,read", .record ⟨0, "Seal"⟩⟩]⟩]⟩
  registry := (Registry.empty.putValidation "refuse" ⟨fun _ _ _ => .ok false, true⟩ false).putValidation "read"
    ⟨fun _ _ scope => .ok (scope.value.same (sealedText "x")), true⟩ false
  settings := ⟨3⟩

/-- What tells the results apart: whether the run passes, and whether the secret is an "x". -/
def told (result : Except Fault Document) : Bool × Option Bool :=
  (result.isOk, match result with
    | .ok document => (Entries.get? document "inner").map fun value => value.same (.sequence [sealedText "x"])
    | .error (.ruleFailed failure) => some (failure.value.same (sealedText "x"))
    | .error _ => none)

/-- Though no rule reads an owner, records that differ in skipped fields alone are told apart: one is left out where the
other stays, they stand in documents and in failures as they are, and a rule may read them. -/
theorem skipped_fields_tell :
    telling.registry.ReadsNoOwner ∧
    ∀ pair ∈ [(holding 1 "Leaving" (sealedText ""), holding 1 "Leaving" (sealedText "x")),
        (holding 2 "Keeping" (.sequence [sealedText "x"]), holding 2 "Keeping" (.sequence [sealedText "y"])),
        (holding 3 "Refusing" (sealedText "x"), holding 3 "Refusing" (sealedText "y")),
        (holding 4 "Reading" (sealedText "x"), holding 4 "Reading" (sealedText "y"))],
      pair.1.ShownAlike telling.catalog (fun _ => .none) pair.2 ∧
      (telling.validateSnapshot .empty {} {} pair.1).result ≠ (telling.validateSnapshot .empty {} {} pair.2).result := by
  have seals (secret other : String) :
      (sealedText secret).ShownAlike telling.catalog (fun _ => .none) .none (sealedText other) := by
    refine .of_declared rfl rfl ?_ fun tested => absurd tested Bool.false_ne_true
    change ∀ field ∈ [_], _
    simp only [List.forall_mem_cons]
    exact ⟨fun shows => absurd (by decide +kernel) shows, List.forall_mem_nil _⟩
  have holders (id : Nat) (name : String) {inner other : Value}
      (size : (telling.catalog.fields ⟨id, name⟩).length = 1)
      (alike : inner.ShownAlike telling.catalog (fun _ => .none) .none other) :
      (holding id name inner).ShownAlike telling.catalog (fun _ => .none) (holding id name other) := by
    refine .of_declared rfl size.symm (fun field member _ => ?_) fun tested => absurd tested Bool.false_ne_true
    obtain ⟨decl, _, _⟩ := field
    have values := (List.of_mem_zip member).2
    cases List.mem_singleton.mp values
    exact alike
  have apart {result other : Except Fault Document} (differ : told result ≠ told other) : result ≠ other :=
    fun same => differ (congrArg told same)
  refine ⟨⟨fun name rule found context transaction scope owner => ?_, fun name rule found => ?_⟩, ?_⟩
  · simp only [telling, Registry.putValidation, Registry.empty, Registry.validation?, Entries.get?_insert] at found
    split at found
    · cases found
      rfl
    · split at found
      · cases found
        rfl
      · cases found
  · cases found
  · simp only [List.forall_mem_cons]
    refine ⟨⟨holders 1 "Leaving" rfl (seals _ _), apart ?_⟩, ⟨holders 2 "Keeping" rfl (.of_items ?_), apart ?_⟩,
      ⟨holders 3 "Refusing" rfl (seals _ _), apart ?_⟩, ⟨holders 4 "Reading" rfl (seals _ _), apart ?_⟩,
      List.forall_mem_nil _⟩
    · decide +kernel
    · exact .cons (seals _ _) .nil
    · decide +kernel
    · decide +kernel
    · decide +kernel

end Engine

end TaggedRecords
