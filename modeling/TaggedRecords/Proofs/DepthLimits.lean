import TaggedRecords.Proofs.CacheHistories
import TaggedRecords.Proofs.ComparedRuns

/-!
# Limits of depth

A greater limit of depth makes no difference to a run that the smaller one does not end: it comes to the same result,
takes the same steps and leaves the same record.
-/

namespace TaggedRecords

/-! ## Plans that differ where the first ends -/

/-- The second plan takes the steps of the first, or goes on where that one ends with a fault of the guard. -/
inductive Plan.Outlives (catalog : Catalog) (registry : Registry) {α β : Type} (Rel : α → β → Prop) :
    Plan α → Plan β → Prop where
  | done {a : α} {b : β} (related : Rel a b) : Outlives catalog registry Rel (.done a) (.done b)
  | fail (fault : Fault) : Outlives catalog registry Rel (.fail fault) (.fail fault)
  | describe {type : RecordType} {left : RecordMetadata → Plan α} {right : RecordMetadata → Plan β}
      (next : ∀ metadata, RecordMetadata.build catalog registry type = .ok metadata →
        Outlives catalog registry Rel (left metadata) (right metadata)) :
      Outlives catalog registry Rel (.describe type left) (.describe type right)
  | note (event : Event) {left : Plan α} {right : Plan β} (next : Outlives catalog registry Rel left right) :
      Outlives catalog registry Rel (.note event left) (.note event right)
  | write (place : Place) (value : Value) {left : Plan α} {right : Plan β}
      (next : Outlives catalog registry Rel left right) :
      Outlives catalog registry Rel (.write place value left) (.write place value right)
  | ended (path : String) (limit : Nat) (longer : Plan β) :
      Outlives catalog registry Rel (.fail (.depthExceeded path limit)) longer

namespace Plan.Outlives
variable {catalog : Catalog} {registry : Registry} {α β γ δ : Type} {Rel : α → β → Prop}

theorem refl {Rel : α → α → Prop} (same : ∀ result, Rel result result) (plan : Plan α) :
    plan.Outlives catalog registry Rel plan := by
  induction plan with
  | done result => exact .done (same result)
  | fail fault => exact .fail fault
  | describe type next ih => exact .describe fun metadata _ => ih metadata
  | note event next ih => exact .note event ih
  | write place value next ih => exact .write place value ih

theorem bind {Next : γ → δ → Prop} {left : Plan α} {right : Plan β} {follow : α → Plan γ}
    {alsoFollow : β → Plan δ} (first : left.Outlives catalog registry Rel right)
    (second : ∀ a b, Rel a b → (follow a).Outlives catalog registry Next (alsoFollow b)) :
    (left.bind follow).Outlives catalog registry Next (right.bind alsoFollow) := by
  induction first with
  | done related => exact second _ _ related
  | fail fault => exact .fail fault
  | describe _ ih => exact .describe ih
  | note event _ ih => exact .note event ih
  | write place value _ ih => exact .write place value ih
  | ended path limit longer => exact .ended path limit _

theorem imp {Wider : α → β → Prop} (wider : ∀ a b, Rel a b → Wider a b) {left : Plan α} {right : Plan β}
    (outlives : left.Outlives catalog registry Rel right) : left.Outlives catalog registry Wider right := by
  induction outlives with
  | done related => exact .done (wider _ _ related)
  | fail fault => exact .fail fault
  | describe _ ih => exact .describe ih
  | note event _ ih => exact .note event ih
  | write place value _ ih => exact .write place value ih
  | ended path limit longer => exact .ended path limit longer

/-- The first run ends with a fault of the guard, or the runs differ in the caches that they leave, if at all. -/
theorem run_matches {left right : Plan α} (outlives : left.Outlives catalog registry Eq right) :
    ∀ {first second : MetadataCache} (record : Option TypedRecord), first.Faithful catalog registry →
      second.Faithful catalog registry →
      (∃ path limit, (left.run catalog registry first record).result = .error (.depthExceeded path limit)) ∨
        (left.run catalog registry first record).Matches (right.run catalog registry second record) := by
  induction outlives with
  | done same =>
    intro first second record _ _
    subst same
    exact .inr ⟨rfl, rfl, rfl⟩
  | fail fault => exact fun _ _ _ => .inr ⟨rfl, rfl, rfl⟩
  | @describe type left right _ ih =>
    intro first second record faithful alsoFaithful
    obtain ⟨kept, keptFaithful, answer⟩ := MetadataCache.getOrBuild_cases faithful type
    obtain ⟨also, alsoKept, sameAnswer⟩ := MetadataCache.getOrBuild_cases alsoFaithful type
    rw [Plan.run, Plan.run, answer, sameAnswer]
    cases built : RecordMetadata.build catalog registry type with
    | ok metadata => exact ih metadata built record keptFaithful alsoKept
    | error fault => exact .inr ⟨rfl, rfl, rfl⟩
  | note event _ ih =>
    intro first second record faithful alsoFaithful
    refine (ih record faithful alsoFaithful).imp_right ?_
    rintro ⟨result, events, left⟩
    exact ⟨result, congrArg (event :: ·) events, left⟩
  | write place value _ ih =>
    intro first second record faithful alsoFaithful
    cases record with
    | none => exact ih none faithful alsoFaithful
    | some record =>
      rw [Plan.run, Plan.run]
      cases (record.writeAt catalog place.segments value).fault with
      | none => exact ih _ faithful alsoFaithful
      | some cause => exact .inr ⟨rfl, rfl, rfl⟩
  | ended path limit longer => exact fun _ _ _ => .inl ⟨path, limit, rfl⟩

end Plan.Outlives

/-! ## The traversal -/

theorem Scope.eq_of_resembles {scope other : Scope} (resembles : scope.Resembles Eq Eq other) : other = scope := by
  rw [resembles.rest, ← resembles.owners, ← resembles.values]

/-- Plans of which the second outlives the first. -/
def PlanRelation.outlives (catalog : Catalog) (registry : Registry) : PlanRelation catalog registry where
  Plans := Plan.Outlives catalog registry
  done := .done
  bind := .bind
  describe := .describe

/-- Two traversals of the same things. -/
def Comparison.ofLimits (catalog : Catalog) (setting : Setting) : Comparison catalog setting :=
  .ofSame (.outlives catalog setting.registry) Eq (fun _ => rfl) (fun event _ _ next => .note event next)
    fun nullable place scope other _ resembles => by
      rw [scope.eq_of_resembles resembles]
      exact .refl (fun _ => ⟨rfl, rfl, rfl⟩) _

/-- With more room under a greater limit the traversal of a record outlives the other. -/
theorem outlives_walkRecord (catalog : Catalog) (setting : Setting) (limit more room : Nat) (record : RecordValue)
    (place : Place) (validate : Bool) :
    (walkRecord setting room record place validate).Outlives catalog setting.registry Eq
      (walkRecord (setting.limited limit) (more + room) record place validate) := by
  refine ((Comparison.ofLimits catalog setting).enters_walkRecord limit more
    (fun _ _ place _ _ => .ended place.path setting.maxDepth _) room record record place validate rfl).imp ?_
  exact fun document other => eq_of_forall₂_keyed

/-! ## Runs of an engine -/

namespace Engine

/-- The engine with another limit of depth. -/
def limited (engine : Engine) (limit : Nat) : Engine :=
  { engine with settings := { engine.settings with maxDepth := limit } }

theorem outlives_plan (engine : Engine) {limit : Nat} (deeper : engine.settings.maxDepth ≤ limit) (context : Context)
    (options : Options) (snapshot : RecordValue) :
    (engine.plan context options snapshot).Outlives engine.catalog engine.registry Eq
      ((engine.limited limit).plan context options snapshot) := by
  obtain ⟨more, rfl⟩ := Nat.exists_eq_add_of_le' deeper
  exact outlives_walkRecord engine.catalog (engine.setting context options) _ more _ snapshot .root true

/-- A run that does not fail with a fault of the guard is the same under any greater limit: its result, its steps with
the rules among them, and the record that it leaves. So it is of a record, which may take the writes, and of any
snapshot, that of a record to validate among them. -/
theorem deeper_limit_changes_nothing (engine : Engine) {limit : Nat} (deeper : engine.settings.maxDepth ≤ limit)
    {first second : MetadataCache} (context : Context) (options : Options) (record : TypedRecord)
    (faithful : first.Faithful engine.catalog engine.registry)
    (alsoFaithful : second.Faithful engine.catalog engine.registry) :
    ((∀ path reached, (engine.validateMut first context options record).result ≠ .error (.depthExceeded path reached)) →
      (engine.validateMut first context options record).Matches
        ((engine.limited limit).validateMut second context options record)) ∧
    ∀ snapshot, (∀ path reached,
        (engine.validateSnapshot first context options snapshot).result ≠ .error (.depthExceeded path reached)) →
      (engine.validateSnapshot first context options snapshot).Matches
        ((engine.limited limit).validateSnapshot second context options snapshot) := by
  have runs (snapshot : RecordValue) (taken : Option TypedRecord) :=
    (engine.outlives_plan deeper context options snapshot).run_matches taken faithful alsoFaithful
  constructor
  · intro ended
    refine (runs _ _).resolve_left ?_
    rintro ⟨path, reached, failed⟩
    exact ended path reached failed
  · intro snapshot ended
    unfold validateSnapshot at ended ⊢
    split
    · exact ⟨rfl, rfl, rfl⟩
    · next reads =>
      simp only [reads] at ended
      refine (runs snapshot none).resolve_left ?_
      rintro ⟨path, reached, failed⟩
      exact ended path reached failed

/-- Nodes of a list, behind a transformation that puts another node in place of what follows. -/
def relinking : Engine where
  catalog := ⟨[⟨"Node", [⟨"title", "title", .string⟩,
    ⟨"next", "next,relink", .optional (.boxed (.record ⟨0, "Node"⟩))⟩]⟩]⟩
  registry := Registry.empty.putTransformation "relink"
    ⟨fun _ _ _ => .ok (.record ⟨0, "Node"⟩ [("title", .string "c"), ("next", .null)]), false⟩ false
  settings := ⟨1⟩

/-- A list of two nodes. -/
def pair : TypedRecord := ⟨⟨0, "Node"⟩, [.string "a", .some (.record ⟨0, "Node"⟩ [.string "b", .none])]⟩

/-- The new node is entered at the limit and written back; a greater limit changes nothing. -/
theorem relinking_under_greater_limit :
    (relinking.validateMut .empty {} { writesBack := true } pair).result.isOk = true ∧
    (relinking.validateMut .empty {} { writesBack := true } pair).Matches
      ((relinking.limited 9).validateMut .empty {} { writesBack := true } pair) := by
  have ended : (relinking.validateMut .empty {} { writesBack := true } pair).result.isOk = true := by
    decide +kernel
  have faithful : MetadataCache.empty.Faithful relinking.catalog relinking.registry :=
    MetadataCache.faithful_empty _ _
  refine ⟨ended, (deeper_limit_changes_nothing relinking (show 1 ≤ 9 by decide) {} { writesBack := true } pair
    faithful faithful).1 fun path reached failed => ?_⟩
  rw [failed] at ended
  cases ended

end Engine

end TaggedRecords
