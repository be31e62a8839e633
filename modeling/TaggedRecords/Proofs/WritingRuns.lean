import TaggedRecords.Proofs.FaithfulCache
import TaggedRecords.Proofs.PlanLaws

/-!
# Runs that write and runs that do not

Writing transformed values back does not reach into a run: it does what the run without writes does, rule for
rule, unless a write fails, and then it stops behind the transformation whose value could not be written.
-/

namespace TaggedRecords

/-! ## Writes follow transformations -/

/-- Every write of the plan comes right behind the transformation that asked for it, at that rule's path. -/
inductive Plan.WritesFollow {α : Type} : Plan α → Prop where
  | done (result : α) : WritesFollow (.done result)
  | fail (fault : Fault) : WritesFollow (.fail fault)
  | describe {type : RecordType} {next : RecordMetadata → Plan α} (below : ∀ metadata, WritesFollow (next metadata)) :
      WritesFollow (.describe type next)
  | note {event : Event} {next : Plan α} (below : WritesFollow next) : WritesFollow (.note event next)
  | changed {entry : RuleEntry} {scope : Scope} {place : Place} {value : Value} {next : Plan α}
      (transforms : entry.action.isTransform = true) (here : scope.path = place.path) (below : WritesFollow next) :
      WritesFollow (.note (.ran entry scope) (.write place value next))

theorem Plan.WritesFollow.bind {α β : Type} {plan : Plan α} {follow : α → Plan β} (first : plan.WritesFollow)
    (second : ∀ result, (follow result).WritesFollow) : (plan.bind follow).WritesFollow := by
  induction first with
  | done result => exact second result
  | fail fault => exact .fail fault
  | describe _ ih => exact .describe ih
  | note _ ih => exact .note ih
  | changed transforms here _ ih => exact .changed transforms here ih

section
variable (setting : Setting) {nested : Nested}

theorem writesFollow_runChain (nullable : Bool) (place : Place) {scope : Scope} (here : scope.path = place.path)
    (entries : List RuleEntry) : (runChain setting nullable place scope entries).WritesFollow := by
  induction entries generalizing scope with
  | nil => exact .done _
  | cons entry rest ih =>
    rw [runChain]
    split
    · rcases runEntry_cases setting nullable place scope entry with ⟨fault, eq⟩ | eq | ⟨rule, next, action, _, _, eq⟩
      · rw [eq]
        exact .note (.fail fault)
      · rw [eq]
        exact .note (ih here)
      · rw [eq]
        exact .changed (by rw [action]; rfl) here (ih here)
    · exact ih here

theorem writesFollow_emit (enter : ∀ record place validate, (nested record place validate).WritesFollow)
    (validate : Bool) (place : Place) (value : Value) : (emit nested validate place value).WritesFollow := by
  cases value with
  | record type fields => exact (enter _ place validate).bind fun _ => .done _
  | _ => exact .done _

theorem writesFollow_walkElement (enter : ∀ record place validate, (nested record place validate).WritesFollow)
    (owner : RecordValue) (dive : Dive) (validate : Bool) (place : Place) (name : String) (item : Value) :
    (walkElement setting nested owner dive validate place name item).WritesFollow := by
  refine .note ?_
  split
  · exact (writesFollow_runChain setting _ place rfl _).bind fun value => writesFollow_emit enter _ place value
  · exact writesFollow_emit enter _ place item

theorem writesFollow_walkItems (enter : ∀ record place validate, (nested record place validate).WritesFollow)
    (owner : RecordValue) (dive : Dive) (validate : Bool) (place : Place) (index : Nat) (items : List Value) :
    (walkItems setting nested owner dive validate place index items).WritesFollow := by
  induction items generalizing index with
  | nil => exact .done _
  | cons item rest ih =>
    exact (writesFollow_walkElement setting enter owner dive validate _ _ item).bind fun _ =>
      (ih (index + 1)).bind fun _ => .done _

theorem writesFollow_walkEntries (enter : ∀ record place validate, (nested record place validate).WritesFollow)
    (owner : RecordValue) (dive : Dive) (validate : Bool) (place : Place) (entries : List (String × Value)) :
    (walkEntries setting nested owner dive validate place entries).WritesFollow := by
  induction entries with
  | nil => exact .done _
  | cons entry rest ih =>
    exact (writesFollow_walkElement setting enter owner dive validate _ _ entry.2).bind fun _ =>
      ih.bind fun _ => .done _

theorem writesFollow_finish (enter : ∀ record place validate, (nested record place validate).WritesFollow)
    (owner : RecordValue) (dive : Option Dive) (validate : Bool) (place : Place) (value : Value) :
    (finish setting nested owner dive validate place value).WritesFollow := by
  unfold finish
  split
  · exact (writesFollow_walkItems setting enter owner _ validate place 0 _).bind fun _ => .done _
  · exact (writesFollow_walkEntries setting enter owner _ validate place _).bind fun _ => .done _
  · exact writesFollow_emit enter validate place value

theorem writesFollow_walkField (enter : ∀ record place validate, (nested record place validate).WritesFollow)
    (owner : RecordValue) (field : FieldMetadata) (validate : Bool) (place : Place) (value : Value) :
    (walkField setting nested owner field validate place value).WritesFollow := by
  refine .note ?_
  split
  · exact .done _
  · dsimp only
    refine (Plan.WritesFollow.bind ?_ fun value => writesFollow_finish setting enter owner _ _ place value).bind
      fun _ => .done _
    split
    · exact writesFollow_runChain setting _ place rfl _
    · exact .done _

theorem writesFollow_walkFields (enter : ∀ record place validate, (nested record place validate).WritesFollow)
    (owner : RecordValue) (validate : Bool) (place : Place) (document : Document) (fields : List FieldMetadata) :
    (walkFields setting nested owner validate place document fields).WritesFollow := by
  induction fields generalizing document with
  | nil => exact .done _
  | cons field rest ih =>
    exact (writesFollow_walkField setting enter owner field validate _ _).bind fun _ => ih _

theorem writesFollow_walkRecord (room : Nat) (record : RecordValue) (place : Place) (validate : Bool) :
    (walkRecord setting room record place validate).WritesFollow := by
  induction room generalizing record place validate with
  | zero => exact .fail _
  | succ room ih =>
    exact .describe fun metadata => writesFollow_walkFields setting ih record validate place [] metadata.fields

end

/-! ## Two runs of one plan -/

/-- The run stopped because the value that a transformation gave at a path could not be written; it did what the
other run did up to that transformation, its last step. -/
def Run.StoppedWriting {α : Type} (writing other : Run α) : Prop :=
  ∃ entry scope cause, writing.result = .error (.writeBack scope.path cause) ∧ entry.action.isTransform = true ∧
    writing.events.getLast? = some (.ran entry scope) ∧ writing.events <+: other.events

theorem Run.StoppedWriting.prepend {α : Type} {writing other : Run α} (event : Event)
    (stopped : writing.StoppedWriting other) : (writing.prepend event).StoppedWriting (other.prepend event) := by
  obtain ⟨entry, scope, cause, result, transforms, last, before⟩ := stopped
  refine ⟨entry, scope, cause, result, transforms, ?_, List.cons_prefix_cons.mpr ⟨rfl, before⟩⟩
  show (event :: writing.events).getLast? = _
  rw [List.getLast?_cons, last]
  rfl

theorem Plan.run_writing {α : Type} {catalog : Catalog} {registry : Registry} {plan : Plan α}
    (follows : plan.WritesFollow) :
    ∀ {first second : MetadataCache} (record : TypedRecord), first.Faithful catalog registry →
      second.Faithful catalog registry →
      ((plan.run catalog registry second (some record)).result = (plan.run catalog registry first none).result ∧
        (plan.run catalog registry second (some record)).events = (plan.run catalog registry first none).events) ∨
      (plan.run catalog registry second (some record)).StoppedWriting (plan.run catalog registry first none) := by
  -- The plan is followed step by step; only a write can part the two runs.
  induction follows with
  | done result => exact fun _ _ _ => .inl ⟨rfl, rfl⟩
  | fail fault => exact fun _ _ _ => .inl ⟨rfl, rfl⟩
  | @describe type next _ ih =>
    intro first second record faithful alsoFaithful
    obtain ⟨kept, keptFaithful, answer⟩ := MetadataCache.getOrBuild_cases faithful type
    obtain ⟨also, alsoKept, same⟩ := MetadataCache.getOrBuild_cases alsoFaithful type
    rw [Plan.run, Plan.run, answer, same]
    cases RecordMetadata.build catalog registry type with
    | ok metadata => exact ih metadata record keptFaithful alsoKept
    | error fault => exact .inl ⟨rfl, rfl⟩
  | @note event next _ ih =>
    intro first second record faithful alsoFaithful
    rw [Plan.run, Plan.run]
    rcases ih record faithful alsoFaithful with ⟨result, events⟩ | stopped
    · exact .inl ⟨result, congrArg (event :: ·) events⟩
    · exact .inr (stopped.prepend event)
  | @changed entry scope place value next transforms here _ ih =>
    intro first second record faithful alsoFaithful
    rw [Plan.run, Plan.run, Plan.run, Plan.run]
    cases (record.writeAt catalog place.segments value).fault with
    | none =>
      rcases ih (record.writeAt catalog place.segments value).content faithful alsoFaithful with
        ⟨result, events⟩ | stopped
      · exact .inl ⟨result, congrArg (Event.ran entry scope :: ·) events⟩
      · exact .inr (stopped.prepend _)
    | some cause =>
      exact .inr ⟨entry, scope, cause, by rw [here]; rfl, transforms, rfl,
        List.cons_prefix_cons.mpr ⟨rfl, List.nil_prefix⟩⟩

namespace Engine

/-- A run that writes back comes to the result of the run that does not, with the same rules on the same scopes
in the same order; or a write fails, and then its events are those of the other run up to and including the
transformation whose value could not be written. -/
theorem validateMut_follows_validate (engine : Engine) {first second : MetadataCache} (context : Context)
    {options : Options} (record : TypedRecord) (plain : options.writesBack = false)
    (faithful : first.Faithful engine.catalog engine.registry)
    (alsoFaithful : second.Faithful engine.catalog engine.registry) :
    ((engine.validateMut second context { options with writesBack := true } record).result =
        (engine.validate first context options record).result ∧
      (engine.validateMut second context { options with writesBack := true } record).events =
        (engine.validate first context options record).events) ∨
    (engine.validateMut second context { options with writesBack := true } record).StoppedWriting
      (engine.validate first context options record) := by
  have samePlan : engine.plan context { options with writesBack := true } (record.snapshot engine.catalog) =
      engine.plan context options (record.snapshot engine.catalog) := by
    unfold plan
    exact congrFun (congrFun (congrFun (walkRecord_writing (engine.setting context options) true _) _) _) _
  have follows : (engine.plan context options (record.snapshot engine.catalog)).WritesFollow :=
    writesFollow_walkRecord _ _ _ _ _
  unfold validateMut validate validateSnapshot
  rw [samePlan]
  simp only [plain, if_true, Bool.false_eq_true, if_false]
  exact Plan.run_writing follows record faithful alsoFaithful

/-- Readings of one byte, behind a transformation that gives more than a byte holds. -/
def widening : Engine where
  catalog := ⟨[⟨"Reading", [⟨"label", "label,required", .string⟩, ⟨"level", "level,widen", .signed .w8⟩]⟩]⟩
  registry := Registry.withBuiltIns.putTransformation "widen" ⟨fun _ _ _ => .ok (.int 300), false⟩ false
  settings := ⟨3⟩

/-- The run without writes passes; the run that writes stops behind the transformation. -/
theorem widening_stops_writing :
    (widening.validate .empty {} {} ⟨⟨0, "Reading"⟩, [.string "low", .int 100]⟩).result.isOk = true ∧
    (widening.validateMut .empty {} { writesBack := true } ⟨⟨0, "Reading"⟩, [.string "low", .int 100]⟩).StoppedWriting
      (widening.validate .empty {} {} ⟨⟨0, "Reading"⟩, [.string "low", .int 100]⟩) := by
  have passes : (widening.validate .empty {} {} ⟨⟨0, "Reading"⟩, [.string "low", .int 100]⟩).result.isOk = true := by
    decide +kernel
  have stops : (widening.validateMut .empty {} { writesBack := true }
      ⟨⟨0, "Reading"⟩, [.string "low", .int 100]⟩).result.isOk = false := by decide +kernel
  have faithful := MetadataCache.faithful_empty widening.catalog widening.registry
  refine ⟨passes, ?_⟩
  rcases validateMut_follows_validate widening {} ⟨⟨0, "Reading"⟩, [.string "low", .int 100]⟩
    (show ({} : Options).writesBack = false from rfl) faithful faithful with ⟨same, _⟩ | stopped
  · rw [same, passes] at stops
    cases stops
  · exact stopped

end Engine

end TaggedRecords
