import TaggedRecords.Proofs.FaithfulCache
import TaggedRecords.Proofs.PlanLaws

/-!
# Outcomes of plans

What a plan comes to if every question is answered by building and every write is passed over, and what it asks
for on the way. With a faithful cache a run without a record has this outcome.
-/

namespace TaggedRecords

namespace Plan
variable {α β : Type} (catalog : Catalog) (registry : Registry)

/-- What the plan comes to if its writes are passed over. -/
def outcome : Plan α → Except Fault α
  | done result => .ok result
  | fail fault => .error fault
  | describe type next =>
    match RecordMetadata.build catalog registry type with
    | .ok metadata => (next metadata).outcome
    | .error fault => .error fault
  | note _ next => next.outcome
  | write _ _ next => next.outcome

/-- The metadata that the plan asks for, in order. -/
def described : Plan α → List RecordMetadata
  | done _ => []
  | fail _ => []
  | describe type next =>
    match RecordMetadata.build catalog registry type with
    | .ok metadata => metadata :: (next metadata).described
    | .error _ => []
  | note _ next => next.described
  | write _ _ next => next.described

@[simp] theorem outcome_note (event : Event) (next : Plan α) :
    (note event next).outcome catalog registry = next.outcome catalog registry := rfl

theorem outcome_describe (type : RecordType) (next : RecordMetadata → Plan α) :
    (describe type next).outcome catalog registry =
      (RecordMetadata.build catalog registry type).bind fun metadata => (next metadata).outcome catalog registry := by
  rw [outcome]
  cases RecordMetadata.build catalog registry type <;> rfl

theorem outcome_bind (plan : Plan α) (follow : α → Plan β) :
    (plan.bind follow).outcome catalog registry =
      (plan.outcome catalog registry).bind fun result => (follow result).outcome catalog registry := by
  induction plan with
  | done result => rfl
  | fail fault => rfl
  | describe type next ih =>
    show (describe type fun metadata => (next metadata).bind follow).outcome catalog registry = _
    rw [outcome_describe, outcome_describe]
    cases RecordMetadata.build catalog registry type with
    | ok metadata => exact ih metadata
    | error fault => rfl
  | note event next ih => exact ih
  | write place value next ih => exact ih

/-- The plan has an outcome if its first part has, and the rest behind that. -/
theorem outcome_bind_ok {plan : Plan α} {follow : α → Plan β} {first : α}
    (ended : plan.outcome catalog registry = .ok first) :
    (plan.bind follow).outcome catalog registry = (follow first).outcome catalog registry := by
  rw [outcome_bind, ended]
  rfl

/-- A result behind a plan is that of the rest behind a result of its own. -/
theorem outcome_bind_eq_ok {plan : Plan α} {follow : α → Plan β} {result : β} :
    (plan.bind follow).outcome catalog registry = .ok result ↔
      ∃ first, plan.outcome catalog registry = .ok first ∧ (follow first).outcome catalog registry = .ok result := by
  rw [outcome_bind]
  cases plan.outcome catalog registry <;> simp [Except.bind]

/-- With a faithful cache, a run without a record comes to the plan's outcome. -/
theorem run_outcome {catalog : Catalog} {registry : Registry} (plan : Plan α) {cache : MetadataCache}
    (faithful : cache.Faithful catalog registry) :
    (plan.run catalog registry cache none).result = plan.outcome catalog registry := by
  induction plan generalizing cache with
  | done result => rfl
  | fail fault => rfl
  | describe type next ih =>
    obtain ⟨kept, keptFaithful, answer⟩ := MetadataCache.getOrBuild_cases faithful type
    rw [run, answer, outcome]
    cases RecordMetadata.build catalog registry type with
    | ok metadata => exact ih metadata keptFaithful
    | error fault => rfl
  | note event next ih => exact ih faithful
  | write place value next ih => exact ih faithful

/-- A run that passes comes to the plan's outcome, whether a record takes its writes or not. -/
theorem outcome_of_run {catalog : Catalog} {registry : Registry} (plan : Plan α) {cache : MetadataCache}
    (faithful : cache.Faithful catalog registry) {record : Option TypedRecord} {result : α}
    (ended : (plan.run catalog registry cache record).result = .ok result) :
    plan.outcome catalog registry = .ok result := by
  induction plan generalizing cache record with
  | done given => exact ended
  | fail fault => cases ended
  | describe type next ih =>
    obtain ⟨kept, keptFaithful, answer⟩ := MetadataCache.getOrBuild_cases faithful type
    rw [run, answer] at ended
    rw [outcome]
    cases built : RecordMetadata.build catalog registry type with
    | ok metadata =>
      rw [built] at ended
      exact ih metadata keptFaithful ended
    | error fault => rw [built] at ended; cases ended
  | note event next ih => exact ih faithful ended
  | write place value next ih =>
    cases record with
    | none => exact ih faithful ended
    | some record =>
      rw [run] at ended
      split at ended
      · exact ih faithful ended
      · cases ended

end Plan

end TaggedRecords
