import TaggedRecords.Proofs.PlanOutcomes
import TaggedRecords.Proofs.RecordParts

/-!
# Runs on parts of a content

A plan carried out on the content at some place of a record, the writes taken relative to that place. A plan that
writes only below one segment runs on the part that the segment leads to, and leaves the other parts alone.
-/

namespace TaggedRecords

/-- The plan ends with a result and, its writes below the base carried out on one content, leaves another; the
metadata it asked for has the property. -/
inductive Plan.Leaves (catalog : Catalog) (registry : Registry) (Holds : RecordMetadata → Prop) (type : FieldType)
    (base : List Segment) {α : Type} : Plan α → Data → α → Data → Prop where
  | done {result : α} {data : Data} : Leaves catalog registry Holds type base (.done result) data result data
  | describe {recordType : RecordType} {next : RecordMetadata → Plan α} {metadata : RecordMetadata} {data after : Data}
      {result : α} (built : RecordMetadata.build catalog registry recordType = .ok metadata) (holds : Holds metadata)
      (below : Leaves catalog registry Holds type base (next metadata) data result after) :
      Leaves catalog registry Holds type base (.describe recordType next) data result after
  | note {event : Event} {next : Plan α} {data after : Data} {result : α}
      (below : Leaves catalog registry Holds type base next data result after) :
      Leaves catalog registry Holds type base (.note event next) data result after
  | write {place : Place} {value : Value} {next : Plan α} {data after : Data} {result : α} {path : List Segment}
      (inside : place.segments = base ++ path) (passes : (data.writeAt catalog type path value).fault = none)
      (below : Leaves catalog registry Holds type base next (data.writeAt catalog type path value).content result
        after) :
      Leaves catalog registry Holds type base (.write place value next) data result after

/-- Every write of the plan lies at or below the base. -/
inductive Plan.WritesBelow (base : List Segment) {α : Type} : Plan α → Prop where
  | done (result : α) : WritesBelow base (.done result)
  | fail (fault : Fault) : WritesBelow base (.fail fault)
  | describe {type : RecordType} {next : RecordMetadata → Plan α}
      (below : ∀ metadata, WritesBelow base (next metadata)) :
      WritesBelow base (.describe type next)
  | note {event : Event} {next : Plan α} (below : WritesBelow base next) : WritesBelow base (.note event next)
  | write {place : Place} {value : Value} {next : Plan α} {path : List Segment}
      (inside : place.segments = base ++ path) (below : WritesBelow base next) :
      WritesBelow base (.write place value next)

namespace Plan
variable {α β : Type}

section
variable {catalog : Catalog} {registry : Registry} {Holds : RecordMetadata → Prop} {type : FieldType}
  {base : List Segment}

theorem Leaves.of_bind {plan : Plan α} {follow : α → Plan β} {data after : Data} {result : β}
    (leaves : (plan.bind follow).Leaves catalog registry Holds type base data result after) :
    ∃ first between, plan.Leaves catalog registry Holds type base data first between ∧
      (follow first).Leaves catalog registry Holds type base between result after := by
  induction plan generalizing data with
  | done first => exact ⟨first, data, .done, leaves⟩
  | fail fault => cases leaves
  | describe recordType next ih =>
    cases leaves with
    | describe built holds below =>
      obtain ⟨first, between, ran, rest⟩ := ih _ below
      exact ⟨first, between, .describe built holds ran, rest⟩
  | note event next ih =>
    cases leaves with
    | note below =>
      obtain ⟨first, between, ran, rest⟩ := ih below
      exact ⟨first, between, .note ran, rest⟩
  | write place value next ih =>
    cases leaves with
    | write inside passes below =>
      obtain ⟨first, between, ran, rest⟩ := ih below
      exact ⟨first, between, .write inside passes ran, rest⟩

theorem Leaves.bind {plan : Plan α} {follow : α → Plan β} {data between after : Data} {first : α} {result : β}
    (ran : plan.Leaves catalog registry Holds type base data first between)
    (rest : (follow first).Leaves catalog registry Holds type base between result after) :
    (plan.bind follow).Leaves catalog registry Holds type base data result after := by
  induction ran with
  | done => exact rest
  | describe built holds _ ih => exact .describe built holds (ih rest)
  | note _ ih => exact .note (ih rest)
  | write inside passes _ ih => exact .write inside passes (ih rest)

theorem WritesBelow.bind {plan : Plan α} {follow : α → Plan β} (first : plan.WritesBelow base)
    (second : ∀ result, (follow result).WritesBelow base) : (plan.bind follow).WritesBelow base := by
  induction first with
  | done result => exact second result
  | fail fault => exact .fail fault
  | describe _ ih => exact .describe ih
  | note _ ih => exact .note ih
  | write inside _ ih => exact .write inside ih

theorem WritesBelow.above {plan : Plan α} {segment : Segment} (deep : plan.WritesBelow (base ++ [segment])) :
    plan.WritesBelow base := by
  induction deep with
  | done result => exact .done result
  | fail fault => exact .fail fault
  | describe _ ih => exact .describe ih
  | note _ ih => exact .note ih
  | write inside _ ih => exact .write (by rw [inside, List.append_assoc]) ih

/-- A plan that writes below one segment runs on the part there and leaves all else as it was. -/
theorem Leaves.on_part {plan : Plan α} {segment : Segment} {data after : Data} {result : α} {element : FieldType}
    {part : Data} (leaves : plan.Leaves catalog registry Holds type base data result after)
    (deep : plan.WritesBelow (base ++ [segment])) (found : data.part? catalog type segment = some (element, part)) :
    ∃ left, plan.Leaves catalog registry Holds element (base ++ [segment]) part result left ∧
      after.part? catalog type segment = some (element, left) ∧
      (∀ other, other ≠ segment → after.part? catalog type other = data.part? catalog type other) ∧
      after.outline = data.outline := by
  induction leaves generalizing part with
  | done => exact ⟨part, .done, found, fun _ _ => rfl, rfl⟩
  | describe built holds _ ih =>
    cases deep with
    | describe below =>
      obtain ⟨left, ran, kept⟩ := ih (below _) found
      exact ⟨left, .describe built holds ran, kept⟩
  | note _ ih =>
    cases deep with
    | note below =>
      obtain ⟨left, ran, kept⟩ := ih below found
      exact ⟨left, .note ran, kept⟩
  | @write place value next data after result path inside passes _ ih =>
    cases deep with
    | @write _ _ _ rest deeper below =>
      have same : path = segment :: rest := by
        rw [inside, List.append_assoc] at deeper
        exact List.append_cancel_left deeper
      subst same
      obtain ⟨put, puts⟩ := exists_putsBack found
      rw [puts.write] at passes ih
      obtain ⟨left, ran, there, others, frame⟩ := ih below (puts.here _)
      refine ⟨left, .write deeper passes ran, there, fun other differs => ?_, ?_⟩
      · exact (others other differs).trans (puts.elsewhere _ other differs)
      · exact frame.trans (puts.outline _)

end

end Plan

/-! ## Runs that write to a record -/

section
variable {catalog : Catalog} {registry : Registry}

theorem content_writeAt_record (recordType : RecordType) (fields : List Data) (type : FieldType) (path : List Segment)
    (value : Value) : ((Data.record recordType fields).writeAt catalog type path value).content =
      .record recordType ((Data.record recordType fields).writeAt catalog type path value).content.fields := by
  cases path with
  | nil =>
    unfold Data.writeAt
    split
    · split <;> rfl
    · rfl
  | cons segment rest =>
    cases segment with
    | field place =>
      unfold Data.writeAt
      split <;> rfl
    | _ => rfl

theorem toData_writeAt (record : TypedRecord) (path : List Segment) (value : Value) :
    (record.writeAt catalog path value).content.toData =
      (record.toData.writeAt catalog (.record record.type) path value).content :=
  (content_writeAt_record record.type record.fields (.record record.type) path value).symm

/-- A run that takes its writes and ends well leaves what its plan leaves of the record's content. -/
theorem Plan.leaves_of_run {α : Type} {Holds : RecordMetadata → Prop} {plan : Plan α} :
    ∀ {cache : MetadataCache} {record : TypedRecord} {result : α}, cache.Faithful catalog registry →
      (∀ metadata ∈ plan.described catalog registry, Holds metadata) →
      (plan.run catalog registry cache (some record)).result = .ok result →
      ∃ left : TypedRecord, (plan.run catalog registry cache (some record)).record = some left ∧
        plan.Leaves catalog registry Holds (.record record.type) [] record.toData result left.toData := by
  induction plan with
  | done value =>
    intro cache record result _ _ ended
    cases ended
    exact ⟨record, rfl, .done⟩
  | fail fault =>
    intro cache record result _ _ ended
    cases ended
  | describe type next ih =>
    intro cache record result faithful holds ended
    obtain ⟨kept, keptFaithful, answer⟩ := MetadataCache.getOrBuild_cases faithful type
    rw [run, answer] at ended ⊢
    rw [described] at holds
    cases built : RecordMetadata.build catalog registry type with
    | error fault => rw [built] at ended; cases ended
    | ok metadata =>
      rw [built] at ended holds
      obtain ⟨left, kept, leaves⟩ := ih metadata keptFaithful
        (fun other member => holds other (List.mem_cons_of_mem _ member)) ended
      exact ⟨left, kept, .describe built (holds metadata List.mem_cons_self) leaves⟩
  | note event next ih =>
    intro cache record result faithful holds ended
    obtain ⟨left, kept, leaves⟩ := ih faithful holds ended
    exact ⟨left, kept, .note leaves⟩
  | write place value next ih =>
    intro cache record result faithful holds ended
    rw [run] at ended ⊢
    cases fault : (record.writeAt catalog place.segments value).fault with
    | some cause => rw [fault] at ended; cases ended
    | none =>
      rw [fault] at ended
      obtain ⟨left, kept, leaves⟩ := ih faithful holds ended
      rw [toData_writeAt] at leaves
      exact ⟨left, kept, .write (List.nil_append _).symm fault leaves⟩

end

/-! ## Plans behind one another, each on its part -/

/-- Plans carried out one behind the other, each listed with the segment it is for. -/
inductive LeavesEach (catalog : Catalog) (registry : Registry) (Holds : RecordMetadata → Prop) (type : FieldType)
    (base : List Segment) {β : Type} : List (Segment × Plan β) → Data → List β → Data → Prop where
  | nil {data : Data} : LeavesEach catalog registry Holds type base [] data [] data
  | cons {segment : Segment} {plan : Plan β} {steps : List (Segment × Plan β)} {data between after : Data} {result : β}
      {results : List β} (first : plan.Leaves catalog registry Holds type base data result between)
      (rest : LeavesEach catalog registry Holds type base steps between results after) :
      LeavesEach catalog registry Holds type base ((segment, plan) :: steps) data (result :: results) after

/-- What one of several plans did to the part it is for. -/
def RanOnPart (catalog : Catalog) (registry : Registry) (Holds : RecordMetadata → Prop) (type : FieldType)
    (base : List Segment) (data after : Data) {β : Type} (step : Segment × Plan β) (result : β) : Prop :=
  ∃ element part left, data.part? catalog type step.1 = some (element, part) ∧
    step.2.Leaves catalog registry Holds element (base ++ [step.1]) part result left ∧
    after.part? catalog type step.1 = some (element, left)

section
variable {catalog : Catalog} {registry : Registry} {Holds : RecordMetadata → Prop} {type : FieldType}
  {base : List Segment} {β : Type}

/-- Plans for different parts do not get into each other's way. -/
theorem LeavesEach.on_parts {steps : List (Segment × Plan β)} {data after : Data} {results : List β}
    (each : LeavesEach catalog registry Holds type base steps data results after)
    (deep : ∀ step ∈ steps, step.2.WritesBelow (base ++ [step.1])) (distinct : (steps.map Prod.fst).Nodup)
    (parts : ∀ step ∈ steps, (data.part? catalog type step.1).isSome = true) :
    List.Forall₂ (RanOnPart catalog registry Holds type base data after) steps results ∧
      (∀ segment, segment ∉ steps.map Prod.fst → after.part? catalog type segment = data.part? catalog type segment) ∧
      after.outline = data.outline := by
  induction each with
  | nil => exact ⟨.nil, fun _ _ => rfl, rfl⟩
  | @cons segment plan steps data between after result results first rest ih =>
    have apart : segment ∉ steps.map Prod.fst := (List.nodup_cons.mp distinct).1
    obtain ⟨⟨element, part⟩, found⟩ := Option.isSome_iff_exists.mp (parts _ List.mem_cons_self)
    obtain ⟨left, ran, here, elsewhere, outline⟩ := first.on_part (deep _ List.mem_cons_self) found
    have differs : ∀ step ∈ steps, step.1 ≠ segment :=
      fun step member same => apart (same ▸ List.mem_map_of_mem member)
    have stillThere : ∀ step ∈ steps, (between.part? catalog type step.1).isSome = true := by
      intro step member
      rw [elsewhere _ (differs step member)]
      exact parts step (List.mem_cons_of_mem _ member)
    obtain ⟨ranOthers, kept, frame⟩ := ih (fun step member => deep step (List.mem_cons_of_mem _ member))
      (List.nodup_cons.mp distinct).2 stillThere
    refine ⟨.cons ⟨element, part, left, found, ran, by rw [kept _ apart]; exact here⟩ ?_, ?_, frame.trans outline⟩
    · refine List.forall₂_iff_zip.mpr ⟨ranOthers.length_eq, fun {step result} paired => ?_⟩
      obtain ⟨element, part, left, found, ran, kept⟩ := (List.forall₂_iff_zip.mp ranOthers).2 paired
      rw [elsewhere _ (differs _ (List.of_mem_zip paired).1)] at found
      exact ⟨element, part, left, found, ran, kept⟩
    · intro other outside
      rw [List.map_cons, List.mem_cons, not_or] at outside
      rw [kept other outside.2, elsewhere other outside.1]

end

end TaggedRecords
