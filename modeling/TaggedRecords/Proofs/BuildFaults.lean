import TaggedRecords.Proofs.DepthGuard
import TaggedRecords.Proofs.WritingRuns

/-!
# Faulty declarations

The metadata of a nested record is built when a run comes to that record, so rules may have run and written when the
fault of its declarations ends the run. Only the declarations of the record's own type are read before any rule.
-/

namespace TaggedRecords

/-! ## Rules on the way -/

section
variable {setting : Setting} {catalog : Catalog}

/-- No entry of a chain runs exactly if none is eligible for the value that the location holds at first. -/
theorem Executes.quiet_iff {location : Location} {entries : List RuleEntry} {value : Value}
    {runs : List (RuleEntry × Scope)} {result : Except Fault Value}
    (executes : Executes setting location entries value runs result) :
    runs = [] ↔ ∀ entry ∈ entries, ¬ Eligible setting.options location entry value := by
  induction executes with
  | ended value => simp
  | passed ineligible _ ih => rw [ih, List.forall_mem_cons, and_iff_right ineligible]
  | ran eligible _ _ _ => exact iff_of_false nofun fun none => none _ List.mem_cons_self eligible
  | failed eligible _ => exact iff_of_false nofun fun none => none _ List.mem_cons_self eligible

/-- The rules that run are those of the visits. -/
theorem ran_iff_visited {steps : List Step} {entry : RuleEntry} {scope : Scope} :
    .ran entry scope ∈ steps.flatMap Step.events ↔
      ∃ location value runs, .visit location value runs ∈ steps ∧ (entry, scope) ∈ runs := by
  rw [List.mem_flatMap]
  constructor
  · rintro ⟨step, member, noted⟩
    cases step with
    | enter record place => cases noted
    | leave location value => cases List.mem_singleton.mp noted
    | visit location value runs =>
      obtain ⟨run, ran, same⟩ := List.mem_map.mp ((List.mem_cons.mp noted).resolve_left nofun)
      cases same
      exact ⟨location, value, runs, member, ran⟩
  · rintro ⟨location, value, runs, member, ran⟩
    exact ⟨_, member, List.mem_cons_of_mem _ (List.mem_map.mpr ⟨(entry, scope), ran, rfl⟩)⟩

/-- Steps that end with a rule end their events with it. -/
theorem getLast?_events (before : List Step) (location : Location) (value : Value) (runs : List (RuleEntry × Scope))
    (run : RuleEntry × Scope) :
    ((before ++ [Step.visit location value (runs ++ [run])]).flatMap Step.events).getLast? =
      some (.ran run.1 run.2) := by
  rw [List.flatMap_append, List.flatMap_singleton, Step.events, List.map_append, ← List.cons_append,
    ← List.append_assoc]
  exact List.getLast?_concat

/-- No rule runs in a walk exactly if no entry is eligible at any location that it visits. -/
theorem Walks.quiet_iff {subject : Subject} {steps : List Step} {fault? : Option Fault}
    (walks : Walks setting catalog subject steps fault?) :
    (∀ entry scope, .ran entry scope ∉ steps.flatMap Step.events) ↔
      ∀ location value runs, .visit location value runs ∈ steps →
        ∀ entry ∈ location.rules, ¬ Eligible setting.options location entry value := by
  have executed {location : Location} {value : Value} {runs : List (RuleEntry × Scope)}
      (visits : .visit location value runs ∈ steps) :
      ∃ result, Executes setting location location.rules value runs result := by
    rcases walks.passes_or_ends visits with ⟨left, executes⟩ | ⟨fault, _, _, _, executes⟩
    · exact ⟨_, executes⟩
    · exact ⟨_, executes⟩
  constructor
  · intro quiet location value runs visits
    obtain ⟨result, executes⟩ := executed visits
    refine executes.quiet_iff.mp (List.eq_nil_iff_forall_not_mem.mpr fun run ran => ?_)
    exact quiet run.1 run.2 (ran_iff_visited.mpr ⟨location, value, runs, visits, ran⟩)
  · intro ineligible entry scope noted
    obtain ⟨location, value, runs, visits, ran⟩ := ran_iff_visited.mp noted
    obtain ⟨result, executes⟩ := executed visits
    rw [executes.quiet_iff.mpr (ineligible location value runs visits)] at ran
    cases ran

/-- A run fails with a fault of declarations exactly if its last step is to enter a record of a type that has it, or
if the last rule that it ran returned it. -/
theorem Walks.buildFault_iff {subject : Subject} {steps : List Step} {fault? : Option Fault} {fault : Fault}
    (walks : Walks setting catalog subject steps fault?) (build : fault.isBuildFault = true) :
    fault? = some fault ↔
      (∃ before record place, steps = before ++ [.enter record place] ∧ place.depth ≤ setting.maxDepth ∧
        RecordMetadata.build catalog setting.registry record.type = .error fault) ∨
      (∃ before location value runs run, steps = before ++ [.visit location value (runs ++ [run])] ∧
        run.1.Returns setting run.2 fault) := by
  refine (walks.raised_iff (isChainFault_of_isBuildFault build)).trans (or_congr_left ?_)
  constructor
  · rintro ⟨before, record, place, rfl, ⟨_, rfl⟩ | raises⟩
    · cases build
    · exact ⟨before, record, place, rfl, raises⟩
  · rintro ⟨before, record, place, rfl, raises⟩
    exact ⟨before, record, place, rfl, .inr raises⟩

end

/-! ## The record -/

/-- Where writes follow transformations, a run without them leaves the record as it was. -/
theorem Plan.run_kept {α : Type} {catalog : Catalog} {registry : Registry} {plan : Plan α}
    (follows : plan.WritesFollow) : ∀ {cache : MetadataCache} {record : Option TypedRecord},
      (∀ entry scope, .ran entry scope ∈ (plan.run catalog registry cache record).events →
        entry.action.isTransform = false) →
      (plan.run catalog registry cache record).record = record := by
  induction follows with
  | done result => exact fun _ => rfl
  | fail fault => exact fun _ => rfl
  | @describe type next _ ih =>
    intro cache record steady
    rw [run] at steady ⊢
    split at steady
    · exact ih _ steady
    · rfl
  | note _ ih => exact fun steady => ih fun entry scope later => steady entry scope (List.mem_cons_of_mem _ later)
  | @changed entry scope place value next transforms _ _ _ =>
    intro cache record steady
    rw [run] at steady
    rw [steady entry scope List.mem_cons_self] at transforms
    cases transforms

/-! ## Runs of an engine -/

/-- What faulty declarations do to a run and its steps, if this record took the writes. -/
structure Run.BuildsOnTheWay (run : Run Document) (setting : Setting) (catalog : Catalog) (taken : Option TypedRecord)
    (steps : List Step) : Prop where
  /-- They end the run where it is about to enter the first record of such a type; apart from that, only a rule can
  return such a fault. -/
  fails_iff : ∀ fault, fault.isBuildFault = true → (run.result = .error fault ↔
    (∃ before record place, steps = before ++ [.enter record place] ∧ place.depth ≤ setting.maxDepth ∧
      RecordMetadata.build catalog setting.registry record.type = .error fault) ∨
    (∃ before location value runs run, steps = before ++ [.visit location value (runs ++ [run])] ∧
      run.1.Returns setting run.2 fault))
  /-- No rule has run by then exactly if no entry was eligible wherever the run had come to. -/
  quiet_iff : (∀ entry scope, .ran entry scope ∉ run.events) ↔
    ∀ location value runs, .visit location value runs ∈ steps →
      ∀ entry ∈ location.rules, ¬ Eligible setting.options location entry value
  /-- The record has changed only if a transformation has run. -/
  kept : (∀ entry scope, .ran entry scope ∈ run.events → entry.action.isTransform = false) → run.record = taken

namespace Engine

/-- A record of a type with faulty declarations is refused before anything else is done. -/
theorem validateMut_of_fault (engine : Engine) {cache : MetadataCache} (context : Context) (options : Options)
    (record : TypedRecord) (faithful : cache.Faithful engine.catalog engine.registry) {fault : Fault}
    (failed : RecordMetadata.build engine.catalog engine.registry record.type = .error fault) :
    engine.validateMut cache context options record =
      ⟨.error fault, cache, [], if options.writesBack then some record else none⟩ := by
  have refused : cache.getOrBuild engine.catalog engine.registry record.type = (.error fault, cache) :=
    Prod.ext ((MetadataCache.getOrBuild_of_faithful faithful record.type).1.trans failed)
      (MetadataCache.getOrBuild_of_fault faithful failed)
  have type : (record.snapshot engine.catalog).type = record.type := rfl
  rw [validateMut, plan, walkRecord, Plan.run, type, refused]

/-- The faults of declarations come up where a run is to enter a record of their type. They come before any rule if
the record's own type has them, and else exactly if no entry was eligible on the way there. -/
theorem validateMut_build_faults (engine : Engine) {cache : MetadataCache} (context : Context) (options : Options)
    (record : TypedRecord) (faithful : cache.Faithful engine.catalog engine.registry) :
    (∃ steps, Walks (engine.setting context options) engine.catalog
        (.record (record.snapshot engine.catalog) .root []) steps
        (faultOf? (engine.validateMut cache context options record).result) ∧
      (engine.validateMut cache context options record).events = steps.flatMap Step.events ∧
      (engine.validateMut cache context options record).BuildsOnTheWay (engine.setting context options) engine.catalog
        (if options.writesBack then some record else none) steps) ∧
    (∀ fault, RecordMetadata.build engine.catalog engine.registry record.type = .error fault →
      engine.validateMut cache context options record =
        ⟨.error fault, cache, [], if options.writesBack then some record else none⟩) ∧
    (∀ fault, fault.isBuildFault = true → (engine.validate cache context options record).result = .error fault →
      engine.validate cache context options record = engine.validateMut cache context options record) := by
  obtain ⟨steps, walks, events, -⟩ := engine.walks_of_run context options (record.snapshot engine.catalog) faithful
    (writesBack_of_taken record)
  refine ⟨⟨steps, walks, events, ⟨fun fault build => ?_, ?_, ?_⟩⟩,
    fun fault => validateMut_of_fault engine context options record faithful, fun fault build ended => ?_⟩
  · exact eq_error_iff_faultOf?.trans (walks.buildFault_iff build)
  · exact events ▸ walks.quiet_iff
  · exact Plan.run_kept (writesFollow_walkRecord _ _ _ _ _)
  · cases writes : options.writesBack with
    | false => exact validate_eq_validateMut engine cache context record writes
    | true =>
      simp only [validate, validateSnapshot, writes, if_true] at ended
      cases ended
      cases build

/-- Letters with a name in upper case and a seal whose tag asks for a rule that there is not. -/
def lettering : Engine where
  catalog := ⟨[⟨"Letter", [⟨"name", "name,uppercase", .string⟩, ⟨"seal", "seal", .record ⟨1, "Seal"⟩⟩]⟩,
    ⟨"Seal", [⟨"motto", "motto,engraved", .string⟩]⟩]⟩
  registry := Registry.withBuiltIns
  settings := ⟨3⟩

/-- One to validate. -/
def letter : TypedRecord := ⟨⟨0, "Letter"⟩, [.string "ada", .record ⟨1, "Seal"⟩ [.string "a"]]⟩

/-- The name has been transformed and written when the fault of the seal's declarations ends the run. A seal by itself
is refused at once. -/
theorem lettering_build_faults :
    (∃ fault, fault.isBuildFault = true ∧
      (lettering.validateMut .empty {} { writesBack := true } letter).result = .error fault ∧
      ∃ before inner place, Walks (lettering.setting {} { writesBack := true }) lettering.catalog
          (.record (letter.snapshot lettering.catalog) .root []) (before ++ [.enter inner place]) (some fault) ∧
        RecordMetadata.build lettering.catalog lettering.registry inner.type = .error fault) ∧
    ((lettering.validateMut .empty {} { writesBack := true } letter).events.any fun
      | .ran entry scope => entry.action.isTransform && scope.path == "name"
      | .reached _ _ => false) = true ∧
    ((lettering.validateMut .empty {} { writesBack := true } letter).record.any fun left =>
      (left.snapshot lettering.catalog).toValue == .record ⟨0, "Letter"⟩ [("name", .string "ADA"),
        ("seal", .record ⟨1, "Seal"⟩ [("motto", .string "a")])]) = true ∧
    ∃ fault, lettering.validateMut .empty {} { writesBack := true } ⟨⟨1, "Seal"⟩, [.string "a"]⟩ =
      ⟨.error fault, .empty, [], some ⟨⟨1, "Seal"⟩, [.string "a"]⟩⟩ := by
  have fails : (faultOf? (lettering.validateMut .empty {} { writesBack := true } letter).result).any
      Fault.isBuildFault = true := by decide +kernel
  have last : ((lettering.validateMut .empty {} { writesBack := true } letter).events.getLast?.any fun
      | .ran _ _ => true
      | .reached _ _ => false) = false := by decide +kernel
  have faulty : (RecordMetadata.build lettering.catalog lettering.registry ⟨1, "Seal"⟩).isOk = false := by
    decide +kernel
  have faithful := MetadataCache.faithful_empty lettering.catalog lettering.registry
  obtain ⟨⟨steps, walks, events, builds⟩, -, -⟩ := validateMut_build_faults lettering {} { writesBack := true } letter
    faithful
  obtain ⟨-, alone, -⟩ := validateMut_build_faults lettering {} { writesBack := true } ⟨⟨1, "Seal"⟩, [.string "a"]⟩
    faithful
  refine ⟨?_, by decide +kernel, by decide +kernel, ?_⟩
  · cases ended : (lettering.validateMut .empty {} { writesBack := true } letter).result with
    | ok document => rw [ended] at fails; cases fails
    | error fault =>
      rw [ended] at fails walks
      rcases (builds.fails_iff fault fails).mp ended with ⟨before, inner, place, rfl, -, failed⟩ |
        ⟨before, location, value, runs, run, rfl, -⟩
      · exact ⟨fault, fails, rfl, before, inner, place, walks, failed⟩
      · -- The last rule that ran is not the last event: the seal was reached behind it.
        rw [events, getLast?_events] at last
        cases last
  · cases failed : RecordMetadata.build lettering.catalog lettering.registry ⟨1, "Seal"⟩ with
    | ok metadata => rw [failed] at faulty; cases faulty
    | error fault => exact ⟨fault, alone fault failed⟩

end Engine

end TaggedRecords
