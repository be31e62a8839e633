import TaggedRecords.Proofs.VisitRuns

/-!
# The depth guard

However large the records are that transformations return, no run visits a location inside a record that lies deeper
than the limit: the first record that would be entered below it ends the run, before its metadata is built.
-/

namespace TaggedRecords

/-! ## Faults of the guard -/

theorem isBuildFault_of_resolve {registry : Registry} {record field : String} {ref : RuleRef} {fault : Fault}
    (failed : registry.resolve record field ref = .error fault) : fault.isBuildFault = true := by
  unfold Registry.resolve at failed
  dsimp only at failed
  split at failed
  · cases failed
    rfl
  · cases failed

theorem isBuildFault_of_addAll {registry : Registry} {record field : String} {tokens : List String} {fault : Fault} :
    ∀ {chains : Chains}, chains.addAll registry record field tokens = .error fault → fault.isBuildFault = true := by
  induction tokens with
  | nil => nofun
  | cons token rest ih =>
    intro chains failed
    rw [Chains.addAll] at failed
    cases added : chains.add registry record field token with
    | ok next =>
      rw [added] at failed
      exact ih failed
    | error cause =>
      rw [added] at failed
      cases failed
      unfold Chains.add at added
      split at added
      · cases added
      · cases added
      · next ref _ =>
        cases resolved : registry.resolve record field ref with
        | error _ =>
          rw [resolved] at added
          cases added
          exact isBuildFault_of_resolve resolved
        | ok entry =>
          rw [resolved] at added
          dsimp only [bind, Except.bind] at added
          split at added <;> cases added

theorem isBuildFault_of_fieldMetadata {registry : Registry} {record : String} {index : Nat} {decl : FieldDecl}
    {fault : Fault} (failed : fieldMetadata registry record index decl = .error fault) :
    fault.isBuildFault = true := by
  unfold fieldMetadata at failed
  split at failed
  · cases failed
  · next rename tokens _ =>
    split at failed
    · cases failed
      rfl
    · cases read : Chains.empty.addAll registry record decl.name tokens with
      | error _ =>
        rw [read] at failed
        cases failed
        exact isBuildFault_of_addAll read
      | ok chains =>
        rw [read] at failed
        cases failed

theorem isBuildFault_of_fieldsMetadata {registry : Registry} {record : String} {decls : List FieldDecl}
    {fault : Fault} :
    ∀ {start : Nat}, fieldsMetadata registry record start decls = .error fault → fault.isBuildFault = true := by
  induction decls with
  | nil => nofun
  | cons decl rest ih =>
    intro start failed
    rw [fieldsMetadata] at failed
    cases first : fieldMetadata registry record start decl with
    | error _ =>
      rw [first] at failed
      cases failed
      exact isBuildFault_of_fieldMetadata first
    | ok head =>
      cases others : fieldsMetadata registry record (start + 1) rest with
      | error _ =>
        rw [first, others] at failed
        cases failed
        exact ih others
      | ok tail =>
        rw [first, others] at failed
        cases head <;> cases failed

/-- Metadata is only ever refused for a fault in the declarations. -/
theorem isBuildFault_of_build {catalog : Catalog} {registry : Registry} {type : RecordType} {fault : Fault}
    (failed : RecordMetadata.build catalog registry type = .error fault) : fault.isBuildFault = true := by
  unfold RecordMetadata.build at failed
  cases read : fieldsMetadata registry type.name 0 (catalog.fields type) with
  | error _ =>
    rw [read] at failed
    cases failed
    exact isBuildFault_of_fieldsMetadata read
  | ok fields =>
    rw [read] at failed
    cases failed

/-- The faults that a chain raises where its rules return none. -/
def Fault.isChainFault : Fault → Bool
  | typeMismatch _ _ _ _ => true
  | writeBack _ _ => true
  | ruleFailed _ => true
  | formatted _ => true
  | _ => false

theorem isChainFault_of_isBuildFault {fault : Fault} (build : fault.isBuildFault = true) :
    fault.isChainFault = false := by
  cases fault <;> first | rfl | cases build

/-- The rule of the entry itself returns the fault on the scope. -/
def RuleEntry.Returns (setting : Setting) (entry : RuleEntry) (scope : Scope) (fault : Fault) : Prop :=
  match entry.action with
  | .validate rule => rule.check setting.context setting.options.transaction scope = .error fault
  | .transform rule => rule.apply setting.context setting.options.transaction scope = .error fault

section
variable {setting : Setting} {catalog : Catalog}

/-- A fault that is none of a chain's own is returned by the rule of the entry itself. -/
theorem returns_of_gives {location : Location} {entry : RuleEntry} {value : Value} {fault : Fault}
    (gives : Gives setting location entry value (.error fault)) (foreign : fault.isChainFault = false) :
    entry.Returns setting (location.scope entry value) fault := by
  unfold RuleEntry.Returns
  generalize outcome : Except.error (ε := Fault) (α := Value) fault = result at gives
  cases gives with
  | accepted _ _ => cases outcome
  | kept _ _ _ _ => cases outcome
  | changed _ _ _ _ => cases outcome
  | rejected _ _ =>
    cases outcome
    unfold Registry.failure at foreign
    dsimp only at foreign
    split at foreign <;> cases foreign
  | checkFailed action answer =>
    cases outcome
    rw [action]
    exact answer
  | misfit _ _ _ =>
    cases outcome
    cases foreign
  | transformFailed action answer =>
    cases outcome
    rw [action]
    exact answer
  | refused _ _ _ _ _ _ =>
    cases outcome
    cases foreign

/-- An entry whose rule returns a fault gives that fault. -/
theorem Gives.of_returns {location : Location} {entry : RuleEntry} {value : Value} {result : Except Fault Value}
    {fault : Fault} (gives : Gives setting location entry value result)
    (returns : entry.Returns setting (location.scope entry value) fault) : result = .error fault := by
  unfold RuleEntry.Returns at returns
  cases gives with
  | accepted action answer => simp [action, answer] at returns
  | rejected action answer => simp [action, answer] at returns
  | checkFailed action answer => simpa [action, answer] using returns
  | kept action answer _ _ => simp [action, answer] at returns
  | changed action answer _ _ => simp [action, answer] at returns
  | misfit action answer _ => simp [action, answer] at returns
  | transformFailed action answer => simpa [action, answer] using returns
  | refused action answer _ _ _ _ => simp [action, answer] at returns

theorem Executes.of_returns {location : Location} {entries : List RuleEntry} {value : Value}
    {runs : List (RuleEntry × Scope)} {result : Except Fault Value} {run : RuleEntry × Scope} {fault : Fault}
    (executes : Executes setting location entries value runs result) (member : run ∈ runs)
    (returns : run.1.Returns setting run.2 fault) : result = .error fault := by
  induction executes with
  | ended value => cases member
  | passed _ _ ih => exact ih member
  | ran _ gives _ ih =>
    rcases List.mem_cons.mp member with rfl | later
    · cases gives.of_returns returns
    · exact ih later
  | failed _ gives =>
    cases List.mem_singleton.mp member
    exact gives.of_returns returns

/-! ## Steps that end a run -/

/-- The run may go on behind the step. -/
def Step.Passes (setting : Setting) : Step → Prop
  | enter _ place => place.depth ≤ setting.maxDepth
  | leave _ _ => True
  | visit location value runs => ∃ left, Executes setting location location.rules value runs (.ok left)

/-- The guard, or a rule that fails, ends the run at the step. -/
def Step.Stops (setting : Setting) (fault : Fault) : Step → Prop
  | enter _ place => fault = .depthExceeded place.path setting.maxDepth
  | leave _ _ => False
  | visit location value runs => Executes setting location location.rules value runs (.error fault)

/-- The step is the last of the steps and ends them with the fault. -/
def Step.Ends (setting : Setting) (steps : List Step) (fault? : Option Fault) (step : Step) : Prop :=
  ∃ fault before, fault? = some fault ∧ steps = before ++ [step] ∧ step.Stops setting fault

theorem Step.Ends.behind {steps : List Step} {fault? : Option Fault} {step : Step}
    (ends : step.Ends setting steps fault?) (front : List Step) : step.Ends setting (front ++ steps) fault? := by
  obtain ⟨fault, before, raised, rfl, stops⟩ := ends
  exact ⟨fault, front ++ before, raised, by rw [List.append_assoc], stops⟩

/-- Where a run does not go on, it has ended. -/
theorem Walks.passes_or_ends {subject : Subject} {steps : List Step} {fault? : Option Fault} {step : Step}
    (walks : Walks setting catalog subject steps fault?) (member : step ∈ steps) :
    step.Passes setting ∨ step.Ends setting steps fault? := by
  induction walks with
  | tooDeep _ =>
    cases List.mem_singleton.mp member
    exact .inr ⟨_, [], rfl, rfl, rfl⟩
  | faulty within _ =>
    cases List.mem_singleton.mp member
    exact .inl within
  | entered within _ _ _ ih =>
    rcases List.mem_cons.mp member with rfl | below
    · exact .inl within
    · exact (ih below).imp_right fun ends => ends.behind [_]
  | nothing => cases member
  | omitted _ _ ih =>
    rcases List.mem_cons.mp member with rfl | below
    · exact .inl trivial
    · exact (ih below).imp_right fun ends => ends.behind [_]
  | failed _ executes =>
    cases List.mem_singleton.mp member
    exact .inr ⟨_, [], rfl, rfl, executes⟩
  | stopped _ executes _ ih =>
    rcases List.mem_cons.mp member with rfl | below
    · exact .inl ⟨_, executes⟩
    · exact (ih below).imp_right fun ends => ends.behind [_]
  | @passed location value left rest runs steps more fault? _ executes _ _ inside others =>
    rcases List.mem_cons.mp member with rfl | below
    · exact .inl ⟨_, executes⟩
    · rcases List.mem_append.mp below with below | later
      · refine (inside below).imp_right ?_
        rintro ⟨fault, before, raised, -⟩
        cases raised
      · exact (others later).imp_right fun ends => ends.behind (.visit location value runs :: steps)

/-- A rule that returns a fault ends the run with it. -/
theorem Walks.of_returns {subject : Subject} {steps : List Step} {fault? : Option Fault} {location : Location}
    {value : Value} {runs : List (RuleEntry × Scope)} {run : RuleEntry × Scope} {fault : Fault}
    (walks : Walks setting catalog subject steps fault?) (visits : .visit location value runs ∈ steps)
    (member : run ∈ runs) (returns : run.1.Returns setting run.2 fault) : fault? = some fault := by
  rcases walks.passes_or_ends visits with ⟨left, executes⟩ | ⟨raised, before, ending, -, executes⟩
  · cases executes.of_returns member returns
  · cases executes.of_returns member returns
    exact ending

/-- A run that is about to enter a record below the limit ends there. -/
theorem Walks.ends_too_deep {subject : Subject} {steps : List Step} {fault? : Option Fault} {record : RecordValue}
    {place : Place} (walks : Walks setting catalog subject steps fault?) (enters : .enter record place ∈ steps)
    (deep : setting.maxDepth < place.depth) :
    fault? = some (.depthExceeded place.path setting.maxDepth) ∧
      ∃ before, steps = before ++ [.enter record place] := by
  rcases walks.passes_or_ends enters with within | ⟨fault, before, ending, last, rfl⟩
  · exact absurd within (Nat.not_le.mpr deep)
  · exact ⟨ending, before, last⟩

/-- A run that is about to enter a record with faulty declarations ends there. -/
theorem Walks.ends_faulty {subject : Subject} {steps : List Step} {fault? : Option Fault} {record : RecordValue}
    {place : Place} {fault : Fault} (walks : Walks setting catalog subject steps fault?)
    (enters : .enter record place ∈ steps) (within : place.depth ≤ setting.maxDepth)
    (failed : RecordMetadata.build catalog setting.registry record.type = .error fault) :
    fault? = some fault ∧ ∃ before, steps = before ++ [.enter record place] := by
  induction walks with
  | tooDeep deep =>
    cases List.mem_singleton.mp enters
    exact absurd within (Nat.not_le.mpr deep)
  | faulty _ built =>
    cases List.mem_singleton.mp enters
    cases built.symm.trans failed
    exact ⟨rfl, [], rfl⟩
  | entered _ built _ _ ih =>
    rcases List.mem_cons.mp enters with here | below
    · cases here
      cases built.symm.trans failed
    · exact (ih below).imp_right fun ⟨before, last⟩ => ⟨_ :: before, by rw [last]; rfl⟩
  | nothing => cases enters
  | omitted _ _ ih =>
    have below := (List.mem_cons.mp enters).resolve_left nofun
    exact (ih below).imp_right fun ⟨before, last⟩ => ⟨_ :: before, by rw [last]; rfl⟩
  | failed _ _ => cases List.mem_singleton.mp enters
  | stopped _ _ _ ih =>
    have below := (List.mem_cons.mp enters).resolve_left nofun
    exact (ih below).imp_right fun ⟨before, last⟩ => ⟨_ :: before, by rw [last]; rfl⟩
  | @passed location value left rest runs steps more fault? _ _ _ _ inside others =>
    rcases List.mem_append.mp ((List.mem_cons.mp enters).resolve_left nofun) with below | later
    · cases (inside below).1
    · obtain ⟨raised, before, last⟩ := others later
      exact ⟨raised, .visit location value runs :: (steps ++ before), by rw [last]; simp⟩

/-- A run fails with a fault that is none of a chain's own exactly if its last step is to enter a record that raises
it, or if the last rule that it ran returned it. -/
theorem Walks.raised_iff {subject : Subject} {steps : List Step} {fault? : Option Fault} {fault : Fault}
    (walks : Walks setting catalog subject steps fault?) (foreign : fault.isChainFault = false) :
    fault? = some fault ↔
      (∃ before record place, steps = before ++ [.enter record place] ∧
        (Step.enter record place).Raises setting catalog fault) ∨
      (∃ before location value runs run, steps = before ++ [.visit location value (runs ++ [run])] ∧
        run.1.Returns setting run.2 fault) := by
  constructor
  · rintro rfl
    obtain ⟨before, last, rfl, raises⟩ := walks.last_raises
    cases last with
    | enter record place => exact .inl ⟨before, record, place, rfl, raises⟩
    | leave location value => exact raises.elim
    | visit location value runs =>
      obtain ⟨runs, entry, held, rfl, _, _, gives⟩ := raises
      exact .inr ⟨before, location, value, runs, (entry, location.scope entry held), rfl,
        returns_of_gives gives foreign⟩
  · rintro (⟨before, record, place, rfl, raises⟩ | ⟨before, location, value, runs, run, rfl, returns⟩)
    · have enters : .enter record place ∈ before ++ [Step.enter record place] := by simp
      rcases raises with ⟨deep, rfl⟩ | ⟨within, failed⟩
      · exact (walks.ends_too_deep enters deep).1
      · exact (walks.ends_faulty enters within failed).1
    · have visits : .visit location value (runs ++ [run]) ∈ before ++ [Step.visit location value (runs ++ [run])] := by
        simp
      exact walks.of_returns visits (by simp) returns

/-! ## Depth along a run -/

/-- The place that a step is at: that of a record to enter or of a location. -/
def Step.place : Step → Place
  | enter _ place => place
  | leave location _ => location.place
  | visit location _ _ => location.place

/-- The places to start from lie no deeper than records inside the limit may hold. -/
def Subject.Within (maxDepth : Nat) : Subject → Prop
  | .record _ place _ => place.depth ≤ maxDepth + 1
  | .locations list => ∀ item ∈ list, item.1.place.depth ≤ maxDepth + 1

theorem Location.within_inside {location : Location} {maxDepth : Nat} (within : location.place.depth ≤ maxDepth + 1)
    (left : Value) : (location.inside left).Within maxDepth := by
  unfold inside
  split
  · exact within
  · intro item member
    obtain ⟨item, _, rfl⟩ := List.mem_map.mp member
    simpa [element] using within
  · intro item member
    obtain ⟨entry, _, rfl⟩ := List.mem_map.mp member
    simpa [element] using within
  · exact List.forall_mem_nil _

/-- Only a record that is entered leads deeper, so no step of a run lies deeper than the limit allows. -/
theorem Walks.within {subject : Subject} {steps : List Step} {fault? : Option Fault}
    (within : subject.Within setting.maxDepth) (walks : Walks setting catalog subject steps fault?) :
    ∀ step ∈ steps, step.place.depth ≤ setting.maxDepth + 1 := by
  induction walks with
  | tooDeep _ => exact List.forall_mem_singleton.mpr within
  | faulty _ _ => exact List.forall_mem_singleton.mpr within
  | @entered record place around metadata steps fault? inside _ _ _ ih =>
    refine List.forall_mem_cons.mpr ⟨within, ih fun item member => ?_⟩
    obtain ⟨field, _, rfl⟩ := List.mem_map.mp member
    simpa [Location.ofField] using inside
  | nothing => exact List.forall_mem_nil _
  | omitted _ _ ih =>
    obtain ⟨here, others⟩ := List.forall_mem_cons.mp within
    exact List.forall_mem_cons.mpr ⟨here, ih others⟩
  | failed _ _ => exact List.forall_mem_singleton.mpr (List.forall_mem_cons.mp within).1
  | stopped _ _ _ ih =>
    have here := (List.forall_mem_cons.mp within).1
    exact List.forall_mem_cons.mpr ⟨here, ih (Location.within_inside here _)⟩
  | passed _ _ _ _ inside others =>
    obtain ⟨here, rest⟩ := List.forall_mem_cons.mp within
    exact List.forall_mem_cons.mpr ⟨here,
      List.forall_mem_append.mpr ⟨inside (Location.within_inside here _), others rest⟩⟩

/-- A run fails with a fault of the guard exactly if its last step is to enter a record below the limit, or if the
last rule that it ran returned that fault itself. -/
theorem Walks.depthExceeded_iff {subject : Subject} {steps : List Step} {fault? : Option Fault} {path : String}
    {limit : Nat} (walks : Walks setting catalog subject steps fault?) :
    fault? = some (.depthExceeded path limit) ↔
      (∃ before record place, steps = before ++ [.enter record place] ∧ setting.maxDepth < place.depth ∧
        path = place.path ∧ limit = setting.maxDepth) ∨
      (∃ before location value runs run, steps = before ++ [.visit location value (runs ++ [run])] ∧
        run.1.Returns setting run.2 (.depthExceeded path limit)) := by
  refine (walks.raised_iff rfl).trans (or_congr_left ?_)
  constructor
  · rintro ⟨before, record, place, rfl, ⟨deep, same⟩ | ⟨_, failed⟩⟩
    · cases same
      exact ⟨before, record, place, rfl, deep, rfl, rfl⟩
    · cases isBuildFault_of_build failed
  · rintro ⟨before, record, place, rfl, deep, rfl, rfl⟩
    exact ⟨before, record, place, rfl, .inl ⟨deep, rfl⟩⟩

end

/-! ## Runs of an engine -/

/-- What the guard makes sure of in a run and its steps, if the cache was this one before. -/
structure Run.Guarded (run : Run Document) (setting : Setting) (cache : MetadataCache) (steps : List Step) : Prop where
  /-- Around a location there are no more records than the root and as many as the limit. -/
  within : ∀ step ∈ steps, step.place.depth ≤ setting.maxDepth + 1
  /-- A run that is about to enter a record below the limit fails there, with the path of that record. -/
  stops : ∀ record place, .enter record place ∈ steps → place.depth = setting.maxDepth + 1 →
    run.result = .error (.depthExceeded place.path setting.maxDepth) ∧
    ∃ before, steps = before ++ [.enter record place]
  /-- It fails so for no other reason but a rule that returns such a fault of its own. -/
  fails_iff : ∀ path limit, run.result = .error (.depthExceeded path limit) ↔
    (∃ before record place, steps = before ++ [.enter record place] ∧ place.depth = setting.maxDepth + 1 ∧
      path = place.path ∧ limit = setting.maxDepth) ∨
    (∃ before location value runs run, steps = before ++ [.visit location value (runs ++ [run])] ∧
      run.1.Returns setting run.2 (.depthExceeded path limit))
  /-- Metadata is kept anew for records only that were entered within the limit. -/
  kept : ∀ type, (run.cache.get? type).isSome = true → (cache.get? type).isSome = true ∨
    ∃ record place, record.type = type ∧ .enter record place ∈ steps ∧ place.depth ≤ setting.maxDepth

namespace Engine

/-- Every run goes through the finitely many visits that the record calls for, whatever the rules return, and the
guard keeps them within the limit. -/
theorem validateMut_depth_guarded (engine : Engine) {cache : MetadataCache} (context : Context) (options : Options)
    (record : TypedRecord) (faithful : cache.Faithful engine.catalog engine.registry) :
    (∃ steps, Walks (engine.setting context options) engine.catalog
        (.record (record.snapshot engine.catalog) .root []) steps
        (faultOf? (engine.validateMut cache context options record).result) ∧
      (engine.validateMut cache context options record).events = steps.flatMap Step.events ∧
      (engine.validateMut cache context options record).Guarded (engine.setting context options) cache steps) ∧
    (options.writesBack = false →
      engine.validate cache context options record = engine.validateMut cache context options record) := by
  obtain ⟨steps, walks, events, kept⟩ := engine.walks_of_run context options (record.snapshot engine.catalog) faithful
    (writesBack_of_taken record)
  have start : Subject.Within engine.settings.maxDepth (.record (record.snapshot engine.catalog) .root []) :=
    Nat.zero_le _
  have within : ∀ step ∈ steps, step.place.depth ≤ engine.settings.maxDepth + 1 := walks.within start
  have failed_iff (fault : Fault) : (engine.validateMut cache context options record).result = .error fault ↔
      faultOf? (engine.validateMut cache context options record).result = some fault := by
    cases (engine.validateMut cache context options record).result <;> simp [faultOf?]
  refine ⟨⟨steps, walks, events, within, fun inner place enters deep => ?_, fun path limit => ?_, kept⟩,
    validate_eq_validateMut engine cache context record⟩
  · obtain ⟨raised, last⟩ := walks.ends_too_deep enters (deep ▸ Nat.lt_succ_self _)
    exact ⟨(failed_iff _).mpr raised, last⟩
  · rw [failed_iff]
    refine (walks.depthExceeded_iff).trans (or_congr_left ?_)
    constructor
    · rintro ⟨before, inner, place, rfl, deep, same, limits⟩
      have bound : place.depth ≤ engine.settings.maxDepth + 1 := within (.enter inner place) (by simp)
      exact ⟨before, inner, place, rfl, Nat.le_antisymm bound deep, same, limits⟩
    · rintro ⟨before, inner, place, rfl, deep, same, limits⟩
      exact ⟨before, inner, place, rfl, deep ▸ Nat.lt_succ_self _, same, limits⟩

/-- Nodes of a list, behind a transformation that puts two more nodes in place of what follows. -/
def growing : Engine where
  catalog := ⟨[⟨"Node", [⟨"value", "value", .signed .w64⟩,
    ⟨"next", "next,grow", .optional (.boxed (.record ⟨0, "Node"⟩))⟩]⟩]⟩
  registry := Registry.empty.putTransformation "grow"
    ⟨fun _ _ _ => .ok (.record ⟨0, "Node"⟩ [("value", .int 1),
      ("next", .record ⟨0, "Node"⟩ [("value", .int 2), ("next", .null)])]), true⟩ false
  settings := ⟨2⟩

/-- A list of one node outgrows the limit. -/
theorem growing_depth_guarded :
    (match (growing.validateMut .empty {} {} ⟨⟨0, "Node"⟩, [.int 0, .none]⟩).result with
      | .error (.depthExceeded path limit) => some (path, limit)
      | _ => none) = some ("next.next.next", 2) ∧
    ∃ steps, Walks (growing.setting {} {}) growing.catalog
        (.record (TypedRecord.snapshot growing.catalog ⟨⟨0, "Node"⟩, [.int 0, .none]⟩) .root []) steps
        (faultOf? (growing.validateMut .empty {} {} ⟨⟨0, "Node"⟩, [.int 0, .none]⟩).result) ∧
      ∀ step ∈ steps, step.place.depth ≤ 3 := by
  obtain ⟨⟨steps, walks, _, guarded⟩, _⟩ := validateMut_depth_guarded growing {} {}
    ⟨⟨0, "Node"⟩, [.int 0, .none]⟩ (MetadataCache.faithful_empty _ _)
  exact ⟨by decide +kernel, steps, walks, guarded.within⟩

end Engine

end TaggedRecords
