import TaggedRecords.Proofs.PlanLaws
import TaggedRecords.Proofs.RunMarks
import TaggedRecords.Proofs.Visits

/-!
# The visits of a traversal

Every run of the traversal goes through the visits that the record calls for, and its events are theirs. Two things
are carried down: the room left is what the depth of the place leaves of the limit, and the flag that says whether
rules still run is the absence of a skip option on the way.
-/

namespace TaggedRecords

/-! ## Marks of steps -/

/-- The marks of a step: a record that is not too deep asks for its metadata, a visit notes its events. -/
def Step.marks (setting : Setting) (step : Step) : List Mark :=
  match step with
  | .enter record place => if place.depth ≤ setting.maxDepth then [.asked record.type] else []
  | _ => step.events.map .noted

theorem events_of_marks (setting : Setting) (steps : List Step) :
    (steps.flatMap (Step.marks setting)).filterMap Mark.event? = steps.flatMap Step.events := by
  induction steps with
  | nil => rfl
  | cons step rest ih =>
    have head : (step.marks setting).filterMap Mark.event? = step.events := by
      cases step with
      | enter record place =>
        simp only [Step.marks, Step.events]
        split <;> rfl
      | leave location value => rfl
      | visit location value runs =>
        simp [Step.marks, List.filterMap_map, Function.comp_def, Mark.event?]
    rw [List.flatMap_cons, List.filterMap_append, head, ih, List.flatMap_cons]

/-- Every run of the plan goes through steps that the subject calls for, ends as they do and leaves their marks. -/
def Plan.Follows {α : Type} (setting : Setting) (catalog : Catalog) (plan : Plan α) (subject : Subject) : Prop :=
  ∀ marks result, plan.Comes catalog setting.registry setting.options.writesBack marks result →
    ∃ steps, Walks setting catalog subject steps (faultOf? result) ∧ marks = steps.flatMap (Step.marks setting)

/-! ## Skip options -/

/-- The flag says whether a skip option covers what is inside the places, unless no rule runs anyway. -/
def Options.Opens (options : Options) (validate : Bool) (around : List Place) : Prop :=
  options.skipAll = false → (validate = true ↔ ∀ place ∈ around, place.path ∉ options.skipPaths)

theorem opens_nil (options : Options) : options.Opens true [] := fun _ => by simp

theorem opens_cons {options : Options} {validate : Bool} {around : List Place} (opens : options.Opens validate around)
    (place : Place) : options.Opens (validate && options.validates place.path) (place :: around) := by
  intro runs
  simp [Options.validates, runs, opens runs, and_comm]

/-- With the flag down at a location, a skip option covers it, and otherwise none does. -/
theorem covered_iff {options : Options} {validate : Bool} {location : Location}
    (opens : options.Opens validate location.around) :
    location.Covered options ↔ (validate && options.validates location.place.path) = false := by
  cases runs : options.skipAll with
  | true => simp [Location.Covered, Options.validates, runs]
  | false =>
    rw [← Bool.not_eq_true, opens_cons opens location.place runs]
    simp [Location.Covered, runs, imp_iff_not_or]

/-! ## Chains -/

section
variable {setting : Setting} {catalog : Catalog}

theorem eligible_iff {location : Location} (uncovered : ¬ location.Covered setting.options) (entry : RuleEntry)
    (value : Value) : setting.runs entry value = true ↔ Eligible setting.options location entry value := by
  have method : entry.appliesTo setting.options.method = true ↔
      ∀ only, entry.method = some only → only = setting.options.method := by
    unfold RuleEntry.appliesTo
    cases entry.method <;> simp
  have present : (!value.isZero || entry.runsOnNil || entry.required) = true ↔
      value.isZero = false ∨ entry.runsOnNil = true ∨ entry.required = true := by
    simp [or_assoc]
  rw [Setting.runs, Bool.and_eq_true, method, present]
  exact ⟨fun both => ⟨both.1, uncovered, both.2⟩, fun eligible => ⟨eligible.method, eligible.present⟩⟩

/-- Where a skip option covers the location no entry is eligible. -/
theorem executes_of_covered {location : Location} (covered : location.Covered setting.options)
    (entries : List RuleEntry) (value : Value) : Executes setting location entries value [] (.ok value) := by
  induction entries with
  | nil => exact .ended value
  | cons entry rest ih => exact .passed (fun eligible => eligible.uncovered covered) ih

/-- The scope shows every entry what the location shows it. -/
def Scope.Shows (scope : Scope) (location : Location) : Prop :=
  ∀ entry, scope.seenBy entry = location.scope entry scope.value

/-- One entry runs once and gives what its rule makes of the value. -/
theorem gives_of_runEntry {location : Location} {scope : Scope} {entry : RuleEntry} {marks : List Mark}
    {result : Except Fault Scope} (shows : scope.Shows location)
    (comes : (runEntry setting location.descriptor.isOptional location.place scope entry).Comes catalog
      setting.registry setting.options.writesBack marks result) :
    Gives setting location entry scope.value (result.map Scope.value) ∧
      marks = [.noted (.ran entry (location.scope entry scope.value))] ∧
      ∀ next, result = .ok next → next.Shows location := by
  have showsOn (value : Value) : ((location.scope entry scope.value).holding value).Shows location := fun _ => rfl
  rw [runEntry_eq, shows entry] at comes
  cases comes with
  | note below =>
    cases action : entry.action with
    | validate rule =>
      simp only [action] at below
      split at below
      · next fault answer =>
        cases below
        exact ⟨.checkFailed action answer, rfl, nofun⟩
      · next answer =>
        cases below
        refine ⟨.accepted action answer, rfl, ?_⟩
        rintro next ⟨⟩
        exact showsOn scope.value
      · next answer =>
        cases below
        exact ⟨.rejected action answer, rfl, nofun⟩
    | transform rule =>
      simp only [action] at below
      split at below
      · next fault answer =>
        cases below
        exact ⟨.transformFailed action answer, rfl, nofun⟩
      · next value answer =>
        split at below
        · next illegal =>
          cases below
          exact ⟨.misfit action answer (by simpa using illegal), rfl, nofun⟩
        · next legal =>
          have legal : (location.scope entry scope.value).allows location.descriptor.isOptional value = true := by
            simpa using legal
          split at below
          · next same =>
            cases below
            refine ⟨.kept action answer legal same, rfl, ?_⟩
            rintro next ⟨⟩
            exact showsOn scope.value
          · next differs =>
            have differs : value.same scope.value = false := Bool.eq_false_iff.mpr differs
            cases below with
            | written below =>
              cases below
              refine ⟨.changed action answer legal differs, rfl, ?_⟩
              rintro next ⟨⟩
              exact showsOn value
            | refused may cause => exact ⟨.refused action answer legal differs may cause, rfl, nofun⟩

/-- Where no skip option covers the location, a chain runs the entries that are eligible. -/
theorem executes_of_runChain {location : Location} (uncovered : ¬ location.Covered setting.options)
    {entries : List RuleEntry} {scope : Scope} {marks : List Mark} {result : Except Fault Value}
    (shows : scope.Shows location)
    (comes : (runChain setting location.descriptor.isOptional location.place scope entries).Comes catalog
      setting.registry setting.options.writesBack marks result) :
    ∃ runs, Executes setting location entries scope.value runs result ∧
      marks = runs.map fun run => .noted (.ran run.1 run.2) := by
  induction entries generalizing scope marks with
  | nil =>
    cases comes
    exact ⟨[], .ended scope.value, rfl⟩
  | cons entry rest ih =>
    rw [runChain] at comes
    split at comes
    · next runs =>
      have eligible := (eligible_iff uncovered entry scope.value).mp runs
      rcases comes.of_bind with ⟨fault, ran, rfl⟩ | ⟨next, before, after, ran, below, rfl⟩
      · obtain ⟨gives, rfl, -⟩ := gives_of_runEntry shows ran
        exact ⟨_, .failed eligible gives, rfl⟩
      · obtain ⟨gives, rfl, showsNext⟩ := gives_of_runEntry shows ran
        obtain ⟨runs, executes, rfl⟩ := ih (showsNext next rfl) below
        exact ⟨_, .ran eligible gives executes, rfl⟩
    · next passes =>
      obtain ⟨runs, executes, rfl⟩ := ih shows comes
      exact ⟨runs, .passed (fun eligible => passes ((eligible_iff uncovered entry scope.value).mpr eligible)) executes,
        rfl⟩

/-- The chain of a location runs unless a skip option covers it. -/
theorem executes_of_chained (location : Location) {validate : Bool}
    (opens : setting.options.Opens validate location.around) {scope : Scope} {value : Value} {marks : List Mark}
    {result : Except Fault Value} (shows : scope.Shows location)
    (comes : (if (validate && setting.options.validates location.place.path) = true then
        runChain setting location.descriptor.isOptional location.place scope location.rules
      else .done value).Comes catalog setting.registry setting.options.writesBack marks result)
    (holds : scope.value = value) :
    ∃ runs, Executes setting location location.rules value runs result ∧
      marks = runs.map fun run => .noted (.ran run.1 run.2) := by
  subst holds
  split at comes
  · next runs =>
    exact executes_of_runChain (fun covered => by simp [(covered_iff opens).mp covered] at runs) shows comes
  · next stays =>
    cases comes
    exact ⟨[], executes_of_covered ((covered_iff opens).mpr (Bool.eq_false_iff.mpr stays)) _ _, rfl⟩

/-! ## Plans behind one another -/

theorem faultOf?_map {α β : Type} (f : α → β) (result : Except Fault α) :
    faultOf? (result.map f) = faultOf? result := by
  cases result <;> rfl

namespace Plan
variable {α β : Type}

theorem follows_done (result : α) : (Plan.done result).Follows setting catalog (.locations []) := by
  intro marks result comes
  cases comes
  exact ⟨[], .nothing, rfl⟩

theorem Follows.map {plan : Plan α} {subject : Subject} (follows : plan.Follows setting catalog subject)
    (f : α → β) : (plan.bind fun first => .done (f first)).Follows setting catalog subject := by
  intro marks result comes
  obtain ⟨first, ran, rfl⟩ := comes.of_map
  rw [faultOf?_map]
  exact follows marks first ran

/-- The locations behind the first are visited if no fault comes before. -/
theorem Follows.bind {plan : Plan α} {next : α → Plan β} {first : Location × Value} {rest : List (Location × Value)}
    (head : plan.Follows setting catalog (.locations [first]))
    (tail : ∀ result, (next result).Follows setting catalog (.locations rest)) :
    (plan.bind next).Follows setting catalog (.locations (first :: rest)) := by
  intro marks result comes
  rcases comes.of_bind with ⟨fault, ran, rfl⟩ | ⟨held, before, after, ran, below, rfl⟩
  · obtain ⟨steps, walks, same⟩ := head marks _ ran
    exact ⟨steps, walks.stop, same⟩
  · obtain ⟨steps, walks, rfl⟩ := head before _ ran
    obtain ⟨more, others, rfl⟩ := tail held after _ below
    exact ⟨steps ++ more, walks.cons others, by rw [List.flatMap_append]⟩

/-- A location is visited by its chain and then by what is inside it. -/
theorem follows_visit (location : Location) {value : Value} {chained : Plan Value} {next : Value → Plan α}
    (here : ¬ location.Omitted setting.options value)
    (chain : ∀ marks result, chained.Comes catalog setting.registry setting.options.writesBack marks result →
      ∃ runs, Executes setting location location.rules value runs result ∧
        marks = runs.map fun run => .noted (.ran run.1 run.2))
    (inside : ∀ left, (next left).Follows setting catalog (location.inside left)) :
    (Plan.note (.reached location.place value) (chained.bind next)).Follows setting catalog
      (.locations [(location, value)]) := by
  intro marks result comes
  cases comes with
  | note below =>
    rcases below.of_bind with ⟨fault, ran, rfl⟩ | ⟨left, before, after, ran, rest, rfl⟩
    · obtain ⟨runs, executes, rfl⟩ := chain _ _ ran
      exact ⟨_, .failed here executes, by simp [Step.marks, Step.events]⟩
    · obtain ⟨runs, executes, rfl⟩ := chain _ _ ran
      obtain ⟨steps, walks, rfl⟩ := inside left after _ rest
      exact ⟨_, .visit here executes walks, by simp [Step.marks, Step.events]⟩

end Plan

/-! ## Elements, fields and records -/

namespace Place

@[simp] theorem depth_root : root.depth = 0 := rfl

@[simp] theorem depth_field (place : Place) (name declared : String) (index : Nat) :
    (place.field name declared index).depth = place.depth + 1 := by
  simp [depth, field, Segment.isField]

@[simp] theorem depth_item (place : Place) (index : Nat) : (place.item index).depth = place.depth := by
  simp [depth, item, Segment.isField]

@[simp] theorem depth_entry (place : Place) (key : String) : (place.entry key).depth = place.depth := by
  simp [depth, entry, Segment.isField]

end Place

/-- Nested records are entered with so many levels of room as the limit leaves below their places. -/
def Nested.Enters (setting : Setting) (catalog : Catalog) (room : Nat) (nested : Nested) : Prop :=
  ∀ record place around validate, place.depth + room = setting.maxDepth + 1 →
    setting.options.Opens validate around →
    (nested record place validate).Follows setting catalog (.record record place around)

variable {room : Nat} {nested : Nested}

theorem follows_emit (enters : nested.Enters setting catalog room) (location : Location)
    (depth : location.place.depth + room = setting.maxDepth + 1) {validate : Bool}
    (opens : setting.options.Opens validate (location.place :: location.around)) {value : Value}
    (whole : value.kind = .sequence ∨ value.kind = .mapping → location.dive = none) :
    (emit nested validate location.place value).Follows setting catalog (location.inside value) := by
  cases value with
  | record type fields => exact (enters ⟨type, fields⟩ location.place _ validate depth opens).map _
  | sequence items =>
    simp only [Location.inside, whole (.inl rfl)]
    exact Plan.follows_done _
  | mapping entries =>
    simp only [Location.inside, whole (.inr rfl)]
    exact Plan.follows_done _
  | _ => exact Plan.follows_done _

theorem Location.not_omitted_element (options : Options) (location : Location) (dive : Dive) (place : Place)
    (name : String) (value : Value) : ¬ (location.element dive place name).Omitted options value := by
  rintro ⟨-, applies, -⟩
  cases method : options.method <;> simp [element, OmitPolicy.none, OmitPolicy.appliesTo, method] at applies

theorem follows_walkElement (enters : nested.Enters setting catalog room) {location : Location} {dive : Dive}
    {place : Place} (depth : place.depth + room = setting.maxDepth + 1) {validate : Bool}
    (opens : setting.options.Opens validate (location.place :: location.around)) (name : String) (item : Value) :
    (walkElement setting nested location.owner dive validate place name item).Follows setting catalog
      (.locations [(location.element dive place name, item)]) := by
  rw [walkElement_eq]
  refine Plan.follows_visit (location.element dive place name) (location.not_omitted_element _ _ _ _ _)
    (fun marks result comes => executes_of_chained (location.element dive place name) opens
      (fun _ => rfl) comes rfl) fun left => ?_
  exact follows_emit enters (location.element dive place name) depth (opens_cons opens place) fun _ => rfl

theorem follows_walkItems (enters : nested.Enters setting catalog room) {location : Location}
    (depth : location.place.depth + room = setting.maxDepth + 1) {validate : Bool}
    (opens : setting.options.Opens validate (location.place :: location.around)) (dive : Dive) (start : Nat)
    (items : List Value) :
    (walkItems setting nested location.owner dive validate location.place start items).Follows setting catalog
      (.locations ((items.zipIdx start).map fun item =>
        (location.element dive (location.place.item item.2) (Place.positionName item.2), item.1))) := by
  induction items generalizing start with
  | nil => exact Plan.follows_done _
  | cons item rest ih =>
    exact (follows_walkElement enters (by simpa using depth) opens _ item).bind fun _ => (ih (start + 1)).map _

theorem follows_walkEntries (enters : nested.Enters setting catalog room) {location : Location}
    (depth : location.place.depth + room = setting.maxDepth + 1) {validate : Bool}
    (opens : setting.options.Opens validate (location.place :: location.around)) (dive : Dive)
    (entries : List (String × Value)) :
    (walkEntries setting nested location.owner dive validate location.place entries).Follows setting catalog
      (.locations (entries.map fun entry =>
        (location.element dive (location.place.entry entry.1) entry.1, entry.2))) := by
  induction entries with
  | nil => exact Plan.follows_done _
  | cons entry rest ih =>
    exact (follows_walkElement enters (by simpa using depth) opens _ entry.2).bind fun _ => ih.map _

theorem follows_finish (enters : nested.Enters setting catalog room) (location : Location)
    (depth : location.place.depth + room = setting.maxDepth + 1) {validate : Bool}
    (opens : setting.options.Opens validate (location.place :: location.around)) (value : Value) :
    (finish setting nested location.owner location.dive validate location.place value).Follows setting catalog
      (location.inside value) := by
  have unopened (single : value.kind ≠ .sequence ∧ value.kind ≠ .mapping) :
      (emit nested validate location.place value).Follows setting catalog (location.inside value) :=
    follows_emit enters location depth opens fun container => (container.elim single.1 single.2).elim
  cases dives : location.dive with
  | none =>
    have whole : finish setting nested location.owner none validate location.place value =
        emit nested validate location.place value := by
      cases value <;> rfl
    rw [whole]
    exact follows_emit enters location depth opens fun _ => dives
  | some dive =>
    cases value with
    | sequence items =>
      simp only [finish, Location.inside, dives]
      exact (follows_walkItems enters depth opens dive 0 items).map _
    | mapping entries =>
      simp only [finish, Location.inside, dives]
      exact (follows_walkEntries enters depth opens dive entries).map _
    | _ => exact unopened (by simp [Value.kind])

theorem omits_iff (record : RecordValue) (place : Place) (around : List Place) (field : FieldMetadata)
    (value : Value) :
    setting.omits field (place.field field.name field.declared field.index).path value = true ↔
      (Location.ofField record place around field).Omitted setting.options value := by
  simp [Setting.omits, Location.Omitted, Location.ofField, Options.allowsEmpty, and_assoc]

theorem follows_walkField (enters : nested.Enters setting catalog room) {place : Place}
    (depth : place.depth + (room + 1) = setting.maxDepth + 1) {validate : Bool} {around : List Place}
    (opens : setting.options.Opens validate around) (record : RecordValue) (field : FieldMetadata) (value : Value) :
    (walkField setting nested record field validate (place.field field.name field.declared field.index) value).Follows
      setting catalog (.locations [(Location.ofField record place around field, value)]) := by
  have inner : (place.field field.name field.declared field.index).depth + room = setting.maxDepth + 1 := by
    rw [Place.depth_field]
    omega
  unfold walkField
  split
  · next omits =>
    intro marks result comes
    cases comes with
    | note below =>
      cases below
      exact ⟨_, .omitted ((omits_iff record place around field value).mp omits) .nothing, rfl⟩
  · next stays =>
    have opensInner := opens_cons opens (place.field field.name field.declared field.index)
    refine @Plan.Follows.map setting catalog _ _ (.note _ (.bind _ _)) _ ?_ some
    refine Plan.follows_visit (Location.ofField record place around field)
      (fun out => stays ((omits_iff record place around field value).mpr out))
      (fun marks result comes => executes_of_chained (Location.ofField record place around field) opens
        (fun _ => rfl) comes rfl) fun left => ?_
    exact follows_finish enters (Location.ofField record place around field) inner opensInner left

theorem follows_walkFields (enters : nested.Enters setting catalog room) {place : Place}
    (depth : place.depth + (room + 1) = setting.maxDepth + 1) {validate : Bool} {around : List Place}
    (opens : setting.options.Opens validate around) (record : RecordValue) (document : Document)
    (fields : List FieldMetadata) :
    (walkFields setting nested record validate place document fields).Follows setting catalog
      (.locations (fields.map fun field =>
        (Location.ofField record place around field, (record.at? field.index).getD .null))) := by
  induction fields generalizing document with
  | nil => exact Plan.follows_done _
  | cons field rest ih =>
    exact (follows_walkField enters depth opens record field _).bind fun _ => ih _

/-- The tag says whether a declaration has metadata, and that has its index. -/
theorem index_of_fieldMetadata {registry : Registry} {record : String} {index : Nat} {decl : FieldDecl}
    {field? : Option FieldMetadata} (built : fieldMetadata registry record index decl = .ok field?) :
    field?.map FieldMetadata.index = if Tag.parse decl.tag ≠ .skip then some index else none := by
  unfold fieldMetadata at built
  split at built
  · next skips =>
    cases built
    simp [skips]
  · next rename tokens shows =>
    split at built
    · cases built
    · cases read : Chains.empty.addAll registry record decl.name tokens with
      | error fault => rw [read] at built; cases built
      | ok chains =>
        rw [read] at built
        cases built
        simp [shows]

theorem indices_of_fieldsMetadata {registry : Registry} {record : String} {decls : List FieldDecl} {start : Nat}
    {fields : List FieldMetadata} (built : fieldsMetadata registry record start decls = .ok fields) :
    fields.map FieldMetadata.index =
      ((decls.zipIdx start).filter fun decl => Tag.parse decl.1.tag ≠ .skip).map Prod.snd := by
  induction decls generalizing start fields with
  | nil =>
    cases built
    rfl
  | cons decl rest ih =>
    rw [fieldsMetadata] at built
    cases first : fieldMetadata registry record start decl with
    | error fault => rw [first] at built; cases built
    | ok head =>
      cases others : fieldsMetadata registry record (start + 1) rest with
      | error fault => rw [first, others] at built; cases built
      | ok tail =>
        have index := index_of_fieldMetadata first
        rw [first, others] at built
        cases head with
        | none =>
          cases built
          have skips : Tag.parse decl.tag = .skip := by simpa using index
          simp [ih others, List.zipIdx_cons, skips]
        | some field =>
          cases built
          have shows : Tag.parse decl.tag ≠ .skip ∧ field.index = start := by simpa using index
          simp [ih others, List.zipIdx_cons, shows.1, shows.2]

theorem indices_of_build {registry : Registry} {type : RecordType} {metadata : RecordMetadata}
    (built : RecordMetadata.build catalog registry type = .ok metadata) :
    metadata.fields.map FieldMetadata.index = catalog.shown type := by
  unfold RecordMetadata.build at built
  cases read : fieldsMetadata registry type.name 0 (catalog.fields type) with
  | error fault => rw [read] at built; cases built
  | ok fields =>
    rw [read] at built
    cases built
    exact indices_of_fieldsMetadata read

/-- A declaration has metadata exactly if its tag does not skip it. -/
theorem mem_indices_iff {registry : Registry} {type : RecordType} {metadata : RecordMetadata}
    (built : RecordMetadata.build catalog registry type = .ok metadata) {place : Nat} {decl : FieldDecl}
    (declared : (catalog.fields type)[place]? = some decl) :
    place ∈ metadata.fields.map FieldMetadata.index ↔ Tag.parse decl.tag ≠ .skip := by
  rw [indices_of_build built, Catalog.shown, List.mem_map]
  constructor
  · rintro ⟨⟨other, index⟩, member, rfl⟩
    obtain ⟨listed, shows⟩ := List.mem_filter.mp member
    cases declared.symm.trans (List.mem_zipIdx_iff_getElem?.mp listed)
    simpa using shows
  · intro shows
    exact ⟨(decl, place), List.mem_filter.mpr ⟨List.mem_zipIdx_iff_getElem?.mpr declared, by simpa using shows⟩, rfl⟩

/-- The traversal of a record goes through the visits that the record calls for. -/
theorem enters_walkRecord (setting : Setting) (catalog : Catalog) (room : Nat) :
    Nested.Enters setting catalog room (walkRecord setting room) := by
  induction room with
  | zero =>
    intro record place around validate depth opens marks result comes
    have deep : setting.maxDepth < place.depth := by omega
    cases comes
    exact ⟨_, .tooDeep deep, by simp [Step.marks, deep]⟩
  | succ room ih =>
    intro record place around validate depth opens marks result comes
    have within : place.depth ≤ setting.maxDepth := by omega
    cases comes with
    | faulty built => exact ⟨_, .faulty within built, by simp [Step.marks, within]⟩
    | described built below =>
      obtain ⟨steps, walks, rfl⟩ := follows_walkFields ih depth opens record [] _ _ _ below
      exact ⟨_, .entered within built (indices_of_build built) walks, by simp [Step.marks, within]⟩

end

/-! ## Runs of an engine -/

namespace Engine

/-- Options that do not write make one run of both ways to validate. -/
theorem validate_eq_validateMut (engine : Engine) (cache : MetadataCache) (context : Context) {options : Options}
    (record : TypedRecord) (reads : options.writesBack = false) :
    engine.validate cache context options record = engine.validateMut cache context options record := by
  simp [validate, validateSnapshot, validateMut, reads]

/-- Only a run that writes takes the record's writes. -/
theorem writesBack_of_taken {options : Options} (record : TypedRecord)
    (taken : (if options.writesBack then some record else none).isSome = true) : options.writesBack = true := by
  cases writes : options.writesBack with
  | true => rfl
  | false => simp [writes] at taken

/-- A run of the engine's plan goes through the visits of the snapshot, its events are theirs, and its cache keeps
nothing new but the types of records that it entered within the limit. -/
theorem walks_of_run (engine : Engine) {cache : MetadataCache} (context : Context) (options : Options)
    (snapshot : RecordValue) {taken : Option TypedRecord}
    (faithful : cache.Faithful engine.catalog engine.registry)
    (may : taken.isSome = true → options.writesBack = true) :
    ∃ steps, Walks (engine.setting context options) engine.catalog (.record snapshot .root []) steps
        (faultOf? ((engine.plan context options snapshot).run engine.catalog engine.registry cache taken).result) ∧
      ((engine.plan context options snapshot).run engine.catalog engine.registry cache taken).events =
        steps.flatMap Step.events ∧
      ∀ type, (((engine.plan context options snapshot).run engine.catalog engine.registry cache taken).cache.get?
          type).isSome = true → (cache.get? type).isSome = true ∨ ∃ record place, record.type = type ∧
        .enter record place ∈ steps ∧ place.depth ≤ engine.settings.maxDepth := by
  obtain ⟨marks, comes, events, kept⟩ := Plan.comes_of_run (engine.plan context options snapshot) faithful may
  have enters := enters_walkRecord (engine.setting context options) engine.catalog (engine.settings.maxDepth + 1)
  obtain ⟨steps, walks, rfl⟩ := enters snapshot .root [] true
    (by simp [setting]) (opens_nil options) _ _ comes
  refine ⟨steps, walks, by rw [events, events_of_marks], fun type present => (kept type present).imp_right ?_⟩
  intro asked
  obtain ⟨step, member, mark⟩ := List.mem_flatMap.mp asked
  cases step with
  | enter record place =>
    rw [Step.marks] at mark
    split at mark
    · next within =>
      cases List.mem_singleton.mp mark
      exact ⟨record, place, rfl, member, within⟩
    · cases mark
  | leave location value => simp [Step.marks] at mark
  | visit location value runs => simp [Step.marks] at mark

end Engine

end TaggedRecords
