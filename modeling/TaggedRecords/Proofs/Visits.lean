import TaggedRecords.Proofs.BoundRules
import TaggedRecords.Traversal

/-!
# Visits of a run

What a run has to do, said without the traversal: which fields and elements are visited and in which order, which
entries are eligible at each and what they make of its value, and where a failure ends it. Depth is counted on
the places, by the records around them, and a skip option is looked for on the places around a location.
-/

namespace TaggedRecords

/-! ## Locations -/

/-- Whether the segment leads from a record to one of its fields. -/
def Segment.isField : Segment → Bool
  | field _ => true
  | _ => false

/-- How many records lie around the place. -/
def Place.depth (place : Place) : Nat := place.segments.countP Segment.isField

/-- A field or an element that a run comes to. -/
structure Location where
  place : Place
  /-- The places of the visited locations around it, the nearest first. -/
  around : List Place
  /-- The snapshot of the record that it belongs to. -/
  owner : RecordValue
  name : String
  declared : String
  descriptor : Descriptor
  omission : OmitPolicy
  rules : List RuleEntry
  /-- How its elements are visited, if they are. -/
  dive : Option Dive

namespace Location

/-- A field of the record at a place. -/
def ofField (record : RecordValue) (place : Place) (around : List Place) (field : FieldMetadata) : Location where
  place := place.field field.name field.declared field.index
  around := around
  owner := record
  name := field.name
  declared := field.declared
  descriptor := field.descriptor
  omission := field.omission
  rules := field.rules
  dive := field.dive?

/-- An element of the location. It is never left out, and what it holds is not entered any further. -/
def element (location : Location) (dive : Dive) (place : Place) (name : String) : Location where
  place := place
  around := location.place :: location.around
  owner := location.owner
  name := name
  declared := name
  descriptor := dive.element
  omission := .none
  rules := dive.rules
  dive := none

/-- What a rule of an entry sees of the location while it holds the value. -/
def scope (location : Location) (entry : RuleEntry) (value : Value) : Scope where
  owner := location.owner
  field := location.name
  declared := location.declared
  path := location.place.path
  declaredPath := location.place.declaredPath
  value := value
  descriptor := location.descriptor.dereferenced
  rule := entry.name
  param := entry.param

/-- A skip option covers the location: no rule runs at all, or its path is listed, or that of one around it. -/
def Covered (options : Options) (location : Location) : Prop :=
  options.skipAll = true ∨ ∃ place ∈ location.place :: location.around, place.path ∈ options.skipPaths

/-- The location holds a zero value that is left out for the method and not asked for. -/
def Omitted (options : Options) (location : Location) (value : Value) : Prop :=
  value.isZero = true ∧ location.omission.appliesTo options.method = true ∧ location.place.path ∉ options.emptyPaths

end Location

/-- The entry is to run at the location while it holds the value. -/
structure Eligible (options : Options) (location : Location) (entry : RuleEntry) (value : Value) : Prop where
  method : ∀ only, entry.method = some only → only = options.method
  uncovered : ¬ location.Covered options
  present : value.isZero = false ∨ entry.runsOnNil = true ∨ entry.required = true

/-- What the rule of an entry makes of the value that a location holds: the value to go on with, or the fault that
ends the run. -/
inductive Gives (setting : Setting) (location : Location) (entry : RuleEntry) (value : Value) :
    Except Fault Value → Prop where
  | accepted {rule : Validation} (action : entry.action = .validate rule)
      (answer : rule.check setting.context setting.options.transaction (location.scope entry value) = .ok true) :
      Gives setting location entry value (.ok value)
  | rejected {rule : Validation} (action : entry.action = .validate rule)
      (answer : rule.check setting.context setting.options.transaction (location.scope entry value) = .ok false) :
      Gives setting location entry value (.error (setting.registry.failure (location.scope entry value)))
  | checkFailed {rule : Validation} {fault : Fault} (action : entry.action = .validate rule)
      (answer : rule.check setting.context setting.options.transaction (location.scope entry value) = .error fault) :
      Gives setting location entry value (.error fault)
  | kept {rule : Transformation} {next : Value} (action : entry.action = .transform rule)
      (answer : rule.apply setting.context setting.options.transaction (location.scope entry value) = .ok next)
      (legal : (location.scope entry value).allows location.descriptor.isOptional next = true)
      (same : next.same value = true) : Gives setting location entry value (.ok value)
  | changed {rule : Transformation} {next : Value} (action : entry.action = .transform rule)
      (answer : rule.apply setting.context setting.options.transaction (location.scope entry value) = .ok next)
      (legal : (location.scope entry value).allows location.descriptor.isOptional next = true)
      (differs : next.same value = false) : Gives setting location entry value (.ok next)
  | misfit {rule : Transformation} {next : Value} (action : entry.action = .transform rule)
      (answer : rule.apply setting.context setting.options.transaction (location.scope entry value) = .ok next)
      (illegal : (location.scope entry value).allows location.descriptor.isOptional next = false) :
      Gives setting location entry value (.error (.typeMismatch entry.name location.place.path
        location.descriptor.dereferenced.text next.kind))
  | transformFailed {rule : Transformation} {fault : Fault} (action : entry.action = .transform rule)
      (answer : rule.apply setting.context setting.options.transaction (location.scope entry value) = .error fault) :
      Gives setting location entry value (.error fault)
  | refused {rule : Transformation} {next : Value} (action : entry.action = .transform rule)
      (answer : rule.apply setting.context setting.options.transaction (location.scope entry value) = .ok next)
      (legal : (location.scope entry value).allows location.descriptor.isOptional next = true)
      (differs : next.same value = false) (writes : setting.options.writesBack = true) (cause : ValueFault) :
      Gives setting location entry value (.error (.writeBack location.place.path cause))

/-- The entries that run one after the other on a location's value, each with what it sees: exactly those that are
eligible when their turn comes, up to the first that fails. -/
inductive Executes (setting : Setting) (location : Location) :
    List RuleEntry → Value → List (RuleEntry × Scope) → Except Fault Value → Prop where
  | ended (value : Value) : Executes setting location [] value [] (.ok value)
  | passed {entry : RuleEntry} {rest : List RuleEntry} {value : Value} {runs : List (RuleEntry × Scope)}
      {result : Except Fault Value} (ineligible : ¬ Eligible setting.options location entry value)
      (below : Executes setting location rest value runs result) :
      Executes setting location (entry :: rest) value runs result
  | ran {entry : RuleEntry} {rest : List RuleEntry} {value next : Value} {runs : List (RuleEntry × Scope)}
      {result : Except Fault Value} (eligible : Eligible setting.options location entry value)
      (gives : Gives setting location entry value (.ok next))
      (below : Executes setting location rest next runs result) :
      Executes setting location (entry :: rest) value ((entry, location.scope entry value) :: runs) result
  | failed {entry : RuleEntry} {rest : List RuleEntry} {value : Value} {fault : Fault}
      (eligible : Eligible setting.options location entry value)
      (gives : Gives setting location entry value (.error fault)) :
      Executes setting location (entry :: rest) value [(entry, location.scope entry value)] (.error fault)

/-! ## Visits in order -/

/-- What there is to visit: a record, or locations that hold values, one after the other. -/
inductive Subject where
  | record (record : RecordValue) (place : Place) (around : List Place)
  | locations (list : List (Location × Value))

/-- The fields of a record with their values, in the order of the metadata. -/
def RecordMetadata.locations (metadata : RecordMetadata) (record : RecordValue) (place : Place)
    (around : List Place) : List (Location × Value) :=
  metadata.fields.map fun field =>
    (Location.ofField record place around field, (record.at? field.index).getD .null)

/-- What there is to visit inside a location once its own rules have run: a nested record in any case, the elements
in their order if the tag asks for them, and otherwise nothing. -/
def Location.inside (location : Location) (left : Value) : Subject :=
  match left, location.dive with
  | .record type fields, _ => .record ⟨type, fields⟩ location.place (location.place :: location.around)
  | .sequence items, some dive => .locations (items.zipIdx.map fun item =>
      (location.element dive (location.place.item item.2) (Place.positionName item.2), item.1))
  | .mapping entries, some dive => .locations (entries.map fun entry =>
      (location.element dive (location.place.entry entry.1) entry.1, entry.2))
  | _, _ => .locations []

/-- The indices of the declarations that the tag does not skip, in order. -/
def Catalog.shown (catalog : Catalog) (type : RecordType) : List Nat :=
  ((catalog.fields type).zipIdx.filter fun decl => Tag.parse decl.1.tag ≠ .skip).map Prod.snd

/-- A step of a run: it is about to enter a record, leaves a location out, or visits one and runs rules there. -/
inductive Step where
  | enter (record : RecordValue) (place : Place)
  | leave (location : Location) (value : Value)
  | visit (location : Location) (value : Value) (runs : List (RuleEntry × Scope))

/-- The steps of a run over a subject, and the fault that ends it if one does. -/
inductive Walks (setting : Setting) (catalog : Catalog) : Subject → List Step → Option Fault → Prop where
  /-- A record below too many others is not entered. -/
  | tooDeep {record : RecordValue} {place : Place} {around : List Place} (deep : setting.maxDepth < place.depth) :
      Walks setting catalog (.record record place around) [.enter record place]
        (some (.depthExceeded place.path setting.maxDepth))
  /-- A record whose declarations are faulty is not entered. -/
  | faulty {record : RecordValue} {place : Place} {around : List Place} {fault : Fault}
      (within : place.depth ≤ setting.maxDepth)
      (built : RecordMetadata.build catalog setting.registry record.type = .error fault) :
      Walks setting catalog (.record record place around) [.enter record place] (some fault)
  /-- The fields of a record are visited in the order of their declarations. -/
  | entered {record : RecordValue} {place : Place} {around : List Place} {metadata : RecordMetadata}
      {steps : List Step} {fault? : Option Fault} (within : place.depth ≤ setting.maxDepth)
      (built : RecordMetadata.build catalog setting.registry record.type = .ok metadata)
      (ordered : metadata.fields.map FieldMetadata.index = catalog.shown record.type)
      (below : Walks setting catalog (.locations (metadata.locations record place around)) steps fault?) :
      Walks setting catalog (.record record place around) (.enter record place :: steps) fault?
  | nothing : Walks setting catalog (.locations []) [] none
  /-- Nothing runs at a location that is left out. -/
  | omitted {location : Location} {value : Value} {rest : List (Location × Value)} {steps : List Step}
      {fault? : Option Fault} (out : location.Omitted setting.options value)
      (others : Walks setting catalog (.locations rest) steps fault?) :
      Walks setting catalog (.locations ((location, value) :: rest)) (.leave location value :: steps) fault?
  /-- A rule that fails ends the run. -/
  | failed {location : Location} {value : Value} {rest : List (Location × Value)} {runs : List (RuleEntry × Scope)}
      {fault : Fault} (here : ¬ location.Omitted setting.options value)
      (executes : Executes setting location location.rules value runs (.error fault)) :
      Walks setting catalog (.locations ((location, value) :: rest)) [.visit location value runs] (some fault)
  /-- So does a failure inside the location. -/
  | stopped {location : Location} {value left : Value} {rest : List (Location × Value)}
      {runs : List (RuleEntry × Scope)} {steps : List Step} {fault : Fault}
      (here : ¬ location.Omitted setting.options value)
      (executes : Executes setting location location.rules value runs (.ok left))
      (inside : Walks setting catalog (location.inside left) steps (some fault)) :
      Walks setting catalog (.locations ((location, value) :: rest)) (.visit location value runs :: steps)
        (some fault)
  /-- A location's own rules run before what is inside it, and that before the locations behind it. -/
  | passed {location : Location} {value left : Value} {rest : List (Location × Value)}
      {runs : List (RuleEntry × Scope)} {steps more : List Step} {fault? : Option Fault}
      (here : ¬ location.Omitted setting.options value)
      (executes : Executes setting location location.rules value runs (.ok left))
      (inside : Walks setting catalog (location.inside left) steps none)
      (others : Walks setting catalog (.locations rest) more fault?) :
      Walks setting catalog (.locations ((location, value) :: rest)) (.visit location value runs :: (steps ++ more))
        fault?

/-- The events of a step. -/
def Step.events : Step → List Event
  | enter _ _ => []
  | leave location value => [.reached location.place value]
  | visit location value runs => .reached location.place value :: runs.map fun run => .ran run.1 run.2

/-! ## Where a run ends -/

section
variable {setting : Setting} {catalog : Catalog}

/-- The entry that fails is the last that ran. -/
theorem Executes.last {location : Location} {entries : List RuleEntry} {value : Value}
    {runs : List (RuleEntry × Scope)} {fault : Fault}
    (executes : Executes setting location entries value runs (.error fault)) :
    ∃ before entry held, runs = before ++ [(entry, location.scope entry held)] ∧ entry ∈ entries ∧
      Eligible setting.options location entry held ∧ Gives setting location entry held (.error fault) := by
  generalize ending : Except.error (ε := Fault) (α := Value) fault = result at executes
  induction executes with
  | ended value => cases ending
  | passed _ _ ih =>
    obtain ⟨before, entry, held, runs, member, eligible, gives⟩ := ih ending
    exact ⟨before, entry, held, runs, List.mem_cons_of_mem _ member, eligible, gives⟩
  | ran _ _ _ ih =>
    obtain ⟨before, entry, held, rfl, member, eligible, gives⟩ := ih ending
    exact ⟨_ :: before, entry, held, rfl, List.mem_cons_of_mem _ member, eligible, gives⟩
  | @failed entry rest value _ eligible gives =>
    cases ending
    exact ⟨[], entry, value, rfl, List.mem_cons_self, eligible, gives⟩

/-- The step raises the fault: the record may not be entered or has faulty declarations, or the last rule that ran at
the location failed. -/
def Step.Raises (setting : Setting) (catalog : Catalog) (fault : Fault) : Step → Prop
  | enter record place =>
    setting.maxDepth < place.depth ∧ fault = .depthExceeded place.path setting.maxDepth ∨
      place.depth ≤ setting.maxDepth ∧ RecordMetadata.build catalog setting.registry record.type = .error fault
  | leave _ _ => False
  | visit location _ runs => ∃ before entry held, runs = before ++ [(entry, location.scope entry held)] ∧
      entry ∈ location.rules ∧ Eligible setting.options location entry held ∧
      Gives setting location entry held (.error fault)

/-- A run that fails ends with the step that raises its fault. -/
theorem Walks.last_raises {subject : Subject} {steps : List Step} {fault : Fault}
    (walks : Walks setting catalog subject steps (some fault)) :
    ∃ before last, steps = before ++ [last] ∧ last.Raises setting catalog fault := by
  generalize ending : some fault = fault? at walks
  induction walks with
  | tooDeep deep =>
    cases ending
    exact ⟨[], _, rfl, .inl ⟨deep, rfl⟩⟩
  | faulty within built =>
    cases ending
    exact ⟨[], _, rfl, .inr ⟨within, built⟩⟩
  | entered _ _ _ _ ih =>
    obtain ⟨before, last, rfl, raises⟩ := ih ending
    exact ⟨_ :: before, last, rfl, raises⟩
  | nothing => cases ending
  | omitted _ _ ih =>
    obtain ⟨before, last, rfl, raises⟩ := ih ending
    exact ⟨_ :: before, last, rfl, raises⟩
  | failed _ executes =>
    cases ending
    exact ⟨[], _, rfl, executes.last⟩
  | stopped _ _ _ ih =>
    obtain ⟨before, last, rfl, raises⟩ := ih ending
    exact ⟨_ :: before, last, rfl, raises⟩
  | @passed location value left rest runs steps more fault? _ _ _ _ _ ih =>
    obtain ⟨before, last, rfl, raises⟩ := ih ending
    exact ⟨.visit location value runs :: (steps ++ before), last, by simp, raises⟩

/-! ## Visits one after the other -/

/-- A location that is visited, with what is inside it. -/
theorem Walks.visit {location : Location} {value left : Value} {runs : List (RuleEntry × Scope)} {steps : List Step}
    {fault? : Option Fault} (here : ¬ location.Omitted setting.options value)
    (executes : Executes setting location location.rules value runs (.ok left))
    (inside : Walks setting catalog (location.inside left) steps fault?) :
    Walks setting catalog (.locations [(location, value)]) (.visit location value runs :: steps) fault? := by
  cases fault? with
  | some fault => exact .stopped here executes inside
  | none => simpa using Walks.passed here executes inside .nothing

theorem Walks.cons {first : Location × Value} {rest : List (Location × Value)} {steps more : List Step}
    {fault? : Option Fault} (head : Walks setting catalog (.locations [first]) steps none)
    (tail : Walks setting catalog (.locations rest) more fault?) :
    Walks setting catalog (.locations (first :: rest)) (steps ++ more) fault? := by
  cases head with
  | omitted out others =>
    cases others
    exact .omitted out tail
  | passed here executes inside others =>
    cases others
    simpa using Walks.passed here executes inside tail

theorem Walks.stop {first : Location × Value} {rest : List (Location × Value)} {steps : List Step} {fault : Fault}
    (head : Walks setting catalog (.locations [first]) steps (some fault)) :
    Walks setting catalog (.locations (first :: rest)) steps (some fault) := by
  cases head with
  | omitted out others => cases others
  | failed here executes => exact .failed here executes
  | stopped here executes inside => exact .stopped here executes inside
  | passed here executes inside others => cases others

end

end TaggedRecords
