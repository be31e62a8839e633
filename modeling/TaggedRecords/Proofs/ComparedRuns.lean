import TaggedRecords.Proofs.BoundRules
import TaggedRecords.Proofs.DistinctKeys
import TaggedRecords.Proofs.PlanLaws

/-!
# Two traversals compared

A comparison says which values, owners and plans of two runs belong together. If every entry of a chain takes scopes
that belong together to plans that do, then so does the traversal of a record, level by level. The second run may have
another limit of depth; nothing else of its setting differs.
-/

namespace TaggedRecords

/-- The setting with another limit of depth. -/
def Setting.limited (setting : Setting) (limit : Nat) : Setting := { setting with maxDepth := limit }

/-- Whether it may make a difference that a value is zero, and that an element of it is. -/
structure ZeroTests where
  whole : Bool
  elements : Bool

namespace ZeroTests

/-- Neither makes a difference. -/
def none : ZeroTests := ⟨false, false⟩

/-- What goes for an element. Elements of elements are not looked at. -/
def inside (tests : ZeroTests) : ZeroTests := ⟨tests.elements, false⟩

end ZeroTests

/-- It makes a difference whether a value is zero where a rule applies to it or zero values are left out. -/
def FieldMetadata.tests (method : Method) (field : FieldMetadata) : ZeroTests where
  whole := field.omission.appliesTo method || field.rules.any fun entry => entry.appliesTo method
  elements := field.elementRules.any fun entry => entry.appliesTo method

theorem FieldMetadata.of_whole {method : Method} {field : FieldMetadata} (untested : (field.tests method).whole = false) :
    field.omission.appliesTo method = false ∧ ∀ entry ∈ field.rules, entry.appliesTo method = false := by
  simpa [tests] using untested

theorem FieldMetadata.of_elements {method : Method} {field : FieldMetadata}
    (untested : (field.tests method).elements = false) : ∀ entry ∈ field.elementRules, entry.appliesTo method = false := by
  simpa [tests] using untested

/-- Scopes of one place whose owners and whose values belong together. -/
structure Scope.Resembles (owners : RecordValue → RecordValue → Prop) (values : Value → Value → Prop)
    (scope other : Scope) : Prop where
  owners : owners scope.owner other.owner
  values : values scope.value other.value
  rest : other = { scope with owner := other.owner, value := other.value }

/-- Values of one form: their records, items or entries belong together, and anything else is the same. -/
inductive Value.Parallel (records : RecordValue → RecordValue → Prop) (values : Value → Value → Prop) :
    Value → Value → Prop where
  | record {type : RecordType} {as bs : List (String × Value)} (fields : records ⟨type, as⟩ ⟨type, bs⟩) :
      Parallel records values (.record type as) (.record type bs)
  | sequence {as bs : List Value} (items : List.Forall₂ values as bs) :
      Parallel records values (.sequence as) (.sequence bs)
  | mapping {as bs : List (String × Value)}
      (entries : List.Forall₂ (fun a b => a.1 = b.1 ∧ values a.2 b.2) as bs) :
      Parallel records values (.mapping as) (.mapping bs)
  | single {value : Value} (plain : value.kind ≠ .record ∧ value.kind ≠ .sequence ∧ value.kind ≠ .mapping) :
      Parallel records values value value

/-- Every value has the form of itself. -/
theorem Value.parallel_refl {records : RecordValue → RecordValue → Prop} {values : Value → Value → Prop}
    (sameRecord : ∀ record, records record record) (sameValue : ∀ value, values value value) (value : Value) :
    value.Parallel records values value := by
  cases value with
  | record type fields => exact .record (sameRecord _)
  | sequence items => exact .sequence (List.forall₂_same.mpr fun item _ => sameValue item)
  | mapping entries => exact .mapping (List.forall₂_same.mpr fun entry _ => ⟨rfl, sameValue entry.2⟩)
  | _ => exact .single (by simp [kind])

theorem Value.Parallel.kind_eq {records : RecordValue → RecordValue → Prop} {values : Value → Value → Prop} {a b : Value}
    (parallel : a.Parallel records values b) : a.kind = b.kind := by
  cases parallel <;> rfl

/-- Which plans belong together, given which results do. -/
structure PlanRelation (catalog : Catalog) (registry : Registry) where
  Plans : {α β : Type} → (α → β → Prop) → Plan α → Plan β → Prop
  done {α β : Type} {Rel : α → β → Prop} {a : α} {b : β} : Rel a b → Plans Rel (.done a) (.done b)
  bind {α β γ δ : Type} {Rel : α → β → Prop} {Next : γ → δ → Prop} {left : Plan α} {right : Plan β}
    {follow : α → Plan γ} {alsoFollow : β → Plan δ} : Plans Rel left right →
    (∀ a b, Rel a b → Plans Next (follow a) (alsoFollow b)) → Plans Next (left.bind follow) (right.bind alsoFollow)
  describe {α β : Type} {Rel : α → β → Prop} {type : RecordType} {left : RecordMetadata → Plan α}
    {right : RecordMetadata → Plan β} :
    (∀ metadata, RecordMetadata.build catalog registry type = .ok metadata →
      Plans Rel (left metadata) (right metadata)) → Plans Rel (.describe type left) (.describe type right)

/-- Which parts of two runs belong together. Of values it depends on where it makes a difference that one is zero. -/
structure Comparison (catalog : Catalog) (setting : Setting) extends PlanRelation catalog setting.registry where
  owners : RecordValue → RecordValue → Prop
  records : RecordValue → RecordValue → Prop
  values : ZeroTests → Value → Value → Prop
  parallel {tests : ZeroTests} {a b : Value} : values tests a b → a.Parallel records (values tests.inside) b
  untested {tests : ZeroTests} {a b : Value} : values tests a b → values .none a b
  zero {tests : ZeroTests} {a b : Value} : values tests a b → tests.whole = true → a.isZero = b.isZero
  delete : values .none .delete .delete
  sequence {as bs : List Value} : List.Forall₂ (values .none) as bs → values .none (.sequence as) (.sequence bs)
  mapping {as bs : List (String × Value)} : List.Forall₂ (fun a b => a.1 = b.1 ∧ values .none a.2 b.2) as bs →
    values .none (.mapping as) (.mapping bs)
  type {a b : RecordValue} : records a b → a.type = b.type
  owner {a b : RecordValue} : records a b → owners a b
  field {a b : RecordValue} {metadata : RecordMetadata} {field : FieldMetadata} : records a b →
    RecordMetadata.build catalog setting.registry a.type = .ok metadata → field ∈ metadata.fields →
    values (field.tests setting.options.method) ((a.at? field.index).getD .null) ((b.at? field.index).getD .null)
  reached {α β : Type} {Rel : α → β → Prop} {place : Place} {a b : Value} {left : Plan α} {right : Plan β} :
    values .none a b → Plans Rel left right →
    Plans Rel (.note (.reached place a) left) (.note (.reached place b) right)
  entry {tests : ZeroTests} {entry : RuleEntry} {nullable : Bool} {place : Place} {scope other : Scope} :
    tests.whole = true → entry.action.Registered setting.registry → scope.Resembles owners (values tests) other →
    Plans (Scope.Resembles owners (values tests)) (runEntry setting nullable place scope entry)
      (runEntry setting nullable place other entry)

/-- The comparison of two traversals of the same records and values. -/
def Comparison.ofSame {catalog : Catalog} {setting : Setting} (plans : PlanRelation catalog setting.registry)
    (owners : RecordValue → RecordValue → Prop) (owner : ∀ record, owners record record)
    (reached : ∀ {α β : Type} {Rel : α → β → Prop} (event : Event) {left : Plan α} {right : Plan β},
      plans.Plans Rel left right → plans.Plans Rel (.note event left) (.note event right))
    (entry : ∀ {entry : RuleEntry} (nullable : Bool) (place : Place) {scope other : Scope},
      entry.action.Registered setting.registry → scope.Resembles owners Eq other →
      plans.Plans (Scope.Resembles owners Eq) (runEntry setting nullable place scope entry)
        (runEntry setting nullable place other entry)) : Comparison catalog setting where
  toPlanRelation := plans
  owners := owners
  records := Eq
  values _ := Eq
  parallel := by
    rintro _ a _ rfl
    exact Value.parallel_refl (fun _ => rfl) (fun _ => rfl) a
  untested := id
  zero same _ := congrArg Value.isZero same
  delete := rfl
  sequence items := congrArg Value.sequence (List.forall₂_eq_eq_eq ▸ items)
  mapping entries := congrArg Value.mapping (eq_of_forall₂_keyed entries)
  type := congrArg RecordValue.type
  owner := by
    rintro a _ rfl
    exact owner a
  field := by
    rintro a _ _ _ rfl _ _
    rfl
  reached := by
    rintro _ _ _ _ a _ _ _ rfl next
    exact reached _ next
  entry _ registered resembles := entry _ _ registered resembles

namespace Comparison
variable {catalog : Catalog} {setting : Setting} (comparison : Comparison catalog setting)

/-- Documents with the same names in the same order and values that belong together. -/
def Documents (document other : Document) : Prop :=
  List.Forall₂ (fun a b => a.1 = b.1 ∧ comparison.values .none a.2 b.2) document other

/-- Records that belong together are entered with plans that do. -/
def Enters (left right : Nested) : Prop :=
  ∀ record other place validate, comparison.records record other →
    comparison.Plans comparison.Documents (left record place validate) (right other place validate)

/-! ## Chains -/

theorem plans_runChain (nullable : Bool) (place : Place) {tests : ZeroTests} (tested : tests.whole = true)
    {entries : List RuleEntry} (registered : ∀ entry ∈ entries, entry.action.Registered setting.registry)
    {scope other : Scope} (resembles : scope.Resembles comparison.owners (comparison.values tests) other) :
    comparison.Plans (comparison.values tests) (runChain setting nullable place scope entries)
      (runChain setting nullable place other entries) := by
  induction entries generalizing scope other with
  | nil => exact comparison.done resembles.values
  | cons entry rest ih =>
    have others := fun entry member => registered entry (List.mem_cons_of_mem _ member)
    have runs : setting.runs entry scope.value = setting.runs entry other.value := by
      simp only [Setting.runs, comparison.zero resembles.values tested]
    rw [runChain, runChain, runs]
    split
    · refine comparison.bind (comparison.entry tested (registered entry List.mem_cons_self) resembles) ?_
      exact fun _ _ next => ih others next
    · exact ih others resembles

/-- The chain at a place, which may be passed over. Where it makes no difference that the value is zero, no rule of it
applies. -/
theorem plans_chained (limit : Nat) (validate nullable : Bool) (place : Place) {tests : ZeroTests}
    {entries : List RuleEntry} (registered : ∀ entry ∈ entries, entry.action.Registered setting.registry)
    (idle : tests.whole = false → ∀ entry ∈ entries, entry.appliesTo setting.options.method = false)
    {scope other : Scope} (resembles : scope.Resembles comparison.owners (comparison.values tests) other) :
    comparison.Plans (comparison.values tests)
      (if validate = true then runChain setting nullable place scope entries else .done scope.value)
      (if validate = true then runChain (setting.limited limit) nullable place other entries
        else .done other.value) := by
  have unlimited : runChain (setting.limited limit) nullable place other entries =
      runChain setting nullable place other entries := by
    apply runChain_congr <;> rfl
  rw [unlimited]
  split
  · cases tested : tests.whole with
    | true => exact comparison.plans_runChain nullable place tested registered resembles
    | false =>
      rw [runChain_idle nullable place (idle tested) scope, runChain_idle nullable place (idle tested) other]
      exact comparison.done resembles.values
  · exact comparison.done resembles.values

/-! ## Elements, fields and records -/

section
variable {limit : Nat} {left right : Nested} {owner other : RecordValue} {dive : Dive} {tests : ZeroTests}
  {validate : Bool} {place : Place}

theorem plans_emit (enters : comparison.Enters left right) {a b : Value} (values : comparison.values tests a b) :
    comparison.Plans (comparison.values .none) (emit left validate place a) (emit right validate place b) := by
  cases comparison.parallel values with
  | record fields =>
    exact comparison.bind (enters _ _ place validate fields) fun _ _ documents =>
      comparison.done (comparison.mapping documents)
  | sequence _ => exact comparison.done (comparison.untested values)
  | mapping _ => exact comparison.done (comparison.untested values)
  | single plain =>
    cases a with
    | record type fields => exact absurd rfl plain.1
    | _ => exact comparison.done (comparison.untested values)

theorem plans_walkElement (enters : comparison.Enters left right) (owners : comparison.owners owner other)
    (registered : ∀ entry ∈ dive.rules, entry.action.Registered setting.registry)
    (idle : tests.whole = false → ∀ entry ∈ dive.rules, entry.appliesTo setting.options.method = false)
    {name : String} {a b : Value} (values : comparison.values tests a b) :
    comparison.Plans (comparison.values .none) (walkElement setting left owner dive validate place name a)
      (walkElement (setting.limited limit) right other dive validate place name b) := by
  rw [walkElement_eq, walkElement_eq]
  refine comparison.reached (comparison.untested values) ?_
  refine comparison.bind (comparison.plans_chained limit _ dive.element.isOptional place registered idle ?_)
    fun _ _ next => comparison.plans_emit enters next
  exact ⟨owners, values, rfl⟩

theorem plans_walkItems (enters : comparison.Enters left right) (owners : comparison.owners owner other)
    (registered : ∀ entry ∈ dive.rules, entry.action.Registered setting.registry)
    (idle : tests.whole = false → ∀ entry ∈ dive.rules, entry.appliesTo setting.options.method = false)
    {as bs : List Value}
    (items : List.Forall₂ (comparison.values tests) as bs) (index : Nat) :
    comparison.Plans (List.Forall₂ (comparison.values .none))
      (walkItems setting left owner dive validate place index as)
      (walkItems (setting.limited limit) right other dive validate place index bs) := by
  induction items generalizing index with
  | nil => exact comparison.done .nil
  | cons first _ ih =>
    refine comparison.bind (comparison.plans_walkElement enters owners registered idle first) fun _ _ head => ?_
    exact comparison.bind (ih (index + 1)) fun _ _ tail => comparison.done (.cons head tail)

theorem plans_walkEntries (enters : comparison.Enters left right) (owners : comparison.owners owner other)
    (registered : ∀ entry ∈ dive.rules, entry.action.Registered setting.registry)
    (idle : tests.whole = false → ∀ entry ∈ dive.rules, entry.appliesTo setting.options.method = false)
    {as bs : List (String × Value)}
    (entries : List.Forall₂ (fun a b => a.1 = b.1 ∧ comparison.values tests a.2 b.2) as bs) :
    comparison.Plans comparison.Documents (walkEntries setting left owner dive validate place as)
      (walkEntries (setting.limited limit) right other dive validate place bs) := by
  induction entries with
  | nil => exact comparison.done .nil
  | @cons a b _ _ first _ ih =>
    obtain ⟨key, item⟩ := a
    obtain ⟨_, alsoItem⟩ := b
    obtain ⟨rfl, here⟩ := first
    refine comparison.bind (comparison.plans_walkElement enters owners registered idle here) fun _ _ head => ?_
    exact comparison.bind ih fun _ _ tail => comparison.done (.cons ⟨rfl, head⟩ tail)

theorem plans_finish (enters : comparison.Enters left right) (owners : comparison.owners owner other)
    {dive? : Option Dive}
    (registered : ∀ dive, dive? = some dive → ∀ entry ∈ dive.rules, entry.action.Registered setting.registry)
    (idle : ∀ dive, dive? = some dive → tests.elements = false → ∀ entry ∈ dive.rules,
      entry.appliesTo setting.options.method = false) {a b : Value}
    (values : comparison.values tests a b) :
    comparison.Plans (comparison.values .none) (finish setting left owner dive? validate place a)
      (finish (setting.limited limit) right other dive? validate place b) := by
  have whole : comparison.Plans (comparison.values .none) (emit left validate place a) (emit right validate place b) :=
    comparison.plans_emit enters values
  cases dive? with
  | none => cases comparison.parallel values <;> simpa only [finish] using whole
  | some dive =>
    cases comparison.parallel values with
    | record _ => exact whole
    | sequence items =>
      exact comparison.bind (comparison.plans_walkItems enters owners (registered dive rfl) (idle dive rfl) items 0)
        fun _ _ items => comparison.done (comparison.sequence items)
    | mapping entries =>
      exact comparison.bind (comparison.plans_walkEntries enters owners (registered dive rfl) (idle dive rfl) entries)
        fun _ _ entries => comparison.done (comparison.mapping entries)
    | single plain =>
      cases a with
      | sequence items => exact absurd rfl plain.2.1
      | mapping entries => exact absurd rfl plain.2.2
      | _ => exact whole

theorem omits_eq {field : FieldMetadata} {a b : Value}
    (values : comparison.values (field.tests setting.options.method) a b) (path : String) :
    setting.omits field path a = setting.omits field path b := by
  cases tested : (field.tests setting.options.method).whole with
  | true => simp only [Setting.omits, comparison.zero values tested]
  | false => simp only [Setting.omits, (FieldMetadata.of_whole tested).1, Bool.and_false, Bool.false_and]

theorem plans_walkField (enters : comparison.Enters left right) (owners : comparison.owners owner other)
    {field : FieldMetadata} (registered : ∀ entry ∈ field.rules, entry.action.Registered setting.registry)
    (registeredInside : ∀ entry ∈ field.elementRules, entry.action.Registered setting.registry) {a b : Value}
    (values : comparison.values (field.tests setting.options.method) a b) :
    comparison.Plans (Option.Rel (comparison.values .none)) (walkField setting left owner field validate place a)
      (walkField (setting.limited limit) right other field validate place b) := by
  have omits : (setting.limited limit).omits field place.path b = setting.omits field place.path a :=
    (comparison.omits_eq values place.path).symm
  refine comparison.reached (comparison.untested values) ?_
  rw [omits]
  cases setting.omits field place.path a with
  | true =>
    refine comparison.done ?_
    show Option.Rel _ (if setting.options.tombstones then _ else _) (if setting.options.tombstones then _ else _)
    cases setting.options.tombstones with
    | true => exact .some comparison.delete
    | false => exact .none
  | false =>
    have elementRules (dive : Dive) (dives : field.dive? = some dive) : dive.rules = field.elementRules :=
      (FieldMetadata.dive?_eq_some dives).2
    refine comparison.bind (comparison.bind (comparison.plans_chained limit _ _ place registered
      (fun untested => (FieldMetadata.of_whole untested).2) ⟨owners, values, rfl⟩) fun _ _ next => ?_)
      fun _ _ emitted => comparison.done (.some emitted)
    refine comparison.plans_finish enters owners (fun dive dives => ?_) (fun dive dives untested => ?_) next
    · rw [elementRules dive dives]
      exact registeredInside
    · rw [elementRules dive dives]
      exact FieldMetadata.of_elements untested

theorem plans_walkFields (enters : comparison.Enters left right) (owners : comparison.owners owner other)
    {fields : List FieldMetadata} (registered : ∀ field ∈ fields,
      (∀ entry ∈ field.rules, entry.action.Registered setting.registry) ∧
        ∀ entry ∈ field.elementRules, entry.action.Registered setting.registry)
    (values : ∀ field ∈ fields, comparison.values (field.tests setting.options.method) ((owner.at? field.index).getD .null)
      ((other.at? field.index).getD .null))
    {document alsoDocument : Document} (documents : comparison.Documents document alsoDocument) :
    comparison.Plans comparison.Documents (walkFields setting left owner validate place document fields)
      (walkFields (setting.limited limit) right other validate place alsoDocument fields) := by
  induction fields generalizing document alsoDocument with
  | nil => exact comparison.done documents
  | cons field rest ih =>
    obtain ⟨⟨rules, elementRules⟩, others⟩ := List.forall_mem_cons.mp registered
    obtain ⟨here, alsoHere⟩ := List.forall_mem_cons.mp values
    refine comparison.bind (comparison.plans_walkField enters owners rules elementRules here) fun _ _ emitted => ?_
    cases emitted with
    | none => exact ih others alsoHere documents
    | some related =>
      exact ih others alsoHere (Entries.forall₂_insert (fun _ => comparison.values .none) documents field.name related)

end

/-- With room that suits the limits, the traversals of records that belong together do so at every depth, if they do
where the first has no room left. -/
theorem enters_walkRecord (limit more : Nat) (ends : comparison.Enters (walkRecord setting 0)
    (walkRecord (setting.limited limit) more)) (room : Nat) :
    comparison.Enters (walkRecord setting room) (walkRecord (setting.limited limit) (more + room)) := by
  induction room with
  | zero => exact ends
  | succ room ih =>
    intro record other place validate together
    rw [← Nat.add_assoc]
    simp only [walkRecord, ← comparison.type together]
    refine comparison.describe fun metadata built => ?_
    refine comparison.plans_walkFields ih (comparison.owner together) (fun field member => ?_)
      (fun field member => comparison.field together built member) .nil
    obtain ⟨_, _, describes⟩ := (describes_of_build built).1 field member
    exact ⟨describes.rules, describes.elementRules⟩

/-- Under one limit it is enough that they do where no room is left. -/
theorem enters_walkRecord_same (ends : comparison.Enters (walkRecord setting 0) (walkRecord setting 0)) (room : Nat) :
    comparison.Enters (walkRecord setting room) (walkRecord setting room) := by
  have enters := comparison.enters_walkRecord setting.maxDepth 0 ends room
  rwa [Nat.zero_add] at enters

end Comparison

end TaggedRecords
