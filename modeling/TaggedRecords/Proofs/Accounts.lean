import TaggedRecords.Proofs.VisitRuns

/-!
# Accounts of passing runs

What a run that passes did, as a tree: at each location what ran there, the value that it left and what was visited
inside. The run's document is what its accounts emit, and its events are theirs.
-/

namespace TaggedRecords

/-- What happened at a location: it was left out, or its rules left a value and what is inside was visited. -/
inductive Account where
  | omitted (location : Location) (value : Value)
  | visited (location : Location) (value : Value) (runs : List (RuleEntry × Scope)) (left : Value)
      (inside : List Account)

/-- The location that the account is about. -/
def Account.location : Account → Location
  | omitted location _ => location
  | visited location _ _ _ _ => location

/-- The accounts of a run over a subject that passes. -/
inductive Accounts (setting : Setting) (catalog : Catalog) : Subject → List Account → Prop where
  | entered {record : RecordValue} {place : Place} {around : List Place} {metadata : RecordMetadata}
      {accounts : List Account} (within : place.depth ≤ setting.maxDepth)
      (built : RecordMetadata.build catalog setting.registry record.type = .ok metadata)
      (below : Accounts setting catalog (.locations (metadata.locations record place around)) accounts) :
      Accounts setting catalog (.record record place around) accounts
  | nothing : Accounts setting catalog (.locations []) []
  | omitted {location : Location} {value : Value} {rest : List (Location × Value)} {accounts : List Account}
      (out : location.Omitted setting.options value)
      (others : Accounts setting catalog (.locations rest) accounts) :
      Accounts setting catalog (.locations ((location, value) :: rest)) (.omitted location value :: accounts)
  | passed {location : Location} {value left : Value} {rest : List (Location × Value)}
      {runs : List (RuleEntry × Scope)} {inner accounts : List Account}
      (here : ¬ location.Omitted setting.options value)
      (executes : Executes setting location location.rules value runs (.ok left))
      (inside : Accounts setting catalog (location.inside left) inner)
      (others : Accounts setting catalog (.locations rest) accounts) :
      Accounts setting catalog (.locations ((location, value) :: rest))
        (.visited location value runs left inner :: accounts)

/-! ## What accounts emit -/

/-- What a location emits for the value left there: a record becomes the document of its fields, and what the elements
that are visited emit stands for them. -/
def Location.emits (location : Location) (left : Value) (fields : List (String × Value)) (items : List Value) : Value :=
  match left, location.dive with
  | .record _ _, _ => .mapping (Entries.ofList fields)
  | .sequence _, some _ => .sequence items
  | .mapping _, some _ => .mapping fields
  | left, _ => left

mutual

/-- What the account puts into the document, if anything. -/
def Account.emitted? (tombstones : Bool) : Account → Option Value
  | .omitted _ _ => if tombstones then some .delete else none
  | .visited location _ _ left inside =>
    some (location.emits left (emittedFields tombstones inside) (emittedItems tombstones inside))

/-- What is emitted, under the names of the locations. -/
def emittedFields (tombstones : Bool) : List Account → List (String × Value)
  | [] => []
  | account :: rest =>
    match account.emitted? tombstones with
    | some value => (account.location.name, value) :: emittedFields tombstones rest
    | none => emittedFields tombstones rest

/-- What is emitted, one value for each account. -/
def emittedItems (tombstones : Bool) : List Account → List Value
  | [] => []
  | account :: rest => (account.emitted? tombstones).getD .null :: emittedItems tombstones rest

end

/-- The document that the accounts of a record's fields emit. -/
def documentOf (tombstones : Bool) (accounts : List Account) : Document :=
  Entries.ofList (emittedFields tombstones accounts)

mutual

/-- The events that the account stands for. -/
def Account.events : Account → List Event
  | .omitted location value => [.reached location.place value]
  | .visited location value runs _ inside =>
    .reached location.place value :: (runs.map (fun run => .ran run.1 run.2) ++ eventsOf inside)

/-- The events of accounts one after the other. -/
def eventsOf : List Account → List Event
  | [] => []
  | account :: rest => account.events ++ eventsOf rest

end

theorem emittedItems_eq_map (tombstones : Bool) (accounts : List Account) :
    emittedItems tombstones accounts = accounts.map fun account => (account.emitted? tombstones).getD .null := by
  induction accounts with
  | nil => rfl
  | cons account rest ih => rw [emittedItems, ih, List.map_cons]

theorem eventsOf_append (accounts others : List Account) :
    eventsOf (accounts ++ others) = eventsOf accounts ++ eventsOf others := by
  induction accounts with
  | nil => rfl
  | cons account rest ih => rw [List.cons_append, eventsOf, eventsOf, ih, List.append_assoc]

section
variable {setting : Setting} {catalog : Catalog}

theorem Accounts.cons {first : Location × Value} {rest : List (Location × Value)} {accounts others : List Account}
    (head : Accounts setting catalog (.locations [first]) accounts)
    (tail : Accounts setting catalog (.locations rest) others) :
    Accounts setting catalog (.locations (first :: rest)) (accounts ++ others) := by
  cases head with
  | omitted out others =>
    cases others
    exact .omitted out tail
  | passed here executes inside others =>
    cases others
    exact .passed here executes inside tail

end

/-! ## Plans with accounts -/

/-- Every passing run of the plan over the subject has accounts, whose events it leaves and which emit its result. -/
def Plan.Accounted {α : Type} (setting : Setting) (catalog : Catalog) (plan : Plan α) (subject : Subject)
    (Emits : List Account → α → Prop) : Prop :=
  ∀ marks result, plan.Comes catalog setting.registry setting.options.writesBack marks (.ok result) →
    ∃ accounts, Accounts setting catalog subject accounts ∧ marks.filterMap Mark.event? = eventsOf accounts ∧
      Emits accounts result

section
variable {setting : Setting} {catalog : Catalog}

namespace Plan
variable {α β : Type} {Emits : List Account → α → Prop}

theorem accounted_done {result : α} (emits : Emits [] result) :
    (Plan.done result).Accounted setting catalog (.locations []) Emits := by
  intro marks other comes
  cases comes
  exact ⟨[], .nothing, rfl, emits⟩

theorem Accounted.map {plan : Plan α} {subject : Subject} (accounted : plan.Accounted setting catalog subject Emits)
    {f : α → β} {Others : List Account → β → Prop}
    (hands : ∀ accounts first, Emits accounts first → Others accounts (f first)) :
    (plan.bind fun first => .done (f first)).Accounted setting catalog subject Others := by
  intro marks result comes
  obtain ⟨first, ran, same⟩ := comes.of_map
  cases first with
  | error fault => cases same
  | ok first =>
    cases same
    obtain ⟨accounts, derived, events, emits⟩ := accounted marks first ran
    exact ⟨accounts, derived, events, hands accounts first emits⟩

/-- The accounts of the locations behind the first follow those of the first. -/
theorem Accounted.bind {plan : Plan α} {next : α → Plan β} {first : Location × Value} {rest : List (Location × Value)}
    {Behind : α → List Account → β → Prop} {All : List Account → β → Prop}
    (head : plan.Accounted setting catalog (.locations [first]) Emits)
    (tail : ∀ held, (next held).Accounted setting catalog (.locations rest) (Behind held))
    (together : ∀ accounts held others result, Emits accounts held → Behind held others result →
      All (accounts ++ others) result) :
    (plan.bind next).Accounted setting catalog (.locations (first :: rest)) All := by
  intro marks result comes
  rcases comes.of_bind with ⟨fault, ran, same⟩ | ⟨held, before, after, ran, below, rfl⟩
  · cases same
  · obtain ⟨accounts, derived, events, emits⟩ := head before held ran
    obtain ⟨others, alsoDerived, alsoEvents, alsoEmits⟩ := tail held after result below
    refine ⟨accounts ++ others, derived.cons alsoDerived, ?_, together accounts held others result emits alsoEmits⟩
    rw [List.filterMap_append, events, alsoEvents, eventsOf_append]

/-- The account of a location tells of its chain and of what is inside it. -/
theorem accounted_visit (location : Location) {value : Value} {chained : Plan Value} {next : Value → Plan α}
    {Inside : Value → List Account → α → Prop} (here : ¬ location.Omitted setting.options value)
    (chain : ∀ marks result, chained.Comes catalog setting.registry setting.options.writesBack marks result →
      ∃ runs, Executes setting location location.rules value runs result ∧
        marks = runs.map fun run => .noted (.ran run.1 run.2))
    (inside : ∀ left, (next left).Accounted setting catalog (location.inside left) (Inside left))
    (emits : ∀ runs left inner result, Inside left inner result →
      Emits [.visited location value runs left inner] result) :
    (Plan.note (.reached location.place value) (chained.bind next)).Accounted setting catalog
      (.locations [(location, value)]) Emits := by
  intro marks result comes
  cases comes with
  | note below =>
    rcases below.of_bind with ⟨fault, ran, same⟩ | ⟨left, before, after, ran, rest, rfl⟩
    · cases same
    · obtain ⟨runs, executes, rfl⟩ := chain _ _ ran
      obtain ⟨inner, derived, events, within⟩ := inside left after result rest
      refine ⟨_, .passed here executes derived .nothing, ?_, emits runs left inner result within⟩
      simp [eventsOf, Account.events, events, Mark.event?, List.filterMap_map, Function.comp_def]

end Plan

/-! ## Elements, fields and records -/

/-- Nested records are entered with plans that have accounts, which emit the document. -/
def Nested.Accounted (setting : Setting) (catalog : Catalog) (room : Nat) (nested : Nested) : Prop :=
  ∀ record place around validate, place.depth + room = setting.maxDepth + 1 →
    setting.options.Opens validate around →
    (nested record place validate).Accounted setting catalog (.record record place around)
      fun accounts document => document = documentOf setting.options.tombstones accounts

variable {room : Nat} {nested : Nested}

/-- The only account is that of a location with the name, and emits this. -/
def EmitsUnder (tombstones : Bool) (name : String) (accounts : List Account) (emitted? : Option Value) : Prop :=
  ∃ account, accounts = [account] ∧ account.location.name = name ∧ account.emitted? tombstones = emitted?

theorem accounted_emit (enters : nested.Accounted setting catalog room) (location : Location)
    (depth : location.place.depth + room = setting.maxDepth + 1) {validate : Bool}
    (opens : setting.options.Opens validate (location.place :: location.around)) {value : Value}
    (whole : value.kind = .sequence ∨ value.kind = .mapping → location.dive = none) :
    (emit nested validate location.place value).Accounted setting catalog (location.inside value)
      fun inner emitted => emitted = location.emits value (emittedFields setting.options.tombstones inner)
        (emittedItems setting.options.tombstones inner) := by
  cases value with
  | record type fields =>
    refine (enters ⟨type, fields⟩ location.place _ validate depth opens).map fun accounts document same => ?_
    rw [same]
    rfl
  | sequence items =>
    simp only [Location.inside, whole (.inl rfl), Location.emits]
    exact Plan.accounted_done rfl
  | mapping entries =>
    simp only [Location.inside, whole (.inr rfl), Location.emits]
    exact Plan.accounted_done rfl
  | _ => exact Plan.accounted_done rfl

theorem accounted_walkElement (enters : nested.Accounted setting catalog room) {location : Location} {dive : Dive}
    {place : Place} (depth : place.depth + room = setting.maxDepth + 1) {validate : Bool}
    (opens : setting.options.Opens validate (location.place :: location.around)) (name : String) (item : Value) :
    (walkElement setting nested location.owner dive validate place name item).Accounted setting catalog
      (.locations [(location.element dive place name, item)])
      fun accounts emitted => EmitsUnder setting.options.tombstones name accounts (some emitted) := by
  rw [walkElement_eq]
  refine Plan.accounted_visit (location.element dive place name) (location.not_omitted_element _ _ _ _ _)
    (fun marks result comes => executes_of_chained (location.element dive place name) opens (fun _ => rfl) comes rfl)
    (fun left => accounted_emit enters (location.element dive place name) depth (opens_cons opens place) fun _ => rfl)
    fun runs left inner result same => ⟨_, rfl, rfl, ?_⟩
  rw [Account.emitted?, same]

theorem accounted_walkItems (enters : nested.Accounted setting catalog room) {location : Location}
    (depth : location.place.depth + room = setting.maxDepth + 1) {validate : Bool}
    (opens : setting.options.Opens validate (location.place :: location.around)) (dive : Dive) (start : Nat)
    (items : List Value) :
    (walkItems setting nested location.owner dive validate location.place start items).Accounted setting catalog
      (.locations ((items.zipIdx start).map fun item =>
        (location.element dive (location.place.item item.2) (Place.positionName item.2), item.1)))
      fun accounts emitted => emitted = emittedItems setting.options.tombstones accounts := by
  induction items generalizing start with
  | nil => exact Plan.accounted_done rfl
  | cons item rest ih =>
    have tail (held : Value) : ((walkItems setting nested location.owner dive validate location.place (start + 1)
        rest).bind fun others => .done (held :: others)).Accounted setting catalog _ fun accounts result =>
          result = held :: emittedItems setting.options.tombstones accounts :=
      (ih (start + 1)).map fun _ _ same => congrArg (held :: ·) same
    refine (accounted_walkElement enters (by simpa using depth) opens _ item).bind tail ?_
    rintro _ held others _ ⟨account, rfl, -, emits⟩ rfl
    rw [List.singleton_append, emittedItems, emits]
    rfl

theorem accounted_walkEntries (enters : nested.Accounted setting catalog room) {location : Location}
    (depth : location.place.depth + room = setting.maxDepth + 1) {validate : Bool}
    (opens : setting.options.Opens validate (location.place :: location.around)) (dive : Dive)
    (entries : List (String × Value)) :
    (walkEntries setting nested location.owner dive validate location.place entries).Accounted setting catalog
      (.locations (entries.map fun entry =>
        (location.element dive (location.place.entry entry.1) entry.1, entry.2)))
      fun accounts emitted => emitted = emittedFields setting.options.tombstones accounts := by
  induction entries with
  | nil => exact Plan.accounted_done rfl
  | cons entry rest ih =>
    have tail (held : Value) : ((walkEntries setting nested location.owner dive validate location.place rest).bind
        fun others => .done ((entry.1, held) :: others)).Accounted setting catalog _ fun accounts result =>
          result = (entry.1, held) :: emittedFields setting.options.tombstones accounts :=
      ih.map fun _ _ same => congrArg ((entry.1, held) :: ·) same
    refine (accounted_walkElement enters (by simpa using depth) opens entry.1 entry.2).bind tail ?_
    rintro _ held others _ ⟨account, rfl, name, emits⟩ rfl
    rw [List.singleton_append, emittedFields, emits, name]

theorem accounted_finish (enters : nested.Accounted setting catalog room) (location : Location)
    (depth : location.place.depth + room = setting.maxDepth + 1) {validate : Bool}
    (opens : setting.options.Opens validate (location.place :: location.around)) (value : Value) :
    (finish setting nested location.owner location.dive validate location.place value).Accounted setting catalog
      (location.inside value)
      fun inner emitted => emitted = location.emits value (emittedFields setting.options.tombstones inner)
        (emittedItems setting.options.tombstones inner) := by
  have unopened (single : value.kind ≠ .sequence ∧ value.kind ≠ .mapping) :=
    accounted_emit enters location depth opens fun container => (container.elim single.1 single.2).elim
  cases dives : location.dive with
  | none =>
    have whole : finish setting nested location.owner none validate location.place value =
        emit nested validate location.place value := by
      cases value <;> rfl
    rw [whole]
    exact accounted_emit enters location depth opens fun _ => dives
  | some dive =>
    cases value with
    | sequence items =>
      simp only [finish, Location.inside, Location.emits, dives]
      exact (accounted_walkItems enters depth opens dive 0 items).map fun _ _ same => congrArg Value.sequence same
    | mapping entries =>
      simp only [finish, Location.inside, Location.emits, dives]
      exact (accounted_walkEntries enters depth opens dive entries).map fun _ _ same => congrArg Value.mapping same
    | _ => exact unopened (by simp [Value.kind])

theorem accounted_walkField (enters : nested.Accounted setting catalog room) {place : Place}
    (depth : place.depth + (room + 1) = setting.maxDepth + 1) {validate : Bool} {around : List Place}
    (opens : setting.options.Opens validate around) (record : RecordValue) (field : FieldMetadata) (value : Value) :
    (walkField setting nested record field validate (place.field field.name field.declared field.index)
      value).Accounted setting catalog (.locations [(Location.ofField record place around field, value)])
      (EmitsUnder setting.options.tombstones field.name) := by
  have inner : (place.field field.name field.declared field.index).depth + room = setting.maxDepth + 1 := by
    rw [Place.depth_field]
    omega
  unfold walkField
  split
  · next omits =>
    intro marks result comes
    cases comes with
    | note below =>
      cases below
      exact ⟨_, .omitted ((omits_iff record place around field value).mp omits) .nothing, rfl, _, rfl, rfl, rfl⟩
  · next stays =>
    have opensInner := opens_cons opens (place.field field.name field.declared field.index)
    refine @Plan.Accounted.map setting catalog _ _ _ (.note _ (.bind _ _)) _ ?_ some _ fun _ _ sole => sole
    refine Plan.accounted_visit (Location.ofField record place around field)
      (fun out => stays ((omits_iff record place around field value).mpr out))
      (fun marks result comes => executes_of_chained (Location.ofField record place around field) opens
        (fun _ => rfl) comes rfl)
      (fun left => accounted_finish enters (Location.ofField record place around field) inner opensInner left)
      fun runs left inner result same => ⟨_, rfl, rfl, ?_⟩
    rw [Account.emitted?, same]

theorem accounted_walkFields (enters : nested.Accounted setting catalog room) {place : Place}
    (depth : place.depth + (room + 1) = setting.maxDepth + 1) {validate : Bool} {around : List Place}
    (opens : setting.options.Opens validate around) (record : RecordValue) (document : Document)
    (fields : List FieldMetadata) :
    (walkFields setting nested record validate place document fields).Accounted setting catalog
      (.locations (fields.map fun field =>
        (Location.ofField record place around field, (record.at? field.index).getD .null)))
      fun accounts result => result = (emittedFields setting.options.tombstones accounts).foldl
        (fun document entry => Entries.insert document entry.1 entry.2) document := by
  induction fields generalizing document with
  | nil => exact Plan.accounted_done rfl
  | cons field rest ih =>
    refine (accounted_walkField enters depth opens record field _).bind (fun held => ih _) ?_
    rintro _ held others _ ⟨account, rfl, name, emits⟩ rfl
    rw [List.singleton_append, emittedFields, emits, ← name]
    cases held <;> rfl

/-- Every passing traversal of a record has accounts, which emit its document. -/
theorem accounted_walkRecord (setting : Setting) (catalog : Catalog) (room : Nat) :
    Nested.Accounted setting catalog room (walkRecord setting room) := by
  induction room with
  | zero =>
    intro record place around validate depth opens marks result comes
    cases comes
  | succ room ih =>
    intro record place around validate depth opens marks result comes
    cases comes with
    | described built below =>
      obtain ⟨accounts, derived, events, same⟩ := accounted_walkFields ih depth opens record [] _ _ _ below
      exact ⟨accounts, .entered (by omega) built derived, events, same⟩

end

/-! ## Runs of an engine -/

/-- The run passed, with these accounts of the snapshot: they emit its document, and its events are theirs. -/
structure Run.Accounted (run : Run Document) (setting : Setting) (catalog : Catalog) (snapshot : RecordValue)
    (accounts : List Account) : Prop where
  derived : Accounts setting catalog (.record snapshot .root []) accounts
  document : run.result = .ok (documentOf setting.options.tombstones accounts)
  events : run.events = eventsOf accounts

/-- A run of an engine's plan that passes has accounts. -/
theorem Engine.exists_accounts (engine : Engine) {cache : MetadataCache} (context : Context) (options : Options)
    (snapshot : RecordValue) {taken : Option TypedRecord} (faithful : cache.Faithful engine.catalog engine.registry)
    (may : taken.isSome = true → options.writesBack = true) {document : Document}
    (ended : ((engine.plan context options snapshot).run engine.catalog engine.registry cache taken).result =
      .ok document) :
    ∃ accounts, ((engine.plan context options snapshot).run engine.catalog engine.registry cache taken).Accounted
      (engine.setting context options) engine.catalog snapshot accounts := by
  obtain ⟨marks, comes, events, -⟩ := Plan.comes_of_run (engine.plan context options snapshot) faithful may
  rw [ended] at comes
  obtain ⟨accounts, derived, sameEvents, rfl⟩ := accounted_walkRecord (engine.setting context options) engine.catalog
    (engine.settings.maxDepth + 1) snapshot .root [] true (by simp [setting]) (opens_nil options) marks document comes
  exact ⟨accounts, derived, ended, events.trans sameEvents⟩

/-- A run that may write into the record has accounts if it passes. -/
theorem Engine.exists_accounts_validateMut (engine : Engine) {cache : MetadataCache} (context : Context)
    (options : Options) (record : TypedRecord) (faithful : cache.Faithful engine.catalog engine.registry)
    {document : Document} (ended : (engine.validateMut cache context options record).result = .ok document) :
    ∃ accounts, (engine.validateMut cache context options record).Accounted (engine.setting context options)
      engine.catalog (record.snapshot engine.catalog) accounts :=
  engine.exists_accounts context options (record.snapshot engine.catalog) faithful (writesBack_of_taken record) ended

/-- So has a run over any snapshot. -/
theorem Engine.exists_accounts_validateSnapshot (engine : Engine) {cache : MetadataCache} (context : Context)
    (options : Options) (snapshot : RecordValue) (faithful : cache.Faithful engine.catalog engine.registry)
    {document : Document} (ended : (engine.validateSnapshot cache context options snapshot).result = .ok document) :
    ∃ accounts, (engine.validateSnapshot cache context options snapshot).Accounted (engine.setting context options)
      engine.catalog snapshot accounts := by
  unfold validateSnapshot at ended ⊢
  split at ended
  · cases ended
  · next reads =>
    rw [if_neg reads]
    exact engine.exists_accounts context options snapshot faithful nofun ended

end TaggedRecords
