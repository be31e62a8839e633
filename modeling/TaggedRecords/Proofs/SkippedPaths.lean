import TaggedRecords.Proofs.Accounts
import TaggedRecords.Proofs.ComparedRuns
import TaggedRecords.Proofs.Positions

/-!
# Skipped paths

A path that is skipped makes a difference at the locations of that path and inside them, and nowhere else: there no
rule runs and the value found is emitted as if no rule ran at all, and everywhere else both runs do and emit the same.
-/

namespace TaggedRecords

/-- The options with more paths at and below which no rule runs. -/
def Options.skipping (options : Options) (paths : List String) : Options :=
  { options with skipPaths := options.skipPaths ++ paths }

/-- The setting with more paths at and below which no rule runs. -/
def Setting.skipping (setting : Setting) (paths : List String) : Setting :=
  { setting with options := setting.options.skipping paths }

/-- The setting of a run in which no rule runs. -/
def Setting.silenced (setting : Setting) : Setting :=
  { setting with options := { setting.options with skipAll := true } }

/-! ## Chains in two settings -/

section
variable {setting other : Setting} {location : Location} {entries : List RuleEntry} {value : Value}

/-- Nothing runs where a skip option covers the location. -/
theorem Executes.of_covered (covered : location.Covered setting.options) {runs : List (RuleEntry × Scope)}
    {result : Except Fault Value} (executes : Executes setting location entries value runs result) :
    runs = [] ∧ result = .ok value := by
  induction executes with
  | ended value => exact ⟨rfl, rfl⟩
  | passed _ _ ih => exact ih
  | ran eligible _ _ _ => exact absurd covered eligible.uncovered
  | failed eligible _ => exact absurd covered eligible.uncovered

/-- A validation that passes leaves the value, and a transformation what it returns, unless that is the same. -/
theorem Gives.cases_ok {entry : RuleEntry} {next : Value} (gives : Gives setting location entry value (.ok next)) :
    (∃ rule, entry.action = .validate rule ∧ next = value) ∨
    ∃ rule given, entry.action = .transform rule ∧
      rule.apply setting.context setting.options.transaction (location.scope entry value) = .ok given ∧
      next = if given.same value = true then value else given := by
  cases gives with
  | accepted action _ => exact .inl ⟨_, action, rfl⟩
  | kept action answer _ same => exact .inr ⟨_, _, action, answer, by rw [if_pos same]⟩
  | changed action answer _ differs => exact .inr ⟨_, _, action, answer, by simp [differs]⟩

/-- A rule that passes in two settings that look alike to it leaves one value. -/
theorem Gives.unique (context : other.context = setting.context)
    (transaction : other.options.transaction = setting.options.transaction) {entry : RuleEntry} {next also : Value}
    (gives : Gives setting location entry value (.ok next)) (alsoGives : Gives other location entry value (.ok also)) :
    next = also := by
  rcases gives.cases_ok with ⟨rule, action, rfl⟩ | ⟨rule, given, action, answer, rfl⟩
  · rcases alsoGives.cases_ok with ⟨_, _, rfl⟩ | ⟨_, _, otherAction, _, _⟩
    · rfl
    · cases action.symm.trans otherAction
  · rcases alsoGives.cases_ok with ⟨_, otherAction, _⟩ | ⟨_, _, otherAction, otherAnswer, rfl⟩
    · cases action.symm.trans otherAction
    · cases action.symm.trans otherAction
      rw [context, transaction, answer] at otherAnswer
      cases otherAnswer
      rfl

/-- Where the same entries are eligible, chains that pass run the same entries on the same scopes and leave one
value. -/
theorem Executes.unique (context : other.context = setting.context)
    (transaction : other.options.transaction = setting.options.transaction)
    (eligible : ∀ entry value, Eligible other.options location entry value ↔
      Eligible setting.options location entry value)
    {runs alsoRuns : List (RuleEntry × Scope)} {left also : Value}
    (executes : Executes setting location entries value runs (.ok left))
    (alsoExecutes : Executes other location entries value alsoRuns (.ok also)) : runs = alsoRuns ∧ left = also := by
  generalize passing : Except.ok (ε := Fault) left = result at executes
  induction executes generalizing alsoRuns with
  | ended value =>
    cases passing
    cases alsoExecutes
    exact ⟨rfl, rfl⟩
  | passed ineligible _ ih =>
    cases alsoExecutes with
    | passed _ below => exact ih below passing
    | ran runs _ _ => exact absurd ((eligible _ _).mp runs) ineligible
  | ran runs gives _ ih =>
    cases alsoExecutes with
    | passed ineligible _ => exact absurd ((eligible _ _).mpr runs) ineligible
    | ran _ alsoGives below =>
      cases gives.unique context transaction alsoGives
      obtain ⟨sameRuns, sameLeft⟩ := ih below passing
      exact ⟨congrArg _ sameRuns, sameLeft⟩
  | failed _ _ => cases passing

end

/-! ## Inside a listed location -/

/-- Everything in the subject lies at or inside a location of a listed path. -/
def Subject.Listed (paths : List String) : Subject → Prop
  | record _ _ around => ∃ place ∈ around, place.path ∈ paths
  | locations list => ∀ item ∈ list, ∃ place ∈ item.1.place :: item.1.around, place.path ∈ paths

/-- Nothing in the subject lies inside a location of a listed path. -/
def Subject.Unlisted (paths : List String) : Subject → Prop
  | record _ _ around => ∀ place ∈ around, place.path ∉ paths
  | locations list => ∀ item ∈ list, ∀ place ∈ item.1.around, place.path ∉ paths

section
variable {setting : Setting} {catalog : Catalog} {paths : List String}

theorem Location.listed_inside {location : Location}
    (listed : ∃ place ∈ location.place :: location.around, place.path ∈ paths) (left : Value) :
    (location.inside left).Listed paths := by
  have behind (place : Place) : ∃ other ∈ place :: location.place :: location.around, other.path ∈ paths :=
    listed.imp fun _ found => ⟨List.mem_cons_of_mem _ found.1, found.2⟩
  unfold inside
  split
  · exact listed
  · intro item member
    obtain ⟨found, _, rfl⟩ := List.mem_map.mp member
    exact behind _
  · intro item member
    obtain ⟨found, _, rfl⟩ := List.mem_map.mp member
    exact behind _
  · exact List.forall_mem_nil _

theorem Location.unlisted_inside {location : Location}
    (unlisted : ∀ place ∈ location.place :: location.around, place.path ∉ paths) (left : Value) :
    (location.inside left).Unlisted paths := by
  unfold inside
  split
  · exact unlisted
  · intro item member
    obtain ⟨found, _, rfl⟩ := List.mem_map.mp member
    exact unlisted
  · intro item member
    obtain ⟨found, _, rfl⟩ := List.mem_map.mp member
    exact unlisted
  · exact List.forall_mem_nil _

theorem Location.covered_skipping {location : Location} (options : Options)
    (listed : ∃ place ∈ location.place :: location.around, place.path ∈ paths) :
    location.Covered (options.skipping paths) :=
  .inr (listed.imp fun _ found => ⟨found.1, List.mem_append_right _ found.2⟩)

theorem Location.covered_skipping_iff {location : Location} (options : Options)
    (unlisted : ∀ place ∈ location.place :: location.around, place.path ∉ paths) :
    location.Covered (options.skipping paths) ↔ location.Covered options := by
  refine or_congr_right ⟨?_, ?_⟩
  · rintro ⟨place, member, listed⟩
    exact ⟨place, member, (List.mem_append.mp listed).resolve_right (unlisted place member)⟩
  · rintro ⟨place, member, listed⟩
    exact ⟨place, member, List.mem_append_left _ listed⟩

/-- Inside a location of a listed path nothing runs, and the accounts are those of a run in which no rule runs. -/
theorem Accounts.of_listed {subject : Subject} {accounts : List Account}
    (derived : Accounts (setting.skipping paths) catalog subject accounts) (listed : subject.Listed paths) :
    Accounts setting.silenced catalog subject accounts ∧ ∀ entry scope, .ran entry scope ∉ eventsOf accounts := by
  induction derived with
  | @entered record place around metadata accounts within built _ ih =>
    obtain ⟨below, silent⟩ := ih fun item member => by
      obtain ⟨field, _, rfl⟩ := List.mem_map.mp member
      exact listed.imp fun _ found => ⟨List.mem_cons_of_mem _ found.1, found.2⟩
    exact ⟨.entered within built below, silent⟩
  | nothing => exact ⟨.nothing, fun _ _ => List.not_mem_nil⟩
  | omitted out _ ih =>
    obtain ⟨others, silent⟩ := ih fun item member => listed item (List.mem_cons_of_mem _ member)
    refine ⟨.omitted out others, fun entry scope => ?_⟩
    simp [eventsOf, Account.events, silent]
  | @passed location value left rest runs inner accounts here executes _ _ insideIh ih =>
    have listedHere := listed (location, value) List.mem_cons_self
    obtain ⟨others, silent⟩ := ih fun item member => listed item (List.mem_cons_of_mem _ member)
    obtain ⟨rfl, same⟩ := executes.of_covered (location.covered_skipping setting.options listedHere)
    cases same
    obtain ⟨inside, silentInside⟩ := insideIh (location.listed_inside listedHere _)
    have passes : Executes setting.silenced location location.rules value [] (.ok value) :=
      executes_of_covered (.inl rfl) _ _
    refine ⟨.passed here passes inside others, fun entry scope => ?_⟩
    simp [eventsOf, Account.events, silent, silentInside]

end

/-! ## Two runs -/

/-- The second accounts are the first but at listed paths: a location of such a path keeps the value found there, and
what is inside it is emitted as in a run in which no rule runs. -/
inductive Pruned (setting : Setting) (catalog : Catalog) (paths : List String) :
    List Account → List Account → Prop where
  | nil : Pruned setting catalog paths [] []
  | omitted (location : Location) (value : Value) {accounts others : List Account}
      (rest : Pruned setting catalog paths accounts others) :
      Pruned setting catalog paths (.omitted location value :: accounts) (.omitted location value :: others)
  | skipped {location : Location} {value left : Value} {runs : List (RuleEntry × Scope)}
      {inside inner accounts others : List Account} (listed : location.place.path ∈ paths)
      (plain : Accounts setting.silenced catalog (.locations [(location, value)])
        [.visited location value [] value inner])
      (silent : ∀ entry scope, .ran entry scope ∉ (Account.visited location value [] value inner).events)
      (rest : Pruned setting catalog paths accounts others) :
      Pruned setting catalog paths (.visited location value runs left inside :: accounts)
        (.visited location value [] value inner :: others)
  | kept {location : Location} {value left : Value} {runs : List (RuleEntry × Scope)}
      {inside inner accounts others : List Account} (unlisted : location.place.path ∉ paths)
      (below : Pruned setting catalog paths inside inner) (rest : Pruned setting catalog paths accounts others) :
      Pruned setting catalog paths (.visited location value runs left inside :: accounts)
        (.visited location value runs left inner :: others)

/-- Two passing runs over one subject, the second with more paths skipped, differ at locations of those paths alone. -/
theorem Accounts.pruned {setting : Setting} {catalog : Catalog} {paths : List String} {subject : Subject}
    {accounts others : List Account} (derived : Accounts setting catalog subject accounts)
    (alsoDerived : Accounts (setting.skipping paths) catalog subject others) (unlisted : subject.Unlisted paths) :
    Pruned setting catalog paths accounts others := by
  induction derived generalizing others with
  | @entered record place around metadata accounts _ built _ ih =>
    cases alsoDerived with
    | entered _ alsoBuilt below =>
      cases built.symm.trans alsoBuilt
      refine ih below fun item member => ?_
      obtain ⟨field, _, rfl⟩ := List.mem_map.mp member
      exact unlisted
  | nothing =>
    cases alsoDerived
    exact .nil
  | omitted out _ ih =>
    cases alsoDerived with
    | omitted _ below => exact .omitted _ _ (ih below fun item member => unlisted item (List.mem_cons_of_mem _ member))
    | passed here _ _ _ => exact absurd out here
  | @passed location value left rest runs inner accounts here executes _ _ insideIh ih =>
    have unlistedHere := unlisted (location, value) List.mem_cons_self
    cases alsoDerived with
    | omitted out _ => exact absurd out here
    | passed alsoHere alsoExecutes alsoInside below =>
      have rest := ih below fun item member => unlisted item (List.mem_cons_of_mem _ member)
      by_cases listed : location.place.path ∈ paths
      · have listedHere : ∃ place ∈ location.place :: location.around, place.path ∈ paths :=
          ⟨location.place, List.mem_cons_self, listed⟩
        obtain ⟨rfl, same⟩ := alsoExecutes.of_covered (location.covered_skipping setting.options listedHere)
        cases same
        obtain ⟨plain, silent⟩ := Accounts.of_listed (.passed alsoHere alsoExecutes alsoInside .nothing)
          (List.forall_mem_singleton.mpr listedHere)
        exact .skipped listed plain (fun entry scope ran => silent entry scope (List.mem_append_left _ ran)) rest
      · have apart : ∀ place ∈ location.place :: location.around, place.path ∉ paths :=
          List.forall_mem_cons.mpr ⟨listed, unlistedHere⟩
        have eligible (entry : RuleEntry) (value : Value) :
            Eligible (setting.skipping paths).options location entry value ↔
              Eligible setting.options location entry value := by
          have covered := location.covered_skipping_iff setting.options apart
          exact ⟨fun runs => ⟨runs.method, fun covers => runs.uncovered (covered.mpr covers), runs.present⟩,
            fun runs => ⟨runs.method, fun covers => runs.uncovered (covered.mp covers), runs.present⟩⟩
        have context : (setting.skipping paths).context = setting.context := rfl
        have transaction : (setting.skipping paths).options.transaction = setting.options.transaction := rfl
        obtain ⟨rfl, rfl⟩ := executes.unique context transaction eligible alsoExecutes
        exact .kept listed (insideIh alsoInside (location.unlisted_inside apart _)) rest

theorem Pruned.eq_of_none {setting : Setting} {catalog : Catalog} {accounts others : List Account}
    (pruned : Pruned setting catalog [] accounts others) : accounts = others := by
  induction pruned with
  | nil => rfl
  | omitted location value _ ih => rw [ih]
  | skipped listed _ _ _ _ => cases listed
  | kept _ _ _ below ih => rw [below, ih]

/-- What a passing run did is determined by what it set out from. -/
theorem Accounts.unique {setting : Setting} {catalog : Catalog} {subject : Subject} {accounts others : List Account}
    (derived : Accounts setting catalog subject accounts) (alsoDerived : Accounts setting catalog subject others) :
    accounts = others := by
  have same : setting.skipping [] = setting := by simp [Setting.skipping, Options.skipping]
  have unlisted : subject.Unlisted [] := by
    cases subject with
    | record _ _ around => exact fun _ _ => List.not_mem_nil
    | locations list => exact fun _ _ _ _ => List.not_mem_nil
  exact (derived.pruned (same.symm ▸ alsoDerived) unlisted).eq_of_none

/-! ## Documents that agree off spots -/

/-- The value without its parts: a sequence of so many items, a mapping with these keys, and anything else as it is. -/
def Value.top : Value → Value
  | .sequence items => .sequence (items.map fun _ => .null)
  | .mapping entries => .mapping (entries.map fun entry => (entry.1, .null))
  | other => other

/-- The values have the same parts, and the same at them, everywhere but at and below the spots. -/
def Value.AgreesOff (spots : List Segment → Prop) (a b : Value) : Prop :=
  ∀ way, (∀ spot, spots spot → ¬ spot <+: way) → (a.position? way).map Value.top = (b.position? way).map Value.top

/-- The way from what a location emits to what a visited location of a listed path emits inside it: an index leads to
the account of an item, and a key to one of its name. -/
inductive Account.Spot (paths : List String) : Account → List Segment → Prop where
  | here {location : Location} {value left : Value} {runs : List (RuleEntry × Scope)} {inside : List Account}
      (listed : location.place.path ∈ paths) : Spot paths (.visited location value runs left inside) []
  | item {location : Location} {value left : Value} {runs : List (RuleEntry × Scope)} {inside : List Account}
      {index : Nat} {account : Account} {way : List Segment} (held : inside[index]? = some account)
      (below : account.Spot paths way) : Spot paths (.visited location value runs left inside) (.index index :: way)
  | field {location : Location} {value left : Value} {runs : List (RuleEntry × Scope)} {inside : List Account}
      {account : Account} {way : List Segment} (member : account ∈ inside) (below : account.Spot paths way) :
      Spot paths (.visited location value runs left inside) (.key account.location.name :: way)

/-- The way from a document to what a visited location of a listed path emits in it. -/
def SpotIn (paths : List String) (accounts : List Account) (way : List Segment) : Prop :=
  ∃ account ∈ accounts, ∃ rest, account.Spot paths rest ∧ way = .key account.location.name :: rest

section
variable {spots : List Segment → Prop}

theorem Value.AgreesOff.mono {others : List Segment → Prop} {a b : Value} (agrees : a.AgreesOff spots b)
    (more : ∀ way, spots way → others way) : a.AgreesOff others b :=
  fun way apart => agrees way fun spot here => apart spot (more spot here)

/-- At and below a spot anything agrees. -/
theorem Value.agreesOff_of_here (here : spots []) (a b : Value) : a.AgreesOff spots b :=
  fun _ apart => absurd List.nil_prefix (apart [] here)

/-- Values that look the same agree if their parts do, each off the spots behind its segment. -/
theorem Value.agreesOff_of_parts {a b : Value} (looks : a.top = b.top)
    (parts : ∀ segment, Option.Rel (fun a b : Value => a.AgreesOff (fun way => spots (segment :: way)) b)
      (a.part? segment) (b.part? segment)) : a.AgreesOff spots b := by
  intro way apart
  cases way with
  | nil => exact congrArg some looks
  | cons segment rest =>
    have related := parts segment
    rw [Value.position?, Value.position?]
    generalize a.part? segment = part, b.part? segment = other at related
    cases related with
    | none => rfl
    | some agrees =>
      exact agrees rest fun way here below => apart _ here ((List.prefix_cons_inj segment).mpr below)

theorem Value.agreesOff_mapping {as bs : List (String × Value)}
    (entries : List.Forall₂ (fun a b : String × Value =>
      a.1 = b.1 ∧ a.2.AgreesOff (fun way => spots (.key a.1 :: way)) b.2) as bs) :
    (Value.mapping as).AgreesOff spots (.mapping bs) := by
  refine agreesOff_of_parts ?_ fun segment => ?_
  · have looks : ∀ entries : List (String × Value), (Value.mapping entries).top =
        .mapping ((Entries.keys entries).map fun key => (key, .null)) := by
      intro entries
      simp [top, Entries.keys]
    rw [looks, looks, Entries.keys_of_forall₂ entries]
  · cases segment with
    | key name =>
      exact Entries.get?_of_forall₂_keyed
        (fun name (a b : Value) => a.AgreesOff (fun way => spots (.key name :: way)) b) entries name
    | field _ => exact .none
    | index _ => exact .none

theorem Value.agreesOff_sequence {as bs : List Value} (length : as.length = bs.length)
    (items : ∀ index, Option.Rel (fun a b : Value => a.AgreesOff (fun way => spots (.index index :: way)) b)
      as[index]? bs[index]?) : (Value.sequence as).AgreesOff spots (.sequence bs) := by
  refine agreesOff_of_parts ?_ fun segment => ?_
  · simp [top, List.map_const', length]
  · cases segment with
    | index place => exact items place
    | field _ => exact .none
    | key _ => exact .none

/-! ## Accounts that agree off spots -/

variable {tombstones : Bool} {paths : List String}

/-- Accounts of one location, which emit the same off the spots of the first. -/
def Account.AgreesOff (tombstones : Bool) (paths : List String) (account other : Account) : Prop :=
  account.location = other.location ∧
    Option.Rel (Value.AgreesOff (account.Spot paths)) (account.emitted? tombstones) (other.emitted? tombstones)

theorem agreesOff_emittedFields {accounts others : List Account}
    (agree : List.Forall₂ (Account.AgreesOff tombstones paths) accounts others)
    (within : ∀ account ∈ accounts, ∀ way, account.Spot paths way → spots (.key account.location.name :: way)) :
    List.Forall₂ (fun a b : String × Value => a.1 = b.1 ∧ a.2.AgreesOff (fun way => spots (.key a.1 :: way)) b.2)
      (emittedFields tombstones accounts) (emittedFields tombstones others) := by
  induction agree with
  | nil => exact .nil
  | @cons account other _ _ first _ ih =>
    obtain ⟨here, below⟩ := List.forall_mem_cons.mp within
    obtain ⟨location, emitted⟩ := first
    rw [emittedFields, emittedFields, ← location]
    generalize account.emitted? tombstones = value, other.emitted? tombstones = also at emitted
    cases emitted with
    | none => exact ih below
    | some agrees => exact .cons ⟨rfl, agrees.mono here⟩ (ih below)

theorem agreesOff_emittedItems {accounts others : List Account}
    (agree : List.Forall₂ (Account.AgreesOff tombstones paths) accounts others)
    (within : ∀ index account, accounts[index]? = some account → ∀ way, account.Spot paths way →
      spots (.index index :: way)) :
    (Value.sequence (emittedItems tombstones accounts)).AgreesOff spots
      (.sequence (emittedItems tombstones others)) := by
  rw [emittedItems_eq_map, emittedItems_eq_map]
  refine Value.agreesOff_sequence (by simp [agree.length_eq]) fun index => ?_
  have related := forall₂_rel_getElem? agree index
  rw [List.getElem?_map, List.getElem?_map]
  cases held : accounts[index]? with
  | none =>
    rw [eq_none_of_rel_left related held]
    exact .none
  | some account =>
    obtain ⟨other, alsoHeld, -, emitted⟩ := exists_of_rel_left related held
    rw [alsoHeld]
    refine .some (Value.AgreesOff.mono ?_ (within index account held))
    dsimp only
    generalize account.emitted? tombstones = value, other.emitted? tombstones = also at emitted
    cases emitted with
    | none => exact fun _ _ => rfl
    | some agrees => exact agrees

/-- What a location emits agrees if what is emitted inside does. -/
theorem agreesOff_emits (location : Location) (left : Value) {inside inner : List Account}
    (agree : List.Forall₂ (Account.AgreesOff tombstones paths) inside inner)
    (fields : ∀ account ∈ inside, ∀ way, account.Spot paths way → spots (.key account.location.name :: way))
    (items : ∀ index account, inside[index]? = some account → ∀ way, account.Spot paths way →
      spots (.index index :: way)) :
    (location.emits left (emittedFields tombstones inside) (emittedItems tombstones inside)).AgreesOff spots
      (location.emits left (emittedFields tombstones inner) (emittedItems tombstones inner)) := by
  have entries := agreesOff_emittedFields agree fields
  unfold Location.emits
  split
  · exact Value.agreesOff_mapping (Entries.forall₂_ofList
      (fun name (a b : Value) => a.AgreesOff (fun way => spots (.key name :: way)) b) entries)
  · exact agreesOff_emittedItems agree items
  · exact Value.agreesOff_mapping entries
  · exact fun _ _ => rfl

/-- Pruned accounts emit the same off the spots. -/
theorem Pruned.agree {setting : Setting} {catalog : Catalog} {accounts others : List Account}
    (pruned : Pruned setting catalog paths accounts others) :
    List.Forall₂ (Account.AgreesOff tombstones paths) accounts others := by
  induction pruned with
  | nil => exact .nil
  | omitted location value _ ih =>
    refine .cons ⟨rfl, ?_⟩ ih
    show Option.Rel _ (if tombstones then _ else _) (if tombstones then _ else _)
    cases tombstones with
    | true => exact .some fun _ _ => rfl
    | false => exact .none
  | skipped listed _ _ _ ih => exact .cons ⟨rfl, .some (Value.agreesOff_of_here (.here listed) _ _)⟩ ih
  | kept _ _ _ below ih =>
    refine .cons ⟨rfl, .some ?_⟩ ih
    exact agreesOff_emits _ _ below (fun _ member _ spot => .field member spot) fun _ _ held _ spot => .item held spot

end

/-! ## Runs of an engine -/

/-- Two runs over a snapshot that passed, the second with more paths skipped, have accounts that differ at visited
locations of those paths alone, and documents that agree everywhere but at and below what those emit. -/
structure Run.PrunedBy (run other : Run Document) (setting : Setting) (catalog : Catalog) (snapshot : RecordValue)
    (paths : List String) (accounts others : List Account) : Prop where
  accounted : run.Accounted setting catalog snapshot accounts
  alsoAccounted : other.Accounted (setting.skipping paths) catalog snapshot others
  pruned : Pruned setting catalog paths accounts others
  documents : (Value.mapping (documentOf setting.options.tombstones accounts)).AgreesOff (SpotIn paths accounts)
    (.mapping (documentOf setting.options.tombstones others))

theorem Run.PrunedBy.of_accounted {run other : Run Document} {setting : Setting} {catalog : Catalog}
    {snapshot : RecordValue} {paths : List String} {accounts others : List Account}
    (accounted : run.Accounted setting catalog snapshot accounts)
    (alsoAccounted : other.Accounted (setting.skipping paths) catalog snapshot others) :
    run.PrunedBy other setting catalog snapshot paths accounts others := by
  have pruned := accounted.derived.pruned alsoAccounted.derived (List.forall_mem_nil _)
  refine ⟨accounted, alsoAccounted, pruned, Value.agreesOff_mapping (Entries.forall₂_ofList
    (fun name (a b : Value) => a.AgreesOff (fun way => SpotIn paths accounts (.key name :: way)) b) ?_)⟩
  exact agreesOff_emittedFields pruned.agree fun account member way spot => ⟨account, member, way, spot, rfl⟩

namespace Engine

/-- If a run passes with and without more paths skipped, of a record that may take the writes or of any snapshot, the
two differ only at and below the visited locations of those paths: there no rule runs in the second, and what it emits
for the value found is what a run without rules emits for it. At every other location both run the same rules in the
same order on the same scopes, and the documents agree. -/
theorem skipping_stays_below (engine : Engine) {first second : MetadataCache} (context : Context) (options : Options)
    (paths : List String) (faithful : first.Faithful engine.catalog engine.registry)
    (alsoFaithful : second.Faithful engine.catalog engine.registry) :
    (∀ record document other, (engine.validateMut first context options record).result = .ok document →
      (engine.validateMut second context (options.skipping paths) record).result = .ok other →
      ∃ accounts others, (engine.validateMut first context options record).PrunedBy
        (engine.validateMut second context (options.skipping paths) record) (engine.setting context options)
        engine.catalog (record.snapshot engine.catalog) paths accounts others) ∧
    ∀ snapshot document other, (engine.validateSnapshot first context options snapshot).result = .ok document →
      (engine.validateSnapshot second context (options.skipping paths) snapshot).result = .ok other →
      ∃ accounts others, (engine.validateSnapshot first context options snapshot).PrunedBy
        (engine.validateSnapshot second context (options.skipping paths) snapshot) (engine.setting context options)
        engine.catalog snapshot paths accounts others := by
  constructor
  · intro record document other ended alsoEnded
    obtain ⟨accounts, accounted⟩ := engine.exists_accounts context options (record.snapshot engine.catalog) faithful
      (writesBack_of_taken record) ended
    obtain ⟨others, alsoAccounted⟩ := engine.exists_accounts context (options.skipping paths)
      (record.snapshot engine.catalog) alsoFaithful (writesBack_of_taken record) alsoEnded
    exact ⟨accounts, others, .of_accounted accounted alsoAccounted⟩
  · intro snapshot document other ended alsoEnded
    cases writes : options.writesBack with
    | true => simp [validateSnapshot, writes] at ended
    | false =>
      have alsoReads : (options.skipping paths).writesBack = false := writes
      simp only [validateSnapshot, writes, alsoReads, Bool.false_eq_true, if_false] at ended alsoEnded ⊢
      obtain ⟨accounts, accounted⟩ := engine.exists_accounts context options snapshot faithful (by simp) ended
      obtain ⟨others, alsoAccounted⟩ := engine.exists_accounts context (options.skipping paths) snapshot alsoFaithful
        (by simp) alsoEnded
      exact ⟨accounts, others, .of_accounted accounted alsoAccounted⟩

/-- People with notes and an address, whose texts are all stamped. -/
def registering : Engine where
  catalog := ⟨[
    ⟨"Person", [⟨"name", "name,stamp", .string⟩, ⟨"notes", "notes,dive,stamp", .sequence .string⟩,
      ⟨"home", "home", .record ⟨1, "Address"⟩⟩]⟩,
    ⟨"Address", [⟨"street", "street,stamp", .string⟩]⟩]⟩
  registry := Registry.empty.putTransformation "stamp"
    ⟨fun _ _ scope => .ok (.string (scope.value.text?.getD "" ++ "!")), false⟩ false
  settings := ⟨3⟩

/-- One of them. -/
def resident : TypedRecord := ⟨⟨0, "Person"⟩, [.string "Ada", .sequence [.string "early", .string "late"],
  .record ⟨1, "Address"⟩ [.string "Mill Lane"]]⟩

/-- The texts of a person's document, one by one. -/
def textsOf (result : Except Fault Document) : List (Option String) :=
  [[.key "name"], [.key "notes", .index 0], [.key "notes", .index 1], [.key "home", .key "street"]].map fun way =>
    result.toOption.bind fun document => ((Value.mapping document).position? way).bind Value.text?

/-- Without stamps on the first note and at home, the other texts are stamped all the same. -/
theorem registering_skips_below :
    textsOf (registering.validateMut .empty {} {} resident).result =
      [some "Ada!", some "early!", some "late!", some "Mill Lane!"] ∧
    textsOf (registering.validateMut .empty {} (({} : Options).skipping ["notes[0]", "home"]) resident).result =
      [some "Ada!", some "early", some "late!", some "Mill Lane"] ∧
    ∃ accounts others, (registering.validateMut .empty {} {} resident).PrunedBy
      (registering.validateMut .empty {} (({} : Options).skipping ["notes[0]", "home"]) resident)
      (registering.setting {} {}) registering.catalog (resident.snapshot registering.catalog) ["notes[0]", "home"]
      accounts others := by
  have faithful : MetadataCache.empty.Faithful registering.catalog registering.registry :=
    MetadataCache.faithful_empty _ _
  have passes : (registering.validateMut .empty {} {} resident).result.isOk = true := by decide +kernel
  have alsoPasses : (registering.validateMut .empty {} (({} : Options).skipping ["notes[0]", "home"])
      resident).result.isOk = true := by decide +kernel
  refine ⟨by decide +kernel, by decide +kernel, ?_⟩
  cases ended : (registering.validateMut .empty {} {} resident).result with
  | error fault => rw [ended] at passes; cases passes
  | ok document =>
    cases alsoEnded : (registering.validateMut .empty {} (({} : Options).skipping ["notes[0]", "home"])
        resident).result with
    | error fault => rw [alsoEnded] at alsoPasses; cases alsoPasses
    | ok other =>
      exact (skipping_stays_below registering {} {} ["notes[0]", "home"] faithful faithful).1 resident document other
        ended alsoEnded

end Engine

end TaggedRecords
