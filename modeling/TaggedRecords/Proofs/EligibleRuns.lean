import TaggedRecords.Proofs.ChainWrites
import TaggedRecords.Proofs.VisitRuns

/-!
# Eligible rules, once and in order

No place is visited twice, as the fields, the items and the entries at one place have segments of their own. So a run
executes the eligible rules of every location once, in the order of the traversal.
-/

namespace TaggedRecords

/-! ## Proper values on the way -/

/-- What the location hands on is proper if its value is. -/
structure Location.Proper (location : Location) : Prop where
  owner : EntriesProper location.owner.fields
  rules : ∀ entry ∈ location.rules, entry.Proper
  elementRules : ∀ dive, location.dive = some dive → ∀ entry ∈ dive.rules, entry.Proper

/-- All values to visit are proper, and the rules on the way keep that. -/
def Subject.Proper : Subject → Prop
  | record snapshot _ _ => EntriesProper snapshot.fields
  | locations list => ∀ item ∈ list, item.1.Proper ∧ item.2.Proper

section
variable {setting : Setting} {catalog : Catalog}

theorem Executes.proper {location : Location} {entries : List RuleEntry} {value left : Value}
    {runs : List (RuleEntry × Scope)} (owner : EntriesProper location.owner.fields)
    (rules : ∀ entry ∈ entries, entry.Proper) (proper : value.Proper)
    (executes : Executes setting location entries value runs (.ok left)) : left.Proper := by
  generalize ending : Except.ok (ε := Fault) left = result at executes
  induction executes with
  | ended value =>
    cases ending
    exact proper
  | passed _ _ ih => exact ih (fun entry member => rules entry (List.mem_cons_of_mem _ member)) proper ending
  | @ran entry rest value next runs result _ gives _ ih =>
    refine ih (fun entry member => rules entry (List.mem_cons_of_mem _ member)) ?_ ending
    cases gives with
    | accepted _ _ => exact proper
    | kept _ _ _ _ => exact proper
    | changed action answer _ _ =>
      exact rules entry List.mem_cons_self _ action _ _ _ next ⟨owner, proper⟩ answer
  | failed _ _ => cases ending

theorem Location.proper_inside {location : Location} (proper : location.Proper) {left : Value}
    (properLeft : left.Proper) : (location.inside left).Proper := by
  have element (dive : Dive) (dives : location.dive = some dive) (place : Place) (name : String) :
      (location.element dive place name).Proper := ⟨proper.owner, proper.elementRules dive dives, nofun⟩
  unfold inside
  split
  · exact properLeft
  · next items dive dives =>
    intro item member
    obtain ⟨⟨value, index⟩, here, rfl⟩ := List.mem_map.mp member
    exact ⟨element dive dives _ _, itemsProper_iff.mp properLeft value (List.fst_mem_of_mem_zipIdx here)⟩
  · next entries dive dives =>
    intro item member
    obtain ⟨entry, here, rfl⟩ := List.mem_map.mp member
    exact ⟨element dive dives _ _, entriesProper_iff.mp properLeft.2 entry here⟩
  · exact nofun

theorem proper_locations {registry : Registry} (proper : registry.Proper) {metadata : RecordMetadata}
    {record : RecordValue} (built : RecordMetadata.build catalog registry record.type = .ok metadata)
    (properRecord : EntriesProper record.fields) (place : Place) (around : List Place) :
    (Subject.locations (metadata.locations record place around)).Proper := by
  intro item member
  obtain ⟨field, here, rfl⟩ := List.mem_map.mp member
  obtain ⟨decl, -, describes⟩ := (describes_of_build built).1 field here
  refine ⟨⟨properRecord, proper_of_registered proper describes.rules, fun dive dives => ?_⟩, ?_⟩
  · rw [(FieldMetadata.dive?_eq_some dives).2]
    exact proper_of_registered proper describes.elementRules
  · cases held : record.fields[field.index]? with
    | none => simp [RecordValue.at?, held, Value.Proper]
    | some entry =>
      have proper := entriesProper_iff.mp properRecord entry (List.mem_of_getElem? held)
      simpa [RecordValue.at?, held] using proper

end

/-! ## Distinct places -/

/-- The place of the location that the step comes to. -/
def Step.visited? : Step → Option Place
  | enter _ _ => none
  | leave location _ => some location.place
  | visit location _ _ => some location.place

/-- The steps come to places behind the base, at first by one of the heads, and to none twice. -/
structure Apart (base : List Segment) (heads : Segment → Prop) (steps : List Step) : Prop where
  behind : ∀ place ∈ steps.filterMap Step.visited?, ∃ head more, heads head ∧ place.segments = base ++ head :: more
  distinct : (steps.filterMap Step.visited?).Pairwise fun a b => a.segments ≠ b.segments

theorem Apart.nil (base : List Segment) (heads : Segment → Prop) : Apart base heads [] := ⟨nofun, .nil⟩

theorem Apart.mono {base : List Segment} {heads others : Segment → Prop} {steps : List Step}
    (apart : Apart base heads steps) (wider : ∀ head, heads head → others head) : Apart base others steps := by
  refine ⟨fun place member => ?_, apart.distinct⟩
  obtain ⟨head, more, allowed, same⟩ := apart.behind place member
  exact ⟨head, more, wider head allowed, same⟩

/-- A step at one head, the steps behind it, and steps at other heads. -/
theorem Apart.cons {base : List Segment} {head : Segment} {heads : List Segment} {step : Step} {place : Place}
    {steps more : List Step} (visits : step.visited? = some place) (here : place.segments = base ++ [head])
    (fresh : head ∉ heads) (inside : Apart place.segments (fun _ => True) steps) (rest : Apart base (· ∈ heads) more) :
    Apart base (· ∈ head :: heads) (step :: (steps ++ more)) := by
  have elsewhere : ∀ other ∈ more.filterMap Step.visited?, ∀ tail, base ++ head :: tail ≠ other.segments := by
    intro other member tail same
    obtain ⟨first, _, known, segments⟩ := rest.behind other member
    rw [segments] at same
    cases (List.append_cancel_left same)
    exact fresh known
  have below : ∀ other ∈ steps.filterMap Step.visited?, ∃ segment tail,
      other.segments = base ++ head :: segment :: tail := by
    intro other member
    obtain ⟨segment, tail, -, segments⟩ := inside.behind other member
    exact ⟨segment, tail, by simp [segments, here]⟩
  constructor
  · intro other member
    simp only [List.filterMap_cons_some visits, List.filterMap_append, List.mem_cons, List.mem_append] at member
    rcases member with rfl | member | member
    · exact ⟨head, [], List.mem_cons_self, here⟩
    · obtain ⟨segment, tail, segments⟩ := below other member
      exact ⟨head, _, List.mem_cons_self, segments⟩
    · obtain ⟨first, tail, known, segments⟩ := rest.behind other member
      exact ⟨first, tail, List.mem_cons_of_mem _ known, segments⟩
  · rw [List.filterMap_cons_some visits, List.filterMap_append, List.pairwise_cons, List.pairwise_append]
    refine ⟨fun other member => ?_, inside.distinct, rest.distinct, fun first member other others => ?_⟩
    · rcases List.mem_append.mp member with member | member
      · obtain ⟨segment, tail, segments⟩ := below other member
        simp [segments, here]
      · rw [here]
        exact elsewhere other member []
    · obtain ⟨segment, tail, segments⟩ := below first member
      rw [segments]
      exact elsewhere other others _

/-- The steps come to places of their own, whatever heads the locations have at one base. -/
def Subject.Spreads (steps : List Step) : Subject → Prop
  | record _ place _ => Apart place.segments (fun _ => True) steps
  | locations list => ∀ base (heads : List Segment), heads.Nodup →
      list.map (fun item => item.1.place.segments) = heads.map (fun head => base ++ [head]) →
      Apart base (· ∈ heads) steps

theorem Subject.spreads_nil (list : List (Location × Value)) : (Subject.locations list).Spreads [] :=
  fun base _ _ _ => .nil base _

/-- A step at the first location, the steps behind it, and steps at the locations that follow. -/
theorem Subject.spreads_cons {location : Location} {value : Value} {rest : List (Location × Value)} {step : Step}
    {steps more : List Step} (visits : step.visited? = some location.place)
    (inside : Apart location.place.segments (fun _ => True) steps) (spreads : (Subject.locations rest).Spreads more) :
    (Subject.locations ((location, value) :: rest)).Spreads (step :: (steps ++ more)) := by
  intro base heads nodup shape
  cases heads with
  | nil => cases shape
  | cons head heads =>
    obtain ⟨here, below⟩ := List.cons.inj shape
    obtain ⟨fresh, nodup⟩ := List.nodup_cons.mp nodup
    exact Apart.cons visits here fresh inside (spreads base heads nodup below)

/-- What is inside a location lies at distinct places behind its own. -/
theorem Location.apart_inside {location : Location} {left : Value} {steps : List Step} (proper : left.Proper)
    (spreads : (location.inside left).Spreads steps) : Apart location.place.segments (fun _ => True) steps := by
  unfold inside at spreads
  split at spreads
  · exact spreads
  · next items dive _ =>
    have indices : (items.zipIdx.map Prod.snd).Nodup := by
      rw [List.zipIdx_map_snd]
      exact List.nodup_range'
    refine (spreads location.place.segments ((items.zipIdx.map Prod.snd).map .index) ?_ ?_).mono fun _ _ => trivial
    · exact indices.map fun a b same => by cases same; rfl
    · simp only [List.map_map]
      rfl
  · next entries dive _ =>
    refine (spreads location.place.segments ((Entries.keys entries).map .key) ?_ ?_).mono fun _ _ => trivial
    · exact proper.1.map fun a b same => by cases same; rfl
    · simp [element, Place.entry, Entries.keys]
  · exact (spreads _ [] List.nodup_nil rfl).mono fun _ _ => trivial

/-- No place is visited twice. -/
theorem Walks.spreads {setting : Setting} {catalog : Catalog} {subject : Subject} {steps : List Step}
    {fault? : Option Fault} (proper : setting.registry.Proper) (properSubject : subject.Proper)
    (walks : Walks setting catalog subject steps fault?) : subject.Spreads steps := by
  induction walks with
  | tooDeep _ => exact ⟨nofun, .nil⟩
  | faulty _ _ => exact ⟨nofun, .nil⟩
  | @entered record place around metadata steps fault? _ built _ _ ih =>
    have spreads := ih (proper_locations proper built properSubject place around)
    have nodup : (metadata.fields.map fun field => Segment.field field.index).Nodup := by
      have indices := (describes_of_build built).2.map (f := Segment.field) fun a b same => by cases same; rfl
      rwa [List.map_map] at indices
    obtain ⟨behind, distinct⟩ := spreads place.segments _ nodup (by
      simp [RecordMetadata.locations, Location.ofField, Place.field])
    exact ⟨fun other member => (behind other member).imp fun _ found => found.imp fun _ held => ⟨trivial, held.2⟩,
      distinct⟩
  | nothing => exact Subject.spreads_nil []
  | omitted _ _ ih =>
    exact Subject.spreads_cons rfl (.nil _ _) (ih fun item member => properSubject item (List.mem_cons_of_mem _ member))
  | failed _ _ => exact Subject.spreads_cons rfl (.nil _ _) (Subject.spreads_nil _)
  | @stopped location value left rest runs steps fault _ executes _ ih =>
    obtain ⟨properLocation, properValue⟩ := properSubject (location, value) List.mem_cons_self
    have properLeft := executes.proper properLocation.owner properLocation.rules properValue
    have inside := Location.apart_inside properLeft (ih (Location.proper_inside properLocation properLeft))
    rw [← List.append_nil steps]
    exact Subject.spreads_cons rfl inside (Subject.spreads_nil rest)
  | @passed location value left rest runs steps more fault? _ executes _ _ insideIh ih =>
    obtain ⟨properLocation, properValue⟩ := properSubject (location, value) List.mem_cons_self
    have properLeft := executes.proper properLocation.owner properLocation.rules properValue
    have inside := Location.apart_inside properLeft (insideIh (Location.proper_inside properLocation properLeft))
    exact Subject.spreads_cons rfl inside
      (ih fun item member => properSubject item (List.mem_cons_of_mem _ member))

/-! ## Runs of an engine -/

namespace Engine

/-- A run comes to the locations of the record in order, to none twice, and at each it runs the entries that are
eligible when their turn comes and no others; one that fails ends with the step that raises the fault. A run that
never writes is the same, and one that would have to is refused before it starts. -/
theorem validateMut_runs_eligible (engine : Engine) {cache : MetadataCache} (context : Context) (options : Options)
    (record : TypedRecord) (faithful : cache.Faithful engine.catalog engine.registry) :
    (∃ steps, Walks (engine.setting context options) engine.catalog
        (.record (record.snapshot engine.catalog) .root []) steps
        (faultOf? (engine.validateMut cache context options record).result) ∧
      (engine.validateMut cache context options record).events = steps.flatMap Step.events ∧
      (∀ fault, (engine.validateMut cache context options record).result = .error fault →
        ∃ before last, steps = before ++ [last] ∧ last.Raises (engine.setting context options) engine.catalog fault) ∧
      (record.Fits engine.catalog → engine.registry.Proper →
        (steps.filterMap Step.visited?).Pairwise fun a b => a.segments ≠ b.segments)) ∧
    (options.writesBack = false →
      engine.validate cache context options record = engine.validateMut cache context options record) ∧
    (options.writesBack = true → (engine.validate cache context options record).result = .error .readOnly ∧
      (engine.validate cache context options record).events = []) := by
  obtain ⟨steps, walks, events, -⟩ := engine.walks_of_run context options (record.snapshot engine.catalog) faithful
    (writesBack_of_taken record)
  refine ⟨⟨steps, walks, events, fun fault failed => ?_, fun fits proper => ?_⟩,
    validate_eq_validateMut engine cache context record, fun writes => ?_⟩
  · have ending : faultOf? (engine.validateMut cache context options record).result = some fault := by
      rw [failed]
      rfl
    exact Walks.last_raises (ending ▸ walks)
  · have snapshot : (Subject.record (record.snapshot engine.catalog) .root []).Proper := proper_snapshotFields fits
    exact (walks.spreads proper snapshot).distinct
  · simp [validate, validateSnapshot, writes]

/-- Signups with a name, short tags and perhaps a short note. -/
def signing : Engine where
  catalog := ⟨[⟨"Signup", [⟨"name", "name,required", .string⟩, ⟨"tags", "tags,dive,max=3", .sequence .string⟩,
    ⟨"note", "note,max=3", .string⟩]⟩]⟩
  registry := Registry.withBuiltIns
  settings := ⟨3⟩

/-- One whose second tag is too long. -/
def signup : TypedRecord := ⟨⟨0, "Signup"⟩, [.string "Ada", .sequence [.string "one", .string "three"], .string ""]⟩

theorem proper_onText (change : String → String) : (BuiltIns.onText change).Proper := by
  intro context transaction scope value proper given
  simp only [BuiltIns.onText] at given
  split at given
  · cases given
    trivial
  · cases given
    exact proper.2

theorem proper_withBuiltIns : Registry.withBuiltIns.Proper := by
  have changes : ∀ entry ∈ BuiltIns.transformations, entry.2.Proper := by
    simp [BuiltIns.transformations, proper_onText]
  have validated : (BuiltIns.validations.foldl (fun made entry => made.putValidation entry.1 entry.2 true)
      Registry.empty).Proper :=
    List.foldlRecOn _ _ proper_empty fun _ proper entry _ => proper_putValidation proper entry.1 entry.2 true
  exact List.foldlRecOn _ _ validated fun _ proper entry member =>
    proper_putTransformation proper entry.1 (changes entry member) true

/-- The rules of the example run where they are eligible, up to the one that fails. -/
theorem signing_runs_eligible :
    ((signing.validateMut .empty {} {} signup).events.filterMap fun event =>
      match event with
      | .ran entry scope => some (entry.name, scope.path)
      | .reached _ _ => none) = [("required", "name"), ("max", "tags[0]"), ("max", "tags[1]")] ∧
    ∃ steps, Walks (signing.setting {} {}) signing.catalog (.record (signup.snapshot signing.catalog) .root []) steps
        (faultOf? (signing.validateMut .empty {} {} signup).result) ∧
      (signing.validateMut .empty {} {} signup).events = steps.flatMap Step.events ∧
      (steps.filterMap Step.visited?).Pairwise fun a b => a.segments ≠ b.segments := by
  have fits : signup.Fits signing.catalog := by
    simp [signup, TypedRecord.Fits, signing, Catalog.fields, FieldsFit, FieldDecl.isHidden, FieldDecl.descriptor,
      FieldType.descriptor, Descriptor.unsupportedKind?, Data.Fits, FieldType.unboxed, ItemsFit]
  obtain ⟨⟨steps, walks, events, -, distinct⟩, -⟩ := validateMut_runs_eligible signing {} {} signup
    (MetadataCache.faithful_empty _ _)
  exact ⟨by decide +kernel, steps, walks, events, distinct fits proper_withBuiltIns⟩

end Engine

end TaggedRecords
