import TaggedRecords.Proofs.BuildFaults
import TaggedRecords.Proofs.LegalValues
import TaggedRecords.Proofs.SkippedPaths

/-!
# Runs without rules

A run with all rules switched off only enters records and lays out what it finds. Rules that never change a value can
but end a run: if it passes, it comes to the document of the run without them.
-/

namespace TaggedRecords

/-- The options with all rules switched off. -/
def Options.silenced (options : Options) : Options := { options with skipAll := true }

/-! ## Rules that keep values -/

/-- A record of the type stands somewhere in the value. -/
inductive Value.Holds (type : RecordType) : Value → Prop where
  | here (fields : List (String × Value)) : Holds type (.record type fields)
  | field {other : RecordType} {fields : List (String × Value)} {field : String × Value} (member : field ∈ fields)
      (below : Holds type field.2) : Holds type (.record other fields)
  | item {items : List Value} {item : Value} (member : item ∈ items) (below : Holds type item) :
      Holds type (.sequence items)
  | entry {entries : List (String × Value)} {entry : String × Value} (member : entry ∈ entries)
      (below : Holds type entry.2) : Holds type (.mapping entries)

/-- Whenever the transformation returns a value, it is the one that it was given. -/
def Transformation.Keeps (rule : Transformation) : Prop :=
  ∀ context transaction scope value, rule.apply context transaction scope = .ok value →
    value = scope.value ∨ value.same scope.value = true

/-- No transformation among the entries changes a value. -/
def KeepValues (entries : List RuleEntry) : Prop :=
  ∀ entry ∈ entries, ∀ rule, entry.action = .transform rule → rule.Keeps

/-- No transformation bound to the field or to its elements changes a value. -/
def FieldMetadata.KeepsValues (field : FieldMetadata) : Prop :=
  KeepValues field.rules ∧ KeepValues field.elementRules

/-- So it is if no registered transformation does. -/
theorem FieldMetadata.keepsValues_of_registered {catalog : Catalog} {registry : Registry} {root : RecordType}
    {field : FieldMetadata} (keep : ∀ name rule, registry.transformation? name = some rule → rule.Keeps)
    (declared : catalog.Declares registry root field) : field.KeepsValues := by
  obtain ⟨owner, metadata, -, built, member⟩ := declared
  obtain ⟨decl, -, describes⟩ := (describes_of_build built).1 field member
  have bound {entries : List RuleEntry} (registered : ∀ entry ∈ entries, entry.action.Registered registry) :
      KeepValues entries := by
    intro entry among rule transforms
    have found := registered entry among
    rw [transforms] at found
    obtain ⟨name, held⟩ := found
    exact keep name rule held
  exact ⟨bound describes.rules, bound describes.elementRules⟩

/-- No transformation bound to a field of a record that stands in the value changes a value. -/
def Value.Calm (catalog : Catalog) (registry : Registry) (value : Value) : Prop :=
  ∀ type metadata, value.Holds type → RecordMetadata.build catalog registry type = .ok metadata →
    ∀ field ∈ metadata.fields, field.KeepsValues

/-- No transformation that runs at the location or at its elements changes a value. -/
def Location.KeepsValues (location : Location) : Prop :=
  KeepValues location.rules ∧ ∀ dive, location.dive = some dive → KeepValues dive.rules

/-- Whatever there is to visit, no transformation bound there changes a value. -/
def Subject.Calm (catalog : Catalog) (registry : Registry) : Subject → Prop
  | record snapshot _ _ => snapshot.toValue.Calm catalog registry
  | locations list => ∀ item ∈ list, item.1.KeepsValues ∧ item.2.Calm catalog registry

section
variable {setting : Setting} {catalog : Catalog} {location : Location}

/-- A chain whose rules keep values leaves the value that it found. -/
theorem Executes.left_eq {entries : List RuleEntry} {value left : Value} {runs : List (RuleEntry × Scope)}
    (executes : Executes setting location entries value runs (.ok left)) (keeps : KeepValues entries) :
    left = value := by
  generalize passing : Except.ok (ε := Fault) left = result at executes
  induction executes with
  | ended value =>
    cases passing
    rfl
  | passed _ _ ih => exact ih (fun entry member => keeps entry (List.mem_cons_of_mem _ member)) passing
  | @ran entry rest value next runs result _ gives _ ih =>
    have same : next = value := by
      rcases gives.cases_ok with ⟨_, _, same⟩ | ⟨rule, given, action, answer, rfl⟩
      · exact same
      · rcases keeps entry List.mem_cons_self rule action _ _ _ _ answer with same | same
        · rw [same]
          exact ite_self _
        · exact if_pos same
    rw [← same]
    exact ih (fun entry member => keeps entry (List.mem_cons_of_mem _ member)) passing
  | failed _ _ => cases passing

theorem Value.Calm.part {registry : Registry} {value part : Value} (calm : value.Calm catalog registry)
    (within : ∀ type, part.Holds type → value.Holds type) : part.Calm catalog registry :=
  fun type metadata held => calm type metadata (within type held)

/-- The fields of a record are calm if the record is. -/
theorem RecordMetadata.calm_locations {record : RecordValue} {metadata : RecordMetadata}
    (calm : record.toValue.Calm catalog setting.registry)
    (built : RecordMetadata.build catalog setting.registry record.type = .ok metadata) (place : Place)
    (around : List Place) :
    (Subject.locations (metadata.locations record place around)).Calm catalog setting.registry := by
  intro item member
  obtain ⟨field, among, rfl⟩ := List.mem_map.mp member
  obtain ⟨rules, elementRules⟩ := calm record.type metadata (.here record.fields) built field among
  refine ⟨⟨rules, fun dive dives => ?_⟩, calm.part fun type held => ?_⟩
  · exact (FieldMetadata.dive?_eq_some dives).2 ▸ elementRules
  · cases found : record.fields[field.index]? with
    | none =>
      simp only [RecordValue.at?, found, Option.map_none, Option.getD_none] at held
      cases held
    | some entry =>
      simp only [RecordValue.at?, found, Option.map_some, Option.getD_some] at held
      exact .field (List.mem_of_getElem? found) held

/-- So is what is inside a location that keeps its value. -/
theorem Location.calm_inside {registry : Registry} {value : Value} (keeps : location.KeepsValues)
    (calm : value.Calm catalog registry) : (location.inside value).Calm catalog registry := by
  unfold inside
  split
  · exact calm
  · next items dive dives =>
    intro item member
    obtain ⟨found, among, rfl⟩ := List.mem_map.mp member
    refine ⟨⟨keeps.2 dive dives, nofun⟩, calm.part fun type held => .item ?_ held⟩
    exact List.fst_mem_of_mem_zipIdx among
  · next entries dive dives =>
    intro item member
    obtain ⟨found, among, rfl⟩ := List.mem_map.mp member
    exact ⟨⟨keeps.2 dive dives, nofun⟩, calm.part fun type held => .entry among held⟩
  · exact List.forall_mem_nil _

end

/-! ## Accounts without rules -/

mutual

/-- The account of the same location in a run without rules. -/
def Account.silenced : Account → Account
  | .omitted location value => .omitted location value
  | .visited location value _ left inside => .visited location value [] left (silencedEach inside)

/-- The accounts of the same locations in a run without rules. -/
def silencedEach : List Account → List Account
  | [] => []
  | account :: rest => account.silenced :: silencedEach rest

end

mutual

/-- Which rules ran makes no difference to what is emitted for the value that they left. -/
theorem Account.emitted?_silenced (tombstones : Bool) :
    ∀ account : Account, account.silenced.emitted? tombstones = account.emitted? tombstones
  | .omitted _ _ => rfl
  | .visited location value runs left inside => by
    rw [Account.silenced, Account.emitted?, Account.emitted?, emittedFields_silencedEach, emittedItems_silencedEach]

theorem emittedFields_silencedEach (tombstones : Bool) :
    ∀ accounts : List Account, emittedFields tombstones (silencedEach accounts) = emittedFields tombstones accounts
  | [] => rfl
  | account :: rest => by
    have name : account.silenced.location = account.location := by cases account <;> rfl
    rw [silencedEach, emittedFields, emittedFields, account.emitted?_silenced tombstones, name,
      emittedFields_silencedEach tombstones rest]

theorem emittedItems_silencedEach (tombstones : Bool) :
    ∀ accounts : List Account, emittedItems tombstones (silencedEach accounts) = emittedItems tombstones accounts
  | [] => rfl
  | account :: rest => by
    rw [silencedEach, emittedItems, emittedItems, account.emitted?_silenced tombstones,
      emittedItems_silencedEach tombstones rest]

end

section
variable {setting : Setting} {catalog : Catalog} {subject : Subject} {accounts : List Account}

/-- Where rules keep values, a run without them passes the same locations with the same values. -/
theorem Accounts.silenced (derived : Accounts setting catalog subject accounts)
    (calm : subject.Calm catalog setting.registry) :
    Accounts setting.silenced catalog subject (silencedEach accounts) := by
  induction derived with
  | entered within built _ ih => exact .entered within built (ih (RecordMetadata.calm_locations calm built _ _))
  | nothing => exact .nothing
  | omitted out _ ih => exact .omitted out (ih fun item member => calm item (List.mem_cons_of_mem _ member))
  | @passed location value left rest runs inner accounts here executes _ _ insideIh ih =>
    obtain ⟨keeps, calmHere⟩ := calm (location, value) List.mem_cons_self
    obtain rfl := executes.left_eq keeps.1
    have passes : Executes setting.silenced location location.rules left [] (.ok left) :=
      executes_of_covered (.inl rfl) _ _
    exact .passed here passes (insideIh (location.calm_inside keeps calmHere))
      (ih fun item member => calm item (List.mem_cons_of_mem _ member))

/-- Without rules there is one way through a subject, so that a run passes if there are accounts of one that does. -/
theorem Accounts.passes (derived : Accounts setting.silenced catalog subject accounts) {steps : List Step}
    {fault? : Option Fault} (walks : Walks setting.silenced catalog subject steps fault?) : fault? = none := by
  induction derived generalizing steps fault? with
  | entered within built _ ih =>
    cases walks with
    | tooDeep deep => exact absurd within (Nat.not_le.mpr deep)
    | faulty _ failed => cases built.symm.trans failed
    | entered _ alsoBuilt _ below =>
      cases built.symm.trans alsoBuilt
      exact ih below
  | nothing =>
    cases walks
    rfl
  | omitted out _ ih =>
    cases walks with
    | omitted _ others => exact ih others
    | failed here _ => exact absurd out here
    | stopped here _ _ => exact absurd out here
    | passed here _ _ _ => exact absurd out here
  | passed here executes _ _ insideIh ih =>
    obtain ⟨rfl, same⟩ := executes.of_covered (.inl rfl)
    cases same
    cases walks with
    | omitted out _ => exact absurd out here
    | failed _ alsoExecutes => cases (alsoExecutes.of_covered (.inl rfl)).2
    | stopped _ alsoExecutes inside =>
      cases (alsoExecutes.of_covered (.inl rfl)).2
      exact insideIh inside
    | passed _ _ _ others => exact ih others

end

/-! ## Records in typed content -/

/-- A container leads to the types of records that its elements do. -/
theorem FieldType.exists_element {catalog : Catalog} {root : RecordType} {type : FieldType} {element : Descriptor}
    (shape : type.descriptor.dereferenced = .sequence element ∨ type.descriptor.dereferenced = .mapping element)
    (reaches : ∀ recordType, type.core = .record recordType → catalog.Reaches root recordType) :
    ∃ elementType : FieldType, elementType.descriptor = element ∧
      ∀ recordType, elementType.core = .record recordType → catalog.Reaches root recordType := by
  have found := Descriptor.element?_of_dereferenced shape
  rw [type.descriptor_element?] at found
  obtain ⟨elementType, isElement, descriptor⟩ := Option.map_eq_some_iff.mp found
  exact ⟨elementType, descriptor, fun recordType core =>
    reaches recordType (by rw [← FieldType.core_of_element? isElement, core])⟩

/-- The types of records that stand in a legal value are those that its shape leads to. -/
theorem Value.Holds.reaches {catalog : Catalog} {root type : RecordType} {value : Value} (held : value.Holds type)
    {fieldType : FieldType} (legal : value.Legal catalog fieldType.descriptor)
    (reaches : ∀ recordType, fieldType.core = .record recordType → catalog.Reaches root recordType) :
    catalog.Reaches root type := by
  induction held generalizing fieldType with
  | here fields => exact reaches type (FieldType.core_of_dereferenced legal.1)
  | @field other fields field member below ih =>
    have reached := reaches other (FieldType.core_of_dereferenced legal.1)
    rcases legal.2.of_mem member with absent | ⟨decl, declared, inside⟩
    · rw [absent] at below
      cases below
    · exact ih inside fun recordType core => .field reached declared core
  | item member _ ih =>
    obtain ⟨element, shape, legal⟩ := legal
    obtain ⟨elementType, rfl, reaches⟩ := FieldType.exists_element (.inl shape) reaches
    exact ih (itemsLegal_iff.mp legal _ member) reaches
  | entry member _ ih =>
    obtain ⟨element, shape, legal⟩ := legal
    obtain ⟨elementType, rfl, reaches⟩ := FieldType.exists_element (.inr shape) reaches
    exact ih (entriesLegal_iff.mp legal _ member) reaches

/-- A record whose type leads only to fields that keep values is calm. -/
theorem TypedRecord.calm_snapshot {catalog : Catalog} {registry : Registry} {record : TypedRecord}
    (fits : record.Fits catalog)
    (keeps : ∀ field, catalog.Declares registry record.type field → field.KeepsValues) :
    (record.snapshot catalog).toValue.Calm catalog registry := by
  intro type metadata held built field member
  have typed : record.toData.Fits catalog (.record record.type) := ⟨rfl, fits⟩
  have legal : (record.snapshot catalog).toValue.Legal catalog (FieldType.record record.type).descriptor :=
    Data.legal_snapshot typed
  have reached : catalog.Reaches record.type type := held.reaches legal fun recordType core => by
    cases core
    exact .root
  exact keeps field ⟨type, metadata, reached, built, member⟩

/-! ## Runs of an engine -/

/-- The run did nothing but enter records and lay out what it found, if this record took the writes. -/
structure Run.Silent (run : Run Document) (limit : Nat) (taken : Option TypedRecord) : Prop where
  silent : ∀ entry scope, .ran entry scope ∉ run.events
  kept : run.record = taken
  /-- It fails only where a record lies too deep or its declarations are faulty. -/
  faults : ∀ fault, run.result = .error fault → (∃ path, fault = .depthExceeded path limit) ∨
    (∃ record field kind, fault = .unsupportedFieldType record field kind) ∨
    ∃ record field rule, fault = .unknownRule record field rule

theorem Fault.cases_of_isBuildFault {fault : Fault} (build : fault.isBuildFault = true) :
    (∃ record field kind, fault = .unsupportedFieldType record field kind) ∨
      ∃ record field rule, fault = .unknownRule record field rule := by
  cases fault with
  | unsupportedFieldType record field kind => exact .inl ⟨record, field, kind, rfl⟩
  | unknownRule record field rule => exact .inr ⟨record, field, rule, rfl⟩
  | _ => cases build

namespace Engine
variable (engine : Engine) {cache other : MetadataCache} (context : Context) (options : Options)

theorem silent_run (snapshot : RecordValue) {taken : Option TypedRecord}
    (faithful : cache.Faithful engine.catalog engine.registry) (may : taken.isSome = true → options.writesBack = true) :
    ((engine.plan context options.silenced snapshot).run engine.catalog engine.registry cache taken).Silent
      engine.settings.maxDepth taken := by
  obtain ⟨steps, walks, events, -⟩ := engine.walks_of_run context options.silenced snapshot faithful may
  have silent : ∀ entry scope, .ran entry scope ∉
      ((engine.plan context options.silenced snapshot).run engine.catalog engine.registry cache taken).events :=
    events ▸ walks.quiet_iff.mpr fun location value runs visited entry member eligible =>
      eligible.uncovered (.inl rfl)
  refine ⟨silent, ?_, fun fault failed => ?_⟩
  · exact Plan.run_kept (writesFollow_walkRecord _ _ _ _ _) fun entry scope ran => absurd ran (silent entry scope)
  · rw [failed] at walks
    obtain ⟨before, last, rfl, raises⟩ := walks.last_raises
    cases last with
    | enter record place =>
      rcases raises with ⟨-, same⟩ | ⟨-, faulty⟩
      · exact .inl ⟨_, same⟩
      · exact .inr (Fault.cases_of_isBuildFault (isBuildFault_of_build faulty))
    | leave location value => exact raises.elim
    | visit location value runs =>
      obtain ⟨_, entry, held, _, _, eligible, _⟩ := raises
      exact absurd (.inl rfl) eligible.uncovered

/-- Where rules keep values, a run that passes comes to the document of the run without rules. -/
theorem silenced_run_of_calm {snapshot : RecordValue} {taken other? : Option TypedRecord} {document : Document}
    (faithful : cache.Faithful engine.catalog engine.registry)
    (alsoFaithful : other.Faithful engine.catalog engine.registry)
    (may : taken.isSome = true → options.writesBack = true) (alsoMay : other?.isSome = true → options.writesBack = true)
    (calm : snapshot.toValue.Calm engine.catalog engine.registry)
    (ended : ((engine.plan context options snapshot).run engine.catalog engine.registry cache taken).result =
      .ok document) :
    ((engine.plan context options.silenced snapshot).run engine.catalog engine.registry other other?).result =
      .ok document := by
  obtain ⟨accounts, accounted⟩ := engine.exists_accounts context options snapshot faithful may ended
  cases ended.symm.trans accounted.document
  have derived : Accounts (engine.setting context options).silenced engine.catalog (.record snapshot .root [])
      (silencedEach accounts) := accounted.derived.silenced calm
  obtain ⟨steps, walks, -, -⟩ := engine.walks_of_run context options.silenced snapshot alsoFaithful alsoMay
  have passes := Accounts.passes derived walks
  cases silenced : ((engine.plan context options.silenced snapshot).run engine.catalog engine.registry other
      other?).result with
  | error fault =>
    rw [silenced] at passes
    cases passes
  | ok document =>
    obtain ⟨others, alsoAccounted⟩ := engine.exists_accounts context options.silenced snapshot alsoFaithful alsoMay
      silenced
    have same := alsoAccounted.document
    rw [silenced, alsoAccounted.derived.unique derived, documentOf, emittedFields_silencedEach] at same
    exact same

/-- A run with all rules switched off executes none, leaves the record as it is and fails only for a record that lies
too deep or has faulty declarations. And where no transformation bound in the metadata that a record leads to changes a
value, as where only validations are bound, a run that passes comes to the document of the run without rules. -/
theorem validations_accept_or_reject (faithful : cache.Faithful engine.catalog engine.registry)
    (alsoFaithful : other.Faithful engine.catalog engine.registry) :
    (∀ record, (engine.validateMut cache context options.silenced record).Silent engine.settings.maxDepth
      (if options.writesBack then some record else none)) ∧
    (∀ snapshot, (options.writesBack = true →
        engine.validateSnapshot cache context options.silenced snapshot = ⟨.error .readOnly, cache, [], none⟩) ∧
      (options.writesBack = false →
        (engine.validateSnapshot cache context options.silenced snapshot).Silent engine.settings.maxDepth none)) ∧
    (∀ record document, record.Fits engine.catalog →
      (∀ field, engine.catalog.Declares engine.registry record.type field → field.KeepsValues) →
      ((engine.validate cache context options record).result = .ok document →
        (engine.validate other context options.silenced record).result = .ok document) ∧
      ((engine.validateMut cache context options record).result = .ok document →
        (engine.validateMut other context options.silenced record).result = .ok document)) ∧
    ∀ snapshot document, snapshot.toValue.Calm engine.catalog engine.registry →
      (engine.validateSnapshot cache context options snapshot).result = .ok document →
      (engine.validateSnapshot other context options.silenced snapshot).result = .ok document := by
  have reading : ∀ snapshot document, snapshot.toValue.Calm engine.catalog engine.registry →
      (engine.validateSnapshot cache context options snapshot).result = .ok document →
      (engine.validateSnapshot other context options.silenced snapshot).result = .ok document := by
    intro snapshot document calm ended
    unfold validateSnapshot at ended ⊢
    split at ended
    · cases ended
    · next reads =>
      rw [if_neg (show ¬ options.silenced.writesBack = true from reads)]
      exact engine.silenced_run_of_calm context options faithful alsoFaithful (by simp) (by simp) calm ended
  refine ⟨fun record => ?_, fun snapshot => ⟨fun writes => ?_, fun reads => ?_⟩, fun record document fits keeps => ?_,
    reading⟩
  · exact engine.silent_run context options _ faithful (writesBack_of_taken record)
  · exact if_pos writes
  · have plain : ¬ options.silenced.writesBack = true := by
      rw [show options.silenced.writesBack = false from reads]
      exact Bool.false_ne_true
    rw [validateSnapshot, if_neg plain]
    exact engine.silent_run context options snapshot faithful (by simp)
  · have calm := TypedRecord.calm_snapshot fits keeps
    refine ⟨reading _ document calm, fun ended => ?_⟩
    exact engine.silenced_run_of_calm context options faithful alsoFaithful (writesBack_of_taken record)
      (writesBack_of_taken record) calm ended

/-- Courses with a short title and students whose names are kept as they are; the only rules are those two. -/
def enrolling : Engine where
  catalog := ⟨[
    ⟨"Course", [⟨"title", "label,short", .string⟩, ⟨"students", "students,dive", .sequence (.record ⟨1, "Student"⟩)⟩,
      ⟨"note", "note,omitempty", .string⟩]⟩,
    ⟨"Student", [⟨"name", "name,transform=keep,short", .string⟩, ⟨"year", "year,omitempty", .unsigned .w8⟩]⟩]⟩
  registry := (Registry.empty.putValidation "short"
    ⟨fun _ _ scope => .ok ((scope.value.text?.getD "").length < 8), false⟩ false).putTransformation "keep"
      ⟨fun _ _ scope => .ok scope.value, false⟩ false
  settings := ⟨3⟩

/-- A course with one student. -/
def course (title : String) : TypedRecord :=
  ⟨⟨0, "Course"⟩, [.string title, .sequence [.record ⟨1, "Student"⟩ [.string "Ada", .uint 0]], .string ""]⟩

/-- The logic course passes and comes to the document that it has without rules. The mathematics course is rejected for
its title, but not by a run without rules, which leaves it as it is. -/
theorem enrolling_accepts_or_rejects :
    (∃ document, (enrolling.validate .empty {} { tombstones := true } (course "Logic")).result = .ok document ∧
      (enrolling.validate .empty {} ({ tombstones := true } : Options).silenced (course "Logic")).result =
        .ok document ∧ Entries.keys document = ["label", "students", "note"]) ∧
    (enrolling.validateMut .empty {} { writesBack := true } (course "Mathematics")).result.isOk = false ∧
    (enrolling.validateMut .empty {} ({ writesBack := true } : Options).silenced
      (course "Mathematics")).result.isOk = true ∧
    (enrolling.validateMut .empty {} ({ writesBack := true } : Options).silenced
      (course "Mathematics")).Silent 3 (some (course "Mathematics")) := by
  have faithful : MetadataCache.empty.Faithful enrolling.catalog enrolling.registry := MetadataCache.faithful_empty _ _
  have keeps : ∀ field, enrolling.catalog.Declares enrolling.registry (course "Logic").type field →
      field.KeepsValues := by
    refine fun field => FieldMetadata.keepsValues_of_registered fun name rule found => ?_
    rw [enrolling, Registry.transformation?, Registry.putTransformation, Entries.get?_insert] at found
    split at found
    · cases found
      rintro context transaction scope value ⟨⟩
      exact .inl rfl
    · cases found
  have fits : (course "Logic").Fits enrolling.catalog := by
    simp [course, TypedRecord.Fits, enrolling, Catalog.fields, FieldsFit, FieldDecl.isHidden, FieldDecl.descriptor,
      FieldType.descriptor, Descriptor.unsupportedKind?, Data.Fits, FieldType.unboxed, ItemsFit, Width.bits]
  have passes : (enrolling.validate .empty {} { tombstones := true } (course "Logic")).result.toOption.any
      (fun document => Entries.keys document == ["label", "students", "note"]) = true := by
    decide +kernel
  obtain ⟨-, -, accepts, -⟩ := validations_accept_or_reject enrolling {} { tombstones := true } faithful faithful
  obtain ⟨silent, -⟩ := validations_accept_or_reject enrolling {} { writesBack := true } faithful faithful
  refine ⟨?_, by decide +kernel, by decide +kernel, silent (course "Mathematics")⟩
  cases ended : (enrolling.validate .empty {} { tombstones := true } (course "Logic")).result with
  | error fault =>
    rw [ended] at passes
    cases passes
  | ok document =>
    rw [ended] at passes
    exact ⟨document, rfl, (accepts _ document fits keeps).1 ended, by simpa [Except.toOption] using passes⟩

end Engine

end TaggedRecords
