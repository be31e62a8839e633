import TaggedRecords.Proofs.FaithfulCache
import TaggedRecords.Proofs.PlanLaws
import TaggedRecords.Proofs.SharedShapes
import TaggedRecords.Proofs.SpecialisedTags

/-!
# Runs specialised to a method

A run for one method is a run for no method in particular over record types whose tags are specialised to it: the same
rules run in the same order on the same scopes, and the results and the record that is left are the same.
-/

namespace TaggedRecords

/-- The event without the restriction of the entry that runs. -/
def Event.unrestricted : Event → Event
  | .reached place value => .reached place value
  | .ran entry scope => .ran entry.unrestricted scope

/-- The second plan takes the steps of the first with unrestricted entries, given that what it asks for is
specialised. -/
inductive Plan.Specialises (method : Method) (catalog : Catalog) (registry : Registry) {α : Type} :
    Plan α → Plan α → Prop where
  | done (result : α) : Specialises method catalog registry (.done result) (.done result)
  | fail (fault : Fault) : Specialises method catalog registry (.fail fault) (.fail fault)
  | describe {type : RecordType} {left right : RecordMetadata → Plan α}
      (next : ∀ metadata, RecordMetadata.build catalog registry type = .ok metadata →
        Specialises method catalog registry (left metadata) (right (metadata.specialised method))) :
      Specialises method catalog registry (.describe type left) (.describe type right)
  | note (event : Event) {left right : Plan α} (next : Specialises method catalog registry left right) :
      Specialises method catalog registry (.note event left) (.note event.unrestricted right)
  | write (place : Place) (value : Value) {left right : Plan α}
      (next : Specialises method catalog registry left right) :
      Specialises method catalog registry (.write place value left) (.write place value right)

theorem Plan.Specialises.bind {method : Method} {catalog : Catalog} {registry : Registry} {α β : Type}
    {left right : Plan α} {follow alsoFollow : α → Plan β} (first : left.Specialises method catalog registry right)
    (second : ∀ result, (follow result).Specialises method catalog registry (alsoFollow result)) :
    (left.bind follow).Specialises method catalog registry (right.bind alsoFollow) := by
  induction first with
  | done result => exact second result
  | fail fault => exact .fail fault
  | describe _ ih => exact .describe ih
  | note event _ ih => exact .note event ih
  | write place value _ ih => exact .write place value ih

/-! ## The traversal -/

/-- The setting of a run for no method in particular. -/
def Setting.general (setting : Setting) : Setting :=
  { setting with options := { setting.options with method := .validate } }

/-- The elements to enter with the rules that apply to a method. -/
def Dive.specialised (method : Method) (dive : Dive) : Dive := ⟨dive.element, specialisedRules method dive.rules⟩

section
variable {catalog : Catalog} {setting : Setting}

theorem specialises_runEntry (nullable : Bool) (place : Place) (scope : Scope) (entry : RuleEntry) :
    (runEntry setting nullable place scope entry).Specialises setting.options.method catalog setting.registry
      (runEntry setting.general nullable place scope entry.unrestricted) := by
  -- Behind the event both do the same, as neither rule nor failure looks at the entry again.
  obtain ⟨behind, left, right⟩ : ∃ behind,
      runEntry setting nullable place scope entry = .note (.ran entry (scope.seenBy entry)) behind ∧
      runEntry setting.general nullable place scope entry.unrestricted =
        .note (Event.unrestricted (.ran entry (scope.seenBy entry))) behind := ⟨_, rfl, rfl⟩
  have steps := runEntry_cases setting nullable place scope entry
  simp only [left, Plan.note.injEq, true_and] at steps
  rw [left, right]
  refine .note _ ?_
  obtain ⟨fault, rfl⟩ | rfl | ⟨rule, next, _, _, _, rfl⟩ := steps
  · exact .fail fault
  · exact .done _
  · exact .write place next (.done _)

theorem specialises_runChain (nullable : Bool) (place : Place) (scope : Scope) (entries : List RuleEntry) :
    (runChain setting nullable place scope entries).Specialises setting.options.method catalog setting.registry
      (runChain setting.general nullable place scope (specialisedRules setting.options.method entries)) := by
  induction entries generalizing scope with
  | nil => exact .done _
  | cons entry rest ih =>
    rw [runChain, Setting.runs]
    cases applies : entry.appliesTo setting.options.method with
    | false =>
      rw [specialisedRules, List.filter_cons_of_neg (by simp [applies])]
      exact ih scope
    | true =>
      have split : specialisedRules setting.options.method (entry :: rest) =
          entry.unrestricted :: specialisedRules setting.options.method rest := by
        simp [specialisedRules, applies]
      have runs : setting.general.runs entry.unrestricted scope.value =
          (true && (!scope.value.isZero || entry.runsOnNil || entry.required)) := rfl
      rw [split, runChain, runs]
      split
      · exact (specialises_runEntry nullable place scope entry).bind fun next => ih next
      · exact ih scope

theorem specialises_chained (validate nullable : Bool) (place : Place) (scope : Scope) (entries : List RuleEntry) :
    (if validate = true then runChain setting nullable place scope entries else .done scope.value).Specialises
      setting.options.method catalog setting.registry
      (if validate = true then
        runChain setting.general nullable place scope (specialisedRules setting.options.method entries)
      else .done scope.value) := by
  split
  · exact specialises_runChain nullable place scope entries
  · exact .done _

/-- Records are entered with plans of which the second is specialised. -/
def Nested.Specialises (method : Method) (catalog : Catalog) (registry : Registry) (left right : Nested) : Prop :=
  ∀ record place validate,
    (left record place validate).Specialises method catalog registry (right record place validate)

variable {left right : Nested} (enters : Nested.Specialises setting.options.method catalog setting.registry left right)
  {owner : RecordValue} {dive : Dive} {validate : Bool} {place : Place}
include enters

theorem specialises_emit (value : Value) : (emit left validate place value).Specialises setting.options.method catalog
    setting.registry (emit right validate place value) := by
  cases value with
  | record type fields => exact (enters _ place validate).bind fun _ => .done _
  | _ => exact .done _

theorem specialises_walkElement (name : String) (item : Value) :
    (walkElement setting left owner dive validate place name item).Specialises setting.options.method catalog
      setting.registry (walkElement setting.general right owner (dive.specialised setting.options.method) validate place
        name item) := by
  rw [walkElement_eq, walkElement_eq]
  refine .note (.reached place item) ?_
  exact (specialises_chained _ dive.element.isOptional place _ dive.rules).bind
    fun value => specialises_emit enters value

theorem specialises_walkItems (index : Nat) (items : List Value) :
    (walkItems setting left owner dive validate place index items).Specialises setting.options.method catalog
      setting.registry (walkItems setting.general right owner (dive.specialised setting.options.method) validate place
        index items) := by
  induction items generalizing index with
  | nil => exact .done _
  | cons item rest ih =>
    exact (specialises_walkElement enters _ item).bind fun _ => (ih (index + 1)).bind fun _ => .done _

theorem specialises_walkEntries (entries : List (String × Value)) :
    (walkEntries setting left owner dive validate place entries).Specialises setting.options.method catalog
      setting.registry (walkEntries setting.general right owner (dive.specialised setting.options.method) validate place
        entries) := by
  induction entries with
  | nil => exact .done _
  | cons entry rest ih =>
    exact (specialises_walkElement enters _ entry.2).bind fun _ => ih.bind fun _ => .done _

theorem specialises_finish (dive? : Option Dive) (value : Value) :
    (finish setting left owner dive? validate place value).Specialises setting.options.method catalog setting.registry
      (finish setting.general right owner (dive?.map (Dive.specialised setting.options.method)) validate place
        value) := by
  have emits : (emit left validate place value).Specialises setting.options.method catalog setting.registry
      (emit right validate place value) := specialises_emit enters value
  cases dive? with
  | none => cases value <;> exact emits
  | some dive =>
    cases value with
    | sequence items => exact (specialises_walkItems enters 0 items).bind fun _ => .done _
    | mapping entries => exact (specialises_walkEntries enters entries).bind fun _ => .done _
    | _ => exact emits

theorem specialises_walkField (field : FieldMetadata) (value : Value) :
    (walkField setting left owner field validate place value).Specialises setting.options.method catalog
      setting.registry (walkField setting.general right owner (field.specialised setting.options.method) validate place
        value) := by
  have omits : setting.general.omits (field.specialised setting.options.method) place.path value =
      setting.omits field place.path value := by
    simp [Setting.omits, Setting.general, FieldMetadata.specialised, OmitPolicy.specialised, OmitPolicy.appliesTo,
      Options.allowsEmpty]
  have dives : (field.specialised setting.options.method).dive? =
      field.dive?.map (Dive.specialised setting.options.method) := by
    unfold FieldMetadata.dive? FieldMetadata.specialised
    cases field.dive <;> cases field.element <;> rfl
  refine .note (.reached place value) ?_
  rw [omits, dives]
  cases setting.omits field place.path value with
  | true => exact .done _
  | false =>
    refine Plan.Specialises.bind ?_ fun _ => .done _
    exact (specialises_chained _ field.descriptor.isOptional place _ field.rules).bind fun value =>
      specialises_finish enters field.dive? value

theorem specialises_walkFields (document : Document) (fields : List FieldMetadata) :
    (walkFields setting left owner validate place document fields).Specialises setting.options.method catalog
      setting.registry (walkFields setting.general right owner validate place document
        (fields.map (FieldMetadata.specialised setting.options.method))) := by
  induction fields generalizing document with
  | nil => exact .done _
  | cons field rest ih => exact (specialises_walkField enters field _).bind fun _ => ih _

end

theorem specialises_walkRecord (catalog : Catalog) (setting : Setting) (room : Nat) :
    Nested.Specialises setting.options.method catalog setting.registry (walkRecord setting room)
      (walkRecord setting.general room) := by
  induction room with
  | zero => exact fun _ place _ => .fail (.depthExceeded place.path setting.maxDepth)
  | succ room ih =>
    exact fun record place validate => .describe fun metadata _ => specialises_walkFields ih [] metadata.fields

/-! ## Runs -/

/-- The other run comes to the same, leaves the same record, and has the same events but for restrictions. -/
structure Run.SpecialisedTo {α : Type} (run other : Run α) : Prop where
  result : other.result = run.result
  events : other.events = run.events.map Event.unrestricted
  record : other.record = run.record

theorem Plan.Specialises.run {method : Method} {catalog other : Catalog} {registry : Registry} {α : Type}
    {left right : Plan α} (specialises : left.Specialises method catalog registry right)
    (builds : ∀ type, ∃ metadata, RecordMetadata.build catalog registry type = .ok metadata ∧
      RecordMetadata.build other registry type = .ok (metadata.specialised method))
    (shares : catalog.SharesShapes other) :
    ∀ {first second : MetadataCache} (record : Option TypedRecord), first.Faithful catalog registry →
      second.Faithful other registry →
      (left.run catalog registry first record).SpecialisedTo (right.run other registry second record) := by
  induction specialises with
  | done result => exact fun _ _ _ => ⟨rfl, rfl, rfl⟩
  | fail fault => exact fun _ _ _ => ⟨rfl, rfl, rfl⟩
  | @describe type left right _ ih =>
    intro first second record faithful alsoFaithful
    obtain ⟨metadata, built, alsoBuilt⟩ := builds type
    obtain ⟨kept, keptFaithful, answer⟩ := MetadataCache.getOrBuild_cases faithful type
    obtain ⟨also, alsoKept, alsoAnswer⟩ := MetadataCache.getOrBuild_cases alsoFaithful type
    rw [Plan.run, Plan.run, answer, alsoAnswer, built, alsoBuilt]
    exact ih metadata built record keptFaithful alsoKept
  | note event _ ih =>
    intro first second record faithful alsoFaithful
    obtain ⟨result, events, left⟩ := ih record faithful alsoFaithful
    exact ⟨result, congrArg (event.unrestricted :: ·) events, left⟩
  | write place value _ ih =>
    intro first second record faithful alsoFaithful
    cases record with
    | none => exact ih none faithful alsoFaithful
    | some record =>
      rw [Plan.run, Plan.run, record.writeAt_congr shares]
      cases (record.writeAt catalog place.segments value).fault with
      | none => exact ih _ faithful alsoFaithful
      | some cause => exact ⟨rfl, rfl, rfl⟩

theorem Catalog.Specialises.shapes {method : Method} {catalog other : Catalog}
    (alike : catalog.Specialises method other) : catalog.SharesShapes other :=
  fun type => (alike type).imp fun _ _ same => ⟨same.name, same.type⟩

namespace Engine

/-- The engine over other record types. -/
def withCatalog (engine : Engine) (catalog : Catalog) : Engine := { engine with catalog := catalog }

/-- Let a registry be made by calls, none of whose own names ends as one that is restricted to a method or is that of
the mark of a transformation, and let the metadata of all record types be built, with no rule restricted twice. Then
the tags can be written anew for every method; and over any record types whose tags tell all methods what these tell
one, whatever is validated comes to the same for no method in particular as for that one here: the same document or
fault, after the same rules in order, and the same record is left. -/
theorem methods_specialise (engine : Engine) (method : Method) (made : engine.registry.Made)
    (unsuffixed : ∀ name, engine.registry.UserNamed name → Method.splitSuffix? name = none ∧ name ≠ "transform")
    (builds : ∀ type, ∃ metadata, RecordMetadata.build engine.catalog engine.registry type = .ok metadata)
    (single : ∀ type, ∀ decl ∈ engine.catalog.fields type, decl.SinglySuffixed) :
    engine.catalog.Specialises method (engine.catalog.specialised method) ∧
    ∀ other, engine.catalog.Specialises method other → ∀ (first second : MetadataCache) (context : Context)
      (options : Options), first.Faithful engine.catalog engine.registry → second.Faithful other engine.registry →
      (∀ snapshot, (engine.validateSnapshot first context { options with method := method } snapshot).SpecialisedTo
        ((engine.withCatalog other).validateSnapshot second context { options with method := .validate } snapshot)) ∧
      ∀ record : TypedRecord,
        (engine.validate first context { options with method := method } record).SpecialisedTo
          ((engine.withCatalog other).validate second context { options with method := .validate } record) ∧
        (engine.validateMut first context { options with method := method } record).SpecialisedTo
          ((engine.withCatalog other).validateMut second context { options with method := .validate } record) := by
  have specialisable := made.specialisable unsuffixed
  refine ⟨specialisable.specialises_catalog single builds method, fun other alike first second context options faithful
    alsoFaithful => ?_⟩
  have runs (snapshot : RecordValue) (taken : Option TypedRecord) :
      ((engine.plan context { options with method := method } snapshot).run engine.catalog engine.registry first
        taken).SpecialisedTo
        (((engine.withCatalog other).plan context { options with method := .validate } snapshot).run other
          engine.registry second taken) := by
    refine Plan.Specialises.run (specialises_walkRecord engine.catalog
      (engine.setting context { options with method := method }) _ snapshot .root true) (fun type => ?_) alike.shapes
      taken faithful alsoFaithful
    obtain ⟨metadata, built⟩ := builds type
    exact ⟨metadata, built, specialisable.build_specialised alike (single type) built⟩
  have snapshots (snapshot : RecordValue) :
      (engine.validateSnapshot first context { options with method := method } snapshot).SpecialisedTo
        ((engine.withCatalog other).validateSnapshot second context { options with method := .validate } snapshot) := by
    unfold validateSnapshot
    dsimp only
    split
    · exact ⟨rfl, rfl, rfl⟩
    · exact runs snapshot none
  refine ⟨snapshots, fun record => ⟨?_, ?_⟩⟩
  · have same : record.snapshot other = record.snapshot engine.catalog := record.snapshot_congr alike.shapes
    unfold validate
    rw [show (engine.withCatalog other).catalog = other from rfl, same]
    exact snapshots _
  · have same : record.snapshot other = record.snapshot engine.catalog := record.snapshot_congr alike.shapes
    unfold validateMut
    rw [show (engine.withCatalog other).catalog = other from rfl, same]
    exact runs _ _

/-- A transformation that makes text louder. -/
def shouting : List Registration :=
  [.transformation "shout" ⟨fun _ _ scope => .ok (.string (scope.value.text?.getD "" ++ "!")), false⟩]

/-- Visits with a code, tags and a guest, some of whose rules are for one method. -/
def visiting : Engine where
  catalog := ⟨[⟨"Guest", [⟨"name", "name,shout_create", .string⟩]⟩,
    ⟨"Visit", [⟨"code", "code,min_update=3,required_create", .string⟩,
      ⟨"tags", "tags,dive,max_create=4", .sequence .string⟩, ⟨"guest", "guest", .record ⟨0, "Guest"⟩⟩]⟩]⟩
  registry := Registry.withBuiltIns.after shouting
  settings := ⟨3⟩

/-- What the tags tell the method of creation. -/
example : ((visiting.catalog.specialised .create).fields ⟨1, "Visit"⟩).map FieldDecl.tag =
    ["code,required", "tags,dive,max=4", "guest,"] := by decide +kernel

/-- A visit whose code is too short for an update. -/
def visit : TypedRecord :=
  ⟨⟨1, "Visit"⟩, [.string "ab", .sequence [.string "one", .string "four"], .record ⟨0, "Guest"⟩ [.string "Ada"]]⟩

/-- The visit passes for creation, and over the tags for creation after the same rules. -/
theorem visiting_specialises :
    (visiting.validateMut .empty {} { method := .create, writesBack := true } visit).result.isOk = true ∧
    (visiting.validateMut .empty {} { method := .create, writesBack := true } visit).SpecialisedTo
      ((visiting.withCatalog (visiting.catalog.specialised .create)).validateMut .empty {} { writesBack := true }
        visit) := by
  have made : visiting.registry.Made := ⟨shouting, .inr rfl⟩
  have unsuffixed (name : String) (user : visiting.registry.UserNamed name) :
      Method.splitSuffix? name = none ∧ name ≠ "transform" := by
    have validations : ∀ entry ∈ visiting.registry.validations, entry.2.builtIn = true := by decide
    have transformations : ∀ entry ∈ visiting.registry.transformations, entry.2.builtIn = true ∨
        Method.splitSuffix? entry.1 = none ∧ entry.1 ≠ "transform" := by decide
    rcases user with ⟨rule, found⟩ | ⟨rule, found⟩
    · cases validations _ (Entries.mem_of_get? found)
    · exact (transformations _ (Entries.mem_of_get? found)).resolve_left Bool.false_ne_true
  have builds : ∀ schema ∈ visiting.catalog.schemas,
      (fieldsMetadata visiting.registry schema.name 0 schema.fields).isOk = true := by decide +kernel
  have single (type : RecordType) : ∀ decl ∈ visiting.catalog.fields type, decl.SinglySuffixed := by
    have all : ∀ schema ∈ visiting.catalog.schemas, ∀ decl ∈ schema.fields, decl.SinglySuffixed := by decide +kernel
    rcases fields_cases visiting.catalog type with none | ⟨schema, member, same⟩
    · simp [none]
    · rw [same]
      exact all schema member
  obtain ⟨alike, runs⟩ := visiting.methods_specialise .create made unsuffixed (exists_build builds) single
  have faithful (catalog : Catalog) := MetadataCache.faithful_empty catalog visiting.registry
  exact ⟨by decide +kernel,
    ((runs _ alike .empty .empty {} { writesBack := true } (faithful _) (faithful _)).2 visit).2⟩

end Engine

end TaggedRecords
