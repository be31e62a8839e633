import TaggedRecords.Proofs.ConformingRuns
import TaggedRecords.Proofs.WalkParts

/-!
# Where a run may write

A run over typed content writes at or below places on whose chains transformations are bound, and at no others. Until
such a place is reached the traversal still sees the snapshot, so the types alone say which chains are bound where.
-/

namespace TaggedRecords

/-! ## Positions that may change -/

/-- A transformation is among the entries. -/
def Transforming (entries : List RuleEntry) : Prop := ∃ entry ∈ entries, entry.action.isTransform = true

/-- A transformation is bound on the chain of a field or an element that the path leads to or passes. The path starts
at a record of the type. -/
inductive Changeable (catalog : Catalog) (registry : Registry) : RecordType → List Segment → Prop where
  | field {type : RecordType} {metadata : RecordMetadata} {field : FieldMetadata}
      (built : RecordMetadata.build catalog registry type = .ok metadata) (member : field ∈ metadata.fields)
      (transforms : Transforming field.rules) (rest : List Segment) :
      Changeable catalog registry type (.field field.index :: rest)
  | element {type : RecordType} {metadata : RecordMetadata} {field : FieldMetadata} {dive : Dive}
      (built : RecordMetadata.build catalog registry type = .ok metadata) (member : field ∈ metadata.fields)
      (dives : field.dive? = some dive) (transforms : Transforming dive.rules) (segment : Segment)
      (rest : List Segment) : Changeable catalog registry type (.field field.index :: segment :: rest)
  | inField {type inner : RecordType} {metadata : RecordMetadata} {field : FieldMetadata} {rest : List Segment}
      (built : RecordMetadata.build catalog registry type = .ok metadata) (member : field ∈ metadata.fields)
      (holds : field.descriptor.dereferenced = .record inner) (below : Changeable catalog registry inner rest) :
      Changeable catalog registry type (.field field.index :: rest)
  | inElement {type inner : RecordType} {metadata : RecordMetadata} {field : FieldMetadata} {dive : Dive}
      {rest : List Segment} (built : RecordMetadata.build catalog registry type = .ok metadata)
      (member : field ∈ metadata.fields) (dives : field.dive? = some dive)
      (holds : dive.element.dereferenced = .record inner) (segment : Segment)
      (below : Changeable catalog registry inner rest) :
      Changeable catalog registry type (.field field.index :: segment :: rest)

/-- What lies below a position that may change may change with it. -/
theorem Changeable.append {catalog : Catalog} {registry : Registry} {type : RecordType} {path : List Segment}
    (changeable : Changeable catalog registry type path) (more : List Segment) :
    Changeable catalog registry type (path ++ more) := by
  induction changeable with
  | field built member transforms rest => exact .field built member transforms (rest ++ more)
  | element built member dives transforms segment rest =>
    exact .element built member dives transforms segment (rest ++ more)
  | inField built member holds _ ih => exact .inField built member holds ih
  | inElement built member dives holds segment _ ih => exact .inElement built member dives holds segment ih

/-! ## Writes of a plan -/

/-- The plan writes only where it is allowed to, if each question is answered by building. -/
def Plan.WritesAt {α : Type} (catalog : Catalog) (registry : Registry) (allowed : List Segment → Prop) :
    Plan α → Prop
  | .done _ => True
  | .fail _ => True
  | .describe type next => ∀ metadata, RecordMetadata.build catalog registry type = .ok metadata →
      (next metadata).WritesAt catalog registry allowed
  | .note _ next => next.WritesAt catalog registry allowed
  | .write place _ next => allowed place.segments ∧ next.WritesAt catalog registry allowed

section
variable {α β : Type} {catalog : Catalog} {registry : Registry} {allowed : List Segment → Prop}

theorem Plan.WritesAt.bind {plan : Plan α} {follow : α → Plan β} (good : α → Prop)
    (first : plan.WritesAt catalog registry allowed) (yields : plan.Yields catalog registry good)
    (second : ∀ result, good result → (follow result).WritesAt catalog registry allowed) :
    (plan.bind follow).WritesAt catalog registry allowed := by
  induction plan with
  | done result => exact second result yields
  | fail fault => trivial
  | describe type next ih => exact fun metadata built => ih metadata (first metadata built) (yields metadata built)
  | note event next ih => exact ih first yields
  | write place value next ih => exact ⟨first.1, ih first.2 yields⟩

theorem Plan.yields_true (plan : Plan α) : plan.Yields catalog registry fun _ => True := by
  induction plan with
  | done result => trivial
  | fail fault => trivial
  | describe type next ih => exact fun metadata _ => ih metadata
  | note event next ih => exact ih
  | write place value next ih => exact ih

/-- A plan behind another, whatever that comes to. -/
theorem Plan.WritesAt.andThen {plan : Plan α} {follow : α → Plan β} (first : plan.WritesAt catalog registry allowed)
    (second : ∀ result, (follow result).WritesAt catalog registry allowed) :
    (plan.bind follow).WritesAt catalog registry allowed :=
  first.bind _ plan.yields_true fun result _ => second result

/-- Below a place all of which may be written, a plan may write what it likes. -/
theorem Plan.WritesBelow.writesAt {base : List Segment} {plan : Plan α} (deep : plan.WritesBelow base)
    (all : ∀ path, allowed (base ++ path)) : plan.WritesAt catalog registry allowed := by
  induction deep with
  | done result => trivial
  | fail fault => trivial
  | describe _ ih => exact fun metadata _ => ih metadata
  | note _ ih => exact ih
  | @write place value next path inside _ ih => exact ⟨inside ▸ all path, ih⟩

/-! ## Chains -/

variable {setting : Setting}

/-- A chain without transformations writes nothing and hands on the value that it found. -/
theorem runChain_steady {entries : List RuleEntry} (steady : ¬ Transforming entries) (nullable : Bool) (place : Place)
    (scope : Scope) :
    (runChain setting nullable place scope entries).WritesAt catalog registry allowed ∧
      (runChain setting nullable place scope entries).Yields catalog registry (· = scope.value) := by
  induction entries generalizing scope with
  | nil => exact ⟨trivial, rfl⟩
  | cons entry rest ih =>
    have steadyRest : ¬ Transforming rest :=
      fun ⟨other, member, transforms⟩ => steady ⟨other, List.mem_cons_of_mem _ member, transforms⟩
    rw [runChain]
    split
    · rcases runEntry_cases setting nullable place scope entry with ⟨fault, eq⟩ | eq | ⟨rule, next, action, _, _, eq⟩
      · rw [eq]
        exact ⟨trivial, trivial⟩
      · rw [eq]
        exact ih steadyRest (scope.seenBy entry)
      · exact absurd ⟨entry, List.mem_cons_self, by rw [action]; rfl⟩ steady
    · exact ih steadyRest scope

variable (catalog registry allowed) in
/-- Writing is allowed where the types say that a place may change: all of it if its chain transforms it, and else what
may change of a record in it. -/
structure Permits (place : Place) (rules : List RuleEntry) (d : Descriptor) : Prop where
  whole : Transforming rules → ∀ path, allowed (place.segments ++ path)
  record : ∀ inner, d.dereferenced = .record inner → ∀ path, Changeable catalog registry inner path →
    allowed (place.segments ++ path)

/-- What comes behind a chain sees the value that was there, or writes where all is allowed. -/
theorem writesAt_chained {place : Place} {rules : List RuleEntry} {d : Descriptor}
    (permits : Permits catalog registry allowed place rules d) {follow : Value → Plan β}
    (deep : ∀ left, (follow left).WritesBelow place.segments) (runs nullable : Bool) (scope : Scope)
    (same : (follow scope.value).WritesAt catalog registry allowed) :
    ((if runs = true then runChain setting nullable place scope rules else .done scope.value).bind follow).WritesAt
      catalog registry allowed := by
  cases runs with
  | false => exact same
  | true =>
    by_cases transforms : Transforming rules
    · exact ((writesBelow_runChain setting nullable place scope rules).bind deep).writesAt (permits.whole transforms)
    · have steady : (runChain setting nullable place scope rules).WritesAt catalog registry allowed ∧
          (runChain setting nullable place scope rules).Yields catalog registry (· = scope.value) :=
        runChain_steady transforms nullable place scope
      exact steady.1.bind _ steady.2 fun left still => still ▸ same

/-! ## Visits -/

variable {nested : Nested}

variable (catalog registry allowed) in
/-- Nested records are written only where they may change. -/
def Nested.WritesAt (nested : Nested) : Prop :=
  ∀ record place validate, (∃ type : FieldType, type.Shows catalog record.toValue) →
    (∀ path, Changeable catalog registry record.type path → allowed (place.segments ++ path)) →
    (nested record place validate).WritesAt catalog registry allowed

theorem writesAt_emit (writes : nested.WritesAt catalog registry allowed) {place : Place} {rules : List RuleEntry}
    {type : FieldType} (permits : Permits catalog registry allowed place rules type.descriptor) {value : Value}
    (shows : type.Shows catalog value) (validate : Bool) :
    (emit nested validate place value).WritesAt catalog registry allowed := by
  cases value with
  | record recordType fields =>
    obtain ⟨data, fits, same⟩ := shows
    have shape := Descriptor.dereferenced_of_admits_record (same ▸ Data.admits_snapshot fits)
    exact (writes ⟨recordType, fields⟩ place validate ⟨type, data, fits, same⟩
      (permits.record recordType shape)).andThen fun _ => trivial
  | _ => trivial

theorem writesAt_walkElement (enter : nested.WritesBelow) (writes : nested.WritesAt catalog registry allowed)
    {place : Place} {dive : Dive} (permits : Permits catalog registry allowed place dive.rules dive.element)
    {type : FieldType} (isElement : type.descriptor = dive.element) {item : Value} (shows : type.Shows catalog item)
    (owner : RecordValue) (validate : Bool) (name : String) :
    (walkElement setting nested owner dive validate place name item).WritesAt catalog registry allowed := by
  rw [walkElement_eq]
  exact writesAt_chained permits (fun left => writesBelow_emit enter _ place left) _ _ _
    (writesAt_emit writes (isElement ▸ permits) shows _)

variable (catalog registry allowed) in
/-- At every element below the place writing is allowed where it may change. -/
def PermitsElements (place : Place) (dive : Dive) : Prop :=
  ∀ segment inner, inner.segments = place.segments ++ [segment] →
    Permits catalog registry allowed inner dive.rules dive.element

theorem writesAt_walkItems (enter : nested.WritesBelow) (writes : nested.WritesAt catalog registry allowed)
    {place : Place} {dive : Dive} (permits : PermitsElements catalog registry allowed place dive) {type : FieldType}
    (isElement : type.descriptor = dive.element) {items : List Value}
    (shows : ∀ item ∈ items, type.Shows catalog item) (owner : RecordValue) (validate : Bool) (index : Nat) :
    (walkItems setting nested owner dive validate place index items).WritesAt catalog registry allowed := by
  induction items generalizing index with
  | nil => trivial
  | cons item rest ih =>
    obtain ⟨here, others⟩ := List.forall_mem_cons.mp shows
    refine (writesAt_walkElement enter writes (permits (.index index) _ rfl) isElement here owner validate _).andThen
      fun _ => ?_
    exact (ih others (index + 1)).andThen fun _ => trivial

theorem writesAt_walkEntries (enter : nested.WritesBelow) (writes : nested.WritesAt catalog registry allowed)
    {place : Place} {dive : Dive} (permits : PermitsElements catalog registry allowed place dive) {type : FieldType}
    (isElement : type.descriptor = dive.element) {entries : List (String × Value)}
    (shows : ∀ entry ∈ entries, type.Shows catalog entry.2) (owner : RecordValue) (validate : Bool) :
    (walkEntries setting nested owner dive validate place entries).WritesAt catalog registry allowed := by
  induction entries with
  | nil => trivial
  | cons entry rest ih =>
    obtain ⟨here, others⟩ := List.forall_mem_cons.mp shows
    refine (writesAt_walkElement enter writes (permits (.key entry.1) _ rfl) isElement here owner validate _).andThen
      fun _ => ?_
    exact (ih others).andThen fun _ => trivial

theorem writesAt_finish (enter : nested.WritesBelow) (writes : nested.WritesAt catalog registry allowed)
    {place : Place} {rules : List RuleEntry} {type : FieldType}
    (permits : Permits catalog registry allowed place rules type.descriptor) {dive? : Option Dive}
    (elements : ∀ dive, dive? = some dive → type.descriptor.element? = some dive.element ∧
      PermitsElements catalog registry allowed place dive)
    {value : Value} (shows : type.Shows catalog value) (owner : RecordValue) (validate : Bool) :
    (finish setting nested owner dive? validate place value).WritesAt catalog registry allowed := by
  unfold finish
  split
  · next items dive =>
    obtain ⟨isElement, permitsElements⟩ := elements dive rfl
    obtain ⟨element, found, parts⟩ := shows.items
    rw [type.descriptor_element?, found] at isElement
    refine (writesAt_walkItems enter writes permitsElements (Option.some.inj isElement) (fun item member => ?_) owner
      validate 0).andThen fun _ => trivial
    obtain ⟨index, stands⟩ := List.mem_iff_getElem?.mp member
    exact parts index item stands
  · next entries dive =>
    obtain ⟨isElement, permitsElements⟩ := elements dive rfl
    obtain ⟨distinct, element, found, parts⟩ := shows.entries
    rw [type.descriptor_element?, found] at isElement
    refine (writesAt_walkEntries enter writes permitsElements (Option.some.inj isElement) (fun entry member => ?_)
      owner validate).andThen fun _ => trivial
    exact parts entry.1 entry.2 (Entries.get?_of_mem distinct member)
  · exact writesAt_emit writes permits shows validate

/-! ## Fields and records -/

/-- Where a record may change, its fields and their elements may. -/
theorem permits_field {record : RecordValue} {place : Place} {metadata : RecordMetadata} {field : FieldMetadata}
    (may : ∀ path, Changeable catalog registry record.type path → allowed (place.segments ++ path))
    (built : RecordMetadata.build catalog registry record.type = .ok metadata) (member : field ∈ metadata.fields) :
    Permits catalog registry allowed (place.field field.name field.declared field.index) field.rules
        field.descriptor ∧
      ∀ dive, field.dive? = some dive →
        PermitsElements catalog registry allowed (place.field field.name field.declared field.index) dive := by
  have below (path : List Segment) : (place.field field.name field.declared field.index).segments ++ path =
      place.segments ++ .field field.index :: path := by
    simp [Place.field]
  refine ⟨⟨fun transforms path => ?_, fun inner holds path changeable => ?_⟩,
    fun dive dives segment inner here => ⟨fun transforms path => ?_, fun nestedType holds path changeable => ?_⟩⟩
  · rw [below]
    exact may _ (.field built member transforms path)
  · rw [below]
    exact may _ (.inField built member holds changeable)
  · rw [here, List.append_assoc, below]
    exact may _ (.element built member dives transforms segment path)
  · rw [here, List.append_assoc, below]
    exact may _ (.inElement built member dives holds segment changeable)

theorem writesAt_walkField (enter : nested.WritesBelow) (writes : nested.WritesAt catalog registry allowed)
    {place : Place} {field : FieldMetadata} {type : FieldType} (shape : field.descriptor = type.descriptor)
    (permits : Permits catalog registry allowed place field.rules field.descriptor)
    (elements : ∀ dive, field.dive? = some dive → field.descriptor.element? = some dive.element ∧
      PermitsElements catalog registry allowed place dive)
    {value : Value} (shows : type.Shows catalog value) (record : RecordValue) (validate : Bool) :
    (walkField setting nested record field validate place value).WritesAt catalog registry allowed := by
  unfold walkField
  split
  · trivial
  · have deep (left : Value) := writesBelow_finish setting enter record field.dive?
      (validate && setting.options.validates place.path) place left
    refine (writesAt_chained permits deep _ _ _ ?_).andThen fun _ => trivial
    exact writesAt_finish enter writes (shape ▸ permits) (shape ▸ elements) shows record _

theorem writesAt_walkFields {record : RecordValue} {validate : Bool} {place : Place} {document : Document}
    {fields : List FieldMetadata}
    (each : ∀ field ∈ fields, (walkField setting nested record field validate
      (place.field field.name field.declared field.index) ((record.at? field.index).getD .null)).WritesAt catalog
      registry allowed) :
    (walkFields setting nested record validate place document fields).WritesAt catalog registry allowed := by
  induction fields generalizing document with
  | nil => trivial
  | cons field rest ih =>
    obtain ⟨here, others⟩ := List.forall_mem_cons.mp each
    exact here.andThen fun _ => ih others

variable (setting) in
/-- At every depth, a record of the snapshot is written only where it may change. -/
theorem writesAt_walkRecord (room : Nat) :
    (walkRecord setting room).WritesAt catalog setting.registry allowed := by
  induction room with
  | zero => exact fun record place validate shows may => trivial
  | succ room ih =>
    intro record place validate ⟨type, shows⟩ may metadata built
    refine writesAt_walkFields fun field member => ?_
    obtain ⟨decl, declared, describes⟩ := (describes_of_build built).1 field member
    obtain ⟨item, held, showsItem⟩ := shows.fields.2 field.index decl declared describes.visible
    have value : (record.at? field.index).getD .null = item := by simp [RecordValue.at?, held]
    obtain ⟨permits, elements⟩ := permits_field may built member
    rw [value]
    refine writesAt_walkField (writesBelow_walkRecord setting room) ih describes.descriptor permits
      (fun dive dives => ⟨?_, elements dive dives⟩) showsItem record validate
    rw [describes.descriptor, ← describes.element, (FieldMetadata.dive?_eq_some dives).1]

end

end TaggedRecords
