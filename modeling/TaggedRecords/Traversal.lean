import TaggedRecords.Plan

/-!
# The traversal of a record

Visits the fields of a record in the order of their declarations, runs each field's chain of rules, enters
elements where the tag says so and nested records always, and puts the values into a document. Nested
records are entered down to a depth that is given as room left, so the traversal ends whatever values the
transformations return.
-/

namespace TaggedRecords

/-- What stays the same throughout a run. -/
structure Setting where
  registry : Registry
  maxDepth : Nat
  context : Context
  options : Options

/-! ## Places -/

/-- A name behind the path of its parent; the root has no path. -/
def joinPath (parent name : String) : String := if parent.isEmpty then name else parent ++ "." ++ name

namespace Place

/-- The root of the record. -/
def root : Place := ⟨"", "", []⟩

/-- The place of a field. -/
def field (place : Place) (name declared : String) (index : Nat) : Place :=
  ⟨joinPath place.path name, joinPath place.declaredPath declared, place.segments ++ [.field index]⟩

/-- What an element at a position is called. -/
def positionName (index : Nat) : String := "[" ++ toString index ++ "]"

/-- The place of a sequence element. -/
def item (place : Place) (index : Nat) : Place :=
  ⟨place.path ++ positionName index, place.declaredPath ++ positionName index, place.segments ++ [.index index]⟩

/-- The place of a mapping entry. -/
def entry (place : Place) (key : String) : Place :=
  ⟨joinPath place.path key, joinPath place.declaredPath key, place.segments ++ [.key key]⟩

end Place

/-! ## Chains of rules -/

/-- Whether an entry runs on a value: for this method, and on a zero value only if it asks for those. -/
def Setting.runs (setting : Setting) (entry : RuleEntry) (value : Value) : Bool :=
  entry.appliesTo setting.options.method && (!value.isZero || entry.runsOnNil || entry.required)

/-- Whether a transformation may return a value for a field of the scope's shape. -/
def Scope.allows (scope : Scope) (nullable : Bool) (value : Value) : Bool :=
  (nullable && value.isNull) || scope.descriptor.admits value

/-- Runs one entry on a scope; a changed value is written back and goes on to the next entry. -/
def runEntry (setting : Setting) (nullable : Bool) (place : Place) (scope : Scope) (entry : RuleEntry) :
    Plan Scope :=
  let scope := { scope with rule := entry.name, param := entry.param }
  .note (.ran entry scope) <|
    match entry.action with
    | .validate rule =>
      match rule.check setting.context setting.options.transaction scope with
      | .error fault => .fail fault
      | .ok true => .done scope
      | .ok false => .fail (setting.registry.failure scope)
    | .transform rule =>
      match rule.apply setting.context setting.options.transaction scope with
      | .error fault => .fail fault
      | .ok next =>
        if !scope.allows nullable next then
          .fail (.typeMismatch entry.name place.path scope.descriptor.text next.kind)
        else if next.same scope.value then .done scope
        else .write place next (.done { scope with value := next })

/-- Runs a chain on a scope and returns the value it leaves. -/
def runChain (setting : Setting) (nullable : Bool) (place : Place) : Scope → List RuleEntry → Plan Value
  | scope, [] => .done scope.value
  | scope, entry :: rest =>
    if setting.runs entry scope.value then
      (runEntry setting nullable place scope entry).bind fun scope => runChain setting nullable place scope rest
    else runChain setting nullable place scope rest

/-! ## What is emitted for a value -/

/-- How a nested record is entered; the flag says whether rules still run. -/
abbrev Nested := RecordValue → Place → Bool → Plan Document

/-- The shape of the elements to enter and the rules for each. -/
structure Dive where
  element : Descriptor
  rules : List RuleEntry

/-- A nested record is emitted as its document, any other value as it is. -/
def emit (nested : Nested) (validate : Bool) (place : Place) : Value → Plan Value
  | .record type fields => (nested ⟨type, fields⟩ place validate).bind fun document => .done (.mapping document)
  | other => .done other

/-- Visits one element: its rules run unless its path is skipped, then it is emitted. -/
def walkElement (setting : Setting) (nested : Nested) (owner : RecordValue) (dive : Dive) (validate : Bool)
    (place : Place) (name : String) (item : Value) : Plan Value :=
  let validate := validate && setting.options.validates place.path
  .note (.reached place item) <|
    if validate && !dive.rules.isEmpty then
      (runChain setting dive.element.isOptional place
        ⟨owner, name, name, place.path, place.declaredPath, item, dive.element.dereferenced, "", none⟩
        dive.rules).bind (emit nested validate place)
    else emit nested validate place item

/-- Visits the elements of a sequence from a position on. -/
def walkItems (setting : Setting) (nested : Nested) (owner : RecordValue) (dive : Dive) (validate : Bool)
    (place : Place) : Nat → List Value → Plan (List Value)
  | _, [] => .done []
  | index, item :: rest =>
    (walkElement setting nested owner dive validate (place.item index) (Place.positionName index) item).bind
      fun emitted => (walkItems setting nested owner dive validate place (index + 1) rest).bind
        fun others => .done (emitted :: others)

/-- Visits the entries of a mapping. -/
def walkEntries (setting : Setting) (nested : Nested) (owner : RecordValue) (dive : Dive) (validate : Bool)
    (place : Place) : List (String × Value) → Plan (List (String × Value))
  | [] => .done []
  | (key, item) :: rest =>
    (walkElement setting nested owner dive validate (place.entry key) key item).bind
      fun emitted => (walkEntries setting nested owner dive validate place rest).bind
        fun others => .done ((key, emitted) :: others)

/-- What is emitted for a field's value: a nested record is entered in any case, elements if asked for. -/
def finish (setting : Setting) (nested : Nested) (owner : RecordValue) (dive : Option Dive) (validate : Bool)
    (place : Place) (value : Value) : Plan Value :=
  match value, dive with
  | .sequence items, some dive =>
    (walkItems setting nested owner dive validate place 0 items).bind fun items => .done (.sequence items)
  | .mapping entries, some dive =>
    (walkEntries setting nested owner dive validate place entries).bind fun entries => .done (.mapping entries)
  | value, _ => emit nested validate place value

/-! ## Fields and records -/

/-- Whether a field's value is left out at a path. -/
def Setting.omits (setting : Setting) (field : FieldMetadata) (path : String) (value : Value) : Bool :=
  value.isZero && field.omission.appliesTo setting.options.method && !setting.options.allowsEmpty path

/-- The elements to enter, if the tag asks for it and the field has any. -/
def FieldMetadata.dive? (field : FieldMetadata) : Option Dive :=
  match field.dive, field.element with
  | true, some element => some ⟨element, field.elementRules⟩
  | _, _ => none

/-- Visits one field; nothing is returned if it is left out without a tombstone. -/
def walkField (setting : Setting) (nested : Nested) (owner : RecordValue) (field : FieldMetadata)
    (validate : Bool) (place : Place) (value : Value) : Plan (Option Value) :=
  .note (.reached place value) <|
    if setting.omits field place.path value then
      .done (if setting.options.tombstones then some .delete else none)
    else
      let validate := validate && setting.options.validates place.path
      let chained :=
        if validate then
          runChain setting field.descriptor.isOptional place
            ⟨owner, field.name, field.declared, place.path, place.declaredPath, value,
              field.descriptor.dereferenced, "", none⟩
            field.rules
        else .done value
      (chained.bind (finish setting nested owner field.dive? validate place)).bind fun emitted =>
        .done (some emitted)

/-- Visits fields in order; each emitted value goes into the document under the field's output name. -/
def walkFields (setting : Setting) (nested : Nested) (owner : RecordValue) (validate : Bool) (place : Place) :
    Document → List FieldMetadata → Plan Document
  | document, [] => .done document
  | document, field :: rest =>
    let value := (owner.at? field.index).getD .null
    (walkField setting nested owner field validate (place.field field.name field.declared field.index) value).bind
      fun emitted =>
        let document := match emitted with
          | some value => Entries.insert document field.name value
          | none => document
        walkFields setting nested owner validate place document rest

/-- Visits a record with room for so many levels, its own among them. -/
def walkRecord (setting : Setting) : Nat → Nested
  | 0, _, place, _ => .fail (.depthExceeded place.path setting.maxDepth)
  | room + 1, record, place, validate =>
    .describe record.type fun metadata =>
      walkFields setting (walkRecord setting room) record validate place [] metadata.fields

end TaggedRecords
