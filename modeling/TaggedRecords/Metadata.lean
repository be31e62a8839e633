import TaggedRecords.BuiltIns

/-!
# Metadata of record types

What the tags of a record type come to once every rule name is bound to a rule, field by field, and
the cache that keeps the metadata of the types met so far.
-/

namespace TaggedRecords

/-- The rule that an entry runs. -/
inductive Action where
  | validate (rule : Validation)
  | transform (rule : Transformation)

namespace Action

/-- Whether the rule runs on zero values too. -/
def runsOnNil : Action → Bool
  | validate rule => rule.runsOnNil
  | transform rule => rule.runsOnNil

/-- Whether the rule is a transformation. -/
def isTransform : Action → Bool
  | validate _ => false
  | transform _ => true

end Action

/-- One rule of a chain. -/
structure RuleEntry where
  /-- The rule's name without the method it is restricted to. -/
  name : String
  /-- The name under which the rule was found. -/
  boundTo : String
  param : Option String
  action : Action
  runsOnNil : Bool
  /-- The method that the entry is restricted to. -/
  method : Option Method
  /-- Runs on zero values because it wants a value to be there. -/
  required : Bool

/-- Whether the entry runs for a method. -/
def RuleEntry.appliesTo (entry : RuleEntry) (method : Method) : Bool :=
  match entry.method with
  | some only => decide (only = method)
  | none => true

/-- What a run needs to know about one field. -/
structure FieldMetadata where
  /-- The field's place among the declarations. -/
  index : Nat
  /-- The output name. -/
  name : String
  /-- The declared name. -/
  declared : String
  descriptor : Descriptor
  /-- The shape of the elements, if there are any. -/
  element : Option Descriptor
  omission : OmitPolicy
  /-- Whether the elements are entered. -/
  dive : Bool
  rules : List RuleEntry
  /-- The rules for each element. -/
  elementRules : List RuleEntry

/-- What a run needs to know about a record type: its fields that are not skipped, in order. -/
structure RecordMetadata where
  record : String
  fields : List FieldMetadata

/-- The first field with an output name. -/
def RecordMetadata.field? (metadata : RecordMetadata) (name : String) : Option FieldMetadata :=
  metadata.fields.find? fun field => field.name == name

/-! ## Binding rule names -/

/-- The validation under a name, with that name. -/
def Registry.boundValidation? (registry : Registry) (name : String) : Option (String × Action) :=
  (registry.validation? name).map fun rule => (name, .validate rule)

/-- The transformation under a name, with that name. -/
def Registry.boundTransformation? (registry : Registry) (name : String) : Option (String × Action) :=
  (registry.transformation? name).map fun rule => (name, .transform rule)

/-- The rule that a reference means: under the whole name first, then under the name without a method, each
time a validation before a transformation, unless a transformation is asked for. -/
def Registry.bound? (registry : Registry) (ref : RuleRef) : Option (String × Action) :=
  let base := (Method.splitSuffix? ref.name).map Prod.fst
  if ref.forced then
    registry.boundTransformation? ref.name <|> base.bind registry.boundTransformation?
  else
    registry.boundValidation? ref.name <|> registry.boundTransformation? ref.name <|>
      base.bind registry.boundValidation? <|> base.bind registry.boundTransformation?

/-- The chain entry for a rule reference on a field of a record. -/
def Registry.resolve (registry : Registry) (record field : String) (ref : RuleRef) : Except Fault RuleEntry :=
  let base := ((Method.splitSuffix? ref.name).map Prod.fst).getD ref.name
  match registry.bound? ref with
  | none => .error (.unknownRule record field ref.name)
  | some (boundTo, action) => .ok {
      name := base
      boundTo := boundTo
      param := ref.param
      action := action
      runsOnNil := action.runsOnNil
      method := (Method.splitSuffix? ref.name).map Prod.snd
      required := !action.isTransform && base == BuiltIns.requiredName }

/-! ## Reading tags -/

/-- What the tokens of a tag come to. -/
structure Chains where
  omission : OmitPolicy
  dive : Bool
  rules : List RuleEntry
  elementRules : List RuleEntry

/-- No token at all. -/
def Chains.empty : Chains := ⟨.none, false, [], []⟩

/-- Takes one token in; a rule belongs to the elements once they are entered. -/
def Chains.add (registry : Registry) (record field : String) (chains : Chains) (token : String) :
    Except Fault Chains :=
  match Token.classify token with
  | .omitEmpty method => .ok { chains with omission := chains.omission.add method }
  | .dive => .ok { chains with dive := true }
  | .rule ref => do
    let entry ← registry.resolve record field ref
    if chains.dive then return { chains with elementRules := chains.elementRules ++ [entry] }
    else return { chains with rules := chains.rules ++ [entry] }

/-- Takes tokens in order up to the first that names no rule. -/
def Chains.addAll (registry : Registry) (record field : String) (chains : Chains) :
    List String → Except Fault Chains
  | [] => .ok chains
  | token :: rest => do
    let next ← chains.add registry record field token
    next.addAll registry record field rest

/-- The metadata of the field declared at a place, or none if its tag skips it. -/
def fieldMetadata (registry : Registry) (record : String) (index : Nat) (decl : FieldDecl) :
    Except Fault (Option FieldMetadata) :=
  match Tag.parse decl.tag with
  | .skip => .ok none
  | .field rename tokens =>
    match decl.descriptor.unsupportedKind? with
    | some kind => .error (.unsupportedFieldType record decl.name kind)
    | none => do
      let chains ← Chains.empty.addAll registry record decl.name tokens
      return some {
        index := index
        name := rename.getD decl.name
        declared := decl.name
        descriptor := decl.descriptor
        element := decl.descriptor.element?
        omission := chains.omission
        dive := chains.dive
        rules := chains.rules
        elementRules := chains.elementRules }

/-- The metadata of the fields from a place on, up to the first that fails. -/
def fieldsMetadata (registry : Registry) (record : String) :
    Nat → List FieldDecl → Except Fault (List FieldMetadata)
  | _, [] => .ok []
  | index, decl :: rest => do
    let field ← fieldMetadata registry record index decl
    let fields ← fieldsMetadata registry record (index + 1) rest
    match field with
    | some field => return field :: fields
    | none => return fields

/-- The metadata of a record type. -/
def RecordMetadata.build (catalog : Catalog) (registry : Registry) (type : RecordType) :
    Except Fault RecordMetadata := do
  let fields ← fieldsMetadata registry type.name 0 (catalog.fields type)
  return ⟨type.name, fields⟩

/-! ## The cache -/

/-- The metadata built so far, by record type. -/
structure MetadataCache where
  entries : List (RecordType × RecordMetadata)

namespace MetadataCache

/-- Nothing built yet. -/
def empty : MetadataCache := ⟨[]⟩

/-- The metadata kept for a type. -/
def get? (cache : MetadataCache) (type : RecordType) : Option RecordMetadata := cache.entries.lookup type

/-- How many types have metadata. -/
def size (cache : MetadataCache) : Nat := cache.entries.length

/-- The metadata of a type, from the cache or built and then kept. A failure keeps nothing. -/
def getOrBuild (catalog : Catalog) (registry : Registry) (cache : MetadataCache) (type : RecordType) :
    Except Fault RecordMetadata × MetadataCache :=
  match cache.get? type with
  | some metadata => (.ok metadata, cache)
  | none =>
    match RecordMetadata.build catalog registry type with
    | .ok metadata => (.ok metadata, ⟨(type, metadata) :: cache.entries⟩)
    | .error fault => (.error fault, cache)

end MetadataCache

end TaggedRecords
