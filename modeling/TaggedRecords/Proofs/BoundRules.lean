import Mathlib.Data.Option.Basic
import TaggedRecords.Metadata

/-!
# Built metadata

What is known of the metadata of a record type once it is built: its fields describe visible declarations, each
its own, their rules are registered ones, and a field's metadata depends on its declaration and place alone.
-/

namespace TaggedRecords

/-- The rule stands in the registry under some name. -/
def Action.Registered (registry : Registry) : Action → Prop
  | .validate rule => ∃ name, registry.validation? name = some rule
  | .transform rule => ∃ name, registry.transformation? name = some rule

/-- The metadata describes the declaration at a place. -/
structure FieldMetadata.Describes (registry : Registry) (place : Nat) (decl : FieldDecl) (field : FieldMetadata) :
    Prop where
  index : field.index = place
  visible : decl.isHidden = false
  descriptor : field.descriptor = decl.descriptor
  element : field.element = decl.descriptor.element?
  rules : ∀ entry ∈ field.rules, entry.action.Registered registry
  elementRules : ∀ entry ∈ field.elementRules, entry.action.Registered registry

section
variable {registry : Registry}

theorem registered_of_validation {name boundTo : String} {action : Action}
    (bound : registry.boundValidation? name = some (boundTo, action)) : action.Registered registry := by
  obtain ⟨rule, found, same⟩ := Option.map_eq_some_iff.mp bound
  cases same
  exact ⟨name, found⟩

theorem registered_of_transformation {name boundTo : String} {action : Action}
    (bound : registry.boundTransformation? name = some (boundTo, action)) : action.Registered registry := by
  obtain ⟨rule, found, same⟩ := Option.map_eq_some_iff.mp bound
  cases same
  exact ⟨name, found⟩

theorem registered_of_bound {ref : RuleRef} {boundTo : String} {action : Action}
    (bound : registry.bound? ref = some (boundTo, action)) : action.Registered registry := by
  unfold Registry.bound? at bound
  dsimp only at bound
  split at bound
  · rcases (Option.orElse_eq_some _ _ _).mp bound with whole | ⟨_, base⟩
    · exact registered_of_transformation whole
    · obtain ⟨name, _, found⟩ := Option.bind_eq_some_iff.mp base
      exact registered_of_transformation found
  · rcases (Option.orElse_eq_some _ _ _).mp bound with whole | ⟨_, others⟩
    · exact registered_of_validation whole
    · rcases (Option.orElse_eq_some _ _ _).mp others with whole | ⟨_, bases⟩
      · exact registered_of_transformation whole
      · rcases (Option.orElse_eq_some _ _ _).mp bases with base | ⟨_, base⟩
        · obtain ⟨name, _, found⟩ := Option.bind_eq_some_iff.mp base
          exact registered_of_validation found
        · obtain ⟨name, _, found⟩ := Option.bind_eq_some_iff.mp base
          exact registered_of_transformation found

theorem registered_of_resolve {record field : String} {ref : RuleRef} {entry : RuleEntry}
    (resolved : registry.resolve record field ref = .ok entry) : entry.action.Registered registry := by
  unfold Registry.resolve at resolved
  dsimp only at resolved
  split at resolved
  · cases resolved
  · next boundTo action bound =>
    cases resolved
    exact registered_of_bound bound

theorem bound?_of_validation {ref : RuleRef} {rule : Validation} (free : ref.forced = false)
    (found : registry.validation? ref.name = some rule) :
    registry.bound? ref = some (ref.name, .validate rule) := by
  simp [Registry.bound?, Registry.boundValidation?, free, found]

theorem bound?_of_transformation {ref : RuleRef} {rule : Transformation} (forced : ref.forced = true)
    (found : registry.transformation? ref.name = some rule) :
    registry.bound? ref = some (ref.name, .transform rule) := by
  simp [Registry.bound?, Registry.boundTransformation?, forced, found]

/-- All rules read so far are registered. -/
def Chains.Registered (registry : Registry) (chains : Chains) : Prop :=
  (∀ entry ∈ chains.rules, entry.action.Registered registry) ∧
    ∀ entry ∈ chains.elementRules, entry.action.Registered registry

/-- A token adds to what is left out, enters the elements, or puts a rule behind those of the field or its elements. -/
theorem add_cases {record field token : String} {chains next : Chains}
    (added : chains.add registry record field token = .ok next) :
    (∃ only, Token.classify token = .omitEmpty only ∧ next = { chains with omission := chains.omission.add only }) ∨
    (Token.classify token = .dive ∧ next = { chains with dive := true }) ∨
    ∃ ref entry, Token.classify token = .rule ref ∧ registry.resolve record field ref = .ok entry ∧
      next = if chains.dive then { chains with elementRules := chains.elementRules ++ [entry] }
        else { chains with rules := chains.rules ++ [entry] } := by
  unfold Chains.add at added
  split at added
  · next only omits =>
    cases added
    exact .inl ⟨only, omits, rfl⟩
  · next dives =>
    cases added
    exact .inr (.inl ⟨dives, rfl⟩)
  · next ref names =>
    cases resolved : registry.resolve record field ref with
    | error fault => rw [resolved] at added; cases added
    | ok entry =>
      refine .inr (.inr ⟨ref, entry, names, resolved, ?_⟩)
      rw [resolved] at added
      cases dives : chains.dive <;> simp only [dives] at added <;> cases added <;> rfl

/-- All rules read so far have a property. -/
def Chains.All (P : RuleEntry → Prop) (chains : Chains) : Prop :=
  (∀ entry ∈ chains.rules, P entry) ∧ ∀ entry ∈ chains.elementRules, P entry

theorem all_add {P : RuleEntry → Prop} {record field token : String} {chains next : Chains}
    (resolves : ∀ ref entry, registry.resolve record field ref = .ok entry → P entry) (all : chains.All P)
    (added : chains.add registry record field token = .ok next) : next.All P := by
  obtain ⟨only, _, rfl⟩ | ⟨_, rfl⟩ | ⟨ref, entry, _, resolved, rfl⟩ := add_cases added
  · exact all
  · exact all
  · have behind (entries : List RuleEntry) (others : ∀ other ∈ entries, P other) :
        ∀ other ∈ entries ++ [entry], P other := by
      intro other member
      rcases List.mem_append.mp member with earlier | last
      · exact others other earlier
      · rw [List.mem_singleton.mp last]
        exact resolves ref entry resolved
    split
    · exact ⟨all.1, behind _ all.2⟩
    · exact ⟨behind _ all.1, all.2⟩

theorem all_addAll {P : RuleEntry → Prop} {record field : String} {tokens : List String}
    (resolves : ∀ ref entry, registry.resolve record field ref = .ok entry → P entry) :
    ∀ {chains read : Chains}, chains.All P → chains.addAll registry record field tokens = .ok read → read.All P := by
  induction tokens with
  | nil =>
    intro chains read all ended
    cases ended
    exact all
  | cons token rest ih =>
    intro chains read all added
    rw [Chains.addAll] at added
    cases first : chains.add registry record field token with
    | error fault => rw [first] at added; cases added
    | ok next =>
      rw [first] at added
      exact ih (all_add resolves all first) added

theorem all_empty {P : RuleEntry → Prop} : Chains.empty.All P := by
  constructor <;> intro entry member <;> cases member

theorem registered_addAll {record field : String} {tokens : List String} {chains read : Chains}
    (registered : chains.Registered registry) (added : chains.addAll registry record field tokens = .ok read) :
    read.Registered registry :=
  all_addAll (fun _ _ resolved => registered_of_resolve resolved) registered added

theorem describes_of_fieldMetadata {record : String} {place : Nat} {decl : FieldDecl} {field : FieldMetadata}
    (built : fieldMetadata registry record place decl = .ok (some field)) : field.Describes registry place decl := by
  unfold fieldMetadata at built
  split at built
  · cases built
  · next rename tokens _ =>
    split at built
    · cases built
    · next supported =>
      cases read : Chains.empty.addAll registry record decl.name tokens with
      | error fault => rw [read] at built; cases built
      | ok chains =>
        have registered : chains.Registered registry :=
          registered_addAll all_empty read
        rw [read] at built
        cases built
        exact ⟨rfl, by simp [FieldDecl.isHidden, supported], rfl, rfl, registered.1, registered.2⟩

/-- A field that has metadata is not skipped. -/
theorem shows_of_fieldMetadata {record : String} {place : Nat} {decl : FieldDecl} {field : FieldMetadata}
    (built : fieldMetadata registry record place decl = .ok (some field)) : Tag.parse decl.tag ≠ .skip := by
  intro skips
  rw [fieldMetadata, skips] at built
  cases built

theorem describes_of_fieldsMetadata {record : String} {decls : List FieldDecl} :
    ∀ {start : Nat} {fields : List FieldMetadata}, fieldsMetadata registry record start decls = .ok fields →
      (∀ field ∈ fields, ∃ place decl, decls[place]? = some decl ∧ field.Describes registry (start + place) decl) ∧
      (fields.map FieldMetadata.index).Sublist (List.range' start decls.length) := by
  induction decls with
  | nil =>
    intro start fields built
    cases built
    exact ⟨nofun, List.Sublist.refl _⟩
  | cons decl rest ih =>
    intro start fields built
    rw [fieldsMetadata] at built
    cases first : fieldMetadata registry record start decl with
    | error fault => rw [first] at built; cases built
    | ok head =>
      cases others : fieldsMetadata registry record (start + 1) rest with
      | error fault => rw [first, others] at built; cases built
      | ok tail =>
        rw [first, others] at built
        obtain ⟨described, places⟩ := ih others
        have below : ∀ field ∈ tail, ∃ place other, (decl :: rest)[place]? = some other ∧
            field.Describes registry (start + place) other := by
          intro field member
          obtain ⟨place, other, declared, describes⟩ := described field member
          exact ⟨place + 1, other, declared, by rwa [Nat.add_right_comm, Nat.add_assoc] at describes⟩
        cases head with
        | none =>
          cases built
          exact ⟨below, places.trans (List.sublist_cons_self _ _)⟩
        | some field =>
          cases built
          have describes := describes_of_fieldMetadata first
          refine ⟨fun other member => ?_, ?_⟩
          · rcases List.mem_cons.mp member with rfl | later
            · exact ⟨0, decl, rfl, describes⟩
            · exact below other later
          · rw [List.map_cons, describes.index, List.length_cons, List.range'_succ]
            exact places.cons_cons start

/-- Every field of built metadata describes the declaration at its index, which is its own. -/
theorem describes_of_build {catalog : Catalog} {type : RecordType} {metadata : RecordMetadata}
    (built : RecordMetadata.build catalog registry type = .ok metadata) :
    (∀ field ∈ metadata.fields, ∃ decl, (catalog.fields type)[field.index]? = some decl ∧
      field.Describes registry field.index decl) ∧ (metadata.fields.map FieldMetadata.index).Nodup := by
  unfold RecordMetadata.build at built
  cases read : fieldsMetadata registry type.name 0 (catalog.fields type) with
  | error fault => rw [read] at built; cases built
  | ok fields =>
    rw [read] at built
    cases built
    obtain ⟨described, places⟩ := describes_of_fieldsMetadata read
    refine ⟨fun field member => ?_, places.nodup List.nodup_range'⟩
    obtain ⟨place, decl, declared, describes⟩ := described field member
    rw [Nat.zero_add] at describes
    rw [describes.index]
    exact ⟨decl, declared, describes⟩

/-! ## Fields and their declarations -/

/-- The metadata holds a field exactly if a declaration comes to it. -/
theorem mem_fieldsMetadata_iff {record : String} {decls : List FieldDecl} {start : Nat} {fields : List FieldMetadata}
    (built : fieldsMetadata registry record start decls = .ok fields) {field : FieldMetadata} :
    field ∈ fields ↔ ∃ place decl, decls[place]? = some decl ∧
      fieldMetadata registry record (start + place) decl = .ok (some field) := by
  induction decls generalizing start fields with
  | nil =>
    cases built
    simp
  | cons decl rest ih =>
    rw [fieldsMetadata] at built
    cases first : fieldMetadata registry record start decl with
    | error fault => rw [first] at built; cases built
    | ok head =>
      cases others : fieldsMetadata registry record (start + 1) rest with
      | error fault => rw [first, others] at built; cases built
      | ok tail =>
        rw [first, others] at built
        have split : (∃ place other, (decl :: rest)[place]? = some other ∧
            fieldMetadata registry record (start + place) other = .ok (some field)) ↔
              head = some field ∨ field ∈ tail := by
          rw [ih others]
          constructor
          · rintro ⟨_ | place, other, declared, comes⟩
            · cases declared
              rw [Nat.add_zero, first] at comes
              exact .inl (Except.ok.inj comes)
            · exact .inr ⟨place, other, declared, by rwa [Nat.add_right_comm, Nat.add_assoc]⟩
          · rintro (rfl | ⟨place, other, declared, comes⟩)
            · exact ⟨0, decl, rfl, first⟩
            · exact ⟨place + 1, other, declared, by rwa [Nat.add_right_comm, Nat.add_assoc] at comes⟩
        rw [split]
        cases head with
        | none => cases built; simp
        | some other => cases built; simp [eq_comm]

theorem mem_fields_iff {catalog : Catalog} {type : RecordType} {metadata : RecordMetadata}
    (built : RecordMetadata.build catalog registry type = .ok metadata) {field : FieldMetadata} :
    field ∈ metadata.fields ↔ ∃ place decl, (catalog.fields type)[place]? = some decl ∧
      fieldMetadata registry type.name place decl = .ok (some field) := by
  unfold RecordMetadata.build at built
  cases read : fieldsMetadata registry type.name 0 (catalog.fields type) with
  | error fault => rw [read] at built; cases built
  | ok fields =>
    rw [read] at built
    cases built
    simpa only [Nat.zero_add] using mem_fieldsMetadata_iff read

/-- Every token of a tag that names a rule resolves if all tokens are taken in. -/
theorem resolves_of_addAll {record field : String} {tokens : List String} {chains read : Chains}
    (added : chains.addAll registry record field tokens = .ok read) {token : String} (member : token ∈ tokens)
    {ref : RuleRef} (names : Token.classify token = .rule ref) :
    ∃ entry, registry.resolve record field ref = .ok entry := by
  induction tokens generalizing chains with
  | nil => cases member
  | cons first rest ih =>
    rw [Chains.addAll] at added
    cases taken : chains.add registry record field first with
    | error fault => rw [taken] at added; cases added
    | ok next =>
      rw [taken] at added
      rcases List.mem_cons.mp member with rfl | later
      · obtain ⟨only, omits, _⟩ | ⟨dives, _⟩ | ⟨other, entry, alsoNames, resolved, _⟩ := add_cases taken
        · cases names.symm.trans omits
        · cases names.symm.trans dives
        · cases names.symm.trans alsoNames
          exact ⟨entry, resolved⟩
      · exact ih added later

/-- Every declaration can be read if the record type can be built. -/
theorem exists_fieldMetadata {record : String} {decls : List FieldDecl} {start : Nat} {fields : List FieldMetadata}
    (built : fieldsMetadata registry record start decls = .ok fields) {decl : FieldDecl} (member : decl ∈ decls) :
    ∃ index field?, fieldMetadata registry record index decl = .ok field? := by
  induction decls generalizing start fields with
  | nil => cases member
  | cons first rest ih =>
    rw [fieldsMetadata] at built
    cases here : fieldMetadata registry record start first with
    | error fault => rw [here] at built; cases built
    | ok field? =>
      rw [here] at built
      rcases List.mem_cons.mp member with rfl | later
      · exact ⟨start, field?, here⟩
      · cases others : fieldsMetadata registry record (start + 1) rest with
        | error fault => rw [others] at built; cases built
        | ok tail => exact ih others later

/-- Every rule of built metadata comes of a reference in a tag. -/
theorem resolved_of_build {catalog : Catalog} {type : RecordType} {metadata : RecordMetadata}
    (built : RecordMetadata.build catalog registry type = .ok metadata) {field : FieldMetadata}
    (member : field ∈ metadata.fields) {entry : RuleEntry} (among : entry ∈ field.rules ++ field.elementRules) :
    ∃ ref, registry.resolve type.name field.declared ref = .ok entry := by
  obtain ⟨place, decl, _, comes⟩ := (mem_fields_iff built).mp member
  unfold fieldMetadata at comes
  split at comes
  · cases comes
  · next rename tokens _ =>
    split at comes
    · cases comes
    · cases read : Chains.empty.addAll registry type.name decl.name tokens with
      | error fault => rw [read] at comes; cases comes
      | ok chains =>
        have all : chains.All fun entry => ∃ ref, registry.resolve type.name decl.name ref = .ok entry :=
          all_addAll (fun ref _ resolved => ⟨ref, resolved⟩) all_empty read
        rw [read] at comes
        cases comes
        rcases List.mem_append.mp among with own | element
        · exact all.1 entry own
        · exact all.2 entry element

/-! The name of the record shows in failures alone. -/

theorem resolve_of_resolve {record other field : String} {ref : RuleRef} {entry : RuleEntry}
    (resolved : registry.resolve record field ref = .ok entry) : registry.resolve other field ref = .ok entry := by
  unfold Registry.resolve at resolved ⊢
  dsimp only at resolved ⊢
  split at resolved
  · cases resolved
  · exact resolved

theorem add_of_add {record other field token : String} {chains next : Chains}
    (added : chains.add registry record field token = .ok next) : chains.add registry other field token = .ok next := by
  unfold Chains.add at added ⊢
  split at added
  · exact added
  · exact added
  · next ref _ =>
    cases resolved : registry.resolve record field ref with
    | error fault => rw [resolved] at added; cases added
    | ok entry => rwa [resolve_of_resolve resolved, ← resolved]

theorem addAll_of_addAll {record other field : String} {tokens : List String} {chains read : Chains}
    (added : chains.addAll registry record field tokens = .ok read) :
    chains.addAll registry other field tokens = .ok read := by
  induction tokens generalizing chains with
  | nil => exact added
  | cons token rest ih =>
    rw [Chains.addAll] at added ⊢
    cases first : chains.add registry record field token with
    | error fault => rw [first] at added; cases added
    | ok next =>
      rw [first] at added
      rw [add_of_add first]
      exact ih added

theorem fieldMetadata_of_fieldMetadata {record other : String} {index : Nat} {decl : FieldDecl}
    {field? : Option FieldMetadata} (built : fieldMetadata registry record index decl = .ok field?) :
    fieldMetadata registry other index decl = .ok field? := by
  unfold fieldMetadata at built ⊢
  split at built
  · exact built
  · next rename tokens _ =>
    split at built
    · cases built
    · cases read : Chains.empty.addAll registry record decl.name tokens with
      | error fault => rw [read] at built; cases built
      | ok chains => rwa [addAll_of_addAll read, ← read]

theorem fieldsMetadata_of_fieldsMetadata {record other : String} {decls : List FieldDecl} {start : Nat}
    {fields : List FieldMetadata} (built : fieldsMetadata registry record start decls = .ok fields) :
    fieldsMetadata registry other start decls = .ok fields := by
  induction decls generalizing start fields with
  | nil => exact built
  | cons decl rest ih =>
    rw [fieldsMetadata] at built ⊢
    cases first : fieldMetadata registry record start decl with
    | error fault => rw [first] at built; cases built
    | ok field? =>
      rw [first] at built
      rw [fieldMetadata_of_fieldMetadata first]
      cases later : fieldsMetadata registry record (start + 1) rest with
      | error fault => rw [later] at built; cases built
      | ok tail => rwa [ih later, ← later]

/-- What a type declares stands in a schema of the catalog, or is nothing. -/
theorem fields_cases (catalog : Catalog) (type : RecordType) :
    catalog.fields type = [] ∨ ∃ schema ∈ catalog.schemas, catalog.fields type = schema.fields := by
  unfold Catalog.fields
  cases found : catalog.schemas[type.id.place]? with
  | none => exact .inl rfl
  | some schema => exact .inr ⟨schema, List.mem_of_getElem? found, rfl⟩

/-- Every record type can be built if all schemas of the catalog can. -/
theorem exists_build {catalog : Catalog}
    (all : ∀ schema ∈ catalog.schemas, (fieldsMetadata registry schema.name 0 schema.fields).isOk = true)
    (type : RecordType) : ∃ metadata, RecordMetadata.build catalog registry type = .ok metadata := by
  rw [RecordMetadata.build]
  rcases fields_cases catalog type with none | ⟨schema, member, same⟩
  · rw [none]
    exact ⟨_, rfl⟩
  · have passes := all schema member
    cases built : fieldsMetadata registry schema.name 0 schema.fields with
    | error fault => rw [built] at passes; cases passes
    | ok fields =>
      rw [same, fieldsMetadata_of_fieldsMetadata built]
      exact ⟨_, rfl⟩

end

end TaggedRecords
