import TaggedRecords.Proofs.RuleReferences

/-!
# Tags specialised to a method

What a tag tells one method: restrictions to that method are dropped, and tokens that are restricted to another one
are left out. The metadata of the tags so specialised are those of the tags, with the rules that apply to the method and
no restrictions, if no name of a rule looks restricted that is not.
-/

namespace TaggedRecords

/-! ## Tokens, tags and declarations -/

/-- What a token tells a method: not that it is restricted to it, and nothing if it is restricted to another one. -/
def Token.specialised? (method : Method) : Token → Option Token
  | .dive => some .dive
  | .omitEmpty none => some (.omitEmpty none)
  | .omitEmpty (some only) => if only = method then some (.omitEmpty none) else none
  | .rule ref =>
    match Method.splitSuffix? ref.name with
    | some (base, only) => if only = method then some (.rule { ref with name := base }) else none
    | none => some (.rule ref)

/-- The output name in a tag and what its tokens mean; nothing if the tag skips the field. -/
def Tag.read (tag : String) : Option (Option String × List Token) :=
  match Tag.parse tag with
  | .skip => none
  | .field rename tokens => some (rename, tokens.map Token.classify)

/-- A declaration of the same data whose tag tells all methods what the other tells one. -/
structure FieldDecl.Specialises (method : Method) (decl other : FieldDecl) : Prop where
  name : other.name = decl.name
  type : other.type = decl.type
  tag : Tag.read other.tag =
    (Tag.read decl.tag).map fun read => (read.1, read.2.filterMap (Token.specialised? method))

/-- All declarations of the other catalog are specialised. -/
def Catalog.Specialises (method : Method) (catalog other : Catalog) : Prop :=
  ∀ type, List.Forall₂ (FieldDecl.Specialises method) (catalog.fields type) (other.fields type)

/-- The tag written anew for one method. -/
def Tag.specialised (method : Method) (tag : String) : String :=
  match Tag.read tag with
  | some (rename, tokens) => Tag.written rename ((tokens.filterMap (Token.specialised? method)).map Token.text)
  | none => tag

/-- The record types with their tags written anew for one method. -/
def Catalog.specialised (method : Method) (catalog : Catalog) : Catalog :=
  ⟨catalog.schemas.map fun schema =>
    { schema with fields := schema.fields.map fun decl => { decl with tag := Tag.specialised method decl.tag } }⟩

/-! ## Metadata -/

/-- The entry without its restriction. -/
def RuleEntry.unrestricted (entry : RuleEntry) : RuleEntry := { entry with boundTo := entry.name, method := none }

/-- The entries that apply to a method, without their restrictions. -/
def specialisedRules (method : Method) (entries : List RuleEntry) : List RuleEntry :=
  (entries.filter fun entry => entry.appliesTo method).map RuleEntry.unrestricted

/-- Leaves out always what the policy leaves out for a method. -/
def OmitPolicy.specialised (method : Method) (policy : OmitPolicy) : OmitPolicy :=
  ⟨policy.appliesTo method, false, false, false⟩

/-- What the chains come to for one method. -/
def Chains.specialised (method : Method) (chains : Chains) : Chains where
  omission := chains.omission.specialised method
  dive := chains.dive
  rules := specialisedRules method chains.rules
  elementRules := specialisedRules method chains.elementRules

/-- What a field comes to for one method. -/
def FieldMetadata.specialised (method : Method) (field : FieldMetadata) : FieldMetadata :=
  { field with
    omission := field.omission.specialised method
    rules := specialisedRules method field.rules
    elementRules := specialisedRules method field.elementRules }

/-- What a record type comes to for one method. -/
def RecordMetadata.specialised (method : Method) (metadata : RecordMetadata) : RecordMetadata :=
  ⟨metadata.record, metadata.fields.map (FieldMetadata.specialised method)⟩

/-! ## Registries -/

namespace Registry

/-- The registry comes of one with no rules or of that of the built-in rules, by any calls. -/
def Made (registry : Registry) : Prop :=
  ∃ calls, registry = empty.after calls ∨ registry = withBuiltIns.after calls

/-- A rule stands under the name that is not built in. -/
def UserNamed (registry : Registry) (name : String) : Prop :=
  (∃ rule, Entries.get? registry.validations name = some ⟨rule, false⟩) ∨
    ∃ rule, Entries.get? registry.transformations name = some ⟨rule, false⟩

/-- Names under which rules stand can be written, and one that looks restricted to a method means the same without
that. -/
structure Specialisable (registry : Registry) : Prop where
  nameable : ∀ name, registry.Holds name → Nameable name
  unforced : ∀ name, registry.Holds name → name ≠ "transform"
  restricted : ∀ name base method, Method.splitSuffix? name = some (base, method) → registry.Holds name →
    (∃ rule, registry.validation? name = some rule ∧ registry.validation? base = some rule) ∧
      registry.transformation? name = none

theorem holds_cases {registry : Registry} {name : String} (holds : registry.Holds name) :
    registry.UserNamed name ∨ registry.isBuiltIn name = true := by
  rcases holds with holds | holds
  · obtain ⟨⟨rule, builtIn⟩, found⟩ := Option.ne_none_iff_exists'.mp holds
    cases builtIn with
    | false => exact .inl (.inl ⟨rule, found⟩)
    | true => exact .inr (by simp [isBuiltIn, found])
  · obtain ⟨⟨rule, builtIn⟩, found⟩ := Option.ne_none_iff_exists'.mp holds
    cases builtIn with
    | false => exact .inl (.inr ⟨rule, found⟩)
    | true => exact .inr (by simp [isBuiltIn, found])

theorem holds_of_isBuiltIn {registry : Registry} {name : String} (builtIn : registry.isBuiltIn name = true) :
    registry.Holds name := by
  by_contra nothing
  obtain ⟨noValidation, noTransformation⟩ := not_or.mp nothing
  rw [isBuiltIn, not_not.mp noValidation, not_not.mp noTransformation] at builtIn
  cases builtIn

/-- Of the built-in names only those of the rule that wants a value look restricted. -/
theorem restricted_withBuiltIns {name : String} (holds : withBuiltIns.Holds name) :
    name ≠ "transform" ∧ ∀ base method, Method.splitSuffix? name = some (base, method) →
      base = BuiltIns.requiredName := by
  have facts : ∀ name ∈ Entries.keys withBuiltIns.validations ++ Entries.keys withBuiltIns.transformations,
      name ≠ "transform" ∧ (Method.splitSuffix? name).all (fun split => split.1 == BuiltIns.requiredName) = true := by
    decide
  have member : name ∈ Entries.keys withBuiltIns.validations ++ Entries.keys withBuiltIns.transformations := by
    rcases holds with held | held
    · exact List.mem_append_left _ (not_not.mp fun absent => held (Entries.get?_eq_none_iff.mpr absent))
    · exact List.mem_append_right _ (not_not.mp fun absent => held (Entries.get?_eq_none_iff.mpr absent))
  obtain ⟨unforced, named⟩ := facts name member
  refine ⟨unforced, fun base method split => ?_⟩
  rw [split] at named
  exact eq_of_beq named

theorem Made.specialisable {registry : Registry} (made : registry.Made)
    (unsuffixed : ∀ name, registry.UserNamed name → Method.splitSuffix? name = none ∧ name ≠ "transform") :
    registry.Specialisable := by
  obtain ⟨calls, rfl | rfl⟩ := made
  · have users {name : String} (holds : (empty.after calls).Holds name) : (empty.after calls).UserNamed name := by
      refine (holds_cases holds).resolve_right ?_
      rw [isBuiltIn_after]
      exact Bool.false_ne_true
    have nothing (name : String) : ¬ empty.Holds name := fun holds => holds.elim (· rfl) (· rfl)
    refine ⟨nameable_after (fun name holds => absurd holds (nothing name)) calls,
      fun name holds => (unsuffixed name (users holds)).2, fun name base method split holds => ?_⟩
    cases split.symm.trans (unsuffixed name (users holds)).1
  · have origin {name : String} (holds : (withBuiltIns.after calls).Holds name) :
        (withBuiltIns.after calls).UserNamed name ∨ withBuiltIns.Holds name := by
      refine (holds_cases holds).imp_right fun builtIn => holds_of_isBuiltIn ?_
      rwa [isBuiltIn_after] at builtIn
    refine ⟨nameable_after nameable_withBuiltIns calls, fun name holds => ?_, fun name base method split holds => ?_⟩
    · exact (origin holds).elim (fun user => (unsuffixed name user).2)
        fun builtIn => (restricted_withBuiltIns builtIn).1
    · rcases origin holds with user | builtIn
      · cases split.symm.trans (unsuffixed name user).1
      · have same := (restricted_withBuiltIns builtIn).2 base method split
        have start : ((Method.splitSuffix? name).map Prod.fst).getD name = BuiltIns.requiredName := by
          rw [split]
          exact same
        obtain ⟨whole, nothing, -⟩ := (keepsBuiltIns_after calls).required start
        obtain ⟨plain, -, -⟩ := (keepsBuiltIns_after calls).required
          (show ((Method.splitSuffix? BuiltIns.requiredName).map Prod.fst).getD _ = BuiltIns.requiredName by decide)
        exact ⟨⟨_, whole, same ▸ plain⟩, nothing⟩

/-! ## Bound references -/

/-- The rule under one name, a transformation if one is asked for. -/
def boundAs? (registry : Registry) (forced : Bool) (name : String) : Option (String × Action) :=
  if forced then registry.boundTransformation? name
  else registry.boundValidation? name <|> registry.boundTransformation? name

theorem bound?_eq (registry : Registry) (ref : RuleRef) :
    registry.bound? ref = (registry.boundAs? ref.forced ref.name <|>
      (Method.splitSuffix? ref.name).bind fun split => registry.boundAs? ref.forced split.1) := by
  unfold bound? boundAs?
  cases ref.forced <;> cases Method.splitSuffix? ref.name <;> simp [Option.or_assoc]

theorem holds_of_boundAs {registry : Registry} {forced : Bool} {name boundTo : String} {action : Action}
    (bound : registry.boundAs? forced name = some (boundTo, action)) : boundTo = name ∧ registry.Holds name := by
  have transforms (found : registry.boundTransformation? name = some (boundTo, action)) :
      boundTo = name ∧ registry.Holds name := by
    obtain ⟨rule, held, same⟩ := Option.map_eq_some_iff.mp found
    cases same
    exact ⟨rfl, .inr fun nothing => by simp [transformation?, nothing] at held⟩
  unfold boundAs? at bound
  split at bound
  · exact transforms bound
  · rcases (Option.orElse_eq_some _ _ _).mp bound with found | ⟨_, found⟩
    · obtain ⟨rule, held, same⟩ := Option.map_eq_some_iff.mp found
      cases same
      exact ⟨rfl, .inl fun nothing => by simp [validation?, nothing] at held⟩
    · exact transforms found

variable {registry : Registry} {record field : String} {ref : RuleRef} {entry : RuleEntry}

theorem resolve_eq_ok_iff : registry.resolve record field ref = .ok entry ↔
    ∃ boundTo action, registry.bound? ref = some (boundTo, action) ∧ entry = {
      name := ((Method.splitSuffix? ref.name).map Prod.fst).getD ref.name
      boundTo := boundTo
      param := ref.param
      action := action
      runsOnNil := action.runsOnNil
      method := (Method.splitSuffix? ref.name).map Prod.snd
      required := !action.isTransform &&
        ((Method.splitSuffix? ref.name).map Prod.fst).getD ref.name == BuiltIns.requiredName } := by
  unfold resolve
  cases bound : registry.bound? ref with
  | none => simp
  | some found =>
    obtain ⟨boundTo, action⟩ := found
    simp [eq_comm]

/-- A reference that does not look restricted resolves to an entry without restriction. -/
theorem resolve_plain (plain : Method.splitSuffix? ref.name = none)
    (resolved : registry.resolve record field ref = .ok entry) :
    entry.unrestricted = entry ∧ entry.method = none ∧ registry.Holds ref.name := by
  obtain ⟨boundTo, action, bound, rfl⟩ := resolve_eq_ok_iff.mp resolved
  rw [bound?_eq, plain] at bound
  obtain ⟨rfl, holds⟩ := holds_of_boundAs (show registry.boundAs? _ _ = _ by simpa using bound)
  rw [plain]
  exact ⟨rfl, rfl, holds⟩

/-- A reference that looks restricted resolves to a restricted entry, and without that to the same one, unrestricted. -/
theorem Specialisable.resolve_restricted (specialisable : registry.Specialisable) {base : String} {only : Method}
    (split : Method.splitSuffix? ref.name = some (base, only)) (single : Method.splitSuffix? base = none)
    (resolved : registry.resolve record field ref = .ok entry) :
    registry.resolve record field { ref with name := base } = .ok entry.unrestricted ∧ entry.method = some only ∧
      registry.Holds base := by
  obtain ⟨boundTo, action, bound, rfl⟩ := resolve_eq_ok_iff.mp resolved
  have under : registry.boundAs? ref.forced base = some (base, action) := by
    rw [bound?_eq, split] at bound
    rcases (Option.orElse_eq_some _ _ _).mp bound with whole | ⟨_, start⟩
    · obtain ⟨⟨rule, named, alsoNamed⟩, nothing⟩ :=
        specialisable.restricted ref.name base only split (holds_of_boundAs whole).2
      cases forced : ref.forced with
      | true => simp [boundAs?, forced, boundTransformation?, nothing] at whole
      | false =>
        simp only [boundAs?, forced, boundValidation?, named, Option.map_some, Bool.false_eq_true, if_false] at whole
        cases whole
        simp [boundAs?, boundValidation?, alsoNamed]
    · obtain ⟨rfl, -⟩ := holds_of_boundAs start
      exact start
  refine ⟨resolve_eq_ok_iff.mpr ⟨base, action, ?_, ?_⟩, ?_, (holds_of_boundAs under).2⟩
  · rw [bound?_eq, under]
    rfl
  · rw [split, single]
    rfl
  · rw [split]
    rfl

end Registry

/-! ## Chains -/

/-- No rule that the token names is restricted to two methods. -/
def Token.SingleSuffix : Token → Prop
  | .rule ref => ∀ split ∈ Method.splitSuffix? ref.name, Method.splitSuffix? split.1 = none
  | .omitEmpty _ => True
  | .dive => True

instance : DecidablePred Token.SingleSuffix
  | .rule ref => inferInstanceAs (Decidable (∀ split ∈ Method.splitSuffix? ref.name, _))
  | .omitEmpty _ => inferInstanceAs (Decidable True)
  | .dive => inferInstanceAs (Decidable True)

section
variable {registry : Registry} {record field : String} {method : Method}

theorem specialisedRules_concat (entries : List RuleEntry) (entry : RuleEntry) :
    specialisedRules method (entries ++ [entry]) =
      if entry.appliesTo method then specialisedRules method entries ++ [entry.unrestricted]
      else specialisedRules method entries := by
  rw [specialisedRules, List.filter_append, List.map_append]
  cases applies : entry.appliesTo method <;> simp [specialisedRules, applies]

theorem OmitPolicy.specialised_add_always (policy : OmitPolicy) :
    (policy.add .none).specialised method = (policy.specialised method).add .none := by
  cases method <;> simp [OmitPolicy.specialised, OmitPolicy.add, OmitPolicy.appliesTo]

theorem OmitPolicy.specialised_add_only (policy : OmitPolicy) (only : Method) :
    (policy.add (some only)).specialised method =
      if only = method then (policy.specialised method).add .none else policy.specialised method := by
  cases method <;> cases only <;> simp [OmitPolicy.specialised, OmitPolicy.add, OmitPolicy.appliesTo]

/-- Puts an entry behind the rules of the field, or of its elements once these are entered. -/
def Chains.put (chains : Chains) (entry : RuleEntry) : Chains :=
  if chains.dive then { chains with elementRules := chains.elementRules ++ [entry] }
  else { chains with rules := chains.rules ++ [entry] }

theorem Chains.specialised_put (chains : Chains) (entry : RuleEntry) :
    (chains.put entry).specialised method =
      if entry.appliesTo method then (chains.specialised method).put entry.unrestricted
      else chains.specialised method := by
  unfold Chains.put Chains.specialised
  cases chains.dive <;> cases applies : entry.appliesTo method <;> simp [specialisedRules_concat, applies]

theorem add_rule {token : String} {chains : Chains} {ref : RuleRef} {entry : RuleEntry}
    (names : Token.classify token = .rule ref) (resolved : registry.resolve record field ref = .ok entry) :
    chains.add registry record field token = .ok (chains.put entry) := by
  rw [Chains.add, names]
  dsimp only
  rw [resolved, Chains.put]
  cases chains.dive <;> rfl

/-- A token that tells the method nothing changes nothing for it, and any other changes what the one that tells the
same without restrictions does. -/
theorem Registry.Specialisable.add_specialised (specialisable : registry.Specialisable) {token : String}
    {chains next : Chains} (single : (Token.classify token).SingleSuffix)
    (added : chains.add registry record field token = .ok next) :
    ((Token.classify token).specialised? method = none → next.specialised method = chains.specialised method) ∧
    ∀ other, (Token.classify token).specialised? method = some (Token.classify other) →
      (chains.specialised method).add registry record field other = .ok (next.specialised method) := by
  obtain ⟨only, omits, rfl⟩ | ⟨dives, rfl⟩ | ⟨ref, entry, names, resolved, same⟩ := add_cases added
  · rw [omits]
    cases only with
    | none =>
      refine ⟨fun nothing => (by cases nothing), fun other means => ?_⟩
      have alike : Token.classify other = .omitEmpty none := (Option.some.inj means).symm
      rw [Chains.add, alike]
      simp only [Chains.specialised, OmitPolicy.specialised_add_always]
    | some only =>
      rw [Token.specialised?]
      by_cases same : only = method
      · rw [if_pos same]
        refine ⟨fun nothing => (by cases nothing), fun other means => ?_⟩
        have alike : Token.classify other = .omitEmpty none := (Option.some.inj means).symm
        rw [Chains.add, alike]
        simp only [Chains.specialised, OmitPolicy.specialised_add_only, if_pos same]
      · rw [if_neg same]
        refine ⟨fun _ => ?_, fun other means => by cases means⟩
        simp only [Chains.specialised, OmitPolicy.specialised_add_only, if_neg same]
  · rw [dives]
    refine ⟨fun nothing => (by cases nothing), fun other means => ?_⟩
    have alike : Token.classify other = .dive := (Option.some.inj means).symm
    rw [Chains.add, alike]
    rfl
  · have put : next = chains.put entry := same
    subst put
    rw [names] at single
    rw [names, Token.specialised?, Chains.specialised_put]
    cases split : Method.splitSuffix? ref.name with
    | none =>
      obtain ⟨alike, always, -⟩ := Registry.resolve_plain split resolved
      have applies : entry.appliesTo method = true := by rw [RuleEntry.appliesTo, always]
      rw [if_pos applies, alike]
      refine ⟨fun nothing => (by cases nothing), fun other means => ?_⟩
      exact add_rule (Option.some.inj means).symm resolved
    | some found =>
      obtain ⟨base, only⟩ := found
      obtain ⟨alike, restricted, -⟩ :=
        specialisable.resolve_restricted split (single (base, only) split) resolved
      have applies : entry.appliesTo method = decide (only = method) := by rw [RuleEntry.appliesTo, restricted]
      dsimp only
      by_cases same : only = method
      · rw [if_pos same, applies, if_pos (decide_eq_true same)]
        refine ⟨fun nothing => (by cases nothing), fun other means => ?_⟩
        exact add_rule (Option.some.inj means).symm alike
      · rw [if_neg same, applies, if_neg (by simpa using same)]
        exact ⟨fun _ => rfl, fun other means => by cases means⟩

/-- Tokens that say for all methods what others say to one come for all methods to what those come to for it. -/
theorem Registry.Specialisable.addAll_specialised (specialisable : registry.Specialisable) {tokens others : List String}
    (single : ∀ token ∈ tokens, (Token.classify token).SingleSuffix)
    (means : others.map Token.classify = (tokens.map Token.classify).filterMap (Token.specialised? method))
    {chains read : Chains} (added : chains.addAll registry record field tokens = .ok read) :
    (chains.specialised method).addAll registry record field others = .ok (read.specialised method) := by
  induction tokens generalizing chains others with
  | nil =>
    cases added
    rw [List.map_eq_nil_iff.mp means]
    rfl
  | cons token rest ih =>
    obtain ⟨here, below⟩ := List.forall_mem_cons.mp single
    rw [Chains.addAll] at added
    cases first : chains.add registry record field token with
    | error fault => rw [first] at added; cases added
    | ok next =>
      rw [first] at added
      obtain ⟨silent, alike⟩ : ((Token.classify token).specialised? method = none → _) ∧ _ :=
        specialisable.add_specialised here first
      rw [List.map_cons] at means
      cases said : (Token.classify token).specialised? method with
      | none =>
        rw [List.filterMap_cons_none said] at means
        rw [← silent said]
        exact ih below means added
      | some new =>
        rw [List.filterMap_cons_some said] at means
        obtain ⟨other, others, rfl, rfl, meansBelow⟩ := List.map_eq_cons_iff.mp means
        rw [Chains.addAll, alike other said]
        exact ih below meansBelow added

/-! ## Metadata of declarations -/

/-- No rule of the field is restricted to two methods. -/
def FieldDecl.SinglySuffixed (decl : FieldDecl) : Prop :=
  ∀ read ∈ Tag.read decl.tag, ∀ token ∈ read.2, token.SingleSuffix

instance : DecidablePred FieldDecl.SinglySuffixed := fun decl =>
  inferInstanceAs (Decidable (∀ read ∈ Tag.read decl.tag, ∀ token ∈ read.2, token.SingleSuffix))

theorem read_eq_none_iff {tag : String} : Tag.read tag = none ↔ Tag.parse tag = .skip := by
  unfold Tag.read
  cases Tag.parse tag <;> simp

theorem read_eq_some_iff {tag : String} {rename : Option String} {meanings : List Token} :
    Tag.read tag = some (rename, meanings) ↔
      ∃ tokens, Tag.parse tag = .field rename tokens ∧ tokens.map Token.classify = meanings := by
  unfold Tag.read
  cases Tag.parse tag with
  | skip => simp
  | field given tokens => simp [and_assoc]

theorem Registry.Specialisable.field_specialised (specialisable : registry.Specialisable) {index : Nat}
    {decl other : FieldDecl} (alike : decl.Specialises method other) (single : decl.SinglySuffixed)
    {field? : Option FieldMetadata} (built : fieldMetadata registry record index decl = .ok field?) :
    fieldMetadata registry record index other = .ok (field?.map (FieldMetadata.specialised method)) := by
  have descriptor : other.descriptor = decl.descriptor := congrArg FieldType.descriptor alike.type
  rw [fieldMetadata] at built
  cases parsed : Tag.parse decl.tag with
  | skip =>
    have skips : Tag.parse other.tag = .skip := by
      rw [← read_eq_none_iff, alike.tag, read_eq_none_iff.mpr parsed]
      rfl
    rw [parsed] at built
    cases built
    rw [fieldMetadata, skips]
    rfl
  | field rename tokens =>
    have meanings : Tag.read decl.tag = some (rename, tokens.map Token.classify) := by rw [Tag.read, parsed]
    have specialised := alike.tag
    rw [meanings] at specialised
    obtain ⟨others, alsoParsed, means⟩ := read_eq_some_iff.mp specialised
    rw [parsed] at built
    rw [fieldMetadata, alsoParsed]
    dsimp only at built ⊢
    rw [descriptor, alike.name]
    cases supported : decl.descriptor.unsupportedKind? with
    | some kind => rw [supported] at built; cases built
    | none =>
      rw [supported] at built
      dsimp only at built ⊢
      cases read : Chains.empty.addAll registry record decl.name tokens with
      | error fault => rw [read] at built; cases built
      | ok chains =>
        have alsoRead : Chains.empty.addAll registry record decl.name others = .ok (chains.specialised method) := by
          have start : Chains.empty.specialised method = Chains.empty := by cases method <;> rfl
          rw [← start]
          refine specialisable.addAll_specialised (fun token member => ?_) means read
          exact single _ meanings _ (List.mem_map_of_mem member)
        rw [read] at built
        cases built
        rw [alsoRead]
        rfl

theorem Registry.Specialisable.fields_specialised (specialisable : registry.Specialisable)
    {decls others : List FieldDecl} (alike : List.Forall₂ (FieldDecl.Specialises method) decls others)
    (single : ∀ decl ∈ decls, decl.SinglySuffixed) {start : Nat} {fields : List FieldMetadata}
    (built : fieldsMetadata registry record start decls = .ok fields) :
    fieldsMetadata registry record start others = .ok (fields.map (FieldMetadata.specialised method)) := by
  induction alike generalizing start fields with
  | nil =>
    cases built
    rfl
  | @cons decl other rest others here _ ih =>
    obtain ⟨singleHere, below⟩ := List.forall_mem_cons.mp single
    rw [fieldsMetadata] at built
    cases first : fieldMetadata registry record start decl with
    | error fault => rw [first] at built; cases built
    | ok field? =>
      rw [first] at built
      cases later : fieldsMetadata registry record (start + 1) rest with
      | error fault => rw [later] at built; cases built
      | ok behind =>
        rw [later] at built
        rw [fieldsMetadata, specialisable.field_specialised here singleHere first, ih below later]
        cases field? with
        | none => cases built; rfl
        | some field => cases built; rfl

/-- The metadata of a specialised record type are the specialised ones. -/
theorem Registry.Specialisable.build_specialised (specialisable : registry.Specialisable) {catalog other : Catalog}
    (alike : catalog.Specialises method other) {type : RecordType}
    (single : ∀ decl ∈ catalog.fields type, decl.SinglySuffixed) {metadata : RecordMetadata}
    (built : RecordMetadata.build catalog registry type = .ok metadata) :
    RecordMetadata.build other registry type = .ok (metadata.specialised method) := by
  rw [RecordMetadata.build] at built
  cases read : fieldsMetadata registry type.name 0 (catalog.fields type) with
  | error fault => rw [read] at built; cases built
  | ok fields =>
    rw [read] at built
    cases built
    rw [RecordMetadata.build, specialisable.fields_specialised (alike type) single read]
    rfl

/-! ## Tags written anew -/

/-- A token that tells a method something does it in a text of its own, if the rule that it names is there. -/
theorem Registry.Specialisable.text_specialised (specialisable : registry.Specialisable) {token : String}
    (piece : IsPiece token) (single : (Token.classify token).SingleSuffix)
    (resolves : ∀ ref, Token.classify token = .rule ref → ∃ entry, registry.resolve record field ref = .ok entry)
    {new : Token} (means : (Token.classify token).specialised? method = some new) :
    IsPiece new.text ∧ Token.classify new.text = new := by
  have marks : IsPiece diveMark ∧ IsPiece omitMark := by
    refine ⟨⟨by decide, ?_, by decide⟩, ⟨by decide, ?_, by decide⟩⟩ <;> unfold Trimmed <;> decide
  have always : IsPiece (Token.omitEmpty none).text ∧ Token.classify (Token.omitEmpty none).text = .omitEmpty none :=
    ⟨marks.2, Token.classify_omitText none⟩
  have written {ref : RuleRef} {param : Option String} (names : Token.classify token = .rule ref)
      (same : ref.param = param) {name : String} (holds : registry.Holds name) (forced : Bool) :
      IsPiece (Token.rule ⟨name, param, forced⟩).text ∧
        Token.classify (Token.rule ⟨name, param, forced⟩).text = .rule ⟨name, param, forced⟩ := by
    have nameable := specialisable.nameable name holds
    have parts (text : String) (given : param = some text) := param_of_classify names (same.trans given)
    refine ⟨RuleRef.isPiece_text nameable.isPiece fun text given => ?_, Token.classify_ruleText ?_⟩
    · obtain ⟨trimmed, inside⟩ := parts text given
      exact ⟨trimmed, fun comma => piece.whole (inside _ comma)⟩
    · exact nameable.writable (fun text given => (parts text given).1) fun _ _ => specialisable.unforced name holds
  cases meaning : Token.classify token with
  | dive =>
    rw [meaning] at means
    cases means
    exact ⟨marks.1, by decide⟩
  | omitEmpty only =>
    rw [meaning] at means
    cases only with
    | none =>
      cases means
      exact always
    | some only =>
      rw [Token.specialised?] at means
      split at means
      · cases means
        exact always
      · cases means
  | rule ref =>
    obtain ⟨entry, resolved⟩ := resolves ref meaning
    rw [meaning] at single
    rw [meaning, Token.specialised?] at means
    cases split : Method.splitSuffix? ref.name with
    | none =>
      rw [split] at means
      cases means
      exact written meaning rfl (Registry.resolve_plain split resolved).2.2 ref.forced
    | some found =>
      obtain ⟨base, only⟩ := found
      rw [split] at means
      dsimp only at means
      split at means
      · cases means
        have holds := (specialisable.resolve_restricted split (single (base, only) split) resolved).2.2
        exact written meaning rfl holds ref.forced
      · cases means

/-- A declaration is specialised by its tag written anew, if its metadata can be built. -/
theorem Registry.Specialisable.specialises (specialisable : registry.Specialisable) {index : Nat} {decl : FieldDecl}
    (single : decl.SinglySuffixed) {field? : Option FieldMetadata}
    (built : fieldMetadata registry record index decl = .ok field?) :
    decl.Specialises method { decl with tag := Tag.specialised method decl.tag } := by
  refine ⟨rfl, rfl, ?_⟩
  rw [fieldMetadata] at built
  cases parsed : Tag.parse decl.tag with
  | skip =>
    have nothing := read_eq_none_iff.mpr parsed
    rw [Tag.specialised, nothing, Option.map_none]
    exact nothing
  | field rename tokens =>
    have meanings : Tag.read decl.tag = some (rename, tokens.map Token.classify) := by rw [Tag.read, parsed]
    obtain ⟨named, pieces⟩ := Tag.pieces_of_parse parsed
    have resolves : ∀ token ∈ tokens, ∀ ref, Token.classify token = .rule ref →
        ∃ entry, registry.resolve record decl.name ref = .ok entry := by
      rw [parsed] at built
      dsimp only at built
      split at built
      · cases built
      · cases read : Chains.empty.addAll registry record decl.name tokens with
        | error fault => rw [read] at built; cases built
        | ok chains => exact fun token member ref names => resolves_of_addAll read member names
    have texts : ∀ new ∈ (tokens.map Token.classify).filterMap (Token.specialised? method),
        IsPiece new.text ∧ Token.classify new.text = new := by
      intro new member
      obtain ⟨meaning, among, means⟩ := List.mem_filterMap.mp member
      obtain ⟨token, inside, rfl⟩ := List.mem_map.mp among
      exact specialisable.text_specialised (pieces token inside) (single _ meanings _ among)
        (resolves token inside) means
    rw [Tag.specialised, meanings, Option.map_some]
    refine read_eq_some_iff.mpr ⟨_, Tag.parse_written named (List.forall_mem_map.mpr fun new member =>
      (texts new member).1), ?_⟩
    rw [List.map_map]
    exact (List.map_congr_left fun new member => (texts new member).2).trans (List.map_id _)

/-- The tags of the record types can be written anew for every method, if their metadata can be built. -/
theorem Registry.Specialisable.specialises_catalog (specialisable : registry.Specialisable) {catalog : Catalog}
    (single : ∀ type, ∀ decl ∈ catalog.fields type, decl.SinglySuffixed)
    (builds : ∀ type, ∃ metadata, RecordMetadata.build catalog registry type = .ok metadata) (method : Method) :
    catalog.Specialises method (catalog.specialised method) := by
  intro type
  have fields : (catalog.specialised method).fields type =
      (catalog.fields type).map fun decl => { decl with tag := Tag.specialised method decl.tag } := by
    simp only [Catalog.fields, Catalog.specialised, List.getElem?_map]
    cases catalog.schemas[type.id.place]? <;> rfl
  rw [fields, List.forall₂_map_right_iff]
  refine List.forall₂_same.mpr fun decl member => ?_
  obtain ⟨metadata, built⟩ := builds type
  rw [RecordMetadata.build] at built
  cases read : fieldsMetadata registry type.name 0 (catalog.fields type) with
  | error fault => rw [read] at built; cases built
  | ok fields =>
    obtain ⟨index, field?, comes⟩ := exists_fieldMetadata read member
    exact specialisable.specialises (single type decl member) comes

end

end TaggedRecords
