import TaggedRecords.Proofs.TokenChains

/-!
# Tags and the metadata of their fields

Metadata is built exactly if every field that is not skipped has a shape that values can have and tokens that find
their rules, and else the first field that has not is at fault. It then has a field for each of them, at its own place,
and no token is lost: the rules stand in the order of their tokens, cut at the first mark for entering the elements,
and the marks count wherever they stand.
-/

namespace TaggedRecords

/-! ## Shapes without values -/

/-- A shape has a part, itself or one inside its containers. What is inside records does not count. -/
inductive Descriptor.HasPart (part : Descriptor) : Descriptor → Prop
  | here : HasPart part part
  | optional {inner : Descriptor} (inside : HasPart part inner) : HasPart part (.optional inner)
  | sequence {element : Descriptor} (inside : HasPart part element) : HasPart part (.sequence element)
  | mapping {element : Descriptor} (inside : HasPart part element) : HasPart part (.mapping element)

namespace Descriptor

theorem unsupportedKind?_eq_some_iff {d : Descriptor} {kind : String} :
    d.unsupportedKind? = some kind ↔ HasPart (.unsupported kind) d := by
  constructor
  · intro found
    induction d with
    | unsupported other =>
      cases found
      exact .here
    | optional inner ih => exact .optional (ih found)
    | sequence element ih => exact .sequence (ih found)
    | mapping element ih => exact .mapping (ih found)
    | _ => cases found
  · intro part
    induction part with
    | here => rfl
    | optional _ ih => exact ih
    | sequence _ ih => exact ih
    | mapping _ ih => exact ih

theorem unsupportedKind?_eq_none_iff {d : Descriptor} :
    d.unsupportedKind? = none ↔ ∀ kind, ¬ HasPart (.unsupported kind) d := by
  simp only [Option.eq_none_iff_forall_ne_some, ne_eq, unsupportedKind?_eq_some_iff]

end Descriptor

section
variable {registry : Registry} {record : String}

/-! ## Fields -/

/-- What a declaration fails with if its tag does not skip the field: a part of its shape that no value has, or else the
first token that refers to no rule that there is. -/
inductive FieldDecl.Offends (registry : Registry) (record : String) (decl : FieldDecl) : Fault → Prop
  | shape {rename : Option String} {tokens : List String} {kind : String}
      (read : Tag.parse decl.tag = .field rename tokens)
      (part : Descriptor.HasPart (.unsupported kind) decl.descriptor) :
      Offends registry record decl (.unsupportedFieldType record decl.name kind)
  | rule {rename : Option String} {before after : List String} {token : String} {ref : RuleRef}
      (read : Tag.parse decl.tag = .field rename (before ++ token :: after))
      (supported : ∀ kind, ¬ Descriptor.HasPart (.unsupported kind) decl.descriptor)
      (found : ∀ other ∈ before, ∀ ref, ¬ Astray registry other ref) (astray : Astray registry token ref) :
      Offends registry record decl (.unknownRule record decl.name ref.name)

/-- If its tag does not skip the field, values can have the shape of the declaration and there is a rule for each token
that refers to one. -/
def FieldDecl.Sound (registry : Registry) (decl : FieldDecl) : Prop :=
  ∀ rename tokens, Tag.parse decl.tag = .field rename tokens →
    (∀ kind, ¬ Descriptor.HasPart (.unsupported kind) decl.descriptor) ∧
    ∀ token ∈ tokens, ∀ ref : RuleRef, ref.IsReadFrom token → registry.meant ref ≠ []

/-- The metadata of a field that is declared at a place with an output name and tokens keeps all that these say. -/
structure FieldMetadata.Keeps (registry : Registry) (index : Nat) (decl : FieldDecl) (rename : Option String)
    (tokens : List String) (field : FieldMetadata) : Prop where
  index : field.index = index
  name : field.name = rename.getD decl.name
  declared : field.declared = decl.name
  descriptor : field.descriptor = decl.descriptor
  element : field.element = decl.descriptor.element?
  rules : EntriesResolve registry (ownTokens tokens) field.rules
  elementRules : EntriesResolve registry (elementTokens tokens) field.elementRules
  allRules : EntriesResolve registry tokens (field.rules ++ field.elementRules)
  dive : field.dive = true ↔ diveMark ∈ tokens
  omission : ∀ method, field.omission.appliesTo method = true ↔ omitMark ∈ tokens ∨ method.restrict omitMark ∈ tokens

theorem EntriesResolve.append {tokens others : List String} {entries further : List RuleEntry}
    (first : EntriesResolve registry tokens entries) (second : EntriesResolve registry others further) :
    EntriesResolve registry (tokens ++ others) (entries ++ further) := by
  rw [EntriesResolve, ruleTokens, List.filter_append]
  exact List.rel_append first second

theorem fieldMetadata_eq_error_iff {index : Nat} {decl : FieldDecl} {fault : Fault} :
    fieldMetadata registry record index decl = .error fault ↔ decl.Offends registry record fault := by
  unfold fieldMetadata
  cases read : Tag.parse decl.tag with
  | skip =>
    constructor
    · intro failed
      cases failed
    · intro offends
      cases offends with
      | shape alsoRead _ => cases read.symm.trans alsoRead
      | rule alsoRead _ _ _ => cases read.symm.trans alsoRead
  | field rename tokens =>
    dsimp only
    cases supported : decl.descriptor.unsupportedKind? with
    | some kind =>
      have part := Descriptor.unsupportedKind?_eq_some_iff.mp supported
      constructor
      · intro failed
        cases failed
        exact .shape read part
      · intro offends
        cases offends with
        | shape _ other =>
          cases supported.symm.trans (Descriptor.unsupportedKind?_eq_some_iff.mpr other)
          rfl
        | rule _ none _ _ => exact absurd part (none kind)
    | none =>
      have whole := Descriptor.unsupportedKind?_eq_none_iff.mp supported
      have offends : decl.Offends registry record fault ↔
          Chains.empty.addAll registry record decl.name tokens = .error fault := by
        rw [addAll_eq_error_iff]
        constructor
        · intro offends
          cases offends with
          | shape _ part => exact absurd part (whole _)
          | @rule _ before after token ref alsoRead _ found astray =>
            cases read.symm.trans alsoRead
            exact ⟨before, token, after, rfl, found, ref, astray, rfl⟩
        · rintro ⟨before, token, after, rfl, found, ref, astray, rfl⟩
          exact .rule read whole found astray
      rw [offends]
      cases Chains.empty.addAll registry record decl.name tokens with
      | error other =>
        constructor <;> intro failed <;> cases failed <;> rfl
      | ok chains =>
        constructor <;> intro failed <;> cases failed

/-- A field that is not skipped has metadata that keeps its tag. -/
theorem fieldMetadata_ok {index : Nat} {decl : FieldDecl} {field? : Option FieldMetadata}
    (built : fieldMetadata registry record index decl = .ok field?) :
    (Tag.parse decl.tag = .skip ∧ field? = none) ∨ ∃ rename tokens field, Tag.parse decl.tag = .field rename tokens ∧
      field? = some field ∧ field.Keeps registry index decl rename tokens := by
  unfold fieldMetadata at built
  cases read : Tag.parse decl.tag with
  | skip =>
    rw [read] at built
    cases built
    exact .inl ⟨rfl, rfl⟩
  | field rename tokens =>
    rw [read] at built
    dsimp only at built
    cases supported : decl.descriptor.unsupportedKind? with
    | some kind =>
      rw [supported] at built
      cases built
    | none =>
      rw [supported] at built
      cases added : Chains.empty.addAll registry record decl.name tokens with
      | error fault =>
        rw [added] at built
        cases built
      | ok chains =>
        rw [added] at built
        cases built
        obtain ⟨dive, ⟨own, rules, ownResolve⟩, elements, elementRules, elementsResolve⟩ := addAll_outside added rfl
        cases (show chains.rules = own from rules)
        cases (show chains.elementRules = elements from elementRules)
        have all := ownResolve.append elementsResolve
        rw [ownTokens, elementTokens, List.takeWhile_append_dropWhile] at all
        refine .inr ⟨rename, tokens, _, rfl, rfl, rfl, rfl, rfl, rfl, rfl, ownResolve, elementsResolve, all, dive,
          fun method => (addAll_omission added method).trans (or_iff_right ?_)⟩
        cases method <;> decide

/-- A declaration is sound exactly if it fails with nothing. -/
theorem sound_iff {decl : FieldDecl} (index : Nat) :
    decl.Sound registry ↔ ∃ field?, fieldMetadata registry record index decl = .ok field? := by
  constructor
  · intro sound
    cases built : fieldMetadata registry record index decl with
    | ok field? => exact ⟨field?, rfl⟩
    | error fault =>
      cases fieldMetadata_eq_error_iff.mp built with
      | shape read part => exact absurd part ((sound _ _ read).1 _)
      | rule read _ _ astray =>
        exact absurd astray.nothing ((sound _ _ read).2 _ (List.mem_append_right _ List.mem_cons_self) _ astray.read)
  · rintro ⟨field?, built⟩ rename tokens read
    have supported (kind : String) : ¬ Descriptor.HasPart (.unsupported kind) decl.descriptor := by
      intro part
      cases built.symm.trans (fieldMetadata_eq_error_iff.mpr (.shape read part))
    refine ⟨supported, fun token member ref names nothing => ?_⟩
    -- The first token that goes astray, which need not be this one, would be at fault.
    cases added : Chains.empty.addAll registry record decl.name tokens with
    | error fault =>
      obtain ⟨before, other, after, rfl, found, lost, astray, rfl⟩ := addAll_eq_error_iff.mp added
      cases built.symm.trans (fieldMetadata_eq_error_iff.mpr (.rule read supported found astray))
    | ok chains =>
      obtain ⟨entry, resolved⟩ := resolves_of_addAll added member (Token.classify_eq_rule_iff.mpr names)
      cases resolved.symm.trans (resolve_eq_error_iff.mpr ⟨nothing, rfl⟩)

/-! ## Records -/

theorem fieldsMetadata_eq_error_iff {decls : List FieldDecl} {start : Nat} {fault : Fault} :
    fieldsMetadata registry record start decls = .error fault ↔
      ∃ before decl after, decls = before ++ decl :: after ∧ (∀ other ∈ before, FieldDecl.Sound registry other) ∧
        decl.Offends registry record fault := by
  induction decls generalizing start with
  | nil => simp [fieldsMetadata]
  | cons decl rest ih =>
    rw [fieldsMetadata, first_fault_cons_iff]
    cases built : fieldMetadata registry record start decl with
    | error other =>
      constructor
      · intro failed
        cases failed
        exact .inl (fieldMetadata_eq_error_iff.mp built)
      · rintro (offends | ⟨sound, _⟩)
        · cases built.symm.trans (fieldMetadata_eq_error_iff.mpr offends)
          rfl
        · obtain ⟨field?, passes⟩ := (sound_iff start).mp sound
          cases built.symm.trans passes
    | ok field? =>
      have passes : ¬ decl.Offends registry record fault := by
        intro offends
        cases built.symm.trans (fieldMetadata_eq_error_iff.mpr offends)
      rw [or_iff_right passes, and_iff_right ((sound_iff start).mpr ⟨field?, built⟩), ← @ih (start + 1)]
      cases fieldsMetadata registry record (start + 1) rest with
      | error other =>
        constructor <;> intro failed <;> cases failed <;> rfl
      | ok fields =>
        cases field? <;> constructor <;> intro failed <;> cases failed

/-- The declarations that are not skipped, each with its place among all. -/
def shownDecls (start : Nat) (decls : List FieldDecl) : List (FieldDecl × Nat) :=
  (decls.zipIdx start).filter fun placed => Tag.parse placed.1.tag ≠ .skip

/-- The metadata of a field keeps what the tag of the declaration says. -/
def FieldMetadata.KeepsTag (registry : Registry) (placed : FieldDecl × Nat) (field : FieldMetadata) : Prop :=
  ∃ rename tokens, Tag.parse placed.1.tag = .field rename tokens ∧
    field.Keeps registry placed.2 placed.1 rename tokens

theorem fieldsMetadata_ok {decls : List FieldDecl} {start : Nat} {fields : List FieldMetadata}
    (built : fieldsMetadata registry record start decls = .ok fields) :
    List.Forall₂ (FieldMetadata.KeepsTag registry) (shownDecls start decls) fields := by
  induction decls generalizing start fields with
  | nil =>
    cases built
    exact .nil
  | cons decl rest ih =>
    rw [fieldsMetadata] at built
    cases first : fieldMetadata registry record start decl with
    | error fault => rw [first] at built; cases built
    | ok head =>
      cases others : fieldsMetadata registry record (start + 1) rest with
      | error fault => rw [first, others] at built; cases built
      | ok tail =>
        rw [first, others] at built
        rw [shownDecls, List.zipIdx_cons]
        obtain ⟨skips, rfl⟩ | ⟨rename, tokens, field, read, rfl, keeps⟩ := fieldMetadata_ok first
        · cases built
          rw [List.filter_cons_of_neg (by simp [skips])]
          exact ih others
        · cases built
          rw [List.filter_cons_of_pos (by simp [read])]
          exact .cons ⟨rename, tokens, read, keeps⟩ (ih others)

end

namespace RecordMetadata

theorem build_ok {catalog : Catalog} {registry : Registry} {type : RecordType} {metadata : RecordMetadata}
    (built : build catalog registry type = .ok metadata) :
    ∃ fields, fieldsMetadata registry type.name 0 (catalog.fields type) = .ok fields ∧
      metadata = ⟨type.name, fields⟩ := by
  rw [build] at built
  cases read : fieldsMetadata registry type.name 0 (catalog.fields type) with
  | error fault => rw [read] at built; cases built
  | ok fields =>
    rw [read] at built
    cases built
    exact ⟨fields, rfl, rfl⟩

/-- The metadata of a record type can be built exactly if all its declarations are sound, and else the first that is not
says why. There is a field for each declaration that is not skipped, in their order, which keeps what its tag says. -/
theorem build_partitions (catalog : Catalog) (registry : Registry) (type : RecordType) :
    ((∃ metadata, build catalog registry type = .ok metadata) ↔
      ∀ decl ∈ catalog.fields type, decl.Sound registry) ∧
    (∀ fault, build catalog registry type = .error fault ↔
      ∃ before decl after, catalog.fields type = before ++ decl :: after ∧
        (∀ other ∈ before, FieldDecl.Sound registry other) ∧ decl.Offends registry type.name fault) ∧
    ∀ metadata, build catalog registry type = .ok metadata → metadata.record = type.name ∧
      List.Forall₂ (FieldMetadata.KeepsTag registry) (shownDecls 0 (catalog.fields type)) metadata.fields := by
  have failed (fault : Fault) : build catalog registry type = .error fault ↔
      fieldsMetadata registry type.name 0 (catalog.fields type) = .error fault := by
    rw [build]
    cases fieldsMetadata registry type.name 0 (catalog.fields type) with
    | error other => constructor <;> intro failed <;> cases failed <;> rfl
    | ok fields => constructor <;> intro failed <;> cases failed
  refine ⟨⟨?_, fun sound => ?_⟩, fun fault => (failed fault).trans fieldsMetadata_eq_error_iff,
    fun metadata built => ?_⟩
  · rintro ⟨metadata, built⟩ decl member
    obtain ⟨fields, read, -⟩ := build_ok built
    obtain ⟨index, passes⟩ := exists_fieldMetadata read member
    exact (sound_iff index).mpr passes
  · cases built : build catalog registry type with
    | ok metadata => exact ⟨metadata, rfl⟩
    | error fault =>
      obtain ⟨before, decl, after, declared, -, offends⟩ := fieldsMetadata_eq_error_iff.mp ((failed fault).mp built)
      have member : decl ∈ catalog.fields type := declared ▸ List.mem_append_right _ List.mem_cons_self
      obtain ⟨field?, passes⟩ := (sound_iff 0).mp (sound decl member)
      cases passes.symm.trans (fieldMetadata_eq_error_iff.mpr offends)
  · obtain ⟨fields, read, rfl⟩ := build_ok built
    exact ⟨rfl, fieldsMetadata_ok read⟩

/-- Albums, whose drafts are skipped, and strips with two fields at fault. -/
def studio : Catalog where
  schemas := [⟨"Album", [⟨"title", "title,required,min=3", .string⟩, ⟨"draft", " - ", .unsupported "callable"⟩,
      ⟨"tracks", "tracks,omitempty_update,max=5,dive,lowercase,omitempty,dive,min=1", .sequence .string⟩]⟩,
    ⟨"Strip", [⟨"frames", "frames,min=2", .sequence .string⟩, ⟨"ink", ",lower_case,ink", .string⟩,
      ⟨"play", "play,ink", .unsupported "callable"⟩]⟩]

/-- The fields of an album that are not skipped keep their places and all their tokens. Of the fields of a strip that
are at fault the first one says why, with its first token. -/
theorem studio_partitions :
    (∃ metadata, build studio Registry.withBuiltIns ⟨0, "Album"⟩ = .ok metadata ∧
      metadata.fields.map FieldMetadata.index = [0, 2] ∧
      List.Forall₂ (FieldMetadata.KeepsTag Registry.withBuiltIns) (shownDecls 0 (studio.fields ⟨0, "Album"⟩))
        metadata.fields) ∧
    build studio Registry.withBuiltIns ⟨1, "Strip"⟩ = .error (.unknownRule "Strip" "ink" "lower_case") ∧
    ∃ before decl after, studio.fields ⟨1, "Strip"⟩ = before ++ decl :: after ∧
      (∀ other ∈ before, FieldDecl.Sound Registry.withBuiltIns other) ∧
      decl.Offends Registry.withBuiltIns "Strip" (.unknownRule "Strip" "ink" "lower_case") := by
  obtain ⟨-, -, keeps⟩ := build_partitions studio Registry.withBuiltIns ⟨0, "Album"⟩
  obtain ⟨-, fails, -⟩ := build_partitions studio Registry.withBuiltIns ⟨1, "Strip"⟩
  have places : (build studio Registry.withBuiltIns ⟨0, "Album"⟩).toOption.map
      (fun metadata => metadata.fields.map FieldMetadata.index) = some [0, 2] := by decide +kernel
  have failed : build studio Registry.withBuiltIns ⟨1, "Strip"⟩ = .error (.unknownRule "Strip" "ink" "lower_case") :=
    rfl
  refine ⟨?_, failed, (fails _).mp failed⟩
  cases built : build studio Registry.withBuiltIns ⟨0, "Album"⟩ with
  | error fault =>
    rw [built] at places
    cases places
  | ok metadata =>
    rw [built] at places
    exact ⟨metadata, rfl, Option.some.inj places, (keeps metadata built).2⟩

end RecordMetadata

end TaggedRecords
