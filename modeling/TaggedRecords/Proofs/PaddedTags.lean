import TaggedRecords.Proofs.CollectedFields
import TaggedRecords.Proofs.PartitionedTags
import TaggedRecords.Proofs.RecordParts
import TaggedRecords.Proofs.VisitRuns
import TaggedRecords.Proofs.WrittenTags

/-!
# Padded tags

Two sides decide which fields are skipped. A declaration leaves a field out if its tag is nothing or a dash, metadata if
it is nothing or a dash between blanks. They agree on all tags but those of blanks alone and dashes with blanks around
them. A field with such a tag is declared, stands in every snapshot and takes a place of its own, but has no metadata.
-/

namespace TaggedRecords

/-! ## Both sides -/

/-- Nothing or a dash, with at least one blank around it. -/
def Tag.Padded (tag : String) : Prop :=
  ∃ before core behind, Blank before ∧ Blank behind ∧ (core = "" ∨ core = "-") ∧ before ++ behind ≠ "" ∧
    tag = before ++ core ++ behind

namespace DeclaredField
variable {tag : String}

theorem keepsOut_iff : keepsOut tag = true ↔ tag = "" ∨ tag = "-" := by
  simp [keepsOut]

theorem trimBlanks_of_bare (bare : tag = "" ∨ tag = "-") : trimBlanks tag = tag := by
  rcases bare with rfl | rfl <;> decide

theorem parse_eq_skip_of_keepsOut (keeps : keepsOut tag = true) : Tag.parse tag = .skip := by
  have bare := keepsOut_iff.mp keeps
  rw [Tag.parse_eq_skip_iff, trimBlanks_of_bare bare]
  exact bare

theorem parse_eq_skip_of_padded (padded : Tag.Padded tag) : Tag.parse tag = .skip := by
  obtain ⟨before, core, behind, front, back, bare, -, rfl⟩ := padded
  rw [Tag.parse_append front back]
  exact parse_eq_skip_of_keepsOut (keepsOut_iff.mpr bare)

/-- A tag that keeps the field out is its own core, with nothing around it. -/
theorem not_keepsOut_of_padded (padded : Tag.Padded tag) : ¬ keepsOut tag = true := by
  obtain ⟨before, core, behind, front, back, bare, padding, same⟩ := padded
  intro keeps
  have own : tag = core := by
    rw [← trimBlanks_of_bare (keepsOut_iff.mp keeps), same, trimBlanks_append front back, trimBlanks_of_bare bare]
  have length := congrArg String.length same
  rw [own, String.length_append, String.length_append] at length
  have nothing : (before ++ behind).length = 0 := by
    rw [String.length_append]
    omega
  exact padding (String.length_eq_zero_iff.mp nothing)

theorem keepsOut_or_padded_of_parse (skips : Tag.parse tag = .skip) : keepsOut tag = true ∨ Tag.Padded tag := by
  obtain ⟨before, behind, front, back, same⟩ := exists_outer_blanks tag
  have bare := Tag.parse_eq_skip_iff.mp skips
  by_cases padding : before ++ behind = ""
  · left
    obtain ⟨rfl, rfl⟩ := String.append_eq_empty_iff.mp padding
    rw [String.empty_append, String.append_empty] at same
    rwa [keepsOut_iff, same]
  · exact .inr ⟨before, trimBlanks tag, behind, front, back, bare, padding, same⟩

/-- A tag is skipped at run time exactly if it keeps the field out or is padded. -/
theorem parse_eq_skip_iff_keepsOut_or_padded : Tag.parse tag = .skip ↔ keepsOut tag = true ∨ Tag.Padded tag := by
  refine ⟨keepsOut_or_padded_of_parse, ?_⟩
  rintro (keeps | padded)
  · exact parse_eq_skip_of_keepsOut keeps
  · exact parse_eq_skip_of_padded padded

/-- Both sides agree on the tags that are not padded. -/
theorem agree_iff_not_padded : (keepsOut tag = true ↔ Tag.parse tag = .skip) ↔ ¬ Tag.Padded tag := by
  constructor
  · intro agree padded
    exact not_keepsOut_of_padded padded (agree.mpr (parse_eq_skip_of_padded padded))
  · intro free
    rw [parse_eq_skip_iff_keepsOut_or_padded, or_iff_left free]

theorem not_keepsOut_iff : ¬ keepsOut tag = true ↔ Tag.parse tag ≠ .skip ∨ Tag.Padded tag := by
  constructor
  · intro shows
    by_cases skips : Tag.parse tag = .skip
    · exact .inr ((keepsOut_or_padded_of_parse skips).resolve_left shows)
    · exact .inl skips
  · rintro (runs | padded)
    · exact fun keeps => runs (parse_eq_skip_of_keepsOut keeps)
    · exact not_keepsOut_of_padded padded

end DeclaredField

/-! ## Collected fields -/

namespace Declaration
variable {declaration : Declaration} {collected : List CollectedField}

/-- A collected field describes a declared one, and its tag does not keep it out. -/
theorem declared_of_collected (done : declaration.collect = .ok collected) {part : CollectedField}
    (member : part ∈ collected) :
    ∃ field ∈ declaration.fields, field.Describes part ∧ ¬ DeclaredField.keepsOut part.tag = true := by
  obtain ⟨field, shown, describes⟩ := forall₂_mem_left (describes_of_collect done).flip member
  obtain ⟨declared, shows⟩ := List.mem_filter.mp shown
  refine ⟨field, declared, describes, ?_⟩
  rw [DeclaredField.isShown_eq ((Sound.of_collect done).fields field declared) describes.tag] at shows
  simpa using shows

/-- A field with a tag is collected exactly if it runs or its tag is padded. -/
theorem collected_iff (done : declaration.collect = .ok collected) {field : DeclaredField}
    (declared : field ∈ declaration.fields) {tag : String} (has : field.HasTag tag) :
    (∃ part ∈ collected, field.Describes part) ↔ Tag.parse tag ≠ .skip ∨ Tag.Padded tag := by
  have sound := (Sound.of_collect done).fields field declared
  rw [← DeclaredField.not_keepsOut_iff]
  constructor
  · rintro ⟨part, member, describes⟩
    obtain ⟨_, _, _, shows⟩ := declared_of_collected done member
    rwa [sound.tag_unique has describes.tag]
  · intro shows
    refine forall₂_mem_left (describes_of_collect done) (List.mem_filter.mpr ⟨declared, ?_⟩)
    rw [DeclaredField.isShown_eq sound has]
    simpa using shows

theorem skipped_iff_padded (done : declaration.collect = .ok collected) {part : CollectedField}
    (member : part ∈ collected) : Tag.parse part.tag = .skip ↔ Tag.Padded part.tag := by
  obtain ⟨_, _, _, shows⟩ := declared_of_collected done member
  rw [DeclaredField.parse_eq_skip_iff_keepsOut_or_padded, or_iff_right shows]

end Declaration

/-! ## Records of the collected fields -/

/-- The declaration that a collected field comes to. One of an unsupported kind holds no data. -/
structure CollectedField.DeclaredAs (part : CollectedField) (decl : FieldDecl) : Prop where
  name : decl.name = part.name
  tag : decl.tag = part.tag
  unsupported : ∀ kind, part.unsupported = some kind → decl.type = .unsupported kind

section
variable {catalog : Catalog} {registry : Registry} {type : RecordType} {metadata : RecordMetadata} {place : Nat}

theorem skipped_of_unsupported (built : RecordMetadata.build catalog registry type = .ok metadata) {decl : FieldDecl}
    (declared : decl ∈ catalog.fields type) {kind : String} (unsupported : decl.type = .unsupported kind) :
    Tag.parse decl.tag = .skip := by
  obtain ⟨fields, read, -⟩ := RecordMetadata.build_ok built
  obtain ⟨index, passes⟩ := exists_fieldMetadata read declared
  have sound := (sound_iff index).mpr passes
  cases parsed : Tag.parse decl.tag with
  | skip => rfl
  | field rename tokens =>
    refine absurd ?_ ((sound rename tokens parsed).1 kind)
    rw [FieldDecl.descriptor, unsupported]
    exact .here

/-- Each declaration takes a place that writes lead to, though those to a field that holds no data fail there. -/
theorem isSome_writeField (segment : String) {decls : List FieldDecl} {fields : List Data}
    (filled : fields.length = decls.length) {decl : FieldDecl} (declared : decls[place]? = some decl)
    (path : List Segment) (value : Value) :
    (writeField catalog segment decls fields place path value).isSome = true := by
  induction decls generalizing fields place with
  | nil => cases declared
  | cons first rest ih =>
    cases fields with
    | nil => cases filled
    | cons field others =>
      cases place with
      | zero =>
        rw [writeField]
        split <;> rfl
      | succ place =>
        rw [writeField, Option.isSome_map]
        exact ih (Nat.succ.inj filled) declared

end

/-- Both sides agree on a tag exactly if it is not padded, and a padded one is skipped at run time alone. So a field is
collected unless its tag is skipped at run time, or if it is padded. A collected field with a padded tag has no
metadata, and only one with a padded tag may be of an unsupported kind if the metadata is built, but every collected
field stands in the snapshot and takes a place that writes lead to. -/
theorem skipped_unless_padded (tag : String) :
    ((DeclaredField.keepsOut tag = true ↔ Tag.parse tag = .skip) ↔ ¬ Tag.Padded tag) ∧
    (Tag.Padded tag → DeclaredField.keepsOut tag = false ∧ Tag.parse tag = .skip) ∧
    ∀ (declaration : Declaration) (collected : List CollectedField), declaration.collect = .ok collected →
      (∀ field ∈ declaration.fields, field.HasTag tag →
        ((∃ part ∈ collected, field.Describes part) ↔ Tag.parse tag ≠ .skip ∨ Tag.Padded tag)) ∧
      ∀ (catalog : Catalog) (type : RecordType),
        List.Forall₂ CollectedField.DeclaredAs collected (catalog.fields type) →
        ∀ (place : Nat) (part : CollectedField), collected[place]? = some part → part.tag = tag →
          (∀ registry metadata, RecordMetadata.build catalog registry type = .ok metadata →
            (place ∈ metadata.fields.map FieldMetadata.index ↔ ¬ Tag.Padded tag) ∧
            (part.unsupported ≠ none → Tag.Padded tag)) ∧
          ∀ fields, fields.length = collected.length →
            (TypedRecord.snapshot catalog ⟨type, fields⟩).fields[place]?.map Prod.fst = some part.name ∧
            ∀ segment path value,
              (writeField catalog segment (catalog.fields type) fields place path value).isSome = true := by
  refine ⟨DeclaredField.agree_iff_not_padded, fun padded => ⟨?_, DeclaredField.parse_eq_skip_of_padded padded⟩,
    fun declaration collected done => ⟨fun field declared has => Declaration.collected_iff done declared has, ?_⟩⟩
  · simpa using DeclaredField.not_keepsOut_of_padded padded
  rintro catalog type declares place part held rfl
  obtain ⟨decl, declared, same⟩ := exists_of_rel_left (forall₂_rel_getElem? declares place) held
  have padded := Declaration.skipped_iff_padded done (List.mem_of_getElem? held)
  refine ⟨fun registry metadata built => ⟨?_, fun unsupported => ?_⟩, fun fields filled => ?_⟩
  · rw [mem_indices_iff built declared, same.tag, ne_eq, padded]
  · obtain ⟨kind, found⟩ := Option.ne_none_iff_exists'.mp unsupported
    have skips := skipped_of_unsupported built (List.mem_of_getElem? declared) (same.unsupported kind found)
    rwa [same.tag, padded] at skips
  · rw [declares.length_eq] at filled
    refine ⟨?_, fun segment => isSome_writeField segment filled declared⟩
    have inside : place < fields.length := filled ▸ (List.getElem?_eq_some_iff.mp declared).1
    rw [TypedRecord.snapshot, snapshotFields_getElem? declared (List.getElem?_eq_getElem inside), Option.map_some,
      same.name]

/-- A title and a callback with a dash between spaces. -/
def sketch : Declaration where
  form := .namedStruct
  generics := []
  fields := [⟨"title", [⟨"vault", .literals ["title"]⟩], .path [.named "String" []]⟩,
    ⟨"notify", [⟨"vault", .literals [" - "]⟩], .function⟩]

/-- The collected fields of a sketch. -/
def sketchParts : List CollectedField := [⟨"title", "title", none⟩, ⟨"notify", " - ", some "function"⟩]

/-- Records of these fields. -/
def sketches : Catalog where
  schemas := [⟨"Sketch", [⟨"title", "title", .string⟩, ⟨"notify", " - ", .unsupported "function"⟩]⟩]

theorem sketches_declare : List.Forall₂ CollectedField.DeclaredAs sketchParts (sketches.fields ⟨0, "Sketch"⟩) := by
  refine .cons ⟨rfl, rfl, ?_⟩ (.cons ⟨rfl, rfl, ?_⟩ .nil) <;> rintro _ ⟨⟩
  rfl

/-- The callback is collected though it is skipped at run time. It has no metadata, but it stands in the snapshot and
takes a place. -/
theorem sketch_callback_collected :
    Tag.parse " - " = .skip ∧ DeclaredField.keepsOut " - " = false ∧ sketch.collect = .ok sketchParts ∧
    (∃ part ∈ sketchParts, DeclaredField.Describes ⟨"notify", [⟨"vault", .literals [" - "]⟩], .function⟩ part) ∧
    (∃ metadata, RecordMetadata.build sketches Registry.withBuiltIns ⟨0, "Sketch"⟩ = .ok metadata ∧
      1 ∉ metadata.fields.map FieldMetadata.index) ∧
    (TypedRecord.snapshot sketches ⟨⟨0, "Sketch"⟩, [.string "Harbour", .hidden]⟩).fields[1]?.map Prod.fst =
      some "notify" ∧
    (writeField sketches "#1" (sketches.fields ⟨0, "Sketch"⟩) [.string "Harbour", .hidden] 1 [] .null).isSome := by
  obtain ⟨agree, -, records⟩ := skipped_unless_padded " - "
  have skips : Tag.parse " - " = .skip := by decide
  have shows : DeclaredField.keepsOut " - " = false := by decide
  have padded : Tag.Padded " - " := by
    by_contra free
    have keeps := (agree.mpr free).mpr skips
    rw [shows] at keeps
    cases keeps
  have done : sketch.collect = .ok sketchParts := rfl
  have tagged : DeclaredField.HasTag ⟨"notify", [⟨"vault", .literals [" - "]⟩], .function⟩ " - " :=
    ⟨⟨"vault", .literals [" - "]⟩, by decide, rfl⟩
  obtain ⟨collected, parts⟩ := records sketch sketchParts done
  obtain ⟨run, filled⟩ := parts sketches ⟨0, "Sketch"⟩ sketches_declare 1 _ rfl rfl
  obtain ⟨name, places⟩ := filled [.string "Harbour", .hidden] rfl
  refine ⟨skips, shows, done, (collected _ (by simp [sketch]) tagged).mpr (.inr padded), ?_, name, places "#1" [] .null⟩
  have built : (RecordMetadata.build sketches Registry.withBuiltIns ⟨0, "Sketch"⟩).toOption.isSome = true := by
    decide +kernel
  cases outcome : RecordMetadata.build sketches Registry.withBuiltIns ⟨0, "Sketch"⟩ with
  | error fault => rw [outcome] at built; cases built
  | ok metadata => exact ⟨metadata, rfl, fun listed => (run _ metadata outcome).1.mp listed padded⟩

end TaggedRecords
