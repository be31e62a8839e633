import Mathlib.Data.List.Forall2
import TaggedRecords.Proofs.UnsupportedParts

/-!
# Collected fields

Which fields a declaration gives its record, and which check fails first if it gives none. The tag of a field is told by
its tag attributes alone: there is one at most, and it is one text. The fields whose tag is neither empty nor a dash are
collected in their order, each with the kind of the first unsupported part of its type.
-/

namespace TaggedRecords

/-- The text of the arguments if they are one text. -/
def AttributeArgs.text? : AttributeArgs → Option String
  | .literals [text] => some text
  | .literals [] => none
  | .literals (_ :: _ :: _) => none
  | .bare => none
  | .other => none

theorem AttributeArgs.text?_eq_some_iff {args : AttributeArgs} {text : String} :
    args.text? = some text ↔ args = .literals [text] := by
  unfold AttributeArgs.text?
  split <;> simp

namespace DeclaredField

/-- The attributes that carry tags. -/
def tagAttributes (field : DeclaredField) : List Attribute :=
  field.attributes.filter fun attr => attr.path = tagPath

/-- An attribute of the field carries the tag. -/
def HasTag (field : DeclaredField) (tag : String) : Prop := ∃ attr ∈ field.tagAttributes, attr.args.text? = some tag

/-- The field has one tag attribute at most, and that is one text. -/
def WellTagged (field : DeclaredField) : Prop :=
  field.tagAttributes.length ≤ 1 ∧ ∀ attr ∈ field.tagAttributes, ∃ tag, attr.args.text? = some tag

/-- The first attribute at fault, with its place: the first tag attribute if it is not one text, and else the second
one. -/
inductive Offends (field : DeclaredField) : TagFault → Prop
  | malformed {before after : List Attribute} {attr : Attribute} (split : field.attributes = before ++ attr :: after)
      (first : ∀ other ∈ before, other.path ≠ tagPath) (carries : attr.path = tagPath)
      (noText : attr.args.text? = none) : Offends field (.malformed before.length)
  | duplicate {before between after : List Attribute} {attr second : Attribute} {tag : String}
      (split : field.attributes = before ++ attr :: (between ++ second :: after))
      (first : ∀ other ∈ before, other.path ≠ tagPath) (carries : attr.path = tagPath)
      (text : attr.args.text? = some tag) (next : ∀ other ∈ between, other.path ≠ tagPath)
      (again : second.path = tagPath) : Offends field (.duplicate (before.length + 1 + between.length))

/-- Whether the field has a tag that is neither empty nor a dash. -/
def isShown (field : DeclaredField) : Bool :=
  field.tagAttributes.any fun attr => attr.args.text?.any fun tag => tag != "" && tag != "-"

/-- The collected field has the name and the tag of the declared one, and an unsupported kind exactly if its type has an
unsupported part, the kind of the first one. -/
structure Describes (field : DeclaredField) (collected : CollectedField) : Prop where
  name : collected.name = field.name
  tag : field.HasTag collected.tag
  supported : collected.unsupported = none ↔ field.type.Supported
  unsupported : ∀ kind, collected.unsupported = some kind ↔ field.type.FirstUnsupported kind

/-! ## Reading tags -/

section
variable {found tag : String} {place : Nat} {attr : Attribute} {before rest : List Attribute}

theorem tagFrom_other {found : Option String} (other : attr.path ≠ tagPath) :
    tagFrom place found (attr :: rest) = tagFrom (place + 1) found rest := by
  rw [tagFrom.eq_def]
  exact if_pos other

theorem tagFrom_duplicate (carries : attr.path = tagPath) :
    tagFrom place (some found) (attr :: rest) = .error (.duplicate place) := by
  rw [tagFrom.eq_2]
  exact if_neg (not_not_intro carries)

theorem tagFrom_text (carries : attr.path = tagPath) (text : attr.args.text? = some tag) :
    tagFrom place none (attr :: rest) = tagFrom (place + 1) (some tag) rest := by
  rw [tagFrom.eq_3 place attr rest tag (AttributeArgs.text?_eq_some_iff.mp text)]
  exact if_neg (not_not_intro carries)

theorem tagFrom_malformed (carries : attr.path = tagPath) (noText : attr.args.text? = none) :
    tagFrom place none (attr :: rest) = .error (.malformed place) := by
  rw [tagFrom.eq_4]
  · exact if_neg (not_not_intro carries)
  · intro tag same
    cases noText.symm.trans (AttributeArgs.text?_eq_some_iff.mpr same)

/-- Other attributes only take their places. -/
theorem tagFrom_append (others : ∀ attr ∈ before, attr.path ≠ tagPath) (place : Nat) (found : Option String) :
    tagFrom place found (before ++ rest) = tagFrom (place + before.length) found rest := by
  induction before generalizing place with
  | nil => rfl
  | cons attr before ih =>
    obtain ⟨here, below⟩ := List.forall_mem_cons.mp others
    rw [List.cons_append, tagFrom_other here, ih below, List.length_cons, Nat.add_assoc, Nat.add_comm 1]

theorem tagFrom_others (others : ∀ attr ∈ before, attr.path ≠ tagPath) (place : Nat) (found : Option String) :
    tagFrom place found before = .ok found := by
  rw [← List.append_nil before, tagFrom_append others]
  rfl

end

/-- What reading the tag of a field comes to: no tag, one, or a fault. -/
inductive Reads (field : DeclaredField) : Except TagFault (Option String) → Prop
  | untagged (bare : field.tagAttributes = []) : Reads field (.ok none)
  | tagged {attr : Attribute} {tag : String} (one : field.tagAttributes = [attr])
      (text : attr.args.text? = some tag) : Reads field (.ok (some tag))
  | offends {fault : TagFault} (offends : field.Offends fault) : Reads field (.error fault)

section
variable {field : DeclaredField} {fault : TagFault} {tag : String}

/-- Reading the tag fails at the first attribute at fault. -/
theorem tagFrom_of_offends (offends : field.Offends fault) : tagFrom 0 none field.attributes = .error fault := by
  cases offends with
  | malformed split first carries noText =>
    rw [split, tagFrom_append first, tagFrom_malformed carries noText, Nat.zero_add]
  | duplicate split first carries text next again =>
    rw [split, tagFrom_append first, tagFrom_text carries text, tagFrom_append next, tagFrom_duplicate again,
      Nat.zero_add]

/-- The attributes are none that carry a tag, or such ones in front of one that does. -/
theorem untagged_or_split (attributes : List Attribute) : (∀ attr ∈ attributes, attr.path ≠ tagPath) ∨
    ∃ before attr after, attributes = before ++ attr :: after ∧ (∀ other ∈ before, other.path ≠ tagPath) ∧
      attr.path = tagPath := by
  induction attributes with
  | nil => exact .inl fun _ member => absurd member List.not_mem_nil
  | cons attr rest ih =>
    by_cases carries : attr.path = tagPath
    · exact .inr ⟨[], attr, rest, rfl, fun _ member => absurd member List.not_mem_nil, carries⟩
    · rcases ih with others | ⟨before, tagged, after, rfl, others, tags⟩
      · exact .inl (List.forall_mem_cons.mpr ⟨carries, others⟩)
      · exact .inr ⟨attr :: before, tagged, after, rfl, List.forall_mem_cons.mpr ⟨carries, others⟩, tags⟩

theorem tagAttributes_of_others {attributes : List Attribute} (others : ∀ attr ∈ attributes, attr.path ≠ tagPath) :
    (attributes.filter fun attr => attr.path = tagPath) = [] :=
  List.filter_eq_nil_iff.mpr fun attr member => by simpa using others attr member

theorem reads_tag (field : DeclaredField) : field.Reads (tagFrom 0 none field.attributes) := by
  rcases untagged_or_split field.attributes with others | ⟨before, attr, after, split, first, carries⟩
  · have bare : field.tagAttributes = [] := tagAttributes_of_others others
    rw [tagFrom_others others]
    exact .untagged bare
  cases text : attr.args.text? with
  | none =>
    have offends : field.Offends (.malformed before.length) := .malformed split first carries text
    rw [tagFrom_of_offends offends]
    exact .offends offends
  | some tag =>
    rcases untagged_or_split after with others | ⟨between, second, last, rfl, next, again⟩
    · have one : field.tagAttributes = [attr] := by
        rw [tagAttributes, split, List.filter_append, List.filter_cons_of_pos (by simpa using carries),
          tagAttributes_of_others first, tagAttributes_of_others others]
        rfl
      rw [split, tagFrom_append first, tagFrom_text carries text, tagFrom_others others]
      exact .tagged one text
    · have offends := Offends.duplicate split first carries text next again
      rw [tagFrom_of_offends offends]
      exact .offends offends

theorem Offends.not_wellTagged (offends : field.Offends fault) : ¬ field.WellTagged := by
  rintro ⟨single, texts⟩
  cases offends with
  | @malformed _ _ attr split _ carries noText =>
    have member : attr ∈ field.tagAttributes := List.mem_filter.mpr ⟨by simp [split], by simpa using carries⟩
    obtain ⟨tag, text⟩ := texts attr member
    cases noText.symm.trans text
  | duplicate split _ carries _ _ again =>
    rw [tagAttributes, split] at single
    simp only [List.filter_append, List.filter_cons, carries, again, decide_true, if_true, List.length_append,
      List.length_cons] at single
    omega

/-! ## One field -/

/-- What collecting a field comes to: nothing, a description of it, or a fault. -/
inductive Collects (field : DeclaredField) : Except TagFault (Option CollectedField) → Prop
  | leftOut (sound : field.WellTagged) (hidden : field.isShown = false) : Collects field (.ok none)
  | shown {collected : CollectedField} (sound : field.WellTagged) (shown : field.isShown = true)
      (describes : field.Describes collected) : Collects field (.ok (some collected))
  | offends {fault : TagFault} (offends : field.Offends fault) : Collects field (.error fault)

theorem Describes.of_hasTag (has : field.HasTag tag) :
    field.Describes ⟨field.name, tag, field.type.unsupportedKind?⟩ where
  name := rfl
  tag := has
  supported := field.type.searched.none
  unsupported := field.type.searched.some

/-- A well tagged field has one tag attribute if it has a tag. -/
theorem WellTagged.tagAttributes_eq (sound : field.WellTagged) (has : field.HasTag tag) :
    ∃ attr, field.tagAttributes = [attr] ∧ attr.args.text? = some tag := by
  obtain ⟨attr, member, text⟩ := has
  have single := sound.1
  cases tags : field.tagAttributes with
  | nil => rw [tags] at member; cases member
  | cons first others =>
    cases others with
    | cons second rest => simp [tags] at single
    | nil =>
      rw [tags, List.mem_singleton] at member
      exact ⟨first, rfl, member ▸ text⟩

theorem WellTagged.tag_unique {other : String} (sound : field.WellTagged) (has : field.HasTag tag)
    (also : field.HasTag other) : tag = other := by
  obtain ⟨attr, one, text⟩ := sound.tagAttributes_eq has
  obtain ⟨second, alsoOne, alsoText⟩ := sound.tagAttributes_eq also
  cases one.symm.trans alsoOne
  exact Option.some.inj (text.symm.trans alsoText)

/-- The tag of a well tagged field alone tells whether it is shown. -/
theorem isShown_eq (sound : field.WellTagged) (has : field.HasTag tag) : field.isShown = !keepsOut tag := by
  obtain ⟨attr, one, text⟩ := sound.tagAttributes_eq has
  simp [isShown, keepsOut, one, text, bne]

theorem collects (field : DeclaredField) : field.Collects field.collect := by
  have reads := field.reads_tag
  unfold collect
  generalize tagFrom 0 none field.attributes = result at reads ⊢
  cases reads with
  | untagged bare =>
    refine .leftOut ⟨?_, ?_⟩ ?_
    · simp [bare]
    · simp [bare]
    · simp [isShown, bare]
  | @tagged attr tag one text =>
    have sound : field.WellTagged := by
      refine ⟨by simp [one], fun other member => ?_⟩
      rw [one, List.mem_singleton] at member
      exact ⟨tag, member ▸ text⟩
    have has : field.HasTag tag := ⟨attr, by simp [one], text⟩
    have shown := isShown_eq sound has
    change field.Collects (if keepsOut tag then .ok none else .ok (some ⟨field.name, tag, field.type.unsupportedKind?⟩))
    by_cases keeps : keepsOut tag = true
    · rw [if_pos keeps]
      exact .leftOut sound (by rw [shown, keeps]; rfl)
    · rw [if_neg keeps]
      exact .shown sound (by simpa [shown] using keeps) (.of_hasTag has)
  | offends offends => exact .offends offends

end

section
variable {field : DeclaredField} {first : Option CollectedField} {fault : TagFault}

theorem collect_of_offends (offends : field.Offends fault) : field.collect = .error fault := by
  rw [collect, tagFrom_of_offends offends]
  rfl

theorem offends_of_collect (failed : field.collect = .error fault) : field.Offends fault := by
  have collects := field.collects
  rw [failed] at collects
  cases collects with
  | offends offends => exact offends

theorem wellTagged_of_collect (done : field.collect = .ok first) : field.WellTagged := by
  have collects := field.collects
  rw [done] at collects
  cases collects with
  | leftOut sound _ => exact sound
  | shown sound _ _ => exact sound

/-- A field gives one description if it is shown, and else none. -/
theorem describes_of_collect (done : field.collect = .ok first) :
    List.Forall₂ Describes ([field].filter isShown) first.toList := by
  have collects := field.collects
  rw [done] at collects
  cases collects with
  | leftOut _ hidden =>
    rw [List.filter_cons_of_neg (by simp [hidden])]
    exact .nil
  | shown _ shown describes =>
    rw [List.filter_cons_of_pos shown]
    exact .cons describes .nil

end

end DeclaredField

/-! ## All fields -/

namespace Declaration

section
variable {field : DeclaredField} {before after fields : List DeclaredField} {collected : List CollectedField}
  {place : Nat}

theorem collectFields_cons_error {fault : TagFault} (failed : field.collect = .error fault) :
    collectFields place (field :: fields) = .error (.tag place fault) := by
  rw [collectFields, failed]
  rfl

theorem collectFields_cons_ok {first : Option CollectedField} (here : field.collect = .ok first) :
    collectFields place (field :: fields) =
      (collectFields (place + 1) fields).map fun others => first.toList ++ others := by
  rw [collectFields, here]
  show (collectFields (place + 1) fields >>= fun others => pure (first.toList ++ others)) = _
  cases collectFields (place + 1) fields <;> rfl

theorem exists_collect_of_wellTagged (sound : field.WellTagged) : ∃ first, field.collect = .ok first := by
  cases outcome : field.collect with
  | ok first => exact ⟨first, rfl⟩
  | error fault => exact absurd sound (DeclaredField.offends_of_collect outcome).not_wellTagged

/-- Fields that are not at fault only take their places. -/
theorem collectFields_of_offends {fault : TagFault} (sound : ∀ other ∈ before, other.WellTagged)
    (offends : field.Offends fault) (place : Nat) :
    collectFields place (before ++ field :: after) = .error (.tag (place + before.length) fault) := by
  induction before generalizing place with
  | nil => exact collectFields_cons_error (DeclaredField.collect_of_offends offends)
  | cons other before ih =>
    obtain ⟨here, below⟩ := List.forall_mem_cons.mp sound
    obtain ⟨first, done⟩ := exists_collect_of_wellTagged here
    rw [List.cons_append, collectFields_cons_ok done, ih below, List.length_cons, Nat.add_assoc, Nat.add_comm 1]
    rfl

/-- Collecting fails at the first field at fault, or all fields are sound. -/
theorem collectFields_total (place : Nat) (fields : List DeclaredField) :
    ((∀ field ∈ fields, field.WellTagged) ∧ ∃ collected, collectFields place fields = .ok collected) ∨
      ∃ before field after fault, fields = before ++ field :: after ∧ (∀ other ∈ before, other.WellTagged) ∧
        field.Offends fault := by
  induction fields generalizing place with
  | nil => exact .inl ⟨fun _ member => absurd member List.not_mem_nil, [], rfl⟩
  | cons field rest ih =>
    cases outcome : field.collect with
    | error fault =>
      exact .inr ⟨[], field, rest, fault, rfl, fun _ member => absurd member List.not_mem_nil,
        DeclaredField.offends_of_collect outcome⟩
    | ok first =>
      have sound := DeclaredField.wellTagged_of_collect outcome
      rcases ih (place + 1) with ⟨others, collected, done⟩ | ⟨before, other, after, fault, rfl, others, offends⟩
      · refine .inl ⟨List.forall_mem_cons.mpr ⟨sound, others⟩, first.toList ++ collected, ?_⟩
        rw [collectFields_cons_ok outcome, done]
        rfl
      · exact .inr ⟨field :: before, other, after, fault, rfl, List.forall_mem_cons.mpr ⟨sound, others⟩, offends⟩

theorem collectFields_eq_error_iff {fault : DeclarationFault} : collectFields 0 fields = .error fault ↔
    ∃ before field after tagFault, fields = before ++ field :: after ∧ (∀ other ∈ before, other.WellTagged) ∧
      field.Offends tagFault ∧ fault = .tag before.length tagFault := by
  constructor
  · intro failed
    rcases collectFields_total 0 fields with ⟨_, collected, done⟩ | ⟨before, field, after, tagFault, rfl, sound, offends⟩
    · cases failed.symm.trans done
    · rw [collectFields_of_offends sound offends, Nat.zero_add] at failed
      cases failed
      exact ⟨before, field, after, tagFault, rfl, sound, offends, rfl⟩
  · rintro ⟨before, field, after, tagFault, rfl, sound, offends, rfl⟩
    rw [collectFields_of_offends sound offends, Nat.zero_add]

theorem collectFields_eq_ok_iff :
    (∃ collected, collectFields 0 fields = .ok collected) ↔ ∀ field ∈ fields, field.WellTagged := by
  rcases collectFields_total 0 fields with ⟨sound, done⟩ | ⟨before, field, after, fault, rfl, sound, offends⟩
  · exact iff_of_true done sound
  · refine iff_of_false ?_ fun all => offends.not_wellTagged (all field (by simp))
    rintro ⟨collected, done⟩
    cases (collectFields_of_offends sound offends 0).symm.trans done

/-- The fields that are shown are described in their order. -/
theorem collectFields_describes (done : collectFields place fields = .ok collected) :
    List.Forall₂ DeclaredField.Describes (fields.filter DeclaredField.isShown) collected := by
  induction fields generalizing place collected with
  | nil =>
    cases done
    exact .nil
  | cons field rest ih =>
    cases outcome : field.collect with
    | error fault =>
      rw [collectFields_cons_error outcome] at done
      cases done
    | ok first =>
      rw [collectFields_cons_ok outcome] at done
      cases below : collectFields (place + 1) rest with
      | error fault =>
        rw [below] at done
        cases done
      | ok others =>
        rw [below] at done
        cases done
        rw [← List.singleton_append, List.filter_append]
        exact List.rel_append (DeclaredField.describes_of_collect outcome) (ih below)

end

end Declaration

/-! ## Declarations -/

/-- What is wrong with an item of the form. -/
inductive ItemForm.Refused : ItemForm → DeclarationFault → Prop
  | tupleStruct : Refused .tupleStruct .unnamedFields
  | unitStruct : Refused .unitStruct .unit
  | enumeration : Refused .enumeration .noStruct
  | union : Refused .union .noStruct

namespace Declaration

/-- The first check that a declaration fails: that it is not generic, then its form, and then its fields one by one. A
fault of a field comes with the place of the field. -/
inductive Offends (declaration : Declaration) : DeclarationFault → Prop
  | generic (parameters : declaration.generics ≠ []) : Offends declaration .generic
  | form {fault : DeclarationFault} (plain : declaration.generics = []) (refused : declaration.form.Refused fault) :
      Offends declaration fault
  | field {before after : List DeclaredField} {field : DeclaredField} {fault : TagFault}
      (plain : declaration.generics = []) (named : declaration.form = .namedStruct)
      (split : declaration.fields = before ++ field :: after) (sound : ∀ other ∈ before, other.WellTagged)
      (offends : field.Offends fault) : Offends declaration (.tag before.length fault)

/-- The declaration is a struct with named fields and no parameters, and none of its fields is at fault. -/
structure Sound (declaration : Declaration) : Prop where
  plain : declaration.generics = []
  named : declaration.form = .namedStruct
  fields : ∀ field ∈ declaration.fields, field.WellTagged

section
variable {declaration : Declaration} {fault : DeclarationFault}

theorem collect_generic (parameters : declaration.generics ≠ []) : declaration.collect = .error .generic := by
  rw [collect, if_pos (by simpa using parameters)]

theorem collect_refused (plain : declaration.generics = []) (refused : declaration.form.Refused fault) :
    declaration.collect = .error fault := by
  rw [collect, if_neg (by simp [plain])]
  generalize declaration.form = form at refused ⊢
  cases refused <;> rfl

theorem collect_named (plain : declaration.generics = []) (named : declaration.form = .namedStruct) :
    declaration.collect = collectFields 0 declaration.fields := by
  rw [collect, if_neg (by simp [plain]), named]

/-- Parameters, another form, or named fields: which checks there are left. -/
theorem generic_or_refused_or_named (declaration : Declaration) : declaration.generics ≠ [] ∨
    (declaration.generics = [] ∧ ∃ fault, declaration.form.Refused fault) ∨
      (declaration.generics = [] ∧ declaration.form = .namedStruct) := by
  by_cases plain : declaration.generics = []
  · right
    cases declaration.form with
    | namedStruct => exact .inr ⟨plain, rfl⟩
    | tupleStruct => exact .inl ⟨plain, _, .tupleStruct⟩
    | unitStruct => exact .inl ⟨plain, _, .unitStruct⟩
    | enumeration => exact .inl ⟨plain, _, .enumeration⟩
    | union => exact .inl ⟨plain, _, .union⟩
  · exact .inl plain

theorem collect_of_offends (offends : declaration.Offends fault) : declaration.collect = .error fault := by
  cases offends with
  | generic parameters => exact collect_generic parameters
  | form plain refused => exact collect_refused plain refused
  | @field before after field fault plain named split sound offends =>
    rw [collect_named plain named]
    exact collectFields_eq_error_iff.mpr ⟨before, field, after, fault, split, sound, offends, rfl⟩

theorem collect_eq_error_iff : declaration.collect = .error fault ↔ declaration.Offends fault := by
  refine ⟨fun failed => ?_, collect_of_offends⟩
  obtain parameters | ⟨plain, other, refused⟩ | ⟨plain, named⟩ := declaration.generic_or_refused_or_named
  · cases failed.symm.trans (collect_generic parameters)
    exact .generic parameters
  · cases failed.symm.trans (collect_refused plain refused)
    exact .form plain refused
  · rw [collect_named plain named] at failed
    obtain ⟨before, field, after, tagFault, split, sound, offends, rfl⟩ := collectFields_eq_error_iff.mp failed
    exact .field plain named split sound offends

theorem collect_eq_ok_iff : (∃ collected, declaration.collect = .ok collected) ↔ declaration.Sound := by
  constructor
  · rintro ⟨collected, done⟩
    obtain parameters | ⟨plain, fault, refused⟩ | ⟨plain, named⟩ := declaration.generic_or_refused_or_named
    · cases done.symm.trans (collect_generic parameters)
    · cases done.symm.trans (collect_refused plain refused)
    · rw [collect_named plain named] at done
      exact ⟨plain, named, collectFields_eq_ok_iff.mp ⟨collected, done⟩⟩
  · intro sound
    rw [collect_named sound.plain sound.named]
    exact collectFields_eq_ok_iff.mpr sound.fields

theorem Sound.of_collect {collected : List CollectedField} (done : declaration.collect = .ok collected) :
    declaration.Sound := collect_eq_ok_iff.mp ⟨collected, done⟩

theorem describes_of_collect {collected : List CollectedField} (done : declaration.collect = .ok collected) :
    List.Forall₂ DeclaredField.Describes (declaration.fields.filter DeclaredField.isShown) collected := by
  have sound := Sound.of_collect done
  rw [collect_named sound.plain sound.named] at done
  exact collectFields_describes done

end

/-- A declaration is collected exactly if it is sound. Its shown fields are then described in their order, and if it is
not collected the fault is that of the first check that it fails, at the first field and attribute that fail it. -/
theorem collects_tagged_fields (declaration : Declaration) :
    ((∃ collected, declaration.collect = .ok collected) ↔ declaration.Sound) ∧
      (∀ collected, declaration.collect = .ok collected →
        List.Forall₂ DeclaredField.Describes (declaration.fields.filter DeclaredField.isShown) collected) ∧
      ∀ fault, declaration.collect = .error fault ↔ declaration.Offends fault := by
  exact ⟨collect_eq_ok_iff, fun _ done => describes_of_collect done, fun _ => collect_eq_error_iff⟩

/-- A title, a draft with a dash, a note without a tag, and a feed whose type has a channel before a unit. -/
def broadcast : Declaration where
  form := .namedStruct
  generics := []
  fields := [⟨"title", [⟨"serde", .other⟩, ⟨"vault", .literals ["title,required"]⟩],
      .path [.named "std" [], .named "string" [], .named "String" []]⟩,
    ⟨"draft", [⟨"vault", .literals ["-"]⟩], .reference⟩,
    ⟨"note", [⟨"doc", .other⟩], .function⟩,
    ⟨"feed", [⟨"vault", .literals ["feed"]⟩],
      .path [.named "Result" [.parenthesized (.path [.named "mpsc" [.function], .named "Sender" [.array]]),
        .tuple []]]⟩]

/-- A draft whose dash is repeated behind another attribute, and a note with a tag that is no text. -/
def repeated : Declaration where
  form := .namedStruct
  generics := []
  fields := [⟨"title", [⟨"vault", .literals ["title"]⟩], .plain⟩,
    ⟨"draft", [⟨"vault", .literals ["-"]⟩, ⟨"serde", .other⟩, ⟨"vault", .bare⟩], .plain⟩,
    ⟨"note", [⟨"vault", .bare⟩], .plain⟩]

/-- The title and the feed are collected. Of two tags that keep a field out the second is still one too many, and what
is behind it does not matter. -/
theorem broadcast_collected :
    broadcast.collect = .ok [⟨"title", "title,required", none⟩, ⟨"feed", "feed", some "channel"⟩] ∧
    List.Forall₂ DeclaredField.Describes (broadcast.fields.filter DeclaredField.isShown)
      [⟨"title", "title,required", none⟩, ⟨"feed", "feed", some "channel"⟩] ∧
    repeated.Offends (.tag 1 (.duplicate 2)) := by
  have done : broadcast.collect = .ok [⟨"title", "title,required", none⟩, ⟨"feed", "feed", some "channel"⟩] := rfl
  obtain ⟨-, describes, -⟩ := collects_tagged_fields broadcast
  obtain ⟨-, -, fails⟩ := collects_tagged_fields repeated
  exact ⟨done, describes _ done, (fails (.tag 1 (.duplicate 2))).mp rfl⟩

end Declaration

end TaggedRecords
