import TaggedRecords.Proofs.Registrations

/-!
# References to registered rules

How a tag reaches the rules under the names that were registered: by the name alone or with a parameter behind it, and
for transformations behind the mark that forces one. One name is out of reach with a parameter: it is then read as that
mark.
-/

namespace TaggedRecords

namespace Nameable
variable {name : String}

theorem trimmed (nameable : Nameable name) : Trimmed name :=
  trimmed_iff.mpr ⟨fun c first => nameable.unblanked c (List.mem_of_mem_head? first),
    fun c last => nameable.unblanked c (List.mem_of_mem_getLast? last)⟩

theorem isPiece (nameable : Nameable name) : IsPiece name :=
  ⟨nameable.nonempty, nameable.trimmed, fun comma => nameable.unreserved ',' comma (by decide)⟩

theorem whole (nameable : Nameable name) : '=' ∉ name.toList := fun sign => nameable.unreserved '=' sign (by decide)

theorem isMark (nameable : Nameable name) : isMark name = false :=
  isMark_eq_false_iff.mpr ⟨nameable.noDive, nameable.noOmit, nameable.noSuffixedOmit⟩

/-- References to names that can be registered are read as they are written, but for the one that looks like the mark of
a transformation. -/
theorem writable (nameable : Nameable name) {param : Option String} {forced : Bool}
    (trimmed : ∀ text, param = some text → Trimmed text)
    (unforced : forced = false → param ≠ none → name ≠ "transform") : RuleRef.Writable ⟨name, param, forced⟩ :=
  ⟨nameable.whole, nameable.trimmed, trimmed, fun _ _ => nameable.isMark, unforced⟩

end Nameable

namespace Registry

/-- Behind an output name the token gives a field one rule and nothing else, whatever its record and its place there. -/
def BindsOnly (registry : Registry) (token boundTo : String) (param : Option String) (action : Action) : Prop :=
  ∀ (record : String) (index : Nat) (decl : FieldDecl) (output : String), IsPiece output →
    decl.tag = output ++ "," ++ token → decl.descriptor.unsupportedKind? = none →
    ∃ field entry, fieldMetadata registry record index decl = .ok (some field) ∧ field.name = output ∧
      field.omission = .none ∧ field.dive = false ∧ field.rules = [entry] ∧ field.elementRules = [] ∧
      entry.boundTo = boundTo ∧ entry.param = param ∧ entry.action = action

section
variable {registry : Registry}

/-- The metadata of a field with one token that names a rule. -/
theorem fieldMetadata_of_ref {record : String} {index : Nat} {decl : FieldDecl} {output token : String} {ref : RuleRef}
    (named : IsPiece output) (piece : IsPiece token) (written : decl.tag = output ++ "," ++ token)
    (supported : decl.descriptor.unsupportedKind? = none) (names : Token.classify token = .rule ref) :
    fieldMetadata registry record index decl = (registry.resolve record decl.name ref).map fun entry => some
      { index := index, name := output, declared := decl.name, descriptor := decl.descriptor,
        element := decl.descriptor.element?, omission := .none, dive := false, rules := [entry],
        elementRules := [] } := by
  have tag : decl.tag = Tag.written (some output) [token] := by
    rw [written, Tag.written, String.intercalate_singleton]
    rfl
  have parsed : Tag.parse decl.tag = .field (some output) [token] := by
    rw [tag]
    refine Tag.parse_written (fun name same => ?_) (fun other member => ?_)
    · cases same
      exact named
    · rw [List.mem_singleton.mp member]
      exact piece
  rw [fieldMetadata, parsed]
  dsimp only
  rw [supported]
  dsimp only
  rw [Chains.addAll, Chains.add, names]
  dsimp only
  cases registry.resolve record decl.name ref with
  | error fault => rfl
  | ok entry => rfl

theorem bindsOnly_of_bound {token boundTo : String} {ref : RuleRef} {action : Action} (piece : IsPiece token)
    (names : Token.classify token = .rule ref) (bound : registry.bound? ref = some (boundTo, action)) :
    registry.BindsOnly token boundTo ref.param action := by
  intro record index decl output named written supported
  have comes : fieldMetadata registry record index decl = _ :=
    fieldMetadata_of_ref named piece written supported names
  rw [resolve, bound] at comes
  exact ⟨_, _, comes, rfl, rfl, rfl, rfl, rfl, rfl, rfl, rfl⟩

/-- A rule that is asked for as a transformation is one. -/
theorem isTransform_of_resolve {record field : String} {ref : RuleRef} {entry : RuleEntry} (forced : ref.forced = true)
    (resolved : registry.resolve record field ref = .ok entry) : entry.action.isTransform = true := by
  unfold resolve at resolved
  dsimp only at resolved
  split at resolved
  · cases resolved
  · next boundTo action bound =>
    cases resolved
    rw [bound?, forced, if_pos rfl] at bound
    have transforms {name : String} (found : registry.boundTransformation? name = some (boundTo, action)) :
        action.isTransform = true := by
      obtain ⟨rule, _, same⟩ := Option.map_eq_some_iff.mp found
      cases same
      rfl
    rcases (Option.orElse_eq_some _ _ _).mp bound with whole | ⟨_, base⟩
    · exact transforms whole
    · obtain ⟨name, _, found⟩ := Option.bind_eq_some_iff.mp base
      exact transforms found

theorem bindsOnly_validation {name : String} {rule : Validation} (nameable : Nameable name)
    (found : registry.validation? name = some rule) {param : Option String}
    (written : ∀ text, param = some text → Trimmed text ∧ ',' ∉ text.toList)
    (unforced : param ≠ none → name ≠ "transform") :
    registry.BindsOnly (name ++ paramText param) name param (.validate rule) := by
  have writable : RuleRef.Writable ⟨name, param, false⟩ :=
    nameable.writable (fun text same => (written text same).1) fun _ => unforced
  have text : RuleRef.text ⟨name, param, false⟩ = name ++ paramText param := String.empty_append
  rw [← text]
  exact bindsOnly_of_bound (RuleRef.isPiece_text nameable.isPiece written) (Token.classify_ruleText writable)
    (bound?_of_validation rfl found)

theorem bindsOnly_transformation {name : String} {rule : Transformation} (nameable : Nameable name)
    (found : registry.transformation? name = some rule) {param : Option String}
    (written : ∀ text, param = some text → Trimmed text ∧ ',' ∉ text.toList) :
    registry.BindsOnly (transformMark ++ (name ++ paramText param)) name param (.transform rule) := by
  have writable : RuleRef.Writable ⟨name, param, true⟩ :=
    nameable.writable (fun text same => (written text same).1) (by simp)
  have text : RuleRef.text ⟨name, param, true⟩ = transformMark ++ (name ++ paramText param) := rfl
  rw [← text]
  exact bindsOnly_of_bound (RuleRef.isPiece_text nameable.isPiece written) (Token.classify_ruleText writable)
    (bound?_of_transformation rfl found)

/-- Behind the name that looks like the mark of a transformation, a parameter is read as the name of one. -/
theorem not_bindsOnly_transform {text boundTo : String} {param : Option String} {rule : Validation}
    (trimmed : Trimmed text) (whole : ',' ∉ text.toList) :
    ¬ registry.BindsOnly ("transform" ++ paramText (some text)) boundTo param (.validate rule) := by
  intro binds
  have pieces : IsPiece "x" ∧ IsPiece "transform" := by
    refine ⟨⟨by decide, ?_, by decide⟩, ⟨by decide, ?_, by decide⟩⟩ <;> unfold Trimmed <;> decide
  have piece : IsPiece (RuleRef.text ⟨"transform", some text, false⟩) :=
    RuleRef.isPiece_text pieces.2 fun other same => by
      cases same
      exact ⟨trimmed, whole⟩
  have names : Token.classify ("transform" ++ paramText (some text)) =
      .rule ⟨(splitParam text).1, (splitParam text).2, true⟩ := by
    have forced : behind? transformMark ("transform" ++ paramText (some text)) = some text :=
      (behind_transformMark (by decide)).trans (if_pos rfl)
    rw [Token.classify, forced]
  obtain ⟨field, entry, comes, -, -, -, rules, -, -, -, action⟩ :=
    binds "T" 0 ⟨"f", "x" ++ "," ++ ("transform" ++ paramText (some text)), .string⟩ "x" pieces.1 rfl rfl
  rw [fieldMetadata_of_ref pieces.1 piece rfl rfl names] at comes
  cases resolved : registry.resolve "T" "f" ⟨(splitParam text).1, (splitParam text).2, true⟩ with
  | error fault => rw [resolved] at comes; cases comes
  | ok other =>
    rw [resolved] at comes
    cases comes
    cases rules
    have transforms := isTransform_of_resolve rfl resolved
    rw [action] at transforms
    cases transforms

/-- Every accepted name is reached by tags, whatever is registered later: a validation by its name alone, and with any
parameter unless it is called as the mark of a transformation; a transformation behind that mark, with any parameter or
none. -/
theorem accepted_names_reached (registry : Registry) (later : List Registration) (name : String) :
    (∀ rule next, registry.perform (.validation name rule) = .ok next → next.validation? name = some rule ∧
      ∃ latest, (next.after later).validation? name = some latest ∧
        (next.after later).BindsOnly name name none (.validate latest) ∧
        ∀ param, Trimmed param → ',' ∉ param.toList →
          ((next.after later).BindsOnly (name ++ "=" ++ param) name (some param) (.validate latest) ↔
            name ≠ "transform")) ∧
    ∀ rule next, registry.perform (.transformation name rule) = .ok next → next.transformation? name = some rule ∧
      ∃ latest, (next.after later).transformation? name = some latest ∧
        (next.after later).BindsOnly (transformMark ++ name) name none (.transform latest) ∧
        ∀ param, Trimmed param → ',' ∉ param.toList →
          (next.after later).BindsOnly (transformMark ++ name ++ "=" ++ param) name (some param)
            (.transform latest) := by
  have written {param : String} (trimmed : Trimmed param) (whole : ',' ∉ param.toList) :
      ∀ text, some param = some text → Trimmed text ∧ ',' ∉ text.toList := by
    intro text same
    cases same
    exact ⟨trimmed, whole⟩
  have unwritten : ∀ text, (none : Option String) = some text → Trimmed text ∧ ',' ∉ text.toList := by simp
  have plain : name ++ paramText none = name := String.append_empty
  constructor
  · intro rule next accepted
    obtain ⟨found, nameable⟩ := validation?_of_perform accepted
    obtain ⟨latest, held⟩ := Option.ne_none_iff_exists'.mp (validation?_after (Option.ne_none_iff_exists'.mpr
      ⟨rule, found⟩) later)
    refine ⟨found, latest, held, ?_, fun param trimmed whole => ?_⟩
    · have binds := bindsOnly_validation nameable held unwritten fun given => absurd rfl given
      rwa [plain] at binds
    · rw [String.append_assoc]
      refine ⟨fun binds same => ?_, fun differs =>
        bindsOnly_validation nameable held (written trimmed whole) fun _ => differs⟩
      subst same
      exact not_bindsOnly_transform trimmed whole binds
  · intro rule next accepted
    obtain ⟨found, nameable⟩ := transformation?_of_perform accepted
    obtain ⟨latest, held⟩ := Option.ne_none_iff_exists'.mp (transformation?_after (Option.ne_none_iff_exists'.mpr
      ⟨rule, found⟩) later)
    refine ⟨found, latest, held, ?_, fun param trimmed whole => ?_⟩
    · have binds := bindsOnly_transformation nameable held unwritten
      rwa [plain] at binds
    · rw [String.append_assoc, String.append_assoc]
      have binds := bindsOnly_transformation nameable held (written trimmed whole)
      exact binds

end

/-- Wants a parameter of one character. -/
def signed : Validation := ⟨fun _ _ scope => .ok (scope.param.any fun text => text.length == 1), false⟩

/-- The rule is reached with its parameter under one name, and under the other without any alone. -/
theorem signed_reached :
    (∃ next, withBuiltIns.perform (.validation "signed_create" signed) = .ok next ∧
      next.BindsOnly "signed_create=3" "signed_create" (some "3") (.validate signed)) ∧
    ∃ next, withBuiltIns.perform (.validation "transform" signed) = .ok next ∧
      next.BindsOnly "transform" "transform" none (.validate signed) ∧
      ¬ next.BindsOnly "transform=3" "transform" (some "3") (.validate signed) := by
  have trimmed : Trimmed "3" := by
    unfold Trimmed
    decide
  constructor
  · obtain ⟨next, accepted⟩ : ∃ next, withBuiltIns.perform (.validation "signed_create" signed) = .ok next := ⟨_, rfl⟩
    obtain ⟨reached, -⟩ := accepted_names_reached withBuiltIns [] "signed_create"
    obtain ⟨found, latest, held, -, behind⟩ := reached signed next accepted
    cases found.symm.trans held
    exact ⟨next, accepted, (behind "3" trimmed (by decide)).mpr (by decide)⟩
  · obtain ⟨next, accepted⟩ : ∃ next, withBuiltIns.perform (.validation "transform" signed) = .ok next := ⟨_, rfl⟩
    obtain ⟨reached, -⟩ := accepted_names_reached withBuiltIns [] "transform"
    obtain ⟨found, latest, held, alone, behind⟩ := reached signed next accepted
    cases found.symm.trans held
    exact ⟨next, accepted, alone, fun binds => (behind "3" trimmed (by decide)).mp binds rfl⟩

end Registry

end TaggedRecords
