import TaggedRecords.Proofs.ComparedRuns
import TaggedRecords.Proofs.Conformance

/-!
# What records show

A record shows the fields that its tags do not skip. Values are alike if they differ in skipped fields of records
alone, at whatever depth, and agree on being zero wherever that makes a difference. Rules and formatters are blind to
the rest if they cannot tell alike values apart; the built-in rules are.
-/

namespace TaggedRecords

/-! ## What tags make of zero values -/

/-- Whether the token is a mark that leaves zero values out for the method. -/
def Token.omits (method : Method) : Token → Bool
  | .omitEmpty only => only.all fun other => decide (other = method)
  | _ => false

/-- Whether the token names a rule that applies to the method. -/
def Token.applies (method : Method) : Token → Bool
  | .rule ref => (Method.splitSuffix? ref.name).all fun split => decide (split.2 = method)
  | _ => false

/-- Where a list of tokens makes a difference between zero and other values: marks that leave zero values out and rules
count for the value itself, rules behind the mark that enters the elements for these. -/
def Token.tests (method : Method) (tokens : List Token) : ZeroTests where
  whole := tokens.any (Token.omits method) ||
    (tokens.takeWhile fun token => decide (token ≠ .dive)).any (Token.applies method)
  elements := (tokens.dropWhile fun token => decide (token ≠ .dive)).any (Token.applies method)

/-- Where the field's tag makes a difference between zero and other values. -/
def FieldDecl.tests (method : Method) (decl : FieldDecl) : ZeroTests :=
  match Tag.parse decl.tag with
  | .skip => .none
  | .field _ tokens => Token.tests method (tokens.map Token.classify)

section
variable {registry : Registry} (method : Method)

theorem appliesTo_add (policy : OmitPolicy) (only : Option Method) :
    (policy.add only).appliesTo method = (policy.appliesTo method || (Token.omitEmpty only).omits method) := by
  obtain _ | only := only
  · cases method <;> simp [OmitPolicy.add, OmitPolicy.appliesTo, Token.omits]
  · cases method <;> cases only <;> simp [OmitPolicy.add, OmitPolicy.appliesTo, Token.omits]

theorem appliesTo_of_resolve {record field : String} {ref : RuleRef} {entry : RuleEntry}
    (resolved : registry.resolve record field ref = .ok entry) :
    entry.appliesTo method = (Token.rule ref).applies method := by
  unfold Registry.resolve at resolved
  dsimp only at resolved
  split at resolved
  · cases resolved
  · cases resolved
    rw [RuleEntry.appliesTo, Token.applies]
    cases Method.splitSuffix? ref.name <;> rfl

/-- Where the tokens read so far make a difference. -/
def Chains.tests (chains : Chains) : ZeroTests where
  whole := chains.omission.appliesTo method || chains.rules.any fun entry => entry.appliesTo method
  elements := chains.elementRules.any fun entry => entry.appliesTo method

/-- Tokens read behind others make the difference that they make themselves; behind the mark that enters the elements
their rules count for these. -/
theorem tests_of_addAll {record field : String} {tokens : List String} {chains read : Chains}
    (added : chains.addAll registry record field tokens = .ok read) :
    read.tests method = if chains.dive then
        ⟨(chains.tests method).whole || (tokens.map Token.classify).any (Token.omits method),
          (chains.tests method).elements || (tokens.map Token.classify).any (Token.applies method)⟩
      else
        ⟨(chains.tests method).whole || (Token.tests method (tokens.map Token.classify)).whole,
          (chains.tests method).elements || (Token.tests method (tokens.map Token.classify)).elements⟩ := by
  induction tokens generalizing chains with
  | nil =>
    cases added
    simp [Token.tests]
  | cons token rest ih =>
    rw [Chains.addAll] at added
    cases first : chains.add registry record field token with
    | error fault => rw [first] at added; cases added
    | ok next =>
      rw [first] at added
      rw [ih added, List.map_cons]
      obtain ⟨only, omits, rfl⟩ | ⟨dives, rfl⟩ | ⟨ref, entry, names, resolved, rfl⟩ := add_cases first
      · simp only [omits, Chains.tests, appliesTo_add, Token.tests]
        cases chains.dive <;> simp [Token.applies, Bool.or_assoc, Bool.or_comm, Bool.or_left_comm]
      · simp only [dives, Chains.tests, Token.tests]
        cases chains.dive <;> simp [Token.applies, Token.omits]
      · have applies := appliesTo_of_resolve method resolved
        cases chains.dive <;>
          simp [names, Chains.tests, Token.tests, Token.omits, applies, Bool.or_assoc, Bool.or_comm, Bool.or_left_comm]

/-- The metadata of a field makes the difference that its tag makes. -/
theorem tests_of_fieldMetadata {record : String} {index : Nat} {decl : FieldDecl} {field : FieldMetadata}
    (built : fieldMetadata registry record index decl = .ok (some field)) :
    field.tests method = decl.tests method := by
  unfold fieldMetadata at built
  split at built
  · cases built
  · next rename tokens shows =>
    split at built
    · cases built
    · cases read : Chains.empty.addAll registry record decl.name tokens with
      | error fault => rw [read] at built; cases built
      | ok chains =>
        rw [read] at built
        cases built
        have nothing : OmitPolicy.none.appliesTo method = false := by cases method <;> rfl
        have tests : chains.tests method = Token.tests method (tokens.map Token.classify) := by
          rw [tests_of_addAll method read]
          simp [Chains.tests, Chains.empty, nothing]
        rw [FieldDecl.tests, shows]
        exact tests

end

/-! ## Alike values -/

/-- Values that differ in skipped fields of records alone. The shown fields of a record are under tests of their own,
and where it makes a difference a record is zero in both values or in neither. -/
inductive Value.ShownAlike (catalog : Catalog) (tests : FieldDecl → ZeroTests) : ZeroTests → Value → Value → Prop where
  | same (here : ZeroTests) (value : Value) : ShownAlike catalog tests here value value
  | sequence {here : ZeroTests} {as bs : List Value} (length : as.length = bs.length)
      (each : ∀ (place : Nat) a b, as[place]? = some a → bs[place]? = some b →
        ShownAlike catalog tests here.inside a b) : ShownAlike catalog tests here (.sequence as) (.sequence bs)
  | mapping {here : ZeroTests} {as bs : List (String × Value)} (keys : as.map Prod.fst = bs.map Prod.fst)
      (each : ∀ (place : Nat) a b, as[place]? = some a → bs[place]? = some b →
        ShownAlike catalog tests here.inside a.2 b.2) : ShownAlike catalog tests here (.mapping as) (.mapping bs)
  | record {here : ZeroTests} {type : RecordType} {as bs : List (String × Value)}
      (names : as.map Prod.fst = bs.map Prod.fst)
      (shown : ∀ (place : Nat) decl a b, (catalog.fields type)[place]? = some decl → Tag.parse decl.tag ≠ .skip →
        as[place]? = some a → bs[place]? = some b → ShownAlike catalog tests (tests decl) a.2 b.2)
      (undeclared : ∀ place : Nat, (catalog.fields type)[place]? = none → as[place]? = bs[place]?)
      (zero : here.whole = true → Value.allZero as = Value.allZero bs) :
      ShownAlike catalog tests here (.record type as) (.record type bs)

/-- Records of one type that differ in skipped fields alone, their own and those of records inside. -/
def RecordValue.ShownAlike (catalog : Catalog) (tests : FieldDecl → ZeroTests) (a b : RecordValue) : Prop :=
  a.toValue.ShownAlike catalog tests .none b.toValue

namespace Value.ShownAlike
variable {catalog : Catalog} {tests : FieldDecl → ZeroTests} {here : ZeroTests} {a b : Value}

theorem of_items {as bs : List Value} (items : List.Forall₂ (ShownAlike catalog tests here.inside) as bs) :
    (Value.sequence as).ShownAlike catalog tests here (.sequence bs) := by
  refine .sequence items.length_eq fun place a b found alsoFound => ?_
  obtain ⟨same, alsoSame, alike⟩ := forall₂_getElem? items alsoFound
  cases found.symm.trans alsoSame
  exact alike

theorem of_entries {as bs : List (String × Value)}
    (entries : List.Forall₂ (fun a b => a.1 = b.1 ∧ a.2.ShownAlike catalog tests here.inside b.2) as bs) :
    (Value.mapping as).ShownAlike catalog tests here (.mapping bs) := by
  refine .mapping (Entries.keys_of_forall₂ entries).symm fun place a b found alsoFound => ?_
  obtain ⟨same, alsoSame, alike⟩ := forall₂_getElem? entries alsoFound
  cases found.symm.trans alsoSame
  exact alike.2

/-- Records with the declared fields are alike if the shown ones are. -/
theorem of_declared {type : RecordType} {as bs : List (String × Value)} (names : as.map Prod.fst = bs.map Prod.fst)
    (size : as.length = (catalog.fields type).length)
    (shown : ∀ field ∈ (catalog.fields type).zip (as.zip bs), Tag.parse field.1.tag ≠ .skip →
      field.2.1.2.ShownAlike catalog tests (tests field.1) field.2.2.2)
    (zero : here.whole = true → Value.allZero as = Value.allZero bs) :
    (Value.record type as).ShownAlike catalog tests here (.record type bs) := by
  have alsoSize : bs.length = (catalog.fields type).length := by
    rw [← size]
    simpa using (congrArg List.length names).symm
  refine .record names (fun place decl a b declared shows found alsoFound => ?_) (fun place beyond => ?_) zero
  · refine shown (decl, a, b) (List.mem_of_getElem? (List.getElem?_zip_eq_some.mpr ⟨declared, ?_⟩)) shows
    exact List.getElem?_zip_eq_some.mpr ⟨found, alsoFound⟩
  · rw [List.getElem?_eq_none_iff] at beyond
    rw [List.getElem?_eq_none (size ▸ beyond), List.getElem?_eq_none (alsoSize ▸ beyond)]

theorem untested (alike : a.ShownAlike catalog tests here b) : a.ShownAlike catalog tests .none b := by
  induction alike with
  | same here value => exact .same .none value
  | sequence length _ ih => exact .sequence length ih
  | mapping keys _ ih => exact .mapping keys ih
  | record names shown undeclared _ _ => exact .record names shown undeclared nofun

theorem isZero_eq (alike : a.ShownAlike catalog tests here b) (tested : here.whole = true) : a.isZero = b.isZero := by
  cases alike with
  | same here value => rfl
  | sequence length each => cases forall₂_of_getElem? length each <;> rfl
  | mapping keys each => cases forall₂_of_keys keys each <;> rfl
  | record _ _ _ zero => exact zero tested

theorem isNull_eq (alike : a.ShownAlike catalog tests here b) : a.isNull = b.isNull := by
  cases alike <;> rfl

/-- Alike values have one form. -/
theorem parallel (alike : a.ShownAlike catalog tests here b) :
    a.Parallel (RecordValue.ShownAlike catalog tests) (Value.ShownAlike catalog tests here.inside) b := by
  cases alike with
  | same here value => exact parallel_refl (fun _ => .same _ _) (fun _ => .same _ _) _
  | sequence length each => exact .sequence (forall₂_of_getElem? length each)
  | mapping keys each => exact .mapping (forall₂_of_keys keys each)
  | record names shown undeclared _ => exact .record (.record names shown undeclared nofun)

/-- A shape admits alike values alike, since it knows records by their type alone. -/
theorem admits_eq (alike : a.ShownAlike catalog tests here b) (d : Descriptor) : d.admits a = d.admits b := by
  induction d generalizing here a b with
  | optional inner ih =>
    by_cases absent : a = .null
    · subst absent
      cases alike
      rfl
    · have present : b ≠ .null := by
        rintro rfl
        cases alike
        exact absent rfl
      rw [Descriptor.admits_optional inner absent, Descriptor.admits_optional inner present]
      exact ih alike
  | sequence element ih =>
    cases alike with
    | sequence length each =>
      exact forall₂_all (forall₂_of_getElem? length each) fun _ _ => ih
    | _ => rfl
  | mapping element ih =>
    cases alike with
    | mapping keys each => exact forall₂_all (forall₂_of_keys keys each) fun _ _ same => ih same.2
    | _ => rfl
  | record type => cases alike <;> rfl
  | _ => cases alike <;> rfl

/-- Alike values without records are the same. -/
theorem eq_of_recordless (alike : a.ShownAlike catalog tests here b) (plain : a.Recordless) : a = b := by
  induction alike with
  | same here value => rfl
  | sequence length each ih =>
    have items := itemsRecordless_iff.mp plain
    refine congrArg Value.sequence (List.forall₂_eq_eq_eq ▸ forall₂_of_getElem? length fun place a b found alsoFound => ?_)
    exact ih place a b found alsoFound (items a (List.mem_of_getElem? found))
  | mapping keys each ih =>
    have entries := entriesRecordless_iff.mp plain
    refine congrArg Value.mapping (eq_of_forall₂_keyed (forall₂_of_keys keys fun place a b found alsoFound => ?_))
    exact ih place a b found alsoFound (entries a (List.mem_of_getElem? found))
  | record _ _ _ _ => exact plain.elim

end Value.ShownAlike

/-- Documents with alike values under the same names. -/
def Document.ShownAlike (catalog : Catalog) (tests : FieldDecl → ZeroTests) (document other : Document) : Prop :=
  (Value.mapping document).ShownAlike catalog tests .none (.mapping other)

theorem RecordValue.ShownAlike.type_eq {catalog : Catalog} {tests : FieldDecl → ZeroTests} {a b : RecordValue}
    (alike : a.ShownAlike catalog tests b) : a.type = b.type := by
  obtain ⟨type, as⟩ := a
  obtain ⟨otherType, bs⟩ := b
  cases alike <;> rfl

/-- Alike records hold alike values in shown fields. -/
theorem RecordValue.ShownAlike.field {catalog : Catalog} {tests : FieldDecl → ZeroTests} {a b : RecordValue}
    (alike : a.ShownAlike catalog tests b) {place : Nat} {decl : FieldDecl}
    (declared : (catalog.fields a.type)[place]? = some decl) (shows : Tag.parse decl.tag ≠ .skip) :
    ((a.at? place).getD .null).ShownAlike catalog tests (tests decl) ((b.at? place).getD .null) := by
  obtain ⟨type, as⟩ := a
  obtain ⟨otherType, bs⟩ := b
  cases alike with
  | same _ _ => exact .same _ _
  | record names shown _ _ =>
    have length : as.length = bs.length := by simpa using congrArg List.length names
    by_cases inside : place < as.length
    · have alsoInside : place < bs.length := length ▸ inside
      simpa [at?, inside, alsoInside] using shown place decl as[place] bs[place] declared shows
        (List.getElem?_eq_getElem inside) (List.getElem?_eq_getElem alsoInside)
    · have alsoOutside : ¬ place < bs.length := length ▸ inside
      simpa [at?, inside, alsoOutside] using Value.ShownAlike.same _ _

/-! ## Alike results -/

/-- Faults that are the same, or that reject alike values. -/
inductive Fault.ShownAlike (catalog : Catalog) (tests : FieldDecl → ZeroTests) : Fault → Fault → Prop where
  | same (fault : Fault) : ShownAlike catalog tests fault fault
  | rejected {failure : FieldFailure} {value : Value} (values : failure.value.ShownAlike catalog tests .none value) :
      ShownAlike catalog tests (.ruleFailed failure) (.ruleFailed { failure with value := value })

/-- Both results are faults that are alike, or neither is one and they belong together. -/
inductive EndAlike (catalog : Catalog) (tests : FieldDecl → ZeroTests) {α β : Type} (Rel : α → β → Prop) :
    Except Fault α → Except Fault β → Prop where
  | passed {a : α} {b : β} (related : Rel a b) : EndAlike catalog tests Rel (.ok a) (.ok b)
  | failed {fault other : Fault} (alike : fault.ShownAlike catalog tests other) :
      EndAlike catalog tests Rel (.error fault) (.error other)

namespace EndAlike
variable {catalog : Catalog} {tests : FieldDecl → ZeroTests} {α β γ δ : Type}

theorem refl (result : Except Fault α) : EndAlike catalog tests Eq result result := by
  cases result with
  | ok a => exact .passed rfl
  | error fault => exact .failed (.same fault)

theorem imp {Rel Wider : α → β → Prop} (wider : ∀ a b, Rel a b → Wider a b) {left : Except Fault α}
    {right : Except Fault β} (ends : EndAlike catalog tests Rel left right) : EndAlike catalog tests Wider left right := by
  cases ends with
  | passed related => exact .passed (wider _ _ related)
  | failed alike => exact .failed alike

theorem bind {Rel : α → β → Prop} {Next : γ → δ → Prop} {left : Except Fault α} {right : Except Fault β}
    {follow : α → Except Fault γ} {alsoFollow : β → Except Fault δ} (first : EndAlike catalog tests Rel left right)
    (second : ∀ a b, Rel a b → EndAlike catalog tests Next (follow a) (alsoFollow b)) :
    EndAlike catalog tests Next (left.bind follow) (right.bind alsoFollow) := by
  cases first with
  | passed related => exact second _ _ related
  | failed alike => exact .failed alike

end EndAlike

/-! ## Rules that are blind to the rest -/

/-- What a transformation leaves where it returns a value; one that is the same leaves the old value. -/
def Value.updated (value next : Value) : Value := if next.same value then value else next

theorem Value.updated_self (value : Value) : value.updated value = value := by
  unfold updated
  split <;> rfl

section
variable (catalog : Catalog) (method : Method)

/-- Scopes of one place with alike values, where it makes a difference if they are zero. Nothing is said of the owners. -/
structure Scope.ShownAlike (tests : ZeroTests) (scope other : Scope) : Prop where
  tested : tests.whole = true
  resembles : scope.Resembles (fun _ _ => True) (Value.ShownAlike catalog (FieldDecl.tests method) tests) other

/-- The rule does not tell alike values apart. -/
def Validation.Blind (rule : Validation) : Prop :=
  ∀ context transaction tests scope other, Scope.ShownAlike catalog method tests scope other →
    EndAlike catalog (FieldDecl.tests method) Eq (rule.check context transaction scope)
      (rule.check context transaction other)

/-- The rule makes alike values of alike values, and leaves alike values. -/
def Transformation.Blind (rule : Transformation) : Prop :=
  ∀ context transaction tests scope other, Scope.ShownAlike catalog method tests scope other →
    EndAlike catalog (FieldDecl.tests method)
      (fun a b => a.ShownAlike catalog (FieldDecl.tests method) tests b ∧
        (scope.value.updated a).ShownAlike catalog (FieldDecl.tests method) tests (other.value.updated b))
      (rule.apply context transaction scope) (rule.apply context transaction other)

/-- The formatter does not tell alike rejected values apart. -/
def Formatter.Blind (formatter : Formatter) : Prop :=
  ∀ tests scope other, Scope.ShownAlike catalog method tests scope other →
    formatter (.ofScope scope) = formatter (.ofScope other)

/-- Neither rules nor formatters tell alike values apart; what owns the values they do not read at all. -/
structure Registry.Blind (registry : Registry) : Prop where
  validations : ∀ name rule, registry.validation? name = some rule → rule.Blind catalog method
  transformations : ∀ name rule, registry.transformation? name = some rule → rule.Blind catalog method
  formatters : ∀ formatter ∈ registry.formatters, Formatter.Blind catalog method formatter

end

section
variable {catalog : Catalog} {method : Method}

theorem Scope.ShownAlike.isZero_eq {tests : ZeroTests} {scope other : Scope}
    (alike : scope.ShownAlike catalog method tests other) : scope.value.isZero = other.value.isZero :=
  alike.resembles.values.isZero_eq alike.tested

theorem blind_empty : Registry.empty.Blind catalog method := ⟨nofun, nofun, nofun⟩

theorem blind_putValidation {registry : Registry} (blind : registry.Blind catalog method) (name : String)
    {rule : Validation} (ruleBlind : rule.Blind catalog method) (builtIn : Bool) :
    (registry.putValidation name rule builtIn).Blind catalog method := by
  refine ⟨fun other held found => ?_, blind.transformations, blind.formatters⟩
  simp only [Registry.putValidation, Registry.validation?, Entries.get?_insert] at found
  split at found
  · cases found
    exact ruleBlind
  · exact blind.validations other held found

theorem blind_putTransformation {registry : Registry} (blind : registry.Blind catalog method) (name : String)
    {rule : Transformation} (ruleBlind : rule.Blind catalog method) (builtIn : Bool) :
    (registry.putTransformation name rule builtIn).Blind catalog method := by
  refine ⟨blind.validations, fun other held found => ?_, blind.formatters⟩
  simp only [Registry.putTransformation, Registry.transformation?, Entries.get?_insert] at found
  split at found
  · cases found
    exact ruleBlind
  · exact blind.transformations other held found

/-! ## The built-in rules -/

theorem blind_required : BuiltIns.required.Blind catalog method := by
  intro context transaction tests scope other alike
  show EndAlike _ _ Eq (.ok (!scope.value.isZero)) (.ok (!other.value.isZero))
  rw [alike.isZero_eq]
  exact .passed rfl

/-- A bound is compared with the value's size or number, and of any other value the fault tells the kind alone. -/
theorem checkBound_congr (bound : BuiltIns.Bound) (scope : Scope) (owner : RecordValue) {value : Value}
    {records : RecordValue → RecordValue → Prop} {values : Value → Value → Prop}
    (parallel : scope.value.Parallel records values value) (param : String) :
    BuiltIns.checkBound bound scope param =
      BuiltIns.checkBound bound { scope with owner := owner, value := value } param := by
  obtain ⟨_, _, _, _, _, held, _, _, _⟩ := scope
  simp only at parallel
  cases parallel with
  | record fields => rfl
  | sequence items => simp only [BuiltIns.checkBound, Value.size?, items.length_eq]; rfl
  | mapping entries => simp only [BuiltIns.checkBound, Value.size?, entries.length_eq]; rfl
  | single plain => rfl

theorem blind_bounded (bound : BuiltIns.Bound) : (BuiltIns.bounded bound).Blind catalog method := by
  intro context transaction tests scope other alike
  have same : (BuiltIns.bounded bound).check context transaction scope =
      (BuiltIns.bounded bound).check context transaction other := by
    rw [alike.resembles.rest]
    simp only [BuiltIns.bounded, ← checkBound_congr bound scope other.owner alike.resembles.values.parallel]
  exact same ▸ .refl _

theorem blind_email : BuiltIns.email.Blind catalog method := by
  intro context transaction tests scope other alike
  have same : BuiltIns.email.check context transaction scope = BuiltIns.email.check context transaction other := by
    rw [alike.resembles.rest]
    have parallel := alike.resembles.values.parallel
    generalize other.owner = owner, other.value = value at parallel
    obtain ⟨_, _, _, _, _, held, _, _, _⟩ := scope
    cases parallel <;> rfl
  exact same ▸ .refl _

theorem blind_onText (change : String → String) : (BuiltIns.onText change).Blind catalog method := by
  intro context transaction tests scope other alike
  have values := alike.resembles.values
  by_cases text : ∃ held, scope.value = .string held
  · obtain ⟨held, holds⟩ := text
    have alsoHolds : other.value = .string held := by
      rw [holds] at values
      generalize other.value = value at values
      cases values
      rfl
    simp only [BuiltIns.onText, holds, alsoHolds]
    exact .passed ⟨.same _ _, .same _ _⟩
  · have unchanged (seen : Scope) (noText : ¬ ∃ held, seen.value = .string held) :
        (BuiltIns.onText change).apply context transaction seen = .ok seen.value := by
      simp only [BuiltIns.onText]
      split
      · next held holds => exact absurd ⟨held, holds⟩ noText
      · rfl
    have alsoNoText : ¬ ∃ held, other.value = .string held := by
      rintro ⟨held, holds⟩
      rw [holds] at values
      generalize scope.value = value at values text
      cases values
      exact text ⟨held, rfl⟩
    rw [unchanged scope text, unchanged other alsoNoText]
    refine .passed ⟨values, ?_⟩
    rw [Value.updated_self, Value.updated_self]
    exact values

theorem blind_withBuiltIns : Registry.withBuiltIns.Blind catalog method := by
  have checks : ∀ entry ∈ BuiltIns.validations, entry.2.Blind catalog method := by
    intro entry member
    simp only [BuiltIns.validations, List.cons_append, List.mem_cons, List.mem_append, List.mem_map] at member
    obtain rfl | ⟨_, _, rfl⟩ | rfl | rfl | rfl | absent := member
    · exact blind_required
    · exact blind_required
    · exact blind_bounded .lower
    · exact blind_bounded .upper
    · exact blind_email
    · cases absent
  have changes : ∀ entry ∈ BuiltIns.transformations, entry.2.Blind catalog method := by
    simp [BuiltIns.transformations, blind_onText]
  have validated : (BuiltIns.validations.foldl (fun made entry => made.putValidation entry.1 entry.2 true)
      Registry.empty).Blind catalog method :=
    List.foldlRecOn _ _ blind_empty fun _ blind entry member =>
      blind_putValidation blind entry.1 (checks entry member) true
  exact List.foldlRecOn _ _ validated fun _ blind entry member =>
    blind_putTransformation blind entry.1 (changes entry member) true

end

end TaggedRecords
