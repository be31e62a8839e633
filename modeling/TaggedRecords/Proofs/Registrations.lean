import TaggedRecords.Proofs.BoundRules
import TaggedRecords.Proofs.DistinctKeys
import TaggedRecords.Proofs.TagText

/-!
# Registrations

What calls that register rules and formatters make of a registry, one by one: which of them are rejected, and what they
cannot change. The names of built-in rules keep their rules, and all other names are ones that a tag can write.
-/

namespace TaggedRecords

/-- A call that registers something. -/
inductive Registration where
  | validation (name : String) (rule : Validation)
  | transformation (name : String) (rule : Transformation)
  | formatter (formatter : Formatter)

/-- The name that a call wants, if it wants one. -/
def Registration.name? : Registration → Option String
  | .validation name _ => some name
  | .transformation name _ => some name
  | .formatter _ => none

/-- Names that a tag can write and that mean nothing else there. -/
structure Nameable (name : String) : Prop where
  nonempty : name ≠ ""
  unblanked : ∀ c ∈ name.toList, isBlank c = false
  unreserved : ∀ c ∈ name.toList, c ∉ reservedChars
  noDive : name ≠ diveMark
  noOmit : name ≠ omitMark
  noSuffixedOmit : ∀ method : Method, name ≠ method.restrict omitMark

theorem nameFault?_eq_none_iff {name : String} {builtIn : Bool} :
    nameFault? name builtIn = none ↔ builtIn = false ∧ Nameable name := by
  have blanks : (name.toList.any isBlank = true) ↔ ¬ ∀ c ∈ name.toList, isBlank c = false := by
    simp
  have reserved : (name.toList.any (fun c => decide (c ∈ reservedChars)) = true) ↔
      ¬ ∀ c ∈ name.toList, c ∉ reservedChars := by simp
  unfold nameFault?
  constructor
  · intro free
    split at free
    · cases free
    · next nonempty =>
      split at free
      · cases free
      · next notBuiltIn =>
        split at free
        · cases free
        · next unblanked =>
          split at free
          · cases free
          · next unreserved =>
            split at free
            · cases free
            · next unmarked =>
              obtain ⟨noDive, noOmit, noSuffixedOmit⟩ := isMark_eq_false_iff.mp (eq_false_of_ne_true unmarked)
              exact ⟨eq_false_of_ne_true notBuiltIn, fun empty => nonempty (String.isEmpty_iff.mpr empty),
                of_not_not (blanks.not.mp unblanked), of_not_not (reserved.not.mp unreserved), noDive, noOmit,
                noSuffixedOmit⟩
  · rintro ⟨rfl, nameable⟩
    rw [if_neg fun empty => nameable.nonempty (String.isEmpty_iff.mp empty), if_neg Bool.false_ne_true,
      if_neg fun blank => blanks.mp blank nameable.unblanked,
      if_neg fun inside => reserved.mp inside nameable.unreserved,
      isMark_eq_false_iff.mpr ⟨nameable.noDive, nameable.noOmit, nameable.noSuffixedOmit⟩, if_neg Bool.false_ne_true]

namespace Registry

/-- The registry that a call makes, or why the call is rejected. -/
def perform (registry : Registry) : Registration → Except Fault Registry
  | .validation name rule => registry.registerValidation name rule
  | .transformation name rule => registry.registerTransformation name rule
  | .formatter formatter => .ok (registry.registerFormatter formatter)

/-- The registry after calls; a rejected one leaves what was there. -/
def after : Registry → List Registration → Registry
  | registry, [] => registry
  | registry, call :: rest =>
    match registry.perform call with
    | .ok next => next.after rest
    | .error _ => registry.after rest

/-- A rule of either kind stands under the name. -/
def Holds (registry : Registry) (name : String) : Prop :=
  Entries.get? registry.validations name ≠ none ∨ Entries.get? registry.transformations name ≠ none

/-! ## One call -/

section
variable {registry next : Registry}

/-- A rejected call says why: the name that it wants is a built-in one or none that can be registered. -/
theorem perform_eq_error_iff {call : Registration} {fault : Fault} :
    registry.perform call = .error fault ↔
      ∃ name, call.name? = some name ∧ nameFault? name (registry.isBuiltIn name) = some fault := by
  cases call with
  | validation name rule =>
    simp only [perform, registerValidation, Registration.name?, Option.some.injEq, exists_eq_left']
    split <;> simp_all
  | transformation name rule =>
    simp only [perform, registerTransformation, Registration.name?, Option.some.injEq, exists_eq_left']
    split <;> simp_all
  | formatter formatter => simp [perform, Registration.name?]

/-- What an accepted call does. -/
inductive Takes (registry : Registry) : Registry → Prop where
  | validation (name : String) (rule : Validation) (free : registry.isBuiltIn name = false)
      (nameable : Nameable name) : Takes registry (registry.putValidation name rule false)
  | transformation (name : String) (rule : Transformation) (free : registry.isBuiltIn name = false)
      (nameable : Nameable name) : Takes registry (registry.putTransformation name rule false)
  | formatter (formatter : Formatter) : Takes registry (registry.registerFormatter formatter)

theorem takes_of_perform {call : Registration} (accepted : registry.perform call = .ok next) : registry.Takes next := by
  cases call with
  | validation name rule =>
    rw [perform, registerValidation] at accepted
    split at accepted
    · cases accepted
    · next faultless =>
      cases accepted
      obtain ⟨free, nameable⟩ := nameFault?_eq_none_iff.mp faultless
      exact .validation name rule free nameable
  | transformation name rule =>
    rw [perform, registerTransformation] at accepted
    split at accepted
    · cases accepted
    · next faultless =>
      cases accepted
      obtain ⟨free, nameable⟩ := nameFault?_eq_none_iff.mp faultless
      exact .transformation name rule free nameable
  | formatter formatter =>
    cases accepted
    exact .formatter formatter

/-- An accepted validation stands under its name, which can be registered. -/
theorem validation?_of_perform {name : String} {rule : Validation}
    (accepted : registry.perform (.validation name rule) = .ok next) :
    next.validation? name = some rule ∧ Nameable name := by
  rw [perform, registerValidation] at accepted
  split at accepted
  · cases accepted
  · next faultless =>
    cases accepted
    refine ⟨?_, (nameFault?_eq_none_iff.mp faultless).2⟩
    rw [validation?, putValidation, Entries.get?_insert, if_pos rfl]
    rfl

/-- An accepted transformation stands under its name, which can be registered. -/
theorem transformation?_of_perform {name : String} {rule : Transformation}
    (accepted : registry.perform (.transformation name rule) = .ok next) :
    next.transformation? name = some rule ∧ Nameable name := by
  rw [perform, registerTransformation] at accepted
  split at accepted
  · cases accepted
  · next faultless =>
    cases accepted
    refine ⟨?_, (nameFault?_eq_none_iff.mp faultless).2⟩
    rw [transformation?, putTransformation, Entries.get?_insert, if_pos rfl]
    rfl

theorem isBuiltIn_putValidation {name : String} (rule : Validation) (free : registry.isBuiltIn name = false)
    (other : String) : (registry.putValidation name rule false).isBuiltIn other = registry.isBuiltIn other := by
  rw [isBuiltIn, putValidation, Entries.get?_insert]
  split
  · next same =>
    subst same
    rw [free]
    exact (Bool.or_eq_false_iff.mp free).2
  · rfl

theorem isBuiltIn_putTransformation {name : String} (rule : Transformation) (free : registry.isBuiltIn name = false)
    (other : String) : (registry.putTransformation name rule false).isBuiltIn other = registry.isBuiltIn other := by
  rw [isBuiltIn, putTransformation, Entries.get?_insert]
  split
  · next same =>
    subst same
    rw [free]
    simpa using (Bool.or_eq_false_iff.mp free).1
  · rfl

namespace Takes

theorem isBuiltIn (takes : registry.Takes next) (name : String) : next.isBuiltIn name = registry.isBuiltIn name := by
  cases takes with
  | validation taken rule free _ => exact isBuiltIn_putValidation rule free name
  | transformation taken rule free _ => exact isBuiltIn_putTransformation rule free name
  | formatter _ => rfl

/-- Under a built-in name nothing changes. -/
theorem get?_validations (takes : registry.Takes next) {name : String} (builtIn : registry.isBuiltIn name = true) :
    Entries.get? next.validations name = Entries.get? registry.validations name := by
  cases takes with
  | validation taken rule free _ =>
    refine (Entries.get?_insert _ _ _ _).trans (if_neg fun same => ?_)
    rw [same, builtIn] at free
    cases free
  | transformation taken rule free _ => rfl
  | formatter _ => rfl

/-- Under a built-in name nothing changes. -/
theorem get?_transformations (takes : registry.Takes next) {name : String} (builtIn : registry.isBuiltIn name = true) :
    Entries.get? next.transformations name = Entries.get? registry.transformations name := by
  cases takes with
  | validation taken rule free _ => rfl
  | transformation taken rule free _ =>
    refine (Entries.get?_insert _ _ _ _).trans (if_neg fun same => ?_)
    rw [same, builtIn] at free
    cases free
  | formatter _ => rfl

/-- A name that has a validation keeps one. -/
theorem validation?_ne_none (takes : registry.Takes next) {name : String} (held : registry.validation? name ≠ none) :
    next.validation? name ≠ none := by
  cases takes with
  | validation taken rule _ _ =>
    rw [validation?, putValidation, Entries.get?_insert]
    split
    · simp
    · exact held
  | transformation taken rule _ _ => exact held
  | formatter _ => exact held

/-- A name that has a transformation keeps one. -/
theorem transformation?_ne_none (takes : registry.Takes next) {name : String}
    (held : registry.transformation? name ≠ none) : next.transformation? name ≠ none := by
  cases takes with
  | validation taken rule _ _ => exact held
  | transformation taken rule _ _ =>
    rw [transformation?, putTransformation, Entries.get?_insert]
    split
    · simp
    · exact held
  | formatter _ => exact held

/-- A name that is new can be registered. -/
theorem holds (takes : registry.Takes next) {name : String} (holds : next.Holds name) :
    registry.Holds name ∨ Nameable name := by
  cases takes with
  | validation taken rule _ nameable =>
    by_cases same : taken = name
    · exact .inr (same ▸ nameable)
    · rw [Holds, putValidation, Entries.get?_insert, if_neg same] at holds
      exact .inl holds
  | transformation taken rule _ nameable =>
    by_cases same : taken = name
    · exact .inr (same ▸ nameable)
    · rw [Holds, putTransformation, Entries.get?_insert, if_neg same] at holds
      exact .inl holds
  | formatter _ => exact .inl holds

end Takes

end

/-! ## Any calls -/

section
variable {base : Registry}

/-- What every accepted call preserves holds after all calls. -/
theorem after_induction {P : Registry → Prop}
    (step : ∀ {registry next}, Registry.Takes registry next → P registry → P next)
    (start : P base) (calls : List Registration) : P (base.after calls) := by
  induction calls generalizing base with
  | nil => exact start
  | cons call rest ih =>
    rw [after]
    split
    · next next accepted => exact ih (step (takes_of_perform accepted) start)
    · exact ih start

theorem after_append (calls later : List Registration) :
    base.after (calls ++ later) = (base.after calls).after later := by
  induction calls generalizing base with
  | nil => rfl
  | cons call rest ih =>
    rw [List.cons_append, after, after]
    split <;> exact ih

theorem isBuiltIn_after (calls : List Registration) (name : String) :
    (base.after calls).isBuiltIn name = base.isBuiltIn name :=
  after_induction (P := fun registry => registry.isBuiltIn name = base.isBuiltIn name)
    (fun takes same => (takes.isBuiltIn name).trans same) rfl calls

/-- Under the built-in names the registry stays as it began. -/
theorem get?_after {name : String} (builtIn : base.isBuiltIn name = true) (calls : List Registration) :
    Entries.get? (base.after calls).validations name = Entries.get? base.validations name ∧
      Entries.get? (base.after calls).transformations name = Entries.get? base.transformations name := by
  have kept := after_induction (P := fun registry => registry.isBuiltIn name = true ∧
      Entries.get? registry.validations name = Entries.get? base.validations name ∧
      Entries.get? registry.transformations name = Entries.get? base.transformations name)
    (fun takes ⟨held, validations, transformations⟩ => ⟨(takes.isBuiltIn name).trans held,
      (takes.get?_validations held).trans validations, (takes.get?_transformations held).trans transformations⟩)
    ⟨builtIn, rfl, rfl⟩ calls
  exact kept.2

theorem validation?_after {name : String} (held : base.validation? name ≠ none) (calls : List Registration) :
    (base.after calls).validation? name ≠ none :=
  after_induction (P := fun registry => registry.validation? name ≠ none) (fun takes => takes.validation?_ne_none) held
    calls

theorem transformation?_after {name : String} (held : base.transformation? name ≠ none) (calls : List Registration) :
    (base.after calls).transformation? name ≠ none :=
  after_induction (P := fun registry => registry.transformation? name ≠ none)
    (fun takes => takes.transformation?_ne_none) held calls

/-- All names are ones that can be registered if those at the beginning are. -/
theorem nameable_after (nameable : ∀ name, base.Holds name → Nameable name) (calls : List Registration) :
    ∀ name, (base.after calls).Holds name → Nameable name :=
  after_induction (P := fun registry => ∀ name, registry.Holds name → Nameable name)
    (fun takes earlier name holds => (takes.holds holds).elim (earlier name) id) nameable calls

end

/-! ## The built-in rules -/

/-- The built-in rules stand under their names, nothing else stands there, and all names are ones that a tag can
write. -/
structure KeepsBuiltIns (registry : Registry) : Prop where
  validations : ∀ entry ∈ BuiltIns.validations, Entries.get? registry.validations entry.1 = some ⟨entry.2, true⟩ ∧
    Entries.get? registry.transformations entry.1 = none
  transformations : ∀ entry ∈ BuiltIns.transformations,
    Entries.get? registry.transformations entry.1 = some ⟨entry.2, true⟩ ∧
      Entries.get? registry.validations entry.1 = none
  names : ∀ name, registry.isBuiltIn name = withBuiltIns.isBuiltIn name
  nameable : ∀ name, registry.Holds name → Nameable name

theorem validations_withBuiltIns : ∀ entry ∈ BuiltIns.validations,
    Entries.get? withBuiltIns.validations entry.1 = some ⟨entry.2, true⟩ ∧
      Entries.get? withBuiltIns.transformations entry.1 = none := by
  intro entry member
  simp only [BuiltIns.validations, Method.all, List.map_cons, List.map_nil, List.cons_append, List.nil_append,
    List.mem_cons, List.not_mem_nil, or_false] at member
  rcases member with rfl | rfl | rfl | rfl | rfl | rfl | rfl <;> exact ⟨rfl, rfl⟩

theorem transformations_withBuiltIns : ∀ entry ∈ BuiltIns.transformations,
    Entries.get? withBuiltIns.transformations entry.1 = some ⟨entry.2, true⟩ ∧
      Entries.get? withBuiltIns.validations entry.1 = none := by
  intro entry member
  simp only [BuiltIns.transformations, List.mem_cons, List.not_mem_nil, or_false] at member
  rcases member with rfl | rfl | rfl <;> exact ⟨rfl, rfl⟩

theorem nameable_withBuiltIns (name : String) (holds : withBuiltIns.Holds name) : Nameable name := by
  have validations : ∀ entry ∈ withBuiltIns.validations, nameFault? entry.1 false = none := by decide
  have transformations : ∀ entry ∈ withBuiltIns.transformations, nameFault? entry.1 false = none := by decide
  rcases holds with holds | holds
  · obtain ⟨rule, found⟩ := Option.ne_none_iff_exists'.mp holds
    exact (nameFault?_eq_none_iff.mp (validations _ (Entries.mem_of_get? found))).2
  · obtain ⟨rule, found⟩ := Option.ne_none_iff_exists'.mp holds
    exact (nameFault?_eq_none_iff.mp (transformations _ (Entries.mem_of_get? found))).2

theorem keepsBuiltIns_after (calls : List Registration) : (withBuiltIns.after calls).KeepsBuiltIns where
  validations entry member := by
    obtain ⟨here, nothing⟩ := validations_withBuiltIns entry member
    have builtIn : withBuiltIns.isBuiltIn entry.1 = true := by rw [isBuiltIn, here]; rfl
    rw [(get?_after builtIn calls).1, (get?_after builtIn calls).2]
    exact ⟨here, nothing⟩
  transformations entry member := by
    obtain ⟨here, nothing⟩ := transformations_withBuiltIns entry member
    have builtIn : withBuiltIns.isBuiltIn entry.1 = true := by rw [isBuiltIn, here, nothing]; rfl
    rw [(get?_after builtIn calls).1, (get?_after builtIn calls).2]
    exact ⟨here, nothing⟩
  names := isBuiltIn_after calls
  nameable := nameable_after nameable_withBuiltIns calls

/-- The forms of the rule that wants a value are built-in ones, so its name cannot come from another rule with a
method behind it. -/
theorem KeepsBuiltIns.required {registry : Registry} (keeps : registry.KeepsBuiltIns) {name : String}
    (base : ((Method.splitSuffix? name).map Prod.fst).getD name = BuiltIns.requiredName) :
    registry.validation? name = some BuiltIns.required ∧ registry.transformation? name = none ∧
      registry.transformation? BuiltIns.requiredName = none := by
  have plain : (BuiltIns.requiredName, BuiltIns.required) ∈ BuiltIns.validations := List.mem_cons_self
  have member : (name, BuiltIns.required) ∈ BuiltIns.validations := by
    cases split : Method.splitSuffix? name with
    | none =>
      rw [split] at base
      rw [show name = BuiltIns.requiredName from base]
      exact plain
    | some found =>
      obtain ⟨start, method⟩ := found
      rw [split] at base
      rw [(Method.splitSuffix?_eq_some_iff.mp split).2, show start = BuiltIns.requiredName from base]
      cases method <;> simp [BuiltIns.validations, Method.all, Method.restrict, String.append_assoc]
  obtain ⟨here, nothing⟩ := keeps.validations _ member
  obtain ⟨-, also⟩ := keeps.validations _ plain
  exact ⟨congrArg (Option.map Registered.rule) here, congrArg (Option.map Registered.rule) nothing,
    congrArg (Option.map Registered.rule) also⟩

/-- A rule that is said to want a value is the built-in one. -/
theorem KeepsBuiltIns.action_of_required {registry : Registry} (keeps : registry.KeepsBuiltIns)
    {record field : String} {ref : RuleRef} {entry : RuleEntry}
    (resolved : registry.resolve record field ref = .ok entry) (required : entry.required = true) :
    entry.action = .validate BuiltIns.required := by
  unfold resolve at resolved
  dsimp only at resolved
  split at resolved
  · cases resolved
  · next boundTo action bound =>
    cases resolved
    obtain ⟨_, base⟩ := Bool.and_eq_true_iff.mp required
    obtain ⟨here, nothing, also⟩ := keeps.required (eq_of_beq base)
    cases forced : ref.forced with
    | false =>
      rw [bound?_of_validation forced here] at bound
      cases bound
      rfl
    | true =>
      -- Neither the whole name nor its start is one of a transformation.
      rw [bound?, forced, boundTransformation?, nothing] at bound
      cases split : Method.splitSuffix? ref.name with
      | none => simp [split] at bound
      | some found =>
        obtain ⟨start, method⟩ := found
        rw [split] at base bound
        have same : start = BuiltIns.requiredName := eq_of_beq base
        simp [boundTransformation?, same, also] at bound

/-- Whatever was registered before, a call is rejected for a built-in name or one that no tag can write, and for nothing
else. -/
theorem rejects_iff (calls : List Registration) (call : Registration) :
    (∃ fault, (withBuiltIns.after calls).perform call = .error fault) ↔
      ∃ name, call.name? = some name ∧ (withBuiltIns.isBuiltIn name = true ∨ ¬ Nameable name) := by
  have faults (name : String) : (∃ fault, nameFault? name ((withBuiltIns.after calls).isBuiltIn name) = some fault) ↔
      (withBuiltIns.isBuiltIn name = true ∨ ¬ Nameable name) := by
    rw [← Option.ne_none_iff_exists', Ne, nameFault?_eq_none_iff, isBuiltIn_after, not_and_or, Bool.not_eq_false]
  simp only [perform_eq_error_iff, ← faults]
  exact ⟨fun ⟨fault, name, wants, found⟩ => ⟨name, wants, fault, found⟩,
    fun ⟨name, wants, fault, found⟩ => ⟨fault, name, wants, found⟩⟩

/-- No calls shadow the built-in rules: these keep their names, and no other rule gets them. Every other name is one
that a tag can write. Only calls for built-in names and for names that no tag can write are rejected, and a rejected call
changes nothing. And whatever record types are prepared with the registry, a rule that is said to want a value is the
built-in one. -/
theorem builtIns_unshadowed (calls : List Registration) :
    (withBuiltIns.after calls).KeepsBuiltIns ∧
    (∀ call, (∃ fault, (withBuiltIns.after calls).perform call = .error fault) ↔
      ∃ name, call.name? = some name ∧ (withBuiltIns.isBuiltIn name = true ∨ ¬ Nameable name)) ∧
    (∀ call fault, (withBuiltIns.after calls).perform call = .error fault →
      withBuiltIns.after (calls ++ [call]) = withBuiltIns.after calls) ∧
    ∀ (catalog : Catalog) (type : RecordType) (metadata : RecordMetadata),
      RecordMetadata.build catalog (withBuiltIns.after calls) type = .ok metadata →
      ∀ field ∈ metadata.fields, ∀ entry ∈ field.rules ++ field.elementRules, entry.required = true →
        entry.action = .validate BuiltIns.required := by
  refine ⟨keepsBuiltIns_after calls, rejects_iff calls, fun call fault rejected => ?_, ?_⟩
  · rw [after_append, after, rejected]
    rfl
  · intro catalog type metadata built field member entry among required
    obtain ⟨ref, resolved⟩ := resolved_of_build built member among
    exact (keepsBuiltIns_after calls).action_of_required resolved required

/-- Two rules for addresses of pages, registered after a vain attempt to replace a built-in rule. -/
def slugging : List Registration :=
  [.transformation "email" ⟨fun _ _ scope => .ok scope.value, true⟩,
    .validation "slug" ⟨fun _ _ scope => .ok (scope.value.text?.any fun text => text.length ≤ 20), false⟩,
    .transformation "slug" ⟨fun _ _ scope => .ok scope.value, false⟩]

/-- Pages whose address has to be there when they are created. -/
def pages : Catalog := ⟨[⟨"Page", [⟨"address", "address,slug,required_create", .string⟩]⟩]⟩

/-- The attempt changes nothing, the new rules stand under their name, and the rule that wants a value is the built-in
one. -/
theorem slugging_unshadowed :
    withBuiltIns.after (slugging.take 1) = withBuiltIns ∧ (withBuiltIns.after slugging).Holds "slug" ∧
    ∃ metadata, RecordMetadata.build pages (withBuiltIns.after slugging) ⟨0, "Page"⟩ = .ok metadata ∧
      ∃ field ∈ metadata.fields, ∃ entry ∈ field.rules ++ field.elementRules, entry.required = true ∧
        entry.method = some .create ∧ entry.action = .validate BuiltIns.required := by
  obtain ⟨-, rejects, unchanged, -⟩ := builtIns_unshadowed []
  obtain ⟨-, -, -, wants⟩ := builtIns_unshadowed slugging
  have builtIn : withBuiltIns.isBuiltIn "email" = true := by decide
  obtain ⟨fault, rejected⟩ := (rejects (.transformation "email" ⟨fun _ _ scope => .ok scope.value, true⟩)).mpr
    ⟨"email", rfl, .inl builtIn⟩
  have held : (Entries.get? (withBuiltIns.after slugging).validations "slug").isSome = true := by decide
  refine ⟨unchanged _ fault rejected, .inl (Option.isSome_iff_ne_none.mp held), ?_⟩
  have found : (RecordMetadata.build pages (withBuiltIns.after slugging) ⟨0, "Page"⟩).toOption.any (fun metadata =>
      metadata.fields.any fun field => (field.rules ++ field.elementRules).any fun entry =>
        entry.required && entry.method == some .create) = true := by decide +kernel
  cases built : RecordMetadata.build pages (withBuiltIns.after slugging) ⟨0, "Page"⟩ with
  | error fault => rw [built] at found; cases found
  | ok metadata =>
    rw [built] at found
    obtain ⟨field, member, inside⟩ := List.any_eq_true.mp found
    obtain ⟨entry, among, both⟩ := List.any_eq_true.mp inside
    obtain ⟨required, only⟩ := Bool.and_eq_true_iff.mp both
    exact ⟨metadata, rfl, field, member, entry, among, required, eq_of_beq only,
      wants pages _ metadata built field member entry among required⟩

end Registry

end TaggedRecords
