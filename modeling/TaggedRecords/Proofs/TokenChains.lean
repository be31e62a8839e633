import TaggedRecords.Proofs.SpecialisedTags

/-!
# Tokens and what they come to

A token is a mark or refers to a rule, and a reference may mean the rules under its name or under that name without a
method. Tokens are read in order up to the first that refers to no rule that there is. Each other one adds its entry,
to the field up to the first mark for entering the elements and to these behind it, or marks what is left out.
-/

namespace TaggedRecords

/-! ## References in tokens -/

/-- A text names a rule: by itself, or up to its first sign of equality with the parameter behind it. -/
inductive Names : String → String → Option String → Prop
  | alone {text : String} (whole : '=' ∉ text.toList) : Names text text none
  | withParam {name param : String} (whole : '=' ∉ name.toList) :
      Names (name ++ "=" ++ param) (trimBlanks name) (some (trimBlanks param))

/-- A token that is no mark refers to a rule. One that starts with the mark of a transformation refers to a
transformation only. -/
inductive RuleRef.IsReadFrom : RuleRef → String → Prop
  | plain {token name : String} {param : Option String} (unmarked : isMark token = false)
      (unforced : ∀ rest, token ≠ transformMark ++ rest) (names : Names token name param) :
      IsReadFrom ⟨name, param, false⟩ token
  | forced {rest name : String} {param : Option String} (names : Names rest name param) :
      IsReadFrom ⟨name, param, true⟩ (transformMark ++ rest)

theorem splitParam_eq_iff {text name : String} {param : Option String} :
    splitParam text = (name, param) ↔ Names text name param := by
  constructor
  · intro split
    unfold splitParam at split
    cases cut : cutAt? '=' text with
    | none =>
      rw [cut] at split
      cases split
      exact .alone (cutAt?_eq_none_iff.mp cut)
    | some parts =>
      obtain ⟨before, after⟩ := parts
      rw [cut] at split
      cases split
      obtain ⟨whole, rfl⟩ := cutAt?_eq_some_iff.mp cut
      exact .withParam whole
  · intro names
    cases names with
    | alone whole => rw [splitParam, cutAt?_eq_none_iff.mpr whole]
    | @withParam name param whole =>
      have cut : cutAt? '=' (name ++ "=" ++ param) = some (name, param) := cutAt?_eq_some_iff.mpr ⟨whole, rfl⟩
      rw [splitParam, cut]

namespace Token

theorem classify_eq_dive_iff {token : String} : classify token = .dive ↔ token = diveMark := by
  constructor
  · intro dives
    unfold classify at dives
    split at dives
    · cases dives
    · split at dives
      · next same => exact same
      · split at dives
        · cases dives
        · split at dives
          · split at dives <;> cases dives
          · cases dives
  · rintro rfl
    decide

theorem classify_eq_omitEmpty_iff {token : String} {only : Option Method} :
    classify token = .omitEmpty only ↔ token = (omitEmpty only).text := by
  constructor
  · intro omits
    unfold classify at omits
    split at omits
    · cases omits
    · split at omits
      · cases omits
      · split at omits
        · next same =>
          cases omits
          exact same
        · split at omits
          · next base method split =>
            split at omits
            · next same =>
              cases omits
              rw [(Method.splitSuffix?_eq_some_iff.mp split).2, same]
              rfl
            · cases omits
          · cases omits
  · rintro rfl
    exact classify_omitText only

/-- A token is no mark exactly if it refers to a rule. -/
theorem isMark_eq_false_iff_exists {token : String} : isMark token = false ↔ ∃ ref, classify token = .rule ref := by
  rw [isMark_eq_false_iff]
  constructor
  · rintro ⟨noDive, noOmit, noSuffix⟩
    cases read : classify token with
    | rule ref => exact ⟨ref, rfl⟩
    | dive => exact absurd (classify_eq_dive_iff.mp read) noDive
    | omitEmpty only =>
      have written := classify_eq_omitEmpty_iff.mp read
      cases only with
      | none => exact absurd written noOmit
      | some method => exact absurd written (noSuffix method)
  · rintro ⟨ref, names⟩
    refine ⟨?_, ?_, ?_⟩
    · intro same
      cases (classify_eq_dive_iff.mpr same).symm.trans names
    · intro same
      have omits : classify token = .omitEmpty none := classify_eq_omitEmpty_iff.mpr same
      cases omits.symm.trans names
    · intro method same
      have omits : classify token = .omitEmpty (some method) := classify_eq_omitEmpty_iff.mpr same
      cases omits.symm.trans names

/-- What a token refers to. -/
theorem classify_eq_rule_iff {token : String} {ref : RuleRef} :
    classify token = .rule ref ↔ ref.IsReadFrom token := by
  have unforced {text : String} (behind : behind? transformMark text = none) :
      ∀ rest, text ≠ transformMark ++ rest := by
    intro rest same
    rw [behind?_eq_some_iff.mpr same] at behind
    cases behind
  constructor
  · intro names
    have unmarked := isMark_eq_false_iff_exists.mpr ⟨ref, names⟩
    obtain ⟨noDive, noOmit, noSuffix⟩ := isMark_eq_false_iff.mp unmarked
    cases behind : behind? transformMark token with
    | some rest =>
      unfold classify at names
      rw [behind] at names
      cases names
      rw [behind?_eq_some_iff.mp behind]
      exact .forced (splitParam_eq_iff.mp rfl)
    | none =>
      have plain : ref = ⟨(splitParam token).1, (splitParam token).2, false⟩ := by
        unfold classify at names
        rw [behind] at names
        dsimp only at names
        rw [if_neg noDive, if_neg noOmit] at names
        split at names
        · next base method split =>
          rw [if_neg] at names
          · exact (Token.rule.inj names).symm
          · rintro rfl
            exact noSuffix method (Method.splitSuffix?_eq_some_iff.mp split).2
        · exact (Token.rule.inj names).symm
      rw [plain]
      exact .plain unmarked (unforced behind) (splitParam_eq_iff.mp rfl)
  · intro read
    cases read with
    | forced names =>
      rw [classify, behind?_eq_some_iff.mpr rfl]
      dsimp only
      rw [splitParam_eq_iff.mpr names]
    | plain unmarked unforced names =>
      obtain ⟨noDive, noOmit, noSuffix⟩ := isMark_eq_false_iff.mp unmarked
      have behind : behind? transformMark token = none :=
        Option.eq_none_iff_forall_ne_some.mpr fun rest found => unforced rest (behind?_eq_some_iff.mp found)
      unfold classify
      rw [behind]
      dsimp only
      rw [if_neg noDive, if_neg noOmit, splitParam_eq_iff.mpr names]
      split
      · next base method split =>
        refine if_neg ?_
        rintro rfl
        exact noSuffix method (Method.splitSuffix?_eq_some_iff.mp split).2
      · rfl

end Token

/-! ## Rules for references -/

namespace Registry

/-- The rules under a name, a validation before a transformation, and this alone if one is asked for. -/
def under (registry : Registry) (forced : Bool) (name : String) : List (String × Action) :=
  (if forced then [] else (registry.boundValidation? name).toList) ++ (registry.boundTransformation? name).toList

/-- The rules that a reference may mean, the preferred one first: those under its name, then those under the name
without the method that it ends in. -/
def meant (registry : Registry) (ref : RuleRef) : List (String × Action) :=
  registry.under ref.forced ref.name ++
    ((Method.splitSuffix? ref.name).toList.flatMap fun split => registry.under ref.forced split.1)

theorem head?_under (registry : Registry) (forced : Bool) (name : String) :
    (registry.under forced name).head? = registry.boundAs? forced name := by
  unfold under boundAs?
  cases forced <;> cases registry.boundValidation? name <;> cases registry.boundTransformation? name <;> rfl

theorem head?_meant (registry : Registry) (ref : RuleRef) : (registry.meant ref).head? = registry.bound? ref := by
  rw [bound?_eq, meant, List.head?_append, head?_under]
  cases Method.splitSuffix? ref.name <;> simp [head?_under]

end Registry

/-- A name taken apart into the name without a method and the method that it ends in, if one stands behind something. -/
inductive Restricts : String → String → Option Method → Prop
  | never {name : String} (plain : ∀ base method, base ≠ "" → name ≠ Method.restrict method base) :
      Restricts name name none
  | only {base : String} {method : Method} (nonempty : base ≠ "") : Restricts (method.restrict base) base (some method)

theorem restricts_iff {name base : String} {only : Option Method} : Restricts name base only ↔
    ((Method.splitSuffix? name).map Prod.fst).getD name = base ∧ (Method.splitSuffix? name).map Prod.snd = only := by
  constructor
  · intro restricts
    cases restricts with
    | never plain =>
      have whole : Method.splitSuffix? name = none := by
        refine Option.eq_none_iff_forall_ne_some.mpr fun split found => ?_
        obtain ⟨nonempty, same⟩ := Method.splitSuffix?_eq_some_iff.mp found
        exact plain split.1 split.2 nonempty same
      rw [whole]
      exact ⟨rfl, rfl⟩
    | only nonempty =>
      rw [Method.splitSuffix?_eq_some_iff.mpr ⟨nonempty, rfl⟩]
      exact ⟨rfl, rfl⟩
  · rintro ⟨rfl, rfl⟩
    cases split : Method.splitSuffix? name with
    | none =>
      refine .never fun base method nonempty same => ?_
      rw [Method.splitSuffix?_eq_some_iff.mpr ⟨nonempty, same⟩] at split
      cases split
    | some parts =>
      obtain ⟨base, method⟩ := parts
      obtain ⟨nonempty, rfl⟩ := Method.splitSuffix?_eq_some_iff.mp split
      exact .only nonempty

/-- The entry for a token that refers to a rule: the preferred rule among those that it may mean, under the name without
a method and for the method that the name ends in. -/
structure RuleEntry.Resolves (registry : Registry) (token : String) (entry : RuleEntry) (ref : RuleRef) : Prop where
  read : ref.IsReadFrom token
  bound : (registry.meant ref).head? = some (entry.boundTo, entry.action)
  restricts : Restricts ref.name entry.name entry.method
  param : entry.param = ref.param
  runsOnNil : entry.runsOnNil = entry.action.runsOnNil
  required : entry.required = true ↔ entry.action.isTransform = false ∧ entry.name = BuiltIns.requiredName

section
variable {registry : Registry} {record field : String}

theorem resolve_eq_ok_iff_resolves {token : String} {ref : RuleRef} {entry : RuleEntry} (read : ref.IsReadFrom token) :
    registry.resolve record field ref = .ok entry ↔ entry.Resolves registry token ref := by
  rw [Registry.resolve_eq_ok_iff]
  constructor
  · rintro ⟨boundTo, action, bound, rfl⟩
    refine ⟨read, (registry.head?_meant ref).trans bound, restricts_iff.mpr ⟨rfl, rfl⟩, rfl, rfl, ?_⟩
    cases action.isTransform <;> simp
  · intro resolves
    obtain ⟨name, method⟩ := restricts_iff.mp resolves.restricts
    refine ⟨entry.boundTo, entry.action, (registry.head?_meant ref).symm.trans resolves.bound, ?_⟩
    have required : entry.required = (!entry.action.isTransform && entry.name == BuiltIns.requiredName) := by
      rw [Bool.eq_iff_iff, resolves.required]
      simp
    rw [name, method, ← required, ← resolves.runsOnNil, ← resolves.param]

theorem resolve_eq_error_iff {ref : RuleRef} {fault : Fault} : registry.resolve record field ref = .error fault ↔
    registry.meant ref = [] ∧ fault = .unknownRule record field ref.name := by
  have nothing : registry.meant ref = [] ↔ registry.bound? ref = none := by
    rw [← registry.head?_meant, List.head?_eq_none_iff]
  rw [nothing, Registry.resolve]
  cases registry.bound? ref <;> simp [eq_comm]

/-! ## Chains of tokens -/

/-- The tokens that refer to rules. -/
def ruleTokens (tokens : List String) : List String := tokens.filter fun token => !isMark token

/-- The tokens before the first mark for entering elements. -/
def ownTokens (tokens : List String) : List String := tokens.takeWhile fun token => token ≠ diveMark

/-- The tokens from the first mark for entering elements on. -/
def elementTokens (tokens : List String) : List String := tokens.dropWhile fun token => token ≠ diveMark

/-- The entries are those of the tokens that refer to rules, one by one. -/
def EntriesResolve (registry : Registry) (tokens : List String) (entries : List RuleEntry) : Prop :=
  List.Forall₂ (fun token entry => ∃ ref, RuleEntry.Resolves registry token entry ref) (ruleTokens tokens) entries

/-- A token that refers to no rule that there is. -/
structure Astray (registry : Registry) (token : String) (ref : RuleRef) : Prop where
  read : ref.IsReadFrom token
  nothing : registry.meant ref = []

theorem appliesTo_add_iff {policy : OmitPolicy} {only : Option Method} {method : Method} :
    (policy.add only).appliesTo method = true ↔
      policy.appliesTo method = true ∨ only = none ∨ only = some method := by
  rcases only with _ | other
  · cases method <;> simp [OmitPolicy.add, OmitPolicy.appliesTo]
  · cases other <;> cases method <;> simp [OmitPolicy.add, OmitPolicy.appliesTo]

/-- The mark for leaving out is one of two for a method exactly if it is for all methods or for this one. -/
theorem omitText_mem_iff {only : Option Method} {method : Method} :
    (omitMark = (Token.omitEmpty only).text ∨ method.restrict omitMark = (Token.omitEmpty only).text) ↔
      only = none ∨ only = some method := by
  rcases only with _ | other
  · exact iff_of_true (.inl rfl) (.inl rfl)
  · cases other <;> cases method <;> decide

theorem EntriesResolve.rule {token : String} {ref : RuleRef} {entry : RuleEntry}
    (resolves : entry.Resolves registry token ref) {tokens : List String} {entries : List RuleEntry}
    (others : EntriesResolve registry tokens entries) :
    EntriesResolve registry (token :: tokens) (entry :: entries) := by
  have names : isMark token = false :=
    Token.isMark_eq_false_iff_exists.mpr ⟨ref, Token.classify_eq_rule_iff.mpr resolves.read⟩
  rw [EntriesResolve, ruleTokens, List.filter_cons_of_pos (by simp [names])]
  exact .cons ⟨ref, resolves⟩ others

theorem EntriesResolve.mark {token : String} (marks : isMark token = true) {tokens : List String}
    {entries : List RuleEntry} (others : EntriesResolve registry tokens entries) :
    EntriesResolve registry (token :: tokens) entries := by
  rw [EntriesResolve, ruleTokens, List.filter_cons_of_neg (by simp [marks])]
  exact others

theorem isMark_of_classify {token : String} (unnamed : ∀ ref, Token.classify token ≠ .rule ref) :
    isMark token = true := by
  by_contra unmarked
  obtain ⟨ref, names⟩ := Token.isMark_eq_false_iff_exists.mp (Bool.eq_false_iff.mpr unmarked)
  exact unnamed ref names

/-- What a token does to the chains that it is added to. -/
inductive Chains.Takes (registry : Registry) (chains : Chains) : String → Chains → Prop
  | omits (only : Option Method) (marks : isMark (Token.omitEmpty only).text = true)
      (differs : (Token.omitEmpty only).text ≠ diveMark) :
      Takes registry chains (Token.omitEmpty only).text { chains with omission := chains.omission.add only }
  | dives : Takes registry chains diveMark { chains with dive := true }
  | own {token : String} {ref : RuleRef} {entry : RuleEntry} (outside : chains.dive = false)
      (resolves : entry.Resolves registry token ref) :
      Takes registry chains token { chains with rules := chains.rules ++ [entry] }
  | element {token : String} {ref : RuleRef} {entry : RuleEntry} (inside : chains.dive = true)
      (resolves : entry.Resolves registry token ref) :
      Takes registry chains token { chains with elementRules := chains.elementRules ++ [entry] }

theorem takes_of_add {chains next : Chains} {token : String}
    (added : chains.add registry record field token = .ok next) : chains.Takes registry token next := by
  obtain ⟨only, omits, rfl⟩ | ⟨dives, rfl⟩ | ⟨ref, entry, names, resolved, rfl⟩ := add_cases added
  · have marks : isMark token = true := isMark_of_classify fun ref names => by cases omits.symm.trans names
    have differs : token ≠ diveMark := fun same => by
      cases omits.symm.trans (Token.classify_eq_dive_iff.mpr same)
    obtain rfl := Token.classify_eq_omitEmpty_iff.mp omits
    exact .omits only marks differs
  · obtain rfl := Token.classify_eq_dive_iff.mp dives
    exact .dives
  · have resolves := (resolve_eq_ok_iff_resolves (Token.classify_eq_rule_iff.mp names)).mp resolved
    split
    · next inside => exact .element inside resolves
    · next outside => exact .own (Bool.eq_false_iff.mpr outside) resolves

theorem addAll_cons_ok {chains read : Chains} {token : String} {rest : List String}
    (added : chains.addAll registry record field (token :: rest) = .ok read) :
    ∃ next, chains.Takes registry token next ∧ next.addAll registry record field rest = .ok read := by
  rw [Chains.addAll] at added
  cases first : chains.add registry record field token with
  | error fault => rw [first] at added; cases added
  | ok next =>
    rw [first] at added
    exact ⟨next, takes_of_add first, added⟩

/-- Inside the elements all rules belong to these. -/
theorem addAll_inside {chains read : Chains} {tokens : List String}
    (added : chains.addAll registry record field tokens = .ok read) (inside : chains.dive = true) :
    read.rules = chains.rules ∧ read.dive = true ∧ ∃ entries, read.elementRules = chains.elementRules ++ entries ∧
      EntriesResolve registry tokens entries := by
  induction tokens generalizing chains with
  | nil =>
    cases added
    exact ⟨rfl, inside, [], by simp, .nil⟩
  | cons token rest ih =>
    obtain ⟨next, takes, others⟩ := addAll_cons_ok added
    cases takes with
    | omits only marks differs =>
      obtain ⟨rules, dive, entries, same, resolve⟩ := ih others inside
      exact ⟨rules, dive, entries, same, resolve.mark marks⟩
    | dives =>
      obtain ⟨rules, dive, entries, same, resolve⟩ := ih others rfl
      exact ⟨rules, dive, entries, same, resolve.mark (by decide)⟩
    | own outside resolves => cases inside.symm.trans outside
    | @element _ _ entry _ resolves =>
      obtain ⟨rules, dive, entries, same, resolve⟩ := ih others inside
      exact ⟨rules, dive, entry :: entries, by simpa using same, .rule resolves resolve⟩

/-- Rules belong to the field up to the first mark for entering the elements, and to these behind it. -/
theorem addAll_outside {chains read : Chains} {tokens : List String}
    (added : chains.addAll registry record field tokens = .ok read) (outside : chains.dive = false) :
    (read.dive = true ↔ diveMark ∈ tokens) ∧
    (∃ entries, read.rules = chains.rules ++ entries ∧ EntriesResolve registry (ownTokens tokens) entries) ∧
    ∃ entries, read.elementRules = chains.elementRules ++ entries ∧
      EntriesResolve registry (elementTokens tokens) entries := by
  induction tokens generalizing chains with
  | nil =>
    cases added
    exact ⟨by simp [outside], ⟨[], by simp, .nil⟩, [], by simp, .nil⟩
  | cons token rest ih =>
    have before (differs : token ≠ diveMark) : (diveMark ∈ token :: rest ↔ diveMark ∈ rest) ∧
        ownTokens (token :: rest) = token :: ownTokens rest ∧
        elementTokens (token :: rest) = elementTokens rest := by
      simp [ownTokens, elementTokens, differs, Ne.symm differs]
    obtain ⟨next, takes, others⟩ := addAll_cons_ok added
    cases takes with
    | omits only marks differs =>
      obtain ⟨dive, ⟨own, ownSame, ownResolve⟩, elements⟩ := ih others outside
      obtain ⟨enters, owns, belong⟩ := before differs
      rw [enters, owns, belong]
      exact ⟨dive, ⟨own, ownSame, ownResolve.mark marks⟩, elements⟩
    | dives =>
      have here : ownTokens (diveMark :: rest) = [] ∧ elementTokens (diveMark :: rest) = diveMark :: rest := by
        simp [ownTokens, elementTokens]
      obtain ⟨rules, dive, entries, same, resolve⟩ := addAll_inside others rfl
      rw [here.1, here.2]
      exact ⟨iff_of_true dive List.mem_cons_self, ⟨[], by simpa using rules, .nil⟩, entries, same,
        resolve.mark (by decide)⟩
    | @own _ _ entry _ resolves =>
      have differs : token ≠ diveMark := by
        rintro rfl
        cases (Token.classify_eq_rule_iff.mpr resolves.read).symm.trans (Token.classify_eq_dive_iff.mpr rfl)
      obtain ⟨dive, ⟨own, ownSame, ownResolve⟩, elements⟩ := ih others outside
      obtain ⟨enters, owns, belong⟩ := before differs
      rw [enters, owns, belong]
      exact ⟨dive, ⟨entry :: own, by simpa using ownSame, .rule resolves ownResolve⟩, elements⟩
    | element inside resolves => cases inside.symm.trans outside

/-- A field is left out for the methods of its marks, wherever these stand. -/
theorem addAll_omission {chains read : Chains} {tokens : List String}
    (added : chains.addAll registry record field tokens = .ok read) (method : Method) :
    read.omission.appliesTo method = true ↔
      chains.omission.appliesTo method = true ∨ omitMark ∈ tokens ∨ method.restrict omitMark ∈ tokens := by
  have unmarked {token : String} {ref : RuleRef} {entry : RuleEntry} (resolves : entry.Resolves registry token ref) :
      omitMark ≠ token ∧ method.restrict omitMark ≠ token := by
    have names := Token.classify_eq_rule_iff.mpr resolves.read
    constructor
    · rintro rfl
      cases names.symm.trans (Token.classify_omitText none)
    · rintro rfl
      cases names.symm.trans (Token.classify_omitText (some method))
  induction tokens generalizing chains with
  | nil =>
    cases added
    simp
  | cons token rest ih =>
    obtain ⟨next, takes, others⟩ := addAll_cons_ok added
    refine (ih others).trans ?_
    rw [List.mem_cons, List.mem_cons]
    cases takes with
    | omits only marks differs =>
      rw [appliesTo_add_iff, ← omitText_mem_iff]
      tauto
    | dives =>
      have apart : omitMark ≠ diveMark ∧ method.restrict omitMark ≠ diveMark := by
        cases method <;> decide
      simp [apart]
    | own outside resolves => simp [unmarked resolves]
    | element inside resolves => simp [unmarked resolves]

/-! ## Tokens without a rule -/

theorem add_eq_error_iff {chains : Chains} {token : String} {fault : Fault} :
    chains.add registry record field token = .error fault ↔
      ∃ ref, Astray registry token ref ∧ fault = .unknownRule record field ref.name := by
  have read (ref : RuleRef) : Astray registry token ref ↔
      Token.classify token = .rule ref ∧ registry.meant ref = [] := by
    rw [Token.classify_eq_rule_iff]
    exact ⟨fun astray => ⟨astray.read, astray.nothing⟩, fun both => ⟨both.1, both.2⟩⟩
  simp only [read]
  unfold Chains.add
  cases names : Token.classify token with
  | omitEmpty only => simp
  | dive => simp
  | rule ref =>
    have failed := @resolve_eq_error_iff registry record field ref
    cases resolved : registry.resolve record field ref with
    | ok entry =>
      have found : registry.meant ref ≠ [] := by
        intro nothing
        cases resolved.symm.trans (failed.mpr ⟨nothing, rfl⟩)
      cases chains.dive <;> simp [resolved, bind, Except.bind, pure, Except.pure, found]
    | error other =>
      obtain ⟨nothing, rfl⟩ := failed.mp resolved
      dsimp only
      rw [resolved]
      constructor
      · intro failed
        cases failed
        exact ⟨ref, ⟨rfl, nothing⟩, rfl⟩
      · rintro ⟨other, ⟨same, _⟩, rfl⟩
        cases same
        rfl

/-- The first item at fault is the first of all, or this one passes and it is the first behind it. -/
theorem first_fault_cons_iff {α : Type} {passes fails : α → Prop} {first : α} {rest : List α} :
    (∃ before item after, first :: rest = before ++ item :: after ∧ (∀ other ∈ before, passes other) ∧ fails item) ↔
      fails first ∨ passes first ∧
        ∃ before item after, rest = before ++ item :: after ∧ (∀ other ∈ before, passes other) ∧ fails item := by
  constructor
  · rintro ⟨before, item, after, split, passed, failed⟩
    cases before with
    | nil =>
      cases split
      exact .inl failed
    | cons head tail =>
      cases split
      obtain ⟨here, below⟩ := List.forall_mem_cons.mp passed
      exact .inr ⟨here, tail, item, after, rfl, below, failed⟩
  · rintro (failed | ⟨here, before, item, after, rfl, below, failed⟩)
    · exact ⟨[], first, rest, rfl, by simp, failed⟩
    · exact ⟨first :: before, item, after, rfl, List.forall_mem_cons.mpr ⟨here, below⟩, failed⟩

/-- Reading tokens fails at the first that refers to no rule that there is. -/
theorem addAll_eq_error_iff {chains : Chains} {tokens : List String} {fault : Fault} :
    chains.addAll registry record field tokens = .error fault ↔
      ∃ before token after, tokens = before ++ token :: after ∧
        (∀ other ∈ before, ∀ ref, ¬ Astray registry other ref) ∧
        ∃ ref, Astray registry token ref ∧ fault = .unknownRule record field ref.name := by
  induction tokens generalizing chains with
  | nil => simp [Chains.addAll]
  | cons token rest ih =>
    rw [Chains.addAll, first_fault_cons_iff]
    cases added : chains.add registry record field token with
    | error other =>
      constructor
      · intro failed
        cases failed
        exact .inl (add_eq_error_iff.mp added)
      · rintro (astray | ⟨found, _⟩)
        · cases added.symm.trans (add_eq_error_iff.mpr astray)
          rfl
        · obtain ⟨ref, astray, _⟩ := add_eq_error_iff.mp added
          exact absurd astray (found ref)
    | ok next =>
      have found (ref : RuleRef) : ¬ Astray registry token ref := by
        intro astray
        cases added.symm.trans (add_eq_error_iff.mpr ⟨ref, astray, rfl⟩)
      have passes : ¬ ∃ ref, Astray registry token ref ∧ fault = .unknownRule record field ref.name := by
        rintro ⟨ref, astray, _⟩
        exact found ref astray
      rw [or_iff_right passes, and_iff_right found]
      exact ih

end

end TaggedRecords
