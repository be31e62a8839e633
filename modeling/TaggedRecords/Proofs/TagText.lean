import TaggedRecords.Proofs.TextCuts
import TaggedRecords.Registry

/-!
# The text of tags

How tags and tokens are written, and that reading gives back what was written: the ending that restricts a name to a
method, the commas between the pieces of a tag, and the name and parameter of a rule. Names that can be registered can
be written, all but one that is read as the mark of a transformation once a parameter follows it.
-/

namespace TaggedRecords

/-! ## Endings for methods -/

/-- A name restricted to a method. -/
def Method.restrict (method : Method) (name : String) : String := name ++ ("_" ++ method.text)

namespace Method

/-- No ending is the end of another. -/
theorem eq_of_suffix : ∀ a b : Method, ("_" ++ a.text).toList <:+ ("_" ++ b.text).toList → a = b := by
  intro a b
  cases a <;> cases b <;> decide

theorem restrict_inj {a b : Method} {name other : String} (same : a.restrict name = b.restrict other) :
    a = b ∧ name = other := by
  have chars : name.toList ++ ("_" ++ a.text).toList = other.toList ++ ("_" ++ b.text).toList := by
    rw [← String.toList_append, ← String.toList_append]
    exact congrArg String.toList same
  have methods : a = b := by
    rcases List.suffix_or_suffix_of_suffix ⟨_, chars⟩ (List.suffix_append _ _) with shorter | longer
    · exact eq_of_suffix a b shorter
    · exact (eq_of_suffix b a longer).symm
  subst methods
  exact ⟨rfl, String.toList_inj.mp (List.append_cancel_right chars)⟩

/-- A token splits into a name and a method exactly if it is that name restricted to it. -/
theorem splitSuffix?_eq_some_iff {token base : String} {method : Method} :
    splitSuffix? token = some (base, method) ↔ base ≠ "" ∧ token = method.restrict base := by
  have sound {base : String} {method : Method} (split : splitSuffix? token = some (base, method)) :
      base ≠ "" ∧ token = method.restrict base := by
    obtain ⟨tried, _, found⟩ := List.exists_of_findSome?_eq_some split
    split at found
    · next name cut =>
      split at found
      · cases found
      · next nonempty =>
        cases found
        exact ⟨fun empty => nonempty (String.isEmpty_iff.mpr empty), before?_eq_some_iff.mp cut⟩
    · cases found
  refine ⟨sound, fun ⟨nonempty, same⟩ => ?_⟩
  cases split : splitSuffix? token with
  | none =>
    have missed := List.findSome?_eq_none_iff.mp split method (by cases method <;> decide)
    rw [before?_eq_some_iff.mpr same] at missed
    simp [nonempty] at missed
  | some found =>
    obtain ⟨name, other⟩ := found
    obtain ⟨methods, names⟩ := restrict_inj (same.symm.trans (sound split).2)
    rw [methods, names]

end Method

/-- A name is no mark if it is none of the marks and none restricted to a method. -/
theorem isMark_eq_false_iff {name : String} : isMark name = false ↔
    name ≠ diveMark ∧ name ≠ omitMark ∧ ∀ method : Method, name ≠ method.restrict omitMark := by
  rw [isMark, Bool.or_eq_false_iff, Bool.or_eq_false_iff, beq_eq_false_iff_ne, beq_eq_false_iff_ne, and_assoc]
  refine and_congr_right fun _ => and_congr_right fun _ => ⟨fun unmarked method same => ?_, fun differs => ?_⟩
  · rw [Method.splitSuffix?_eq_some_iff.mpr ⟨by decide, same⟩] at unmarked
    simp at unmarked
  · split
    · next base method split =>
      refine beq_eq_false_iff_ne.mpr fun same => differs method ?_
      rw [← same]
      exact (Method.splitSuffix?_eq_some_iff.mp split).2
    · rfl

/-! ## Pieces of a tag -/

/-- What can stand between the commas of a tag. -/
structure IsPiece (text : String) : Prop where
  nonempty : text ≠ ""
  trimmed : Trimmed text
  whole : ',' ∉ text.toList

/-- A tag of an output name, or none, and tokens. -/
def Tag.written (rename : Option String) (tokens : List String) : String :=
  rename.getD "" ++ "," ++ ",".intercalate tokens

theorem trimmed_empty : Trimmed "" := by
  unfold Trimmed
  decide

/-- Around a sign that is no blank, joined texts are trimmed if both are. -/
theorem trimmed_append {a b : String} (sign : Char) (shown : isBlank sign = false) (first : Trimmed a)
    (second : Trimmed b) : Trimmed (a ++ String.singleton sign ++ b) := by
  rw [trimmed_iff] at first second ⊢
  have chars : (a ++ String.singleton sign ++ b).toList = a.toList ++ sign :: b.toList := by simp
  rw [chars]
  constructor
  · intro c at_
    cases start : a.toList with
    | nil =>
      rw [start] at at_
      cases at_
      exact shown
    | cons d rest =>
      rw [start] at at_ first
      exact first.1 c at_
  · intro c at_
    rw [List.getLast?_append, List.getLast?_cons] at at_
    cases ends : b.toList.getLast? with
    | none =>
      rw [ends] at at_
      cases at_
      exact shown
    | some d =>
      rw [ends] at at_
      cases at_
      exact second.2 d ends

theorem trimmed_intercalate {tokens : List String} (each : ∀ token ∈ tokens, Trimmed token) :
    Trimmed (",".intercalate tokens) := by
  induction tokens with
  | nil => exact trimmed_empty
  | cons first rest ih =>
    obtain ⟨here, below⟩ := List.forall_mem_cons.mp each
    cases rest with
    | nil => simpa using here
    | cons second others =>
      rw [String.intercalate_cons_cons]
      exact trimmed_append ',' (by decide) here (ih below)

/-- A tag written from pieces is read as these. -/
theorem Tag.parse_written {rename : Option String} {tokens : List String}
    (named : ∀ name, rename = some name → IsPiece name) (each : ∀ token ∈ tokens, IsPiece token) :
    Tag.parse (Tag.written rename tokens) = .field rename tokens := by
  have front : Trimmed (rename.getD "") ∧ ',' ∉ (rename.getD "").toList := by
    cases rename with
    | none => exact ⟨trimmed_empty, by decide⟩
    | some name => exact ⟨(named name rfl).trimmed, (named name rfl).whole⟩
  have trimmed : trimBlanks (Tag.written rename tokens) = Tag.written rename tokens :=
    trimmed_append ',' (by decide) front.1 (trimmed_intercalate fun token member => (each token member).trimmed)
  have comma : ',' ∈ (Tag.written rename tokens).toList := by simp [Tag.written]
  have shown : ¬ (Tag.written rename tokens = "" ∨ Tag.written rename tokens = "-") := by
    rintro (same | same) <;> rw [same] at comma <;> revert comma <;> decide
  have cut : pieces ',' (Tag.written rename tokens) =
      rename.getD "" :: if tokens = [] then [""] else tokens := by
    have joined : Tag.written rename tokens =
        (String.singleton ',').intercalate (rename.getD "" :: if tokens = [] then [""] else tokens) := by
      cases tokens with
      | nil => rfl
      | cons token rest =>
        rw [if_neg (by simp), String.intercalate_cons_cons]
        rfl
    rw [joined]
    refine pieces_intercalate (by simp) (List.forall_mem_cons.mpr ⟨front.2, fun piece member => ?_⟩)
    split at member
    · rw [List.mem_singleton.mp member]
      decide
    · exact (each piece member).whole
  have first : (if rename.getD "" = "" then none else some (rename.getD "")) = rename := by
    cases rename with
    | none => rfl
    | some name => exact if_neg (named name rfl).nonempty
  have others : ((if tokens = [] then [""] else tokens).map trimBlanks).filter (fun token => token ≠ "") = tokens := by
    split
    · next none => 
      subst none
      decide
    · rw [List.map_congr_left fun token member => (each token member).trimmed, List.map_id',
        List.filter_eq_self]
      exact fun token member => decide_eq_true (each token member).nonempty
  have kept : trimBlanks (rename.getD "") = rename.getD "" := front.1
  rw [Tag.parse]
  simp only [trimmed, if_neg shown, cut, List.map_cons, kept, first, others]

/-- What is read from a tag are pieces. -/
theorem Tag.pieces_of_parse {tag : String} {rename : Option String} {tokens : List String}
    (read : Tag.parse tag = .field rename tokens) :
    (∀ name, rename = some name → IsPiece name) ∧ ∀ token ∈ tokens, IsPiece token := by
  have trimmed {text : String} (member : text ∈ (pieces ',' (trimBlanks tag)).map trimBlanks) (nonempty : text ≠ "") :
      IsPiece text := by
    obtain ⟨piece, inside, rfl⟩ := List.mem_map.mp member
    exact ⟨nonempty, trimmed_trimBlanks piece, fun comma => not_mem_of_mem_pieces inside (mem_of_mem_trimBlanks comma)⟩
  rw [Tag.parse] at read
  split at read
  · cases read
  · split at read
    · cases read
      exact ⟨by simp, by simp⟩
    · next first rest cut =>
      rw [cut] at trimmed
      cases read
      refine ⟨fun name renamed => ?_, fun token member => ?_⟩
      · split at renamed
        · cases renamed
        · next nonempty =>
          cases renamed
          exact trimmed List.mem_cons_self nonempty
      · obtain ⟨among, nonempty⟩ := List.mem_filter.mp member
        exact trimmed (List.mem_cons_of_mem _ among) (of_decide_eq_true nonempty)

/-! ## Tokens -/

/-- How a parameter is written behind a name. -/
def paramText (param : Option String) : String := (param.map fun text => "=" ++ text).getD ""

/-- How a reference to a rule is written. -/
def RuleRef.text (ref : RuleRef) : String :=
  (if ref.forced then transformMark else "") ++ (ref.name ++ paramText ref.param)

/-- How a token is written. -/
def Token.text : Token → String
  | .omitEmpty none => omitMark
  | .omitEmpty (some method) => method.restrict omitMark
  | .dive => diveMark
  | .rule ref => ref.text

/-- References that are read as they are written: no sign of equality in the name, no blanks around the parts, and a
name that is no mark where nothing forces a transformation. -/
structure RuleRef.Writable (ref : RuleRef) : Prop where
  whole : '=' ∉ ref.name.toList
  trimmed : Trimmed ref.name
  param : ∀ param, ref.param = some param → Trimmed param
  unmarked : ref.forced = false → ref.param = none → isMark ref.name = false
  /-- With a parameter behind it this name would be the mark of a transformation. -/
  unforced : ref.forced = false → ref.param ≠ none → ref.name ≠ "transform"

theorem splitParam_text {name : String} {param : Option String} (whole : '=' ∉ name.toList) (named : Trimmed name)
    (trimmed : ∀ text, param = some text → Trimmed text) :
    splitParam (name ++ paramText param) = (name, param) := by
  cases param with
  | none =>
    have uncut : cutAt? '=' (name ++ paramText none) = none := cutAt?_eq_none_iff.mpr (by simpa [paramText] using whole)
    rw [splitParam, uncut]
    exact congrArg (fun text => (text, none)) String.append_empty
  | some text =>
    have cut : cutAt? '=' (name ++ paramText (some text)) = some (name, text) :=
      cutAt?_eq_some_iff.mpr ⟨whole, (String.append_assoc ..).symm⟩
    rw [splitParam, cut]
    exact congrArg₂ (fun first second => (first, some second)) named (trimmed text rfl)

/-- The mark of a transformation starts a text exactly if what stands before its first sign of equality is the name of
that mark. -/
theorem behind_transformMark {name rest : String} (whole : '=' ∉ name.toList) :
    behind? transformMark (name ++ ("=" ++ rest)) = if name = "transform" then some rest else none := by
  split
  · next same =>
    rw [same, behind?_eq_some_iff, ← String.append_assoc]
    rfl
  · next differs =>
    rw [Option.eq_none_iff_forall_ne_some]
    intro other found
    have start := behind?_eq_some_iff.mp found
    have first : cutAt? '=' (name ++ ("=" ++ rest)) = some (name, rest) :=
      cutAt?_eq_some_iff.mpr ⟨whole, (String.append_assoc ..).symm⟩
    have second : cutAt? '=' (name ++ ("=" ++ rest)) = some ("transform", other) :=
      cutAt?_eq_some_iff.mpr ⟨by decide, start⟩
    exact differs (congrArg Prod.fst (Option.some.inj (first.symm.trans second)))

/-- A text with a sign of equality that does not start with the mark of a transformation names a rule. -/
theorem Token.classify_of_mem {token : String} (member : '=' ∈ token.toList)
    (unforced : behind? transformMark token = none) :
    Token.classify token = .rule ⟨(splitParam token).1, (splitParam token).2, false⟩ := by
  have differs (mark : String) (free : '=' ∉ mark.toList) : token ≠ mark := fun same => free (same ▸ member)
  unfold Token.classify
  rw [unforced]
  dsimp only
  rw [if_neg (differs diveMark (by decide)), if_neg (differs omitMark (by decide))]
  split
  · next base method split =>
    refine if_neg fun omits => differs (method.restrict omitMark) (by cases method <;> decide) ?_
    rw [← omits]
    exact (Method.splitSuffix?_eq_some_iff.mp split).2
  · rfl

/-- A text that is no mark and has no sign of equality names a rule without a parameter. -/
theorem Token.classify_name {name : String} (whole : '=' ∉ name.toList) (unmarked : isMark name = false) :
    Token.classify name = .rule ⟨name, none, false⟩ := by
  obtain ⟨noDive, noOmit, noSuffix⟩ := isMark_eq_false_iff.mp unmarked
  have unforced : behind? transformMark name = none := by
    rw [Option.eq_none_iff_forall_ne_some]
    intro rest found
    refine whole ?_
    rw [behind?_eq_some_iff.mp found, String.toList_append]
    exact List.mem_append_left _ (by decide)
  have parts : splitParam name = (name, none) := by rw [splitParam, cutAt?_eq_none_iff.mpr whole]
  unfold Token.classify
  rw [unforced, parts]
  dsimp only
  rw [if_neg noDive, if_neg noOmit]
  split
  · next base method split =>
    refine if_neg fun omits => noSuffix method ?_
    rw [← omits]
    exact (Method.splitSuffix?_eq_some_iff.mp split).2
  · rfl

/-- A reference is read as it was written. -/
theorem Token.classify_ruleText {ref : RuleRef} (writable : ref.Writable) : Token.classify ref.text = .rule ref := by
  obtain ⟨name, param, forced⟩ := ref
  have parts := splitParam_text writable.whole writable.trimmed writable.param
  dsimp only at parts
  cases forced with
  | true =>
    have marked : RuleRef.text ⟨name, param, true⟩ = transformMark ++ (name ++ paramText param) := rfl
    rw [Token.classify, marked, behind?_eq_some_iff.mpr rfl]
    dsimp only
    rw [parts]
  | false =>
    have plain : RuleRef.text ⟨name, param, false⟩ = name ++ paramText param := String.empty_append
    rw [plain]
    cases param with
    | none =>
      rw [show name ++ paramText none = name from String.append_empty]
      exact Token.classify_name writable.whole (writable.unmarked rfl rfl)
    | some text =>
      have unforced : behind? transformMark (name ++ paramText (some text)) = none :=
        (behind_transformMark writable.whole).trans (if_neg (writable.unforced rfl (by simp)))
      rw [Token.classify_of_mem (by simp [paramText]) unforced, parts]

/-- A reference whose parts are pieces is written as a piece. -/
theorem RuleRef.isPiece_text {ref : RuleRef} (named : IsPiece ref.name)
    (param : ∀ text, ref.param = some text → Trimmed text ∧ ',' ∉ text.toList) : IsPiece ref.text := by
  obtain ⟨name, param?, forced⟩ := ref
  have behind : Trimmed (name ++ paramText param?) ∧ ',' ∉ (name ++ paramText param?).toList := by
    cases param? with
    | none =>
      rw [show name ++ paramText none = name from String.append_empty]
      exact ⟨named.trimmed, named.whole⟩
    | some text =>
      obtain ⟨trimmed, whole⟩ := param text rfl
      have joined : name ++ paramText (some text) = name ++ String.singleton '=' ++ text :=
        (String.append_assoc ..).symm
      rw [joined]
      exact ⟨trimmed_append '=' (by decide) named.trimmed trimmed, by simp [named.whole, whole]⟩
  have nonempty : name ++ paramText param? ≠ "" := fun empty =>
    named.nonempty (String.append_eq_empty_iff.mp empty).1
  cases forced with
  | false =>
    rw [show RuleRef.text ⟨name, param?, false⟩ = name ++ paramText param? from String.empty_append]
    exact ⟨nonempty, behind.1, behind.2⟩
  | true =>
    have marked : RuleRef.text ⟨name, param?, true⟩ =
        "transform" ++ String.singleton '=' ++ (name ++ paramText param?) := rfl
    have start : Trimmed "transform" := by
      unfold Trimmed
      decide
    rw [marked]
    refine ⟨fun empty => ?_, trimmed_append '=' (by decide) start behind.1, ?_⟩
    · exact nonempty (String.append_eq_empty_iff.mp empty).2
    · rw [String.toList_append]
      exact List.mem_append.not.mpr (not_or.mpr ⟨by decide, behind.2⟩)

theorem param_of_splitParam {text param : String} (given : (splitParam text).2 = some param) :
    Trimmed param ∧ ∀ c ∈ param.toList, c ∈ text.toList := by
  unfold splitParam at given
  split at given
  · next name rest cut =>
    cases given
    refine ⟨trimmed_trimBlanks rest, fun c member => ?_⟩
    rw [(cutAt?_eq_some_iff.mp cut).2, String.toList_append]
    exact List.mem_append_right _ (mem_of_mem_trimBlanks member)
  · cases given

/-- A parameter has no blanks around it and is a part of its token. -/
theorem param_of_classify {token : String} {ref : RuleRef} (names : Token.classify token = .rule ref) {param : String}
    (given : ref.param = some param) : Trimmed param ∧ ∀ c ∈ param.toList, c ∈ token.toList := by
  unfold Token.classify at names
  split at names
  · next rest behind =>
    cases names
    obtain ⟨trimmed, inside⟩ := param_of_splitParam given
    refine ⟨trimmed, fun c member => ?_⟩
    rw [behind?_eq_some_iff.mp behind, String.toList_append]
    exact List.mem_append_right _ (inside c member)
  · -- All other tokens that name rules are split as they stand.
    have parts : ref.param = (splitParam token).2 := by
      split at names
      · cases names
      · split at names
        · cases names
        · split at names
          · split at names
            · cases names
            · cases names
              rfl
          · cases names
            rfl
    exact param_of_splitParam (parts ▸ given)

/-- The marks are read as they are written. -/
theorem Token.classify_omitText :
    ∀ only : Option Method, Token.classify (Token.omitEmpty only).text = .omitEmpty only := by
  intro only
  rcases only with _ | method
  · decide
  · cases method <;> decide

end TaggedRecords
