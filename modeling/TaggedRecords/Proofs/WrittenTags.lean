import TaggedRecords.Proofs.TagText

/-!
# Tags and how they are written

Reading undoes writing: a tag written from pieces is read as these, and what is read from any text is the same when it
is written and read again. A text is read through the cores of its pieces, which are the pieces without their outer
blanks. So blanks around the pieces do not show, and neither do empty tokens behind the first comma.
-/

namespace TaggedRecords

/-! ## Outer blanks -/

/-- Text of blanks alone; there may be none. -/
def Blank (text : String) : Prop := ∀ c ∈ text.toList, isBlank c = true

theorem blank_empty : Blank "" := by
  intro c member
  cases member

theorem Blank.not_mem {text : String} (blank : Blank text) {sign : Char} (shown : isBlank sign = false) :
    sign ∉ text.toList := by
  intro member
  rw [blank sign member] at shown
  cases shown

theorem trimChars_append_front {front : List Char} (blank : ∀ c ∈ front, isBlank c = true) (text : List Char) :
    trimChars (front ++ text) = trimChars text := by
  rw [trimChars, List.dropWhile_append_of_pos blank]
  rfl

theorem trimChars_append_back {back : List Char} (blank : ∀ c ∈ back, isBlank c = true) (text : List Char) :
    trimChars (text ++ back) = trimChars text := by
  have nothing : back.dropWhile isBlank = [] := List.dropWhile_eq_nil_iff.mpr blank
  unfold trimChars
  rw [List.dropWhile_append]
  split
  · next empty =>
    rw [nothing, List.isEmpty_iff.mp empty]
  · rw [List.reverse_append, List.dropWhile_append_of_pos fun c member => blank c (List.mem_reverse.mp member)]

/-- Blanks at the ends do not count. -/
theorem trimBlanks_append {before behind : String} (front : Blank before) (back : Blank behind) (text : String) :
    trimBlanks (before ++ text ++ behind) = trimBlanks text := by
  rw [trimBlanks, String.toList_append, String.toList_append, trimChars_append_back back, trimChars_append_front front]
  rfl

/-- A text is what trimming leaves of it between blanks. -/
theorem exists_outer_blanks (text : String) :
    ∃ before behind, Blank before ∧ Blank behind ∧ text = before ++ trimBlanks text ++ behind := by
  have front : text.toList = text.toList.takeWhile isBlank ++ text.toList.dropWhile isBlank :=
    List.takeWhile_append_dropWhile.symm
  have back : text.toList.dropWhile isBlank =
      trimChars text.toList ++ (text.toList.dropWhile isBlank).rtakeWhile isBlank :=
    (List.rdropWhile_append_rtakeWhile ..).symm
  refine ⟨String.ofList (text.toList.takeWhile isBlank),
    String.ofList ((text.toList.dropWhile isBlank).rtakeWhile isBlank), ?_, ?_, ?_⟩
  · intro c member
    rw [String.toList_ofList] at member
    exact List.mem_takeWhile_imp member
  · intro c member
    rw [String.toList_ofList] at member
    exact List.mem_rtakeWhile_imp member
  · rw [← String.toList_inj, String.toList_append, String.toList_append, String.toList_ofList, String.toList_ofList,
      trimBlanks, String.toList_ofList, List.append_assoc, ← back]
    exact front

/-- No sign is lost by trimming. -/
theorem mem_trimBlanks_iff {text : String} {sign : Char} (shown : isBlank sign = false) :
    sign ∈ (trimBlanks text).toList ↔ sign ∈ text.toList := by
  refine ⟨mem_of_mem_trimBlanks, fun member => ?_⟩
  obtain ⟨before, behind, front, back, same⟩ := exists_outer_blanks text
  rw [same, String.toList_append, String.toList_append, List.mem_append, List.mem_append] at member
  rcases member with (inFront | inside) | inBack
  · exact absurd inFront (front.not_mem shown)
  · exact inside
  · exact absurd inBack (back.not_mem shown)

/-! ## Cores of pieces -/

/-- The pieces of a text between commas, without the blanks around them. -/
def cores (text : String) : List String := (pieces ',' text).map trimBlanks

theorem cores_ne_nil (text : String) : cores text ≠ [] := by
  simp [cores, pieces, splitChars_ne_nil]

theorem cores_of_not_mem {text : String} (whole : ',' ∉ text.toList) : cores text = [trimBlanks text] := by
  rw [cores, pieces, splitChars_of_not_mem whole]
  simp

theorem cores_join (left right : String) : cores (left ++ "," ++ right) = cores left ++ cores right := by
  have chars : (left ++ "," ++ right).toList = left.toList ++ ',' :: right.toList := by simp
  rw [cores, pieces, chars, splitChars_append, List.map_append, List.map_append]
  rfl

/-- Blanks at the ends of a text are blanks around its first and its last piece. -/
theorem cores_append {before behind : String} (front : Blank before) (back : Blank behind) (text : String) :
    cores (before ++ text ++ behind) = cores text := by
  have free {blanks : String} (blank : Blank blanks) : ',' ∉ blanks.toList := blank.not_mem (by decide)
  induction length : text.length using Nat.strong_induction_on generalizing text before with
  | _ n ih =>
    cases cut : cutAt? ',' text with
    | none =>
      have whole : ',' ∉ text.toList := cutAt?_eq_none_iff.mp cut
      rw [cores_of_not_mem whole, cores_of_not_mem (by simp [whole, free front, free back]),
        trimBlanks_append front back]
    | some parts =>
      -- The blanks in front go to the first piece, the others to the rest of the text.
      obtain ⟨first, rest⟩ := parts
      obtain ⟨whole, rfl⟩ := cutAt?_eq_some_iff.mp cut
      have regrouped : before ++ (first ++ String.singleton ',' ++ rest) ++ behind =
          before ++ first ++ "" ++ "," ++ ("" ++ rest ++ behind) := by
        rw [← String.toList_inj]
        simp
      have start : cores (before ++ first ++ "") = cores first := by
        rw [cores_of_not_mem whole, cores_of_not_mem (by simp [whole, free front]),
          trimBlanks_append front blank_empty]
      have shorter : rest.length < n := by
        rw [← length, String.length_append, String.length_append, String.length_singleton]
        omega
      rw [regrouped, cores_join, start, ih _ shorter blank_empty rest rfl]
      exact (cores_join first rest).symm

theorem cores_trimBlanks (text : String) : cores (trimBlanks text) = cores text := by
  obtain ⟨before, behind, front, back, same⟩ := exists_outer_blanks text
  conv_rhs => rw [same]
  exact (cores_append front back _).symm

/-! ## Reading through cores -/

namespace Tag

/-- A tag with an output name, which may be empty, and tokens, of which the empty ones do not count. -/
def ofCores (first : String) (rest : List String) : Tag :=
  .field (if first = "" then none else some first) (rest.filter fun token => token ≠ "")

/-- A tag is skipped exactly if it is nothing or a dash between blanks. -/
theorem parse_eq_skip_iff {tag : String} : parse tag = .skip ↔ trimBlanks tag = "" ∨ trimBlanks tag = "-" := by
  rw [parse]
  split
  · next skips => exact iff_of_true rfl skips
  · next shows =>
    refine iff_of_false ?_ shows
    split <;> exact Tag.noConfusion

theorem parse_of_cores {tag first : String} {rest : List String}
    (shows : ¬ (trimBlanks tag = "" ∨ trimBlanks tag = "-")) (read : cores tag = first :: rest) :
    parse tag = ofCores first rest := by
  have trimmed : (pieces ',' (trimBlanks tag)).map trimBlanks = first :: rest := (cores_trimBlanks tag).trans read
  rw [parse]
  simp only [if_neg shows, trimmed]
  rfl

/-- A tag with a comma is read as its cores. -/
theorem parse_join (name : String) (rest : String) : ∃ first others, cores name = first :: others ∧
    parse (name ++ "," ++ rest) = ofCores first (others ++ cores rest) := by
  obtain ⟨first, others, read⟩ := List.exists_cons_of_ne_nil (cores_ne_nil name)
  have comma : ',' ∈ (trimBlanks (name ++ "," ++ rest)).toList := (mem_trimBlanks_iff (by decide)).mpr (by simp)
  refine ⟨first, others, read, parse_of_cores ?_ ?_⟩
  · rintro (same | same) <;> rw [same] at comma <;> revert comma <;> decide
  · rw [cores_join, read, List.cons_append]

/-- Blanks at the ends of a tag do not count. -/
theorem parse_append {before behind : String} (front : Blank before) (back : Blank behind) (tag : String) :
    parse (before ++ tag ++ behind) = parse tag := by
  by_cases skips : trimBlanks tag = "" ∨ trimBlanks tag = "-"
  · rw [parse_eq_skip_iff.mpr skips, parse_eq_skip_iff, trimBlanks_append front back]
    exact skips
  · obtain ⟨first, rest, read⟩ := List.exists_cons_of_ne_nil (cores_ne_nil tag)
    rw [parse_of_cores skips read]
    refine parse_of_cores ?_ ((cores_append front back tag).trans read)
    rwa [trimBlanks_append front back]

end Tag

/-! ## Loose tokens -/

/-- The other tokens are the same with blanks around them and with empty tokens among them. -/
inductive Loosened : List String → List String → Prop
  | nil : Loosened [] []
  | token {tokens others : List String} {before behind : String} (token : String) (front : Blank before)
      (back : Blank behind) (rest : Loosened tokens others) :
      Loosened (token :: tokens) ((before ++ token ++ behind) :: others)
  | empty {tokens others : List String} {blanks : String} (blank : Blank blanks) (rest : Loosened tokens others) :
      Loosened tokens (blanks :: others)

theorem shown_cores_intercalate (tokens : List String) :
    (cores (",".intercalate tokens)).filter (fun token => token ≠ "") =
      (tokens.flatMap cores).filter fun token => token ≠ "" := by
  induction tokens with
  | nil => decide
  | cons first rest ih =>
    cases rest with
    | nil => simp
    | cons second others =>
      rw [List.flatMap_cons, List.filter_append, String.intercalate_cons_cons, cores_join, List.filter_append, ih]

theorem Blank.cores {blanks : String} (blank : Blank blanks) : TaggedRecords.cores blanks = [""] := by
  have nothing : trimBlanks blanks = "" := by
    have trimmed := trimBlanks_append blank blank_empty ""
    rw [String.append_empty, String.append_empty] at trimmed
    exact trimmed.trans (by decide)
  rw [cores_of_not_mem (blank.not_mem (by decide)), nothing]

theorem Loosened.shown_cores {tokens others : List String} (loosened : Loosened tokens others) :
    (others.flatMap cores).filter (fun token => token ≠ "") =
      (tokens.flatMap cores).filter fun token => token ≠ "" := by
  induction loosened with
  | nil => rfl
  | token token front back _ ih =>
    rw [List.flatMap_cons, List.flatMap_cons, List.filter_append, List.filter_append, ih, cores_append front back]
  | empty blank _ ih =>
    rw [List.flatMap_cons, List.filter_append, ih, blank.cores]
    rfl

namespace Tag

/-- Blanks around the pieces and empty tokens behind the first comma do not count. -/
theorem parse_loosened {before behind : String} (front : Blank before) (back : Blank behind) (name : String)
    {tokens others : List String} (loosened : Loosened tokens others) :
    parse (before ++ name ++ behind ++ "," ++ ",".intercalate others) =
      parse (name ++ "," ++ ",".intercalate tokens) := by
  obtain ⟨first, rest, read, tight⟩ := parse_join name (",".intercalate tokens)
  obtain ⟨alsoFirst, alsoRest, alsoRead, loose⟩ := parse_join (before ++ name ++ behind) (",".intercalate others)
  obtain ⟨rfl, rfl⟩ := List.cons.inj (alsoRead.symm.trans ((cores_append front back name).trans read))
  rw [tight, loose, ofCores, ofCores, List.filter_append, List.filter_append, shown_cores_intercalate,
    shown_cores_intercalate, loosened.shown_cores]

/-- A tag written from pieces is read as these. Every text is skipped, which nothing and a lone dash between blanks are,
or read as pieces, and written and read again these are the same. Blanks at the ends of a text or around the pieces and
empty tokens behind the first comma do not change what is read. -/
theorem reading_undoes_writing :
    (∀ rename tokens, (∀ name, rename = some name → IsPiece name) → (∀ token ∈ tokens, IsPiece token) →
      parse (written rename tokens) = .field rename tokens) ∧
    (∀ tag, (parse tag = .skip ↔ trimBlanks tag = "" ∨ trimBlanks tag = "-") ∧
      ∀ rename tokens, parse tag = .field rename tokens →
        (∀ name, rename = some name → IsPiece name) ∧ (∀ token ∈ tokens, IsPiece token) ∧
        parse (written rename tokens) = parse tag) ∧
    (∀ tag before behind, Blank before → Blank behind → parse (before ++ tag ++ behind) = parse tag) ∧
    ∀ name tokens others before behind, Blank before → Blank behind → Loosened tokens others →
      parse (before ++ name ++ behind ++ "," ++ ",".intercalate others) =
        parse (name ++ "," ++ ",".intercalate tokens) := by
  refine ⟨fun rename tokens => parse_written, fun tag => ⟨parse_eq_skip_iff, fun rename tokens read => ?_⟩,
    fun tag before behind front back => parse_append front back tag,
    fun name tokens others before behind front back => parse_loosened front back name⟩
  obtain ⟨named, each⟩ := pieces_of_parse read
  exact ⟨named, each, (parse_written named each).trans read.symm⟩

/-- A dash with a comma behind it is an output name. It stays so without tokens, and with blanks, one of them not of
ASCII, and an empty token around the token that there is. -/
theorem dash_undone :
    parse (written (some "-") []) = .field (some "-") [] ∧
    parse (written (some "-") ["a b"]) = .field (some "-") ["a b"] ∧
    parse " -\t,, \u3000a b , " = parse "-,a b" ∧ parse "\u2003- " = .skip := by
  obtain ⟨undoes, reads, _, loose⟩ := reading_undoes_writing
  have pieces : IsPiece "-" ∧ IsPiece "a b" := by
    refine ⟨⟨by decide, ?_, by decide⟩, ⟨by decide, ?_, by decide⟩⟩ <;> unfold Trimmed <;> decide
  have named : ∀ name, some "-" = some name → IsPiece name := by
    intro name same
    cases same
    exact pieces.1
  refine ⟨undoes _ _ named (by simp), undoes _ _ named (by simpa using pieces.2), ?_,
    (reads "\u2003- ").1.mpr (by decide)⟩
  have blank (c : Char) (blank : isBlank c = true) : Blank (String.singleton c) := by
    simpa [Blank] using blank
  have loosened : Loosened ["a b"] ["", " \u3000" ++ "a b" ++ " ", " "] :=
    .empty blank_empty (.token "a b" (List.all_eq_true.mp (by decide)) (blank ' ' (by decide))
      (.empty (blank ' ' (by decide)) .nil))
  have loosely : " -\t,, \u3000a b , " =
      " " ++ "-" ++ "\t" ++ "," ++ ",".intercalate ["", " \u3000" ++ "a b" ++ " ", " "] := by decide
  have tightly : "-,a b" = "-" ++ "," ++ ",".intercalate ["a b"] := by decide
  rw [loosely, tightly]
  exact loose "-" _ _ " " "\t" (blank ' ' (by decide)) (blank '\t' (by decide)) loosened

end Tag

end TaggedRecords
