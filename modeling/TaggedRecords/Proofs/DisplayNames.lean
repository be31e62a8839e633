import TaggedRecords.DisplayName

/-!
# Display names in one pass

The two kinds of boundaries are looked for one after the other, and a character belongs to one pair only. Still no
boundary is missed: no character ends one pair and starts another of the same kind, and a space that was put in neither
makes nor hides a pair of the other kind. So both rounds are one pass over the name. It adds spaces and nothing else,
and finds nothing to do in its own result.
-/

namespace TaggedRecords

/-- How a character of a name is shown. -/
def displayedChar (c : Char) : Char := if c = '_' then ' ' else c

/-- A boundary parts a lower-case letter from an upper-case one behind it and a letter from a digit behind it. -/
def isBoundary (a b : Char) : Bool := a.isLower && b.isUpper || a.isAlpha && b.isDigit

/-- One pass from left to right that knows the character before: a space at each boundary, and each character as it is
shown. -/
def passOver (boundary : Char → Char → Bool) (shown : Char → Char) : Option Char → List Char → List Char
  | _, [] => []
  | before, c :: rest =>
    if before.any fun a => boundary a c then ' ' :: shown c :: passOver boundary shown (some c) rest
    else shown c :: passOver boundary shown (some c) rest

section
variable {boundary : Char → Char → Bool} {shown : Char → Char} {before : Option Char}

/-! ## Rounds and passes -/

/-- Behind a character that starts no pair a pass goes on as at the start of a text. -/
theorem passOver_of_no_start {b : Char} (starts : ∀ c, boundary b c = false) (text : List Char) :
    passOver boundary shown (some b) text = passOver boundary shown none text := by
  cases text with
  | nil => rfl
  | cons c rest => simp [passOver, starts c]

/-- A round misses no pair if no character both ends and starts one. -/
theorem spaceBetween_eq_passOver {left right : Char → Bool} (apart : ∀ c, right c = true → left c = false)
    (text : List Char) :
    spaceBetween left right text = passOver (fun a b => left a && right b) id none text := by
  fun_induction spaceBetween left right text with
  | case1 a b rest pair ih =>
    have ends : left b = false := apart b (Bool.and_eq_true_iff.mp pair).2
    have goesOn : passOver (fun a b => left a && right b) id (some b) rest =
        passOver (fun a b => left a && right b) id none rest :=
      passOver_of_no_start (fun c => by simp [ends]) rest
    simp [passOver, pair, ih, goesOn]
  | case2 a b rest noPair ih =>
    rw [ih]
    simp [passOver, noPair]
  | case3 text short =>
    cases text with
    | nil => rfl
    | cons a rest =>
      cases rest with
      | nil => rfl
      | cons b rest => exact absurd rfl (short a b rest)

/-- Of two passes in a row the second finds what it would have found in the text, if spaces bound nothing. -/
theorem passOver_passOver {other : Char → Char → Bool} (front : ∀ c, other c ' ' = false)
    (back : ∀ c, other ' ' c = false) (text : List Char) :
    passOver other id before (passOver boundary id before text) =
      passOver (fun a b => boundary a b || other a b) id before text := by
  induction text generalizing before with
  | nil => rfl
  | cons c rest ih =>
    by_cases parted : before.any fun a => boundary a c
    · -- The space is passed over: it ends no pair with the character before and starts none with this one.
      have skipped : (before.any fun a => other a ' ') = false := by cases before <;> simp [front]
      have both : (before.any fun a => boundary a c || other a c) = true := by
        cases before <;> simp_all
      simp [passOver, parted, skipped, back, both, ih]
    · have same : (before.any fun a => boundary a c || other a c) = before.any fun a => other a c := by
        cases before <;> simp_all
      simp only [passOver, if_neg parted, same, ih, id]

/-- A pass that shows characters differently is one over the shown text, if these bound each other alike. -/
theorem passOver_map (alike : ∀ a b, boundary (shown a) (shown b) = boundary a b) (text : List Char) :
    passOver boundary id (before.map shown) (text.map shown) = passOver boundary shown before text := by
  induction text generalizing before with
  | nil => rfl
  | cons c rest ih =>
    have same : ((before.map shown).any fun a => boundary a (shown c)) = before.any fun a => boundary a c := by
      cases before <;> simp [alike]
    have later := @ih (some c)
    rw [Option.map_some] at later
    simp only [List.map_cons, passOver, same, later, id]

/-! ## What a pass adds -/

/-- Nothing is lost or changed but as it is shown. -/
theorem map_sublist_passOver (text : List Char) : (text.map shown).Sublist (passOver boundary shown before text) := by
  induction text generalizing before with
  | nil => exact List.Sublist.refl _
  | cons c rest ih =>
    rw [List.map_cons, passOver]
    split
    · exact (ih.cons_cons _).cons _
    · exact ih.cons_cons _

/-- Nothing but spaces is added. -/
theorem filter_passOver (text : List Char) :
    (passOver boundary shown before text).filter (fun c => c ≠ ' ') = (text.map shown).filter fun c => c ≠ ' ' := by
  induction text generalizing before with
  | nil => rfl
  | cons c rest ih =>
    rw [List.map_cons, passOver]
    split
    · rw [List.filter_cons_of_neg (by decide), List.filter_cons, List.filter_cons, ih]
    · rw [List.filter_cons, List.filter_cons, ih]

end

/-! ## Names -/

theorem isUpper_iff (c : Char) : c.isUpper = true ↔ 'A' ≤ c ∧ c ≤ 'Z' := decide_eq_true_iff

theorem isLower_iff (c : Char) : c.isLower = true ↔ 'a' ≤ c ∧ c ≤ 'z' := by
  change (decide (c.val ≥ 'a'.val) && decide (c.val ≤ 'z'.val)) = true ↔ _
  rw [Bool.and_eq_true_iff, decide_eq_true_iff, decide_eq_true_iff]
  rfl

theorem isDigit_iff (c : Char) : c.isDigit = true ↔ '0' ≤ c ∧ c ≤ '9' := by
  change (decide (c.val ≥ '0'.val) && decide (c.val ≤ '9'.val)) = true ↔ _
  rw [Bool.and_eq_true_iff, decide_eq_true_iff, decide_eq_true_iff]
  rfl

theorem isAlpha_iff (c : Char) : c.isAlpha = true ↔ c.isUpper = true ∨ c.isLower = true := Bool.or_eq_true_iff

theorem isLower_eq_false_of_isUpper (c : Char) (upper : c.isUpper = true) : c.isLower = false := by
  have back := ((isUpper_iff c).mp upper).2
  rw [Bool.eq_false_iff, ne_eq, isLower_iff]
  rintro ⟨front, -⟩
  exact absurd (Char.le_trans front back) (by decide)

theorem isAlpha_eq_false_of_isDigit (c : Char) (digit : c.isDigit = true) : c.isAlpha = false := by
  have back := ((isDigit_iff c).mp digit).2
  rw [Bool.eq_false_iff, ne_eq, isAlpha_iff, isUpper_iff, isLower_iff]
  rintro (⟨front, -⟩ | ⟨front, -⟩)
  · exact absurd (Char.le_trans front back) (by decide)
  · exact absurd (Char.le_trans front back) (by decide)

/-- Only letters and digits bound anything. -/
theorem isBoundary_of_not_alphanum (sign : Char) (plain : sign.isAlphanum = false) (c : Char) :
    isBoundary c sign = false ∧ isBoundary sign c = false := by
  obtain ⟨letter, digit⟩ := Bool.or_eq_false_iff.mp plain
  obtain ⟨upper, lower⟩ := Bool.or_eq_false_iff.mp letter
  simp [isBoundary, letter, upper, lower, digit]

/-- An underscore bounds nothing, and neither does the space that shows it. -/
theorem isBoundary_displayedChar (a b : Char) : isBoundary (displayedChar a) (displayedChar b) = isBoundary a b := by
  have space := isBoundary_of_not_alphanum ' ' (by decide)
  have underscore := isBoundary_of_not_alphanum '_' (by decide)
  unfold displayedChar
  split
  · next same => rw [same, (space _).2, (underscore b).2]
  · split
    · next same => rw [same, (space a).1, (underscore a).1]
    · rfl

/-- Both rounds are one pass over the shown characters. -/
theorem displayChars_eq (name : List Char) :
    displayChars name = passOver isBoundary id none (name.map displayedChar) := by
  have rounds : displayChars name =
      spaceBetween Char.isAlpha Char.isDigit (spaceBetween Char.isLower Char.isUpper (name.map displayedChar)) := rfl
  have digit : ' '.isDigit = false := by decide
  have letter : ' '.isAlpha = false := by decide
  rw [rounds, spaceBetween_eq_passOver isLower_eq_false_of_isUpper,
    spaceBetween_eq_passOver isAlpha_eq_false_of_isDigit,
    passOver_passOver (fun c => by rw [digit, Bool.and_false]) fun c => by rw [letter, Bool.false_and]]
  rfl

theorem filter_map_displayedChar (name : List Char) :
    (name.map displayedChar).filter (fun c => c ≠ ' ') = name.filter fun c => c ≠ ' ' ∧ c ≠ '_' := by
  induction name with
  | nil => rfl
  | cons c rest ih =>
    rw [List.map_cons, List.filter_cons, List.filter_cons, ih]
    by_cases underscore : c = '_'
    · simp [displayedChar, underscore]
    · simp [displayedChar, underscore]

theorem map_displayedChar {name : List Char} (free : '_' ∉ name) : name.map displayedChar = name := by
  have each : ∀ c ∈ name, displayedChar c = c := by
    intro c member
    refine if_neg fun same => free ?_
    rwa [← same]
  rw [List.map_congr_left each, List.map_id']

/-- A name is displayed in one pass from left to right. Each underscore becomes a space, and one space goes between two
neighbours in the name exactly if they are a lower-case letter and an upper-case one or a letter and a digit. So no
other character is lost or changed, only spaces are added, no underscore is left, and a displayed name is displayed as
it is. -/
theorem displayName_in_one_pass (name : String) :
    (displayName name).toList = passOver isBoundary displayedChar none name.toList ∧
    (name.toList.map displayedChar).Sublist (displayName name).toList ∧
    (displayName name).toList.filter (fun c => c ≠ ' ') = name.toList.filter (fun c => c ≠ ' ' ∧ c ≠ '_') ∧
    '_' ∉ (displayName name).toList ∧
    displayName (displayName name) = displayName name := by
  have shown : (displayName name).toList = passOver isBoundary id none (name.toList.map displayedChar) := by
    rw [displayName, String.toList_ofList, displayChars_eq]
  have pass : (displayName name).toList = passOver isBoundary displayedChar none name.toList :=
    shown.trans (@passOver_map isBoundary displayedChar none isBoundary_displayedChar name.toList)
  have added : (displayName name).toList.filter (fun c => c ≠ ' ') = name.toList.filter fun c => c ≠ ' ' ∧ c ≠ '_' := by
    rw [pass, filter_passOver, filter_map_displayedChar]
  have free : '_' ∉ (displayName name).toList := by
    intro member
    have kept : '_' ∈ (displayName name).toList.filter fun c => c ≠ ' ' := List.mem_filter.mpr ⟨member, by decide⟩
    rw [added] at kept
    simpa using (List.mem_filter.mp kept).2
  have kept : (name.toList.map displayedChar).Sublist (displayName name).toList := by
    rw [pass]
    exact map_sublist_passOver name.toList
  refine ⟨pass, kept, added, free, ?_⟩
  rw [← String.toList_inj]
  calc (displayName (displayName name)).toList
      = passOver isBoundary id none (displayName name).toList := by
        rw [displayName, String.toList_ofList, displayChars_eq, map_displayedChar free]
    _ = passOver (fun a b => isBoundary a b || isBoundary a b) id none (name.toList.map displayedChar) := by
        have space := isBoundary_of_not_alphanum ' ' (by decide)
        rw [shown, passOver_passOver (fun c => (space c).1) fun c => (space c).2]
    _ = (displayName name).toList := by simp only [Bool.or_self, shown]

/-- Pairs may share a character and lie on both sides of an underscore. -/
example : displayName "homeA1b2_Next_3" = "home A 1b 2 Next 3" := by decide

end TaggedRecords
