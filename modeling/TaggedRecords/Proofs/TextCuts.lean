import Mathlib.Data.List.DropRight
import TaggedRecords.CharSet
import TaggedRecords.Pieces

/-!
# Cuts of text

What a cut of a text gives: at separators, behind a known start, before a known end, and around the text without its
outer blanks. Each undoes a joining, so that a text put together of pieces comes apart into the same pieces.
-/

namespace TaggedRecords

/-! ## Separators -/

section
variable {separator : Char} {text : List Char}

theorem splitChars_ne_nil (separator : Char) (text : List Char) : splitChars separator text ≠ [] := by
  induction text with
  | nil => simp [splitChars]
  | cons c rest ih =>
    rw [splitChars]
    split
    · simp
    · split <;> simp

/-- The pieces on both sides of a separator are those of the text. -/
theorem splitChars_append (before after : List Char) :
    splitChars separator (before ++ separator :: after) =
      splitChars separator before ++ splitChars separator after := by
  induction before with
  | nil => simp [splitChars]
  | cons c rest ih =>
    rw [List.cons_append, splitChars, splitChars, ih]
    split
    · rfl
    · obtain ⟨piece, pieces, same⟩ := List.exists_cons_of_ne_nil (splitChars_ne_nil separator rest)
      simp [same]

theorem splitChars_of_not_mem (free : separator ∉ text) : splitChars separator text = [text] := by
  induction text with
  | nil => rfl
  | cons c rest ih =>
    obtain ⟨differs, below⟩ := not_or.mp (List.mem_cons.not.mp free)
    rw [splitChars, if_neg (Ne.symm differs), ih below]

theorem not_mem_of_mem_splitChars {piece : List Char} (member : piece ∈ splitChars separator text) :
    separator ∉ piece := by
  induction text generalizing piece with
  | nil =>
    cases List.mem_singleton.mp member
    exact List.not_mem_nil
  | cons c rest ih =>
    rw [splitChars] at member
    split at member
    · rcases List.mem_cons.mp member with rfl | later
      · exact List.not_mem_nil
      · exact ih later
    · next differs =>
      obtain ⟨first, others, same⟩ := List.exists_cons_of_ne_nil (splitChars_ne_nil separator rest)
      rw [same] at member ih
      rcases List.mem_cons.mp member with rfl | later
      · exact List.mem_cons.not.mpr (not_or.mpr ⟨Ne.symm differs, ih List.mem_cons_self⟩)
      · exact ih (List.mem_cons_of_mem _ later)

/-- Pieces with separators between them come apart again. -/
theorem splitChars_intercalate {parts : List (List Char)} (nonempty : parts ≠ [])
    (free : ∀ piece ∈ parts, separator ∉ piece) :
    splitChars separator ([separator].intercalate parts) = parts := by
  induction parts with
  | nil => exact absurd rfl nonempty
  | cons first rest ih =>
    obtain ⟨here, below⟩ := List.forall_mem_cons.mp free
    cases rest with
    | nil => rw [List.intercalate_singleton, splitChars_of_not_mem here]
    | cons second others =>
      rw [List.intercalate_cons_cons, List.append_assoc, List.singleton_append, splitChars_append,
        splitChars_of_not_mem here, ih (by simp) below, List.singleton_append]

/-- A piece reaches from the start of the text or a separator to the next separator or the end. -/
theorem mem_splitChars_iff {piece : List Char} : piece ∈ splitChars separator text ↔ separator ∉ piece ∧
    ∃ before after, text = before ++ piece ++ after ∧ (before = [] ∨ ∃ front, before = front ++ [separator]) ∧
      (after = [] ∨ ∃ back, after = separator :: back) := by
  constructor
  · intro member
    refine ⟨not_mem_of_mem_splitChars member, ?_⟩
    -- Behind the first separator the text is shorter.
    induction size : text.length using Nat.strong_induction_on generalizing text with
    | _ _ ih =>
      by_cases divided : separator ∈ text
      · obtain ⟨first, others, rfl, free⟩ := List.eq_append_cons_of_mem divided
        rw [splitChars_append, splitChars_of_not_mem free, List.singleton_append, List.mem_cons] at member
        rcases member with rfl | later
        · exact ⟨[], separator :: others, rfl, .inl rfl, .inr ⟨others, rfl⟩⟩
        · obtain ⟨before, after, rfl, starts, ends⟩ := ih _ (by simp [← size]; omega) later rfl
          refine ⟨first ++ separator :: before, after, by simp, .inr ?_, ends⟩
          rcases starts with rfl | ⟨front, rfl⟩
          · exact ⟨first, rfl⟩
          · exact ⟨first ++ separator :: front, by simp⟩
      · rw [splitChars_of_not_mem divided, List.mem_singleton] at member
        exact ⟨[], [], by simp [member], .inl rfl, .inl rfl⟩
  · rintro ⟨free, before, after, rfl, starts, ends⟩
    have behind : piece ∈ splitChars separator (piece ++ after) := by
      rcases ends with rfl | ⟨back, rfl⟩
      · rw [List.append_nil, splitChars_of_not_mem free]
        exact List.mem_singleton_self piece
      · rw [splitChars_append, splitChars_of_not_mem free]
        exact List.mem_cons_self
    rcases starts with rfl | ⟨front, rfl⟩
    · exact behind
    · rw [List.append_assoc, List.append_assoc, List.singleton_append, splitChars_append]
      exact List.mem_append_right _ behind

/-- The first piece starts as the text does. -/
theorem head?_splitChars {c : Char} (rest : List Char) (differs : c ≠ separator) :
    ∃ piece, (splitChars separator (c :: rest)).head? = some (c :: piece) := by
  obtain ⟨piece, pieces, same⟩ := List.exists_cons_of_ne_nil (splitChars_ne_nil separator rest)
  exact ⟨piece, by rw [splitChars, if_neg differs, same]; rfl⟩

/-- The last piece ends as the text does. -/
theorem getLast?_splitChars {c : Char} (rest : List Char) (differs : c ≠ separator) :
    ∃ piece, (splitChars separator (rest ++ [c])).getLast? = some (piece ++ [c]) := by
  induction rest with
  | nil => exact ⟨[], by rw [List.nil_append, splitChars_of_not_mem (by simpa using differs.symm)]; rfl⟩
  | cons d rest ih =>
    obtain ⟨last, found⟩ := ih
    obtain ⟨piece, pieces, same⟩ := List.exists_cons_of_ne_nil (splitChars_ne_nil separator (rest ++ [c]))
    rw [same] at found
    rw [List.cons_append, splitChars, same]
    split
    · exact ⟨last, by rw [List.getLast?_cons_cons, found]⟩
    · cases pieces with
      | nil =>
        cases found
        exact ⟨d :: last, rfl⟩
      | cons second others => exact ⟨last, by rw [List.getLast?_cons_cons] at found ⊢; exact found⟩

/-- A text has one cut at its last separator. -/
theorem last_cut_unique {before after before' after' : List Char}
    (same : before ++ separator :: after = before' ++ separator :: after') (free : separator ∉ after)
    (alsoFree : separator ∉ after') : before = before' ∧ after = after' := by
  have pieces := congrArg (splitChars separator) same
  rw [splitChars_append, splitChars_append, splitChars_of_not_mem free, splitChars_of_not_mem alsoFree] at pieces
  obtain rfl := List.singleton_inj.mp (List.append_inj_right' pieces rfl)
  exact ⟨List.append_cancel_right same, rfl⟩

theorem splitFirst?_eq_some_iff {before after : List Char} :
    splitFirst? separator text = some (before, after) ↔ separator ∉ before ∧ text = before ++ separator :: after := by
  induction text generalizing before with
  | nil => simp [splitFirst?]
  | cons c rest ih =>
    rw [splitFirst?]
    split
    · next same =>
      subst same
      cases before with
      | nil => simp [eq_comm]
      | cons first others =>
        refine iff_of_false (by simp) fun ⟨free, joined⟩ => ?_
        cases joined
        exact free List.mem_cons_self
    · next differs =>
      cases before with
      | nil => simp [differs]
      | cons first others =>
        simp only [Option.map_eq_some_iff, Prod.mk.injEq, List.cons.injEq, Prod.exists, List.mem_cons, not_or,
          List.cons_append]
        constructor
        · rintro ⟨found, behind, cut, ⟨rfl, rfl⟩, rfl⟩
          obtain ⟨free, same⟩ := ih.mp cut
          exact ⟨⟨Ne.symm differs, free⟩, rfl, same⟩
        · rintro ⟨⟨_, free⟩, rfl, same⟩
          exact ⟨others, after, ih.mpr ⟨free, same⟩, ⟨rfl, rfl⟩, rfl⟩

theorem splitFirst?_eq_none_iff : splitFirst? separator text = none ↔ separator ∉ text := by
  induction text with
  | nil => simp [splitFirst?]
  | cons c rest ih =>
    rw [splitFirst?]
    split
    · next same => simp [same]
    · next differs => simp [ih, Ne.symm differs]

end

/-! ## Starts and ends -/

theorem dropStart?_eq_some_iff {start text rest : List Char} :
    dropStart? start text = some rest ↔ text = start ++ rest := by
  induction start generalizing text with
  | nil => simp [dropStart?]
  | cons a start ih =>
    cases text with
    | nil => simp [dropStart?]
    | cons c text =>
      rw [dropStart?]
      split
      · next same => simp [ih, same]
      · next differs => simp [Ne.symm differs]

theorem dropEnd?_eq_some_iff {ending text rest : List Char} :
    dropEnd? ending text = some rest ↔ text = rest ++ ending := by
  simp only [dropEnd?, Option.map_eq_some_iff, dropStart?_eq_some_iff]
  constructor
  · rintro ⟨behind, same, rfl⟩
    rw [← List.reverse_reverse text, same, List.reverse_append, List.reverse_reverse]
  · rintro rfl
    exact ⟨rest.reverse, List.reverse_append, List.reverse_reverse rest⟩

/-! ## Cuts of strings -/

theorem pieces_intercalate {separator : Char} {parts : List String} (nonempty : parts ≠ [])
    (free : ∀ piece ∈ parts, separator ∉ piece.toList) :
    pieces separator ((String.singleton separator).intercalate parts) = parts := by
  have cut : splitChars separator ([separator].intercalate (parts.map String.toList)) = parts.map String.toList :=
    splitChars_intercalate (by simpa using nonempty) (List.forall_mem_map.mpr free)
  rw [pieces, String.toList_intercalate, String.toList_singleton, cut, List.map_map]
  simp [Function.comp_def]

theorem not_mem_of_mem_pieces {separator : Char} {text piece : String} (member : piece ∈ pieces separator text) :
    separator ∉ piece.toList := by
  obtain ⟨chars, inside, rfl⟩ := List.mem_map.mp member
  rw [String.toList_ofList]
  exact not_mem_of_mem_splitChars inside

theorem cutAt?_eq_some_iff {separator : Char} {text before after : String} :
    cutAt? separator text = some (before, after) ↔
      separator ∉ before.toList ∧ text = before ++ String.singleton separator ++ after := by
  have joined : text = before ++ String.singleton separator ++ after ↔
      text.toList = before.toList ++ separator :: after.toList := by
    rw [← String.toList_inj]
    simp
  rw [joined, ← splitFirst?_eq_some_iff, cutAt?, Option.map_eq_some_iff]
  constructor
  · rintro ⟨cut, found, same⟩
    cases same
    simpa using found
  · intro found
    exact ⟨_, found, by simp⟩

theorem cutAt?_eq_none_iff {separator : Char} {text : String} :
    cutAt? separator text = none ↔ separator ∉ text.toList := by
  rw [cutAt?, Option.map_eq_none_iff, splitFirst?_eq_none_iff]

theorem behind?_eq_some_iff {start text rest : String} : behind? start text = some rest ↔ text = start ++ rest := by
  rw [← String.toList_inj, String.toList_append, ← dropStart?_eq_some_iff, behind?, Option.map_eq_some_iff]
  constructor
  · rintro ⟨chars, found, rfl⟩
    rwa [String.toList_ofList]
  · exact fun found => ⟨_, found, String.ofList_toList⟩

theorem before?_eq_some_iff {ending text rest : String} : before? ending text = some rest ↔ text = rest ++ ending := by
  rw [← String.toList_inj, String.toList_append, ← dropEnd?_eq_some_iff, before?, Option.map_eq_some_iff]
  constructor
  · rintro ⟨chars, found, rfl⟩
    rwa [String.toList_ofList]
  · exact fun found => ⟨_, found, String.ofList_toList⟩

/-! ## Outer blanks -/

/-- No blank stands at either end of the text: trimming leaves it as it is. -/
def Trimmed (text : String) : Prop := trimBlanks text = text

theorem trimChars_eq_self_iff {text : List Char} :
    trimChars text = text ↔
      (∀ c, text.head? = some c → isBlank c = false) ∧ ∀ c, text.getLast? = some c → isBlank c = false := by
  have front : text.dropWhile isBlank = text ↔ ∀ c, text.head? = some c → isBlank c = false := by
    cases text <;> simp [List.dropWhile_eq_self_iff]
  have back : text.rdropWhile isBlank = text ↔ ∀ c, text.getLast? = some c → isBlank c = false := by
    rw [List.rdropWhile_eq_self_iff]
    cases text <;> simp [List.getLast?_eq_some_getLast]
  rw [← front, ← back]
  constructor
  · intro same
    have kept : text.dropWhile isBlank = text := by
      refine (List.dropWhile_suffix isBlank).eq_of_length_le ?_
      have shorter := (List.rdropWhile_prefix isBlank (text.dropWhile isBlank)).length_le
      rwa [show (text.dropWhile isBlank).rdropWhile isBlank = text from same] at shorter
    refine ⟨kept, ?_⟩
    rwa [trimChars, kept] at same
  · rintro ⟨first, last⟩
    rw [trimChars, first]
    exact last

theorem trimmed_iff {text : String} : Trimmed text ↔
    (∀ c, text.toList.head? = some c → isBlank c = false) ∧
      ∀ c, text.toList.getLast? = some c → isBlank c = false := by
  rw [← trimChars_eq_self_iff, Trimmed, trimBlanks, ← String.toList_inj, String.toList_ofList]

theorem trimChars_isInside (text : List Char) : trimChars text <:+: text :=
  (List.rdropWhile_prefix isBlank (text.dropWhile isBlank)).isInfix.trans (List.dropWhile_suffix isBlank).isInfix

theorem trimmed_trimBlanks (text : String) : Trimmed (trimBlanks text) := by
  have last : (trimChars text.toList).rdropWhile isBlank = trimChars text.toList :=
    List.rdropWhile_idempotent isBlank _
  have first : (trimChars text.toList).dropWhile isBlank = trimChars text.toList := by
    have front := List.rdropWhile_prefix isBlank (text.toList.dropWhile isBlank)
    refine List.dropWhile_eq_self_iff.mpr fun inside => ?_
    rw [show (trimChars text.toList)[0] = _ from front.getElem inside]
    exact List.dropWhile_eq_self_iff.mp (List.dropWhile_idempotent isBlank _) _
  rw [Trimmed, trimBlanks, trimBlanks, String.toList_ofList]
  refine congrArg String.ofList ?_
  rw [trimChars, first]
  exact last

theorem mem_of_mem_trimBlanks {text : String} {c : Char} (member : c ∈ (trimBlanks text).toList) : c ∈ text.toList := by
  rw [trimBlanks, String.toList_ofList] at member
  exact (trimChars_isInside text.toList).subset member

end TaggedRecords
