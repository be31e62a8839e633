import TaggedRecords.Pattern

/-!
# What the matcher accepts

The matcher takes a pattern apart by the first character of the text into the patterns of what may follow it, and keeps
all of them. It accepts just the texts that match: taking a character off keeps the rest of each match, and at the end
one of the patterns must match nothing.
-/

namespace TaggedRecords.Pattern

variable {p q : Pattern} {set : CharSet} {c : Char} {text rest : List Char}

/-! ## Matches by the form of the pattern -/

theorem matches_empty_iff : Matches empty text ↔ text = [] := by
  constructor
  · intro matched
    cases matched
    rfl
  · rintro rfl
    exact .empty

theorem matches_one_iff : Matches (one set) text ↔ ∃ c, text = [c] ∧ set.contains c = true := by
  constructor
  · intro matched
    cases matched with
    | one inside => exact ⟨_, rfl, inside⟩
  · rintro ⟨c, rfl, inside⟩
    exact .one inside

theorem matches_char_iff : Matches (char c) text ↔ text = [c] := by
  have single (d : Char) : (CharSet.mk [(c.toNat, c.toNat)]).contains d = true ↔ d = c := by
    rw [CharSet.contains, List.any_cons, List.any_nil, Bool.or_false, Bool.and_eq_true, decide_eq_true_eq,
      decide_eq_true_eq, ← Char.toNat_inj]
    omega
  rw [char, matches_one_iff]
  constructor
  · rintro ⟨d, rfl, inside⟩
    rw [(single d).mp inside]
  · rintro rfl
    exact ⟨c, rfl, (single c).mpr rfl⟩

theorem matches_seq_iff : Matches (seq p q) text ↔ ∃ s t, text = s ++ t ∧ Matches p s ∧ Matches q t := by
  constructor
  · intro matched
    cases matched with
    | seq first second => exact ⟨_, _, rfl, first, second⟩
  · rintro ⟨s, t, rfl, first, second⟩
    exact .seq first second

theorem matches_either_iff : Matches (either p q) text ↔ Matches p text ∨ Matches q text := by
  constructor
  · intro matched
    cases matched with
    | left first => exact .inl first
    | right second => exact .inr second
  · rintro (first | second)
    · exact .left first
    · exact .right second

theorem matches_maybe_iff : Matches p.maybe text ↔ text = [] ∨ Matches p text := by
  rw [maybe, matches_either_iff, matches_empty_iff]

/-- A repetition of characters matches what is made of them. -/
theorem matches_many_one_iff : Matches (many (one set)) text ↔ ∀ c ∈ text, set.contains c = true := by
  constructor
  · intro matched
    generalize repeated : many (one set) = pattern at matched
    induction matched with
    | stop => simp
    | more first rest _ ih =>
      cases repeated
      obtain ⟨c, rfl, inside⟩ := matches_one_iff.mp first
      simpa [inside] using ih rfl
    | _ => cases repeated
  · intro inside
    induction text with
    | nil => exact .stop
    | cons c rest ih =>
      obtain ⟨here, below⟩ := List.forall_mem_cons.mp inside
      exact .more (.one here) (ih below)

/-! ## Taking off the first character -/

theorem matchesNothing_iff : p.matchesNothing = true ↔ Matches p [] := by
  induction p with
  | empty => simp [matchesNothing, matches_empty_iff]
  | one set => simp [matchesNothing, matches_one_iff]
  | seq p q first second =>
    rw [matchesNothing, Bool.and_eq_true, first, second, matches_seq_iff]
    constructor
    · rintro ⟨left, right⟩
      exact ⟨[], [], rfl, left, right⟩
    · rintro ⟨s, t, nothing, left, right⟩
      obtain ⟨rfl, rfl⟩ := List.append_eq_nil_iff.mp nothing.symm
      exact ⟨left, right⟩
  | either p q first second => rw [matchesNothing, Bool.or_eq_true, first, second, matches_either_iff]
  | many p _ => exact iff_of_true rfl .stop

/-- The first character is taken by the first part, or by the second if the first matches nothing. -/
theorem matches_seq_cons_iff : Matches (seq p q) (c :: rest) ↔
    (∃ s t, rest = s ++ t ∧ Matches p (c :: s) ∧ Matches q t) ∨ Matches p [] ∧ Matches q (c :: rest) := by
  rw [matches_seq_iff]
  constructor
  · rintro ⟨s, t, joined, first, second⟩
    cases s with
    | nil =>
      cases joined
      exact .inr ⟨first, second⟩
    | cons d s =>
      cases joined
      exact .inl ⟨s, t, rfl, first, second⟩
  · rintro (⟨s, t, rfl, first, second⟩ | ⟨nothing, second⟩)
    · exact ⟨c :: s, t, rfl, first, second⟩
    · exact ⟨[], c :: rest, rfl, nothing, second⟩

/-- The first character is taken by the first time that matches something. -/
theorem matches_many_cons_iff :
    Matches (many p) (c :: rest) ↔ ∃ s t, rest = s ++ t ∧ Matches p (c :: s) ∧ Matches (many p) t := by
  constructor
  · intro matched
    generalize repeated : many p = pattern at matched
    generalize whole : c :: rest = text at matched
    induction matched with
    | stop => cases whole
    | @more p s t first others _ ih =>
      cases repeated
      cases s with
      | nil => exact ih rfl whole
      | cons d s =>
        cases whole
        exact ⟨s, t, rfl, first, others⟩
    | _ => cases repeated
  · rintro ⟨s, t, rfl, first, others⟩
    exact .more first others

/-- Patterns that each stand before another one match what is put together of both. -/
theorem matches_before_iff {patterns : List Pattern} :
    (∃ behind ∈ patterns.map (fun first => seq first q), Matches behind rest) ↔
      ∃ s t, rest = s ++ t ∧ (∃ first ∈ patterns, Matches first s) ∧ Matches q t := by
  constructor
  · rintro ⟨_, inside, matched⟩
    obtain ⟨first, among, rfl⟩ := List.mem_map.mp inside
    obtain ⟨s, t, same, left, right⟩ := matches_seq_iff.mp matched
    exact ⟨s, t, same, ⟨first, among, left⟩, right⟩
  · rintro ⟨s, t, same, ⟨first, among, left⟩, right⟩
    exact ⟨seq first q, List.mem_map_of_mem among, matches_seq_iff.mpr ⟨s, t, same, left, right⟩⟩

/-- A text matches exactly if, without its first character, it matches one of the patterns behind that character. -/
theorem matches_cons_iff : Matches p (c :: rest) ↔ ∃ behind ∈ p.after c, Matches behind rest := by
  induction p generalizing rest with
  | empty => simp [after, matches_empty_iff]
  | one set =>
    rw [after, matches_one_iff]
    split
    · next inside =>
      simp only [List.mem_singleton, exists_eq_left, matches_empty_iff, List.cons.injEq]
      constructor
      · rintro ⟨_, ⟨rfl, nothing⟩, _⟩
        exact nothing
      · rintro rfl
        exact ⟨c, ⟨rfl, rfl⟩, inside⟩
    · next outside => simp [outside]
  | seq p q first second =>
    rw [matches_seq_cons_iff, ← matchesNothing_iff, second, after]
    simp only [first]
    split
    · next nothing => simp only [List.mem_append, or_and_right, exists_or, matches_before_iff, nothing, true_and]
    · next something => simp only [matches_before_iff, something, Bool.false_eq_true, false_and, or_false]
  | either p q first second =>
    simp only [after, matches_either_iff, List.mem_append, or_and_right, exists_or, first, second]
  | many p ih =>
    rw [matches_many_cons_iff, after, matches_before_iff]
    simp only [ih]

/-! ## The matcher -/

/-- Taking characters off in turn keeps what the patterns match. -/
theorem anyAccepts_iff {patterns : List Pattern} :
    anyAccepts patterns text = true ↔ ∃ p ∈ patterns, Matches p text := by
  induction text generalizing patterns with
  | nil => simp [anyAccepts, matchesNothing_iff]
  | cons c rest ih =>
    rw [anyAccepts, ih]
    simp only [List.mem_eraseDups, List.mem_flatMap, matches_cons_iff]
    constructor
    · rintro ⟨behind, ⟨p, inside, step⟩, matched⟩
      exact ⟨p, inside, behind, step, matched⟩
    · rintro ⟨p, inside, behind, step, matched⟩
      exact ⟨behind, ⟨p, inside, step⟩, matched⟩

/-- The matcher accepts just what matches. -/
theorem accepts_iff_matches : p.accepts text = true ↔ Matches p text := by
  rw [accepts, anyAccepts_iff]
  simp

end TaggedRecords.Pattern
