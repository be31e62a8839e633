import TaggedRecords.BuiltIns
import TaggedRecords.Proofs.PatternMatching
import TaggedRecords.Proofs.TextCuts

/-!
# Domains of e-mail addresses

A label is framed by letters, digits and characters beyond ASCII, and the last one by no digits; but dots may stand
inside of it, so labels behind each other make up one label. What is left of the domain is one dot with something framed
on both sides. So the domain has two labels at least and is framed as a whole, and its labels are empty or start or end
with a hyphen exactly where a dot stands beside another dot or beside a hyphen.
-/

namespace TaggedRecords

namespace EmailAddress

open Pattern

/-! ## Labels -/

/-- The characters that frame a label. -/
def edge : CharSet := ⟨letters ++ digits ++ beyond⟩

/-- The characters that frame the last label. -/
def topEdge : CharSet := ⟨letters ++ beyond⟩

/-- The characters inside of a label, the dot among them. -/
def inner : CharSet := ⟨letters ++ digits ++ [(0x2d, 0x2e), (0x7e, 0x7e)] ++ beyond⟩

/-- A text of inner characters that starts and ends with a character of the set. -/
structure Framed (ends : CharSet) (text : List Char) : Prop where
  inside : ∀ c ∈ text, inner.contains c = true
  first : ∃ c rest, text = c :: rest ∧ ends.contains c = true
  last : ∃ rest c, text = rest ++ [c] ∧ ends.contains c = true

theorem inner_of_edge {c : Char} (inside : edge.contains c = true) : inner.contains c = true := by
  simp only [edge, inner, CharSet.contains, List.any_append, Bool.or_eq_true] at inside ⊢
  tauto

theorem edge_of_topEdge {c : Char} (inside : topEdge.contains c = true) : edge.contains c = true := by
  simp only [edge, topEdge, CharSet.contains, List.any_append, Bool.or_eq_true] at inside ⊢
  tauto

/-- Neither a dot nor a hyphen frames anything. -/
theorem ne_of_edge {c : Char} (inside : edge.contains c = true) : c ≠ '.' ∧ c ≠ '-' := by
  constructor
  · rintro rfl
    exact absurd inside (by decide)
  · rintro rfl
    exact absurd inside (by decide)

variable {ends : CharSet} {text body top : List Char}

/-- A label is a framed text. -/
theorem matches_labelWithin_iff (within : ∀ c, ends.contains c = true → inner.contains c = true) :
    Matches (labelWithin (.one ends)) text ↔ Framed ends text := by
  have long : Matches (Pattern.sequence [.one ends, .many innerChar, .one ends]) text ↔
      ∃ a middle b, text = a :: middle ++ [b] ∧ ends.contains a = true ∧ (∀ c ∈ middle, inner.contains c = true) ∧
        ends.contains b = true := by
    simp only [Pattern.sequence, matches_seq_iff, matches_one_iff]
    constructor
    · rintro ⟨_, _, rfl, ⟨a, rfl, first⟩, middle, _, rfl, between, b, rfl, last⟩
      exact ⟨a, middle, b, rfl, first, matches_many_one_iff.mp between, last⟩
    · rintro ⟨a, middle, b, rfl, first, between, last⟩
      exact ⟨[a], middle ++ [b], rfl, ⟨a, rfl, first⟩, middle, [b], rfl, matches_many_one_iff.mpr between, b, rfl, last⟩
  rw [labelWithin, matches_either_iff, matches_one_iff, long]
  constructor
  · rintro (⟨c, rfl, inside⟩ | ⟨a, middle, b, rfl, first, between, last⟩)
    · exact ⟨by simpa using within c inside, ⟨c, [], rfl, inside⟩, ⟨[], c, rfl, inside⟩⟩
    · refine ⟨fun c member => ?_, ⟨a, middle ++ [b], rfl, first⟩, ⟨a :: middle, b, rfl, last⟩⟩
      simp only [List.cons_append, List.mem_cons, List.mem_append, List.not_mem_nil, or_false] at member
      rcases member with rfl | member | rfl
      · exact within _ first
      · exact between c member
      · exact within _ last
  · rintro ⟨inside, ⟨a, rest, rfl, first⟩, front, b, same, last⟩
    cases front with
    | nil =>
      cases same
      exact .inl ⟨a, rfl, first⟩
    | cons d middle =>
      cases same
      refine .inr ⟨a, middle, b, rfl, first, fun c member => inside c ?_, last⟩
      simp [member]

theorem matches_label_iff : Matches label text ↔ Framed edge text :=
  matches_labelWithin_iff fun _ => inner_of_edge

theorem matches_topLabel_iff : Matches topLabel text ↔ Framed topEdge text :=
  matches_labelWithin_iff fun _ inside => inner_of_edge (edge_of_topEdge inside)

theorem Framed.edge_of_topEdge (framed : Framed topEdge text) : Framed edge text := by
  obtain ⟨inside, ⟨a, rest, starts, first⟩, front, b, stops, last⟩ := framed
  exact ⟨inside, ⟨a, rest, starts, EmailAddress.edge_of_topEdge first⟩,
    ⟨front, b, stops, EmailAddress.edge_of_topEdge last⟩⟩

/-- A framed text with a dot and another one behind it is framed. -/
theorem Framed.join (left : Framed edge body) (right : Framed edge top) : Framed edge (body ++ '.' :: top) := by
  obtain ⟨inside, ⟨a, rest, rfl, first⟩, -⟩ := left
  obtain ⟨alsoInside, -, front, b, rfl, last⟩ := right
  refine ⟨fun c member => ?_, ⟨a, rest ++ '.' :: (front ++ [b]), rfl, first⟩,
    ⟨a :: rest ++ '.' :: front, b, by simp, last⟩⟩
  rcases List.mem_append.mp member with before | behind
  · exact inside c before
  · rcases List.mem_cons.mp behind with rfl | behind
    · decide
    · exact alsoInside c behind

/-! ## The domain -/

/-- A label with a dot. -/
theorem matches_dotted_iff : Matches (.seq label (.char '.')) text ↔
    ∃ body, Framed edge body ∧ text = body ++ ['.'] := by
  simp only [matches_seq_iff, matches_label_iff, matches_char_iff]
  constructor
  · rintro ⟨body, _, rfl, framed, rfl⟩
    exact ⟨body, framed, rfl⟩
  · rintro ⟨body, framed, rfl⟩
    exact ⟨body, _, rfl, framed, rfl⟩

/-- Labels with a dot behind each are nothing or make up one label with a dot. -/
theorem matches_labels (matched : Matches (.many (.seq label (.char '.'))) text) :
    text = [] ∨ ∃ body, Framed edge body ∧ text = body ++ ['.'] := by
  generalize repeated : Pattern.many (.seq label (.char '.')) = pattern at matched
  induction matched with
  | stop => exact .inl rfl
  | more first rest _ ih =>
    cases repeated
    obtain ⟨body, framed, rfl⟩ := matches_dotted_iff.mp first
    rcases ih rfl with rfl | ⟨others, alsoFramed, rfl⟩
    · exact .inr ⟨body, framed, by simp⟩
    · exact .inr ⟨body ++ '.' :: others, framed.join alsoFramed, by simp⟩
  | _ => cases repeated

/-- The domain is a dot with something framed on both sides, and one more dot or none behind it. -/
theorem matches_domain_iff : Matches domain text ↔ ∃ body top, Framed edge body ∧ Framed topEdge top ∧
    (text = body ++ '.' :: top ∨ text = body ++ '.' :: top ++ ['.']) := by
  have labels {text : List Char} : Matches (Pattern.seq label (.char '.')).some text ↔
      ∃ body, Framed edge body ∧ text = body ++ ['.'] := by
    rw [Pattern.some, matches_seq_iff]
    constructor
    · rintro ⟨s, t, rfl, first, others⟩
      exact (matches_labels (.more first others)).resolve_left (by
        obtain ⟨body, -, rfl⟩ := matches_dotted_iff.mp first
        simp)
    · intro single
      exact ⟨text, [], by simp, matches_dotted_iff.mpr single, .stop⟩
  simp only [domain, Pattern.sequence, matches_seq_iff, labels, matches_topLabel_iff, matches_maybe_iff,
    matches_char_iff]
  constructor
  · rintro ⟨_, _, rfl, ⟨body, framed, rfl⟩, top, _, rfl, alsoFramed, rfl | rfl⟩
    · exact ⟨body, top, framed, alsoFramed, .inl (by simp)⟩
    · exact ⟨body, top, framed, alsoFramed, .inr (by simp)⟩
  · rintro ⟨body, top, framed, alsoFramed, rfl | rfl⟩
    · exact ⟨body ++ ['.'], top, by simp, ⟨body, framed, rfl⟩, top, [], by simp, alsoFramed, .inl rfl⟩
    · exact ⟨body ++ ['.'], top ++ ['.'], by simp, ⟨body, framed, rfl⟩, top, ['.'], rfl, alsoFramed, .inr rfl⟩

/-- The domain without one dot at its end. -/
def undotted (text : List Char) : List Char := (dropEnd? ['.'] text).getD text

theorem undotted_eq_iff {rest : List Char} (ends : rest.getLast? ≠ some '.') :
    undotted text = rest ↔ text = rest ∨ text = rest ++ ['.'] := by
  have taken : undotted (rest ++ ['.']) = rest := by
    rw [undotted, dropEnd?_eq_some_iff.mpr rfl]
    rfl
  have kept : undotted rest = rest := by
    rw [undotted]
    cases cut : dropEnd? ['.'] rest with
    | none => rfl
    | some front =>
      rw [dropEnd?_eq_some_iff.mp cut] at ends
      simp at ends
  constructor
  · intro same
    rw [undotted] at same
    cases cut : dropEnd? ['.'] text with
    | none =>
      rw [cut] at same
      exact .inl same
    | some front =>
      rw [cut] at same
      cases same
      exact .inr (dropEnd?_eq_some_iff.mp cut)
  · rintro (rfl | rfl)
    · exact kept
    · exact taken

/-- The text is a domain: without one dot at its end it is a dot with something framed on both sides. -/
def Divides (text : List Char) : Prop :=
  ∃ body top, Framed edge body ∧ Framed topEdge top ∧ undotted text = body ++ '.' :: top

theorem matches_domain_iff_divides : Matches domain text ↔ Divides text := by
  rw [matches_domain_iff]
  refine exists_congr fun body => exists_congr fun top => and_congr_right fun _ => and_congr_right fun framed => ?_
  obtain ⟨front, c, rfl, last⟩ := framed.last
  refine (undotted_eq_iff ?_).symm
  rw [← List.cons_append, ← List.append_assoc, List.getLast?_concat]
  simpa using (ne_of_edge (edge_of_topEdge last)).1

/-- The labels of a domain. -/
def labels (text : List Char) : List (List Char) := splitChars '.' (undotted text)

/-- Something stands in the label, and no hyphen at its ends. -/
def ProperLabel (label : List Char) : Prop := label ≠ [] ∧ label.head? ≠ some '-' ∧ label.getLast? ≠ some '-'

theorem Framed.first_label {label : List Char} (framed : Framed edge text)
    (found : (splitChars '.' text).head? = some label) : label ≠ [] ∧ label.head? ≠ some '-' := by
  obtain ⟨a, rest, rfl, first⟩ := framed.first
  obtain ⟨dot, hyphen⟩ := ne_of_edge first
  obtain ⟨piece, held⟩ := head?_splitChars rest dot
  cases held.symm.trans found
  exact ⟨List.cons_ne_nil a piece, by simpa using hyphen⟩

theorem Framed.last_label {label : List Char} (framed : Framed edge text)
    (found : (splitChars '.' text).getLast? = some label) : label ≠ [] ∧ label.getLast? ≠ some '-' := by
  obtain ⟨front, b, rfl, last⟩ := framed.last
  obtain ⟨dot, hyphen⟩ := ne_of_edge last
  obtain ⟨piece, held⟩ := getLast?_splitChars front dot
  cases held.symm.trans found
  exact ⟨by simp, by simpa using hyphen⟩

/-- A framed text that is one label is a proper one. -/
theorem Framed.properLabel_of_single {label : List Char} (framed : Framed edge text)
    (single : splitChars '.' text = [label]) : ProperLabel label := by
  obtain ⟨something, first⟩ := framed.first_label (congrArg List.head? single)
  exact ⟨something, first, (framed.last_label (congrArg List.getLast? single)).2⟩

/-- The labels of a framed text are proper exactly if no dot in it stands beside another one or beside a hyphen. -/
theorem Framed.properLabels_iff (framed : Framed edge text) :
    (∀ label ∈ splitChars '.' text, ProperLabel label) ↔
      ¬ ['.', '.'] <:+: text ∧ ¬ ['.', '-'] <:+: text ∧ ¬ ['-', '.'] <:+: text := by
  obtain ⟨-, ⟨a, rest, starts, first⟩, front, b, stops, last⟩ := framed
  have notFirst {c : Char} {others : List Char} (same : text = c :: others) : c ≠ '.' ∧ c ≠ '-' := by
    cases starts.symm.trans same
    exact ne_of_edge first
  have notLast {c : Char} {others : List Char} (same : text = others ++ [c]) : c ≠ '.' ∧ c ≠ '-' := by
    obtain rfl := List.singleton_inj.mp (List.append_inj_right' (stops.symm.trans same) rfl)
    exact ne_of_edge last
  constructor
  · intro proper
    refine ⟨?_, ?_, ?_⟩
    · rintro ⟨u, v, rfl⟩
      have member : [] ∈ splitChars '.' (u ++ ['.', '.'] ++ v) :=
        mem_splitChars_iff.mpr ⟨List.not_mem_nil, u ++ ['.'], '.' :: v, by simp, .inr ⟨u, rfl⟩, .inr ⟨v, rfl⟩⟩
      exact (proper [] member).1 rfl
    · rintro ⟨u, v, rfl⟩
      obtain ⟨piece, found⟩ := head?_splitChars v (show '-' ≠ '.' by decide)
      have member : '-' :: piece ∈ splitChars '.' (u ++ ['.', '-'] ++ v) := by
        rw [List.append_assoc, List.cons_append, splitChars_append]
        exact List.mem_append_right _ (List.mem_of_head? found)
      exact (proper _ member).2.1 rfl
    · rintro ⟨u, v, rfl⟩
      obtain ⟨piece, found⟩ := getLast?_splitChars u (show '-' ≠ '.' by decide)
      have member : piece ++ ['-'] ∈ splitChars '.' (u ++ ['-', '.'] ++ v) := by
        have cut : u ++ ['-', '.'] ++ v = u ++ ['-'] ++ '.' :: v := by simp
        rw [cut, splitChars_append]
        exact List.mem_append_left _ (List.mem_of_getLast? found)
      exact (proper _ member).2.2 List.getLast?_concat
  · rintro ⟨noDots, noFront, noBack⟩ label member
    obtain ⟨-, before, after, same, opens, closes⟩ := mem_splitChars_iff.mp member
    refine ⟨?_, ?_, ?_⟩
    · rintro rfl
      rcases opens with rfl | ⟨u, rfl⟩ <;> rcases closes with rfl | ⟨v, rfl⟩
      · rw [starts] at same
        cases same
      · exact (notFirst same).1 rfl
      · have ended : text = u ++ ['.'] := by simp [same]
        exact (notLast ended).1 rfl
      · exact noDots ⟨u, v, by simp [same]⟩
    · intro hyphen
      obtain ⟨rest, rfl⟩ := List.head?_eq_some_iff.mp hyphen
      rcases opens with rfl | ⟨u, rfl⟩
      · exact (notFirst same).2 rfl
      · exact noFront ⟨u, rest ++ after, by simp [same]⟩
    · intro hyphen
      obtain ⟨front, rfl⟩ := List.getLast?_eq_some_iff.mp hyphen
      rcases closes with rfl | ⟨v, rfl⟩
      · have ended : text = before ++ front ++ ['-'] := by simp [same]
        exact (notLast ended).2 rfl
      · exact noBack ⟨before ++ front, v, by simp [same]⟩

/-! ## Labels of a domain -/

namespace Divides
variable (divides : Divides text)

include divides

theorem framed : Framed edge (undotted text) := by
  obtain ⟨body, top, framed, alsoFramed, same⟩ := divides
  rw [same]
  exact framed.join alsoFramed.edge_of_topEdge

theorem two_le_labels : 2 ≤ (labels text).length := by
  obtain ⟨body, top, -, -, same⟩ := divides
  rw [labels, same, splitChars_append, List.length_append]
  have left := List.length_pos_iff.mpr (splitChars_ne_nil '.' body)
  have right := List.length_pos_iff.mpr (splitChars_ne_nil '.' top)
  omega

/-- Two labels are what the dot divides, and proper. -/
theorem properLabel_of_two (two : (labels text).length = 2) : ∀ label ∈ labels text, ProperLabel label := by
  obtain ⟨body, top, framed, alsoFramed, same⟩ := divides
  have cut : labels text = splitChars '.' body ++ splitChars '.' top := by
    rw [labels, same, splitChars_append]
  rw [cut, List.length_append] at two
  have left := List.length_pos_iff.mpr (splitChars_ne_nil '.' body)
  have right := List.length_pos_iff.mpr (splitChars_ne_nil '.' top)
  obtain ⟨first, single⟩ := List.length_eq_one_iff.mp (show (splitChars '.' body).length = 1 by omega)
  obtain ⟨second, alsoSingle⟩ := List.length_eq_one_iff.mp (show (splitChars '.' top).length = 1 by omega)
  intro label member
  rw [cut, single, alsoSingle] at member
  rcases List.mem_cons.mp member with rfl | member
  · exact framed.properLabel_of_single single
  · obtain rfl := List.mem_singleton.mp member
    exact alsoFramed.edge_of_topEdge.properLabel_of_single alsoSingle

/-- No sign between local part and domain stands in the domain. -/
theorem no_at : '@' ∉ text := by
  have inside := divides.framed.inside
  intro member
  have kept : '@' ∈ undotted text := by
    rw [undotted]
    cases cut : dropEnd? ['.'] text with
    | none => exact member
    | some front =>
      rw [dropEnd?_eq_some_iff.mp cut] at member
      simpa using member
  exact absurd (inside '@' kept) (by decide)

end Divides

/-- What may stand before the domain. -/
def LocalPart (text : List Char) : Prop := Matches (.either dotAtom quotedString) text

theorem isEmailAddress_iff {address : String} : isEmailAddress address = true ↔
    ∃ mailbox text, address.toList = mailbox ++ '@' :: text ∧ LocalPart mailbox ∧ Divides text := by
  rw [isEmailAddress, accepts_iff_matches]
  simp only [EmailAddress.address, Pattern.sequence, matches_seq_iff, matches_char_iff, matches_domain_iff_divides]
  constructor
  · rintro ⟨mailbox, _, same, named, _, text, rfl, rfl, divides⟩
    exact ⟨mailbox, text, same, named, divides⟩
  · rintro ⟨mailbox, text, same, named, divides⟩
    exact ⟨mailbox, '@' :: text, same, named, ['@'], text, rfl, rfl, divides⟩

end EmailAddress

namespace BuiltIns

open EmailAddress

/-- The rule accepts just the texts of a local part and a domain that a dot divides. -/
theorem email_accepts_iff {context : Context} {transaction : Option Transaction} {scope : Scope} :
    email.check context transaction scope = .ok true ↔ ∃ (address : String) (mailbox text : List Char),
      scope.value = .string address ∧ address.toList = mailbox ++ '@' :: text ∧ LocalPart mailbox ∧ Divides text := by
  cases held : scope.value with
  | string address =>
    simp only [email, held, Except.ok.injEq, isEmailAddress_iff, Value.string.injEq]
    constructor
    · rintro ⟨mailbox, text, parts⟩
      exact ⟨address, mailbox, text, rfl, parts⟩
    · rintro ⟨_, mailbox, text, rfl, parts⟩
      exact ⟨mailbox, text, parts⟩
  | _ => simp [email, held]

/-- The rule accepts just the texts of a local part and a domain that a dot divides. The domain of an accepted text,
which stands behind its last `@`, has two labels at least when one dot at its end is left out. The first one is not empty
and does not start with a hyphen, the last one is not empty and does not end with one, and two labels are both proper.
In general the labels are proper exactly if no dot stands beside another dot or beside a hyphen. -/
theorem email_domains (context : Context) (transaction : Option Transaction) (scope : Scope) :
    (email.check context transaction scope = .ok true ↔ ∃ (address : String) (mailbox text : List Char),
      scope.value = .string address ∧ address.toList = mailbox ++ '@' :: text ∧ LocalPart mailbox ∧ Divides text) ∧
    ∀ (address : String) (mailbox text : List Char), scope.value = .string address →
      address.toList = mailbox ++ '@' :: text → '@' ∉ text → email.check context transaction scope = .ok true →
      2 ≤ (labels text).length ∧
      (∀ label, (labels text).head? = some label → label ≠ [] ∧ label.head? ≠ some '-') ∧
      (∀ label, (labels text).getLast? = some label → label ≠ [] ∧ label.getLast? ≠ some '-') ∧
      ((labels text).length = 2 → ∀ label ∈ labels text, ProperLabel label) ∧
      ((∀ label ∈ labels text, ProperLabel label) ↔ ¬ ['.', '.'] <:+: undotted text ∧
        ¬ ['.', '-'] <:+: undotted text ∧ ¬ ['-', '.'] <:+: undotted text) := by
  refine ⟨email_accepts_iff, fun address mailbox text held same free passed => ?_⟩
  obtain ⟨address', mailbox', text', held', same', -, divides⟩ := email_accepts_iff.mp passed
  cases held.symm.trans held'
  obtain ⟨rfl, rfl⟩ := last_cut_unique (same.symm.trans same') free divides.no_at
  exact ⟨divides.two_le_labels, fun _ => divides.framed.first_label, fun _ => divides.framed.last_label,
    divides.properLabel_of_two, divides.framed.properLabels_iff⟩

/-- The scope of a text on which the rule runs. -/
def mailed (address : String) : Scope where
  owner := ⟨⟨0, "Contact"⟩, [("mail", .string address)]⟩
  field := "mail"
  declared := "mail"
  path := "mail"
  declaredPath := "mail"
  value := .string address
  descriptor := .string
  rule := "email"
  param := none

/-- A domain with an empty label and one that starts with a hyphen is accepted. -/
theorem dashed_domain_accepted :
    email.check {} none (mailed "a@b..c.d.-e") = .ok true ∧
    labels "b..c.d.-e".toList = [['b'], [], ['c'], ['d'], ['-', 'e']] ∧
    ¬ ∀ label ∈ labels "b..c.d.-e".toList, ProperLabel label := by
  obtain ⟨accepts, domains⟩ := email_domains {} none (mailed "a@b..c.d.-e")
  have front : Framed edge "b..c".toList :=
    ⟨List.all_eq_true.mp (by decide), ⟨'b', "..c".toList, rfl, by decide⟩, "b..".toList, 'c', rfl, by decide⟩
  have back : Framed topEdge "d.-e".toList :=
    ⟨List.all_eq_true.mp (by decide), ⟨'d', ".-e".toList, rfl, by decide⟩, "d.-".toList, 'e', rfl, by decide⟩
  have passed := accepts.mpr ⟨"a@b..c.d.-e", ['a'], "b..c.d.-e".toList, rfl, rfl,
    Pattern.accepts_iff_matches.mp (by decide), _, _, front, back, by decide⟩
  obtain ⟨-, -, -, -, exactly⟩ := domains "a@b..c.d.-e" ['a'] "b..c.d.-e".toList rfl rfl (by decide) passed
  refine ⟨passed, by decide, fun proper => ?_⟩
  exact (exactly.mp proper).1 ⟨['b'], "c.d.-e".toList, by decide⟩

end BuiltIns

end TaggedRecords
