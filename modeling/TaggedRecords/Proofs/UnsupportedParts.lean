import TaggedRecords.Declaration

/-!
# Unsupported parts of types

What makes a written type unsupported may be the type itself or stand in its parentheses or among the arguments of the
last name of a path. Such a part has a place: the arguments on the way down to it. The first of two places as words is
the first that a reader meets, who reads a type before its arguments and these from left to right. A type has a kind
that is not supported exactly if one of its parts has, and then the kind of the first one.
-/

namespace TaggedRecords

namespace TypeSyntax

/-- A type of a kind that no value can represent, whatever stands in it. -/
inductive Unsupported : TypeSyntax → String → Prop
  | function : Unsupported .function "function"
  | traitObject : Unsupported .traitObject "trait object"
  | pointer : Unsupported .pointer "pointer"
  | reference : Unsupported .reference "reference"
  | array : Unsupported .array "array"
  | unit : Unsupported (.tuple []) "unit"
  | tuple (first : TypeSyntax) (others : List TypeSyntax) : Unsupported (.tuple (first :: others)) "tuple"
  | channel {segments : List PathSegment} {name : String} {args : List TypeSyntax}
      (last : segments.getLast? = some (.named name args)) (listed : name ∈ channelNames) :
      Unsupported (.path segments) "channel"

/-- A part of a type at its place: the type itself, what stands in parentheses, and the arguments of the last name of a
path. -/
inductive PartAt : TypeSyntax → List Nat → TypeSyntax → Prop
  | here (type : TypeSyntax) : PartAt type [] type
  | inside {inner part : TypeSyntax} {place : List Nat} (below : PartAt inner place part) :
      PartAt (.parenthesized inner) (0 :: place) part
  | argument {segments : List PathSegment} {name : String} {args : List TypeSyntax} {i : Nat} {arg part : TypeSyntax}
      {place : List Nat} (last : segments.getLast? = some (.named name args)) (found : args[i]? = some arg)
      (below : PartAt arg place part) : PartAt (.path segments) (i :: place) part

/-- No part of the type is of an unsupported kind. -/
def Supported (type : TypeSyntax) : Prop :=
  ∀ place part, type.PartAt place part → ∀ kind, ¬ part.Unsupported kind

/-- Of the parts of unsupported kinds the one that is read first is of this kind. -/
def FirstUnsupported (type : TypeSyntax) (kind : String) : Prop :=
  ∃ place part, type.PartAt place part ∧ part.Unsupported kind ∧
    ∀ earlier other, type.PartAt earlier other → List.Lex (fun i j => i < j) earlier place →
      ∀ otherKind, ¬ other.Unsupported otherKind

section
variable {type inner : TypeSyntax} {segments : List PathSegment} {name kind : String} {args : List TypeSyntax}

theorem Unsupported.unique {other : String} (first : type.Unsupported kind) (second : type.Unsupported other) :
    kind = other := by
  cases first <;> cases second <;> rfl

/-- Nothing is read before the type itself. -/
theorem firstUnsupported_iff_of_unsupported {other : String} (unsupported : type.Unsupported kind) :
    type.FirstUnsupported other ↔ kind = other := by
  constructor
  · rintro ⟨place, part, found, alsoUnsupported, first⟩
    cases place with
    | nil =>
      cases found
      exact unsupported.unique alsoUnsupported
    | cons i rest => exact absurd unsupported (first [] type (.here type) .nil kind)
  · rintro rfl
    refine ⟨[], type, .here type, unsupported, fun earlier _ _ before => ?_⟩
    cases before

theorem not_supported_of_unsupported (unsupported : type.Unsupported kind) : ¬ type.Supported :=
  fun supported => supported [] type (.here type) kind unsupported

/-! ## Parentheses -/

theorem supported_parenthesized_iff : (parenthesized inner).Supported ↔ inner.Supported := by
  constructor
  · intro supported place part found
    exact supported (0 :: place) part (.inside found)
  · intro supported place part found kind unsupported
    cases found with
    | here => cases unsupported
    | inside below => exact supported _ part below kind unsupported

theorem firstUnsupported_parenthesized_iff :
    (parenthesized inner).FirstUnsupported kind ↔ inner.FirstUnsupported kind := by
  constructor
  · rintro ⟨place, part, found, unsupported, first⟩
    cases found with
    | here => cases unsupported
    | inside below =>
      exact ⟨_, part, below, unsupported, fun earlier other alsoFound before =>
        first (0 :: earlier) other (.inside alsoFound) (.cons before)⟩
  · rintro ⟨place, part, found, unsupported, first⟩
    refine ⟨0 :: place, part, .inside found, unsupported, fun earlier other alsoFound before => ?_⟩
    cases alsoFound with
    | here =>
      intro _ alsoUnsupported
      cases alsoUnsupported
    | inside below =>
      cases before with
      | rel less => exact absurd less (Nat.lt_irrefl 0)
      | cons before => exact first _ other below before

/-! ## Arguments of a path -/

/-- A path is read as its last name is. -/
theorem not_unsupported_path (last : segments.getLast? = some (.named name args)) (plain : name ∉ channelNames)
    (kind : String) : ¬ (path segments).Unsupported kind := by
  intro unsupported
  cases unsupported with
  | channel alsoLast listed =>
    cases last.symm.trans alsoLast
    exact plain listed

theorem supported_path_iff (last : segments.getLast? = some (.named name args)) (plain : name ∉ channelNames) :
    (path segments).Supported ↔ ∀ arg ∈ args, arg.Supported := by
  constructor
  · intro supported arg member place part found
    obtain ⟨i, at_⟩ := List.getElem?_of_mem member
    exact supported (i :: place) part (.argument last at_ found)
  · intro supported place part found kind unsupported
    cases found with
    | here => exact not_unsupported_path last plain kind unsupported
    | argument alsoLast at_ below =>
      cases last.symm.trans alsoLast
      exact supported _ (List.mem_of_getElem? at_) _ part below kind unsupported

theorem firstUnsupported_path_iff (last : segments.getLast? = some (.named name args)) (plain : name ∉ channelNames) :
    (path segments).FirstUnsupported kind ↔
      ∃ before arg after, args = before ++ arg :: after ∧ arg.FirstUnsupported kind ∧
        ∀ other ∈ before, other.Supported := by
  constructor
  · rintro ⟨place, part, found, unsupported, first⟩
    cases found with
    | here => exact absurd unsupported (not_unsupported_path last plain kind)
    | @argument _ _ _ i arg _ rest alsoLast at_ below =>
      cases last.symm.trans alsoLast
      obtain ⟨inside, same⟩ := List.getElem?_eq_some_iff.mp at_
      refine ⟨args.take i, arg, args.drop (i + 1), ?_, ⟨rest, part, below, unsupported, ?_⟩, ?_⟩
      · rw [← same, List.getElem_cons_drop, List.take_append_drop]
      · intro earlier other alsoFound before
        exact first (i :: earlier) other (.argument last at_ alsoFound) (.cons before)
      · intro other member earlier part alsoFound
        obtain ⟨j, less, found⟩ := List.mem_take_iff_getElem.mp member
        have alsoAt : args[j]? = some other := List.getElem?_eq_some_iff.mpr ⟨by omega, found⟩
        exact first (j :: earlier) part (.argument last alsoAt alsoFound) (.rel (by omega))
  · rintro ⟨before, arg, after, rfl, ⟨place, part, found, unsupported, first⟩, supported⟩
    refine ⟨before.length :: place, part, .argument last (by simp) found, unsupported,
      fun earlier other alsoFound lex => ?_⟩
    cases alsoFound with
    | here => exact not_unsupported_path last plain
    | argument alsoLast at_ below =>
      cases last.symm.trans alsoLast
      cases lex with
      | rel less =>
        rw [List.getElem?_append_left less] at at_
        exact supported _ (List.mem_of_getElem? at_) _ other below
      | cons lex =>
        rw [List.getElem?_append_right (Nat.le_refl _), Nat.sub_self] at at_
        cases at_
        exact first _ other below lex

end

end TypeSyntax

/-- The arguments of the name. -/
def PathSegment.args : PathSegment → List TypeSyntax
  | .named _ args => args

/-- Only the last name of a path counts. -/
theorem lastUnsupported?_eq (segments : List PathSegment) :
    lastUnsupported? segments = segments.getLast?.bind PathSegment.unsupportedKind? := by
  induction segments with
  | nil => rfl
  | cons segment rest ih =>
    cases rest with
    | nil => rfl
    | cons next others => rw [lastUnsupported?, ih, List.getLast?_cons_cons]

theorem firstUnsupported?_eq (args : List TypeSyntax) :
    firstUnsupported? args = args.findSome? TypeSyntax.unsupportedKind? := by
  induction args with
  | nil => rfl
  | cons arg rest ih =>
    rw [firstUnsupported?, List.findSome?_cons, ih]
    cases arg.unsupportedKind? <;> rfl

namespace TypeSyntax

/-- What is found in a type: nothing if all its parts are supported, and else the kind of the first part that is not. -/
structure Searched (type : TypeSyntax) : Prop where
  none : type.unsupportedKind? = none ↔ type.Supported
  some : ∀ kind, type.unsupportedKind? = some kind ↔ type.FirstUnsupported kind

section
variable {type inner : TypeSyntax} {segments : List PathSegment} {kind : String}

theorem searched_of_unsupported (unsupported : type.Unsupported kind) (found : type.unsupportedKind? = .some kind) :
    type.Searched := by
  constructor
  · rw [found]
    exact iff_of_false (Option.some_ne_none kind) (not_supported_of_unsupported unsupported)
  · intro other
    rw [found, Option.some_inj, firstUnsupported_iff_of_unsupported unsupported]

/-- A type without parts to look at. -/
theorem searched_of_bare (bare : ∀ place part, type.PartAt place part → part = type)
    (supported : ∀ kind, ¬ type.Unsupported kind) (found : type.unsupportedKind? = .none) : type.Searched := by
  constructor
  · rw [found]
    refine iff_of_true rfl fun place part at_ kind unsupported => ?_
    rw [bare place part at_] at unsupported
    exact supported kind unsupported
  · intro kind
    rw [found]
    refine iff_of_false (Option.some_ne_none kind).symm ?_
    rintro ⟨place, part, at_, unsupported, -⟩
    rw [bare place part at_] at unsupported
    exact supported kind unsupported

theorem searched_parenthesized (searched : inner.Searched) : (parenthesized inner).Searched where
  none := by rw [unsupportedKind?, searched.none, supported_parenthesized_iff]
  some kind := by rw [unsupportedKind?, searched.some, firstUnsupported_parenthesized_iff]

theorem searched_path (searched : ∀ segment ∈ segments, ∀ arg ∈ segment.args, arg.Searched) :
    (path segments).Searched := by
  have read : (path segments).unsupportedKind? = segments.getLast?.bind PathSegment.unsupportedKind? := by
    rw [unsupportedKind?, lastUnsupported?_eq]
  cases last : segments.getLast? with
  | none =>
    refine searched_of_bare (fun place part at_ => ?_) (fun kind unsupported => ?_) (by rw [read, last]; rfl)
    · cases at_ with
      | here => rfl
      | argument alsoLast _ _ => cases last.symm.trans alsoLast
    · cases unsupported with
      | channel alsoLast _ => cases last.symm.trans alsoLast
  | some segment =>
    obtain ⟨name, args⟩ := segment
    by_cases listed : name ∈ channelNames
    · refine searched_of_unsupported (.channel last listed) ?_
      rw [read, last, Option.bind_some, PathSegment.unsupportedKind?, if_pos (List.contains_iff_mem.mpr listed)]
    · have below : (path segments).unsupportedKind? = args.findSome? unsupportedKind? := by
        rw [read, last, Option.bind_some, PathSegment.unsupportedKind?,
          if_neg fun contained => listed (List.contains_iff_mem.mp contained), firstUnsupported?_eq]
      have each : ∀ arg ∈ args, arg.Searched := searched _ (List.mem_of_getLast? last)
      constructor
      · rw [below, List.findSome?_eq_none_iff, supported_path_iff last listed]
        exact forall₂_congr fun arg member => (each arg member).none
      · intro kind
        rw [below, List.findSome?_eq_some_iff, firstUnsupported_path_iff last listed]
        refine exists_congr fun before => exists_congr fun arg => exists_congr fun after => and_congr_right ?_
        rintro rfl
        refine and_congr ((each arg (by simp)).some kind) (forall₂_congr fun other member => ?_)
        exact (each other (List.mem_append_left _ member)).none

end

mutual

theorem searched : ∀ type : TypeSyntax, type.Searched
  | .function => searched_of_unsupported .function rfl
  | .traitObject => searched_of_unsupported .traitObject rfl
  | .pointer => searched_of_unsupported .pointer rfl
  | .reference => searched_of_unsupported .reference rfl
  | .array => searched_of_unsupported .array rfl
  | .tuple [] => searched_of_unsupported .unit rfl
  | .tuple (first :: others) => searched_of_unsupported (.tuple first others) rfl
  | .parenthesized inner => searched_parenthesized inner.searched
  | .path segments => searched_path (searched_segments segments)
  | .plain => searched_of_bare (by rintro _ _ ⟨⟩; rfl) (by rintro _ ⟨⟩) rfl
  | .noType => searched_of_bare (by rintro _ _ ⟨⟩; rfl) (by rintro _ ⟨⟩) rfl

theorem searched_segments : ∀ segments : List PathSegment, ∀ segment ∈ segments, ∀ arg ∈ segment.args, arg.Searched
  | [] => fun _ member => absurd member List.not_mem_nil
  | first :: rest => List.forall_mem_cons.mpr ⟨searched_segment first, searched_segments rest⟩

theorem searched_segment : ∀ segment : PathSegment, ∀ arg ∈ segment.args, arg.Searched
  | .named _ args => searched_arguments args

theorem searched_arguments : ∀ args : List TypeSyntax, ∀ arg ∈ args, arg.Searched
  | [] => fun _ member => absurd member List.not_mem_nil
  | first :: rest => List.forall_mem_cons.mpr ⟨first.searched, searched_arguments rest⟩

end

end TypeSyntax

end TaggedRecords
