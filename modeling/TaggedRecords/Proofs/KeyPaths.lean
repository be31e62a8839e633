import TaggedRecords.DocumentPath
import TaggedRecords.Proofs.Likeness
import TaggedRecords.Proofs.TextCuts

/-!
# What a document holds behind keys

The values behind lists of keys after a value is set, taken out, or stripped of its tombstones. Setting decides
what stands at its keys and below them, taking out leaves nothing there, and neither touches what lies apart.
-/

namespace TaggedRecords

/-- The value behind keys, each leading into a mapping; no key leads to the value itself. -/
def Value.at? : Value → List String → Option Value
  | value, [] => some value
  | .mapping entries, key :: rest => (Entries.get? entries key).bind fun value => value.at? rest
  | _, _ :: _ => none

/-- What a reader sees of a value without entering it: a mapping loses its entries. -/
def Value.head : Value → Value
  | .mapping _ => .mapping []
  | other => other

namespace Value

@[simp] theorem at?_nil (value : Value) : value.at? [] = some value := by cases value <;> rfl

@[simp] theorem at?_mapping_cons (entries : List (String × Value)) (key : String) (rest : List String) :
    (Value.mapping entries).at? (key :: rest) = (Entries.get? entries key).bind fun value => value.at? rest := rfl

theorem at?_append (value : Value) (keys more : List String) :
    value.at? (keys ++ more) = (value.at? keys).bind fun inner => inner.at? more := by
  induction keys generalizing value with
  | nil => simp
  | cons key rest ih =>
    cases value with
    | mapping entries =>
      cases found : Entries.get? entries key with
      | none => simp [found]
      | some inner => simpa [found] using ih inner
    | _ => rfl

/-- Whatever has something below it is a mapping. -/
theorem at?_above_some {value found : Value} (keys : List String) {key : String} {more : List String}
    (below : value.at? (keys ++ key :: more) = some found) : ∃ entries, value.at? keys = some (.mapping entries) := by
  rw [at?_append] at below
  cases here : value.at? keys with
  | none => simp [here] at below
  | some inner =>
    rw [here] at below
    cases inner with
    | mapping entries => exact ⟨entries, rfl⟩
    | _ => simp [Value.at?] at below

/-- Behind the same keys, alike values hold alike values. -/
theorem at?_alike {value other : Value} (alike : value.Alike other) (proper : other.Proper) (keys : List String) :
    Option.Rel Value.Alike (value.at? keys) (other.at? keys) := by
  induction keys generalizing value other with
  | nil => simpa using Option.Rel.some alike
  | cons key rest ih =>
    cases value with
    | mapping entries =>
      cases other with
      | mapping others =>
        have related := get?_of_alike alike proper.1 key
        rw [at?_mapping_cons, at?_mapping_cons]
        cases found : Entries.get? others key with
        | none =>
          rw [eq_none_of_rel_right related found]
          exact .none
        | some otherInner =>
          obtain ⟨inner, held, below⟩ := exists_of_rel_right related found
          rw [held]
          exact ih below (proper_of_get? proper.2 found)
      | _ => cases alike
    | _ => cases other <;> first | exact .none | cases alike

end Value

namespace Document

theorem at?_eq (document : Document) {keys : List String} (nonempty : keys ≠ []) :
    at? document keys = (Value.mapping document).at? keys := by
  induction keys generalizing document with
  | nil => exact absurd rfl nonempty
  | cons key rest ih =>
    cases rest with
    | nil => simp [at?]
    | cons next more =>
      rw [at?, Value.at?_mapping_cons]
      · cases found : Entries.get? document key with
        | none => rfl
        | some inner =>
          cases inner with
          | mapping entries => exact ih entries (by simp)
          | _ => rfl
      · simp

theorem keysOf_ne_nil (path : String) : keysOf path ≠ [] := by
  simp [keysOf, pieces, splitChars_ne_nil]

theorem lookup?_eq (document : Document) (path : String) :
    lookup? document path = (Value.mapping document).at? (keysOf path) :=
  at?_eq document (keysOf_ne_nil path)

/-! ## Setting a value -/

/-- The entries that setting below a key goes on with. -/
def innerEntries (document : Document) (key : String) : Document :=
  match Entries.get? document key with
  | some (.mapping entries) => entries
  | _ => []

theorem setAt_cons (document : Document) (key : String) {rest : List String} (more : rest ≠ []) (value : Value) :
    setAt document (key :: rest) value =
      Entries.insert document key (.mapping (setAt (innerEntries document key) rest value)) := by
  cases rest with
  | nil => exact absurd rfl more
  | cons next others => rfl

/-- Below a key a document holds what the entries behind it hold. -/
theorem at?_innerEntries (document : Document) (key : String) {rest : List String} (more : rest ≠ []) :
    (Value.mapping (innerEntries document key)).at? rest = (Value.mapping document).at? (key :: rest) := by
  cases rest with
  | nil => exact absurd rfl more
  | cons next others =>
    rw [Value.at?_mapping_cons document]
    unfold innerEntries
    cases found : Entries.get? document key with
    | none => rfl
    | some inner => cases inner <;> rfl

/-- What is set stands behind its keys, without its tombstones. -/
theorem at?_setAt_append (document : Document) {keys : List String} (nonempty : keys ≠ []) (value : Value)
    (more : List String) :
    (Value.mapping (setAt document keys value)).at? (keys ++ more) = value.stripped.at? more := by
  induction keys generalizing document with
  | nil => exact absurd rfl nonempty
  | cons key rest ih =>
    cases rest with
    | nil => simp [setAt, Entries.get?_insert]
    | cons next others =>
      rw [setAt_cons document key (by simp), List.cons_append, Value.at?_mapping_cons, Entries.get?_insert, if_pos rfl]
      exact ih (innerEntries document key) (by simp)

/-- Setting touches nothing that lies apart from its keys. -/
theorem at?_setAt_apart (document : Document) {keys other : List String} (value : Value)
    (below : ¬ keys <+: other) (above : ¬ other <+: keys) :
    (Value.mapping (setAt document keys value)).at? other = (Value.mapping document).at? other := by
  induction keys generalizing document other with
  | nil => exact absurd (List.nil_prefix) below
  | cons key rest ih =>
    cases other with
    | nil => exact absurd (List.nil_prefix) above
    | cons first others =>
      by_cases same : key = first
      · cases same
        have apartBelow : ¬ rest <+: others := fun h => below (List.cons_prefix_cons.mpr ⟨rfl, h⟩)
        have apartAbove : ¬ others <+: rest := fun h => above (List.cons_prefix_cons.mpr ⟨rfl, h⟩)
        have more : rest ≠ [] := fun h => apartBelow (h ▸ List.nil_prefix)
        have furtherMore : others ≠ [] := fun h => apartAbove (h ▸ List.nil_prefix)
        rw [setAt_cons document key more, Value.at?_mapping_cons, Entries.get?_insert, if_pos rfl, Option.bind_some,
          ih (innerEntries document key) apartBelow apartAbove]
        exact at?_innerEntries document key furtherMore
      · cases rest with
        | nil => simp [setAt, Entries.get?_insert, same]
        | cons next more =>
          rw [setAt_cons document key (by simp)]
          simp [Entries.get?_insert, same]

/-- Setting what stands there already changes nothing. -/
theorem setAt_of_at? {document : Document} {keys : List String} {value : Value} (nonempty : keys ≠ [])
    (held : (Value.mapping document).at? keys = some value.stripped) : setAt document keys value = document := by
  induction keys generalizing document with
  | nil => exact absurd rfl nonempty
  | cons key rest ih =>
    cases rest with
    | nil =>
      refine Entries.insert_of_get? ?_
      simpa using held
    | cons next more =>
      rw [setAt_cons document key (by simp)]
      have here : ∃ entries, (Value.mapping document).at? [key] = some (.mapping entries) :=
        Value.at?_above_some [key] held
      obtain ⟨entries, found⟩ : ∃ entries, Entries.get? document key = some (.mapping entries) := by simpa using here
      have inner : innerEntries document key = entries := by simp [innerEntries, found]
      rw [← at?_innerEntries document key (by simp), inner] at held
      rw [inner, ih (by simp) held]
      exact Entries.insert_of_get? found

/-! ## Taking a value out -/

theorem removeAt_cons (document : Document) (key : String) {rest : List String} (more : rest ≠ []) :
    removeAt document (key :: rest) =
      match Entries.get? document key with
      | some (.mapping inner) => Entries.insert document key (.mapping (removeAt inner rest))
      | _ => document := by
  cases rest with
  | nil => exact absurd rfl more
  | cons next others => rfl

/-- Taking out goes through a mapping, or there is nothing below the key. -/
theorem removeAt_cons_cases (document : Document) (key : String) {rest : List String} (more : rest ≠ []) :
    (∃ inner, Entries.get? document key = some (.mapping inner) ∧
      removeAt document (key :: rest) = Entries.insert document key (.mapping (removeAt inner rest))) ∨
    (removeAt document (key :: rest) = document ∧
      ∀ next others, (Value.mapping document).at? (key :: next :: others) = none) := by
  rw [removeAt_cons document key more]
  cases found : Entries.get? document key with
  | none => exact .inr ⟨rfl, by simp [found]⟩
  | some value =>
    cases value with
    | mapping inner => exact .inl ⟨inner, rfl, rfl⟩
    | _ => exact .inr ⟨rfl, by simp [found, Value.at?]⟩

/-- Nothing is left behind the keys. -/
theorem at?_removeAt_append (document : Document) {keys : List String} (nonempty : keys ≠ []) (more : List String) :
    (Value.mapping (removeAt document keys)).at? (keys ++ more) = none := by
  induction keys generalizing document with
  | nil => exact absurd rfl nonempty
  | cons key rest ih =>
    cases rest with
    | nil => simp [removeAt, Entries.get?_erase]
    | cons next others =>
      rcases removeAt_cons_cases document key (List.cons_ne_nil next others) with ⟨inner, found, eq⟩ | ⟨eq, absent⟩
      · rw [eq, List.cons_append, Value.at?_mapping_cons, Entries.get?_insert, if_pos rfl]
        exact ih inner (by simp)
      · rw [eq]
        exact absent next (others ++ more)

/-- Taking out touches nothing that lies apart from its keys. -/
theorem at?_removeAt_apart (document : Document) {keys other : List String} (below : ¬ keys <+: other)
    (above : ¬ other <+: keys) :
    (Value.mapping (removeAt document keys)).at? other = (Value.mapping document).at? other := by
  induction keys generalizing document other with
  | nil => exact absurd (List.nil_prefix) below
  | cons key rest ih =>
    cases other with
    | nil => exact absurd (List.nil_prefix) above
    | cons first others =>
      by_cases same : key = first
      · cases same
        have apartBelow : ¬ rest <+: others := fun h => below (List.cons_prefix_cons.mpr ⟨rfl, h⟩)
        have apartAbove : ¬ others <+: rest := fun h => above (List.cons_prefix_cons.mpr ⟨rfl, h⟩)
        have more : rest ≠ [] := fun h => apartBelow (h ▸ List.nil_prefix)
        rcases removeAt_cons_cases document key more with ⟨inner, found, eq⟩ | ⟨eq, _⟩
        · rw [eq, Value.at?_mapping_cons, Value.at?_mapping_cons, Entries.get?_insert, if_pos rfl, found]
          exact ih inner apartBelow apartAbove
        · rw [eq]
      · cases rest with
        | nil => simp [removeAt, Entries.get?_erase, same]
        | cons next more =>
          rcases removeAt_cons_cases document key (List.cons_ne_nil next more) with ⟨inner, _, eq⟩ | ⟨eq, _⟩
          · rw [eq]
            simp [Entries.get?_insert, same]
          · rw [eq]

/-- A mapping on the way stays a mapping, and what is none stays what it is. -/
theorem head_at?_removeAt_above (document : Document) (above : List String) (key : String) (more : List String) :
    ((Value.mapping (removeAt document (above ++ key :: more))).at? above).map Value.head =
      ((Value.mapping document).at? above).map Value.head := by
  induction above generalizing document with
  | nil => rfl
  | cons first others ih =>
    rcases removeAt_cons_cases document first (show others ++ key :: more ≠ [] by simp) with
      ⟨inner, found, eq⟩ | ⟨eq, _⟩
    · rw [List.cons_append, eq, Value.at?_mapping_cons, Value.at?_mapping_cons, Entries.get?_insert, if_pos rfl, found]
      exact ih inner
    · rw [List.cons_append, eq]

/-- Taking out what is not there changes nothing. -/
theorem removeAt_of_at?_none {document : Document} {keys : List String}
    (absent : (Value.mapping document).at? keys = none) : removeAt document keys = document := by
  induction keys generalizing document with
  | nil => rfl
  | cons key rest ih =>
    cases rest with
    | nil =>
      refine Entries.erase_of_get?_none ?_
      simpa using absent
    | cons next others =>
      rcases removeAt_cons_cases document key (List.cons_ne_nil next others) with ⟨inner, found, eq⟩ | ⟨eq, _⟩
      · rw [Value.at?_mapping_cons, found] at absent
        rw [eq, ih absent]
        exact Entries.insert_of_get? found
      · exact eq

end Document

end TaggedRecords
