import TaggedRecords.Proofs.KeyPaths
import TaggedRecords.Proofs.Positions
import TaggedRecords.Traversal

/-!
# Paths of ways

A way into a document is a list of keys and positions. The traversal writes it as a path, key by key behind dots and
position by position in brackets, and the store cuts a path at its dots. As long as no key is empty or has a dot or a
bracket, the path tells the way, and a way of keys is what the store reads off its path.
-/

namespace TaggedRecords

/-- A name that stands in paths for itself: it is not empty and has no dot and no bracket. -/
structure PathName (name : String) : Prop where
  named : name ≠ ""
  plain : ∀ c ∈ name.toList, c ≠ '.' ∧ c ≠ '[' ∧ c ≠ ']'

instance (name : String) : Decidable (PathName name) :=
  decidable_of_iff (name ≠ "" ∧ (name.toList.all fun c => decide (c ≠ '.' ∧ c ≠ '[' ∧ c ≠ ']')) = true)
    ⟨fun both => ⟨both.1, by simpa using both.2⟩, fun legible => ⟨legible.named, by simpa using legible.plain⟩⟩

/-- The segment leads on in a document and can be read off a path. -/
def Segment.Legible : Segment → Prop
  | .field _ => False
  | .index _ => True
  | .key name => PathName name

/-- The path behind a path: a key is joined to it, anything else is written after it. -/
def Segment.after (path : String) : Segment → String
  | .key name => joinPath path name
  | other => path ++ other.text

/-- The path of a way from the root. -/
def pathOf (way : List Segment) : String := way.foldl Segment.after ""

@[simp] theorem pathOf_append_singleton (way : List Segment) (segment : Segment) :
    pathOf (way ++ [segment]) = segment.after (pathOf way) := by
  rw [pathOf, List.foldl_append]
  rfl

example : pathOf [.key "home", .key "lines", .index 1, .key "item"] = "home.lines[1].item" := by decide +kernel

theorem joinPath_of_ne_empty {path : String} (nonempty : path ≠ "") (name : String) :
    joinPath path name = path ++ "." ++ name := by
  rw [joinPath, if_neg (by simpa using nonempty)]

@[simp] theorem joinPath_empty (name : String) : joinPath "" name = name := rfl

namespace Segment

theorem after_of_ne_empty {path : String} (nonempty : path ≠ "") (segment : Segment) :
    segment.after path = path ++ segment.text := by
  cases segment with
  | key name => rw [after, joinPath_of_ne_empty nonempty, text, String.append_assoc]
  | field _ => rfl
  | index _ => rfl

theorem after_ne_empty {segment : Segment} (legible : segment.Legible) (path : String) : segment.after path ≠ "" := by
  cases segment with
  | field _ => exact legible.elim
  | index place =>
    rw [← String.toList_inj.ne]
    simp [after, text]
  | key name =>
    by_cases root : path = ""
    · rw [root, after, joinPath_empty]
      exact legible.named
    · rw [after_of_ne_empty root, ← String.toList_inj.ne]
      simp [text]

end Segment

theorem pathOf_ne_empty {way : List Segment} (legible : ∀ segment ∈ way, segment.Legible) (nonempty : way ≠ []) :
    pathOf way ≠ "" := by
  rcases List.eq_nil_or_concat way with rfl | ⟨before, last, rfl⟩
  · exact absurd rfl nonempty
  · rw [List.concat_eq_append, pathOf_append_singleton]
    exact Segment.after_ne_empty (legible last (by simp)) _

/-! ## The path tells the way -/

/-- Texts that go on, where they are cut, at letters they do not have themselves. -/
theorem append_cancel_of_stops {stop : Char → Bool} {a b after alsoAfter : List Char} (free : ∀ c ∈ a, stop c = false)
    (alsoFree : ∀ c ∈ b, stop c = false) (stops : ∀ c, after.head? = some c → stop c = true)
    (alsoStops : ∀ c, alsoAfter.head? = some c → stop c = true) (same : a ++ after = b ++ alsoAfter) :
    a = b ∧ after = alsoAfter := by
  have front {text more : List Char} (free : ∀ c ∈ text, stop c = false)
      (stops : ∀ c, more.head? = some c → stop c = true) : (text ++ more).takeWhile (fun c => !stop c) = text := by
    rw [List.takeWhile_append_of_pos fun c member => by rw [free c member]; rfl]
    cases more with
    | nil => simp
    | cons c rest => simp [stops c rfl]
  have fronts : a = b := by rw [← front free stops, same, front alsoFree alsoStops]
  exact ⟨fronts, List.append_cancel_left (fronts ▸ same)⟩

/-- The letters of the segments, one after the other. -/
def letters (way : List Segment) : List Char := way.flatMap fun segment => segment.text.toList

/-- The letter begins a segment in a path. -/
def beginsSegment (c : Char) : Bool := c == '.' || c == '['

theorem toList_foldl_after {path : String} (nonempty : path ≠ "") (way : List Segment) :
    (way.foldl Segment.after path).toList = path.toList ++ letters way := by
  induction way generalizing path with
  | nil => simp [letters]
  | cons segment rest ih =>
    have longer : path ++ segment.text ≠ "" := by
      simpa using fun empty => absurd empty nonempty
    rw [List.foldl_cons, Segment.after_of_ne_empty nonempty, ih longer]
    simp [letters]

theorem toList_pathOf_key {name : String} (legible : PathName name) (rest : List Segment) :
    (pathOf (.key name :: rest)).toList = name.toList ++ letters rest :=
  toList_foldl_after legible.named rest

theorem toList_pathOf_index (place : Nat) (rest : List Segment) :
    (pathOf (.index place :: rest)).toList = letters (.index place :: rest) := by
  have written : Segment.after "" (.index place) = (Segment.index place).text := by simp [Segment.after]
  have nonempty : (Segment.index place).text ≠ "" := by
    rw [← String.toList_inj.ne]
    simp [Segment.text]
  rw [pathOf, List.foldl_cons, written, toList_foldl_after nonempty, letters, letters, List.flatMap_cons]

theorem letters_cons_key (name : String) (rest : List Segment) :
    letters (.key name :: rest) = '.' :: (name.toList ++ letters rest) := by
  simp [letters, Segment.text]

theorem letters_cons_index (place : Nat) (rest : List Segment) :
    letters (.index place :: rest) = '[' :: (Nat.toDigits 10 place ++ ']' :: letters rest) := by
  simp [letters, Segment.text]

theorem begins_of_head_letters {way : List Segment} (legible : ∀ segment ∈ way, segment.Legible) {c : Char}
    (first : (letters way).head? = some c) : beginsSegment c = true := by
  cases way with
  | nil => cases first
  | cons segment rest =>
    cases segment with
    | field _ => exact (legible _ List.mem_cons_self).elim
    | index place =>
      rw [letters_cons_index] at first
      cases first
      rfl
    | key name =>
      rw [letters_cons_key] at first
      cases first
      rfl

theorem PathName.begins_free {name : String} (legible : PathName name) :
    ∀ c ∈ name.toList, beginsSegment c = false := by
  intro c member
  obtain ⟨dot, opening, _⟩ := legible.plain c member
  simp [beginsSegment, dot, opening]

/-- No position stands where a name is to begin. -/
theorem PathName.append_ne_letters_index {name : String} (legible : PathName name) (more : List Char) (place : Nat)
    (rest : List Segment) : name.toList ++ more ≠ letters (.index place :: rest) := by
  intro same
  rw [letters_cons_index] at same
  cases spelled : name.toList with
  | nil => exact legible.named (by simpa using spelled)
  | cons c others =>
    rw [spelled] at same
    exact (legible.plain c (by simp [spelled])).2.1 (List.cons.inj same).1

theorem digits_close_free (place : Nat) : ∀ c ∈ Nat.toDigits 10 place, (c == ']') = false := by
  intro c member
  have digit : c.isDigit = true := Nat.isDigit_of_mem_toDigits (by decide) (by decide) member
  rw [beq_eq_false_iff_ne]
  rintro rfl
  cases digit

theorem letters_cons_ne_nil {segment : Segment} (legible : segment.Legible) (rest : List Segment) :
    letters (segment :: rest) ≠ [] := by
  cases segment with
  | field _ => exact legible.elim
  | index place => simp [letters_cons_index]
  | key name => simp [letters_cons_key]

section
variable {way other : List Segment}

theorem name_cancel {name alsoName : String} (legible : PathName name) (alsoLegible : PathName alsoName)
    (below : ∀ segment ∈ way, segment.Legible) (alsoBelow : ∀ segment ∈ other, segment.Legible)
    (same : name.toList ++ letters way = alsoName.toList ++ letters other) :
    name = alsoName ∧ letters way = letters other := by
  obtain ⟨names, behind⟩ := append_cancel_of_stops legible.begins_free alsoLegible.begins_free
    (fun _ => begins_of_head_letters below) (fun _ => begins_of_head_letters alsoBelow) same
  exact ⟨String.toList_inj.mp names, behind⟩

theorem place_cancel {place alsoPlace : Nat}
    (same : letters (.index place :: way) = letters (.index alsoPlace :: other)) :
    place = alsoPlace ∧ letters way = letters other := by
  rw [letters_cons_index, letters_cons_index] at same
  obtain ⟨digits, behind⟩ := append_cancel_of_stops (digits_close_free place) (digits_close_free alsoPlace)
    (by simp) (by simp) (List.cons.inj same).2
  have samePlace : place = alsoPlace := by
    simpa using congrArg (fun digits => Nat.ofDigitChars 10 digits 0) digits
  exact ⟨samePlace, (List.cons.inj behind).2⟩

/-- The letters of legible segments come apart again. -/
theorem letters_injective (legible : ∀ segment ∈ way, segment.Legible)
    (alsoLegible : ∀ segment ∈ other, segment.Legible) (same : letters way = letters other) : way = other := by
  induction way generalizing other with
  | nil =>
    cases other with
    | nil => rfl
    | cons first others => exact absurd same.symm (letters_cons_ne_nil (alsoLegible _ List.mem_cons_self) others)
  | cons segment rest ih =>
    obtain ⟨here, below⟩ := List.forall_mem_cons.mp legible
    cases other with
    | nil => exact absurd same (letters_cons_ne_nil here rest)
    | cons first others =>
      obtain ⟨alsoHere, alsoBelow⟩ := List.forall_mem_cons.mp alsoLegible
      -- The first letter tells a key from a position; what it is reaches up to where the next segment begins.
      have cancelled : segment = first ∧ letters rest = letters others := by
        cases segment with
        | field _ => exact here.elim
        | index place =>
          cases first with
          | field _ => exact alsoHere.elim
          | index alsoPlace =>
            obtain ⟨places, behind⟩ := place_cancel same
            exact ⟨congrArg _ places, behind⟩
          | key name =>
            rw [letters_cons_index, letters_cons_key] at same
            cases same
        | key name =>
          cases first with
          | field _ => exact alsoHere.elim
          | index place =>
            rw [letters_cons_index, letters_cons_key] at same
            cases same
          | key alsoName =>
            rw [letters_cons_key, letters_cons_key] at same
            obtain ⟨names, behind⟩ := name_cancel here alsoHere below alsoBelow (List.cons.inj same).2
            exact ⟨congrArg _ names, behind⟩
      rw [cancelled.1, ih below alsoBelow cancelled.2]

/-- Ways with one path are one way. -/
theorem pathOf_injective (legible : ∀ segment ∈ way, segment.Legible)
    (alsoLegible : ∀ segment ∈ other, segment.Legible) (same : pathOf way = pathOf other) : way = other := by
  cases way with
  | nil =>
    by_contra differs
    exact pathOf_ne_empty alsoLegible (Ne.symm differs) same.symm
  | cons segment rest =>
    obtain ⟨here, below⟩ := List.forall_mem_cons.mp legible
    cases other with
    | nil => exact absurd same (pathOf_ne_empty legible (by simp))
    | cons first others =>
      obtain ⟨alsoHere, alsoBelow⟩ := List.forall_mem_cons.mp alsoLegible
      have spelled := congrArg String.toList same
      cases segment with
      | field _ => exact here.elim
      | index place =>
        cases first with
        | field _ => exact alsoHere.elim
        | index alsoPlace =>
          rw [toList_pathOf_index, toList_pathOf_index] at spelled
          exact letters_injective legible alsoLegible spelled
        | key name =>
          rw [toList_pathOf_index, toList_pathOf_key alsoHere] at spelled
          exact absurd spelled.symm (alsoHere.append_ne_letters_index _ _ _)
      | key name =>
        cases first with
        | field _ => exact alsoHere.elim
        | index place =>
          rw [toList_pathOf_index, toList_pathOf_key here] at spelled
          exact absurd spelled (here.append_ne_letters_index _ _ _)
        | key alsoName =>
          rw [toList_pathOf_key here, toList_pathOf_key alsoHere] at spelled
          obtain ⟨names, behind⟩ := name_cancel here alsoHere below alsoBelow spelled
          rw [names, letters_injective below alsoBelow behind]

end

/-! ## The store reads the way off the path -/

theorem keysOf_joinPath {path name : String} (nonempty : path ≠ "") (legible : PathName name) :
    Document.keysOf (joinPath path name) = Document.keysOf path ++ [name] := by
  have plain : '.' ∉ name.toList := fun member => (legible.plain _ member).1 rfl
  have cut : (path ++ "." ++ name).toList = path.toList ++ '.' :: name.toList := by simp
  rw [joinPath_of_ne_empty nonempty, Document.keysOf, pieces, cut, splitChars_append, splitChars_of_not_mem plain,
    List.map_append]
  simp [Document.keysOf, pieces]

theorem keysOf_name {name : String} (legible : PathName name) : Document.keysOf name = [name] := by
  have plain : '.' ∉ name.toList := fun member => (legible.plain _ member).1 rfl
  simp [Document.keysOf, pieces, splitChars_of_not_mem plain]

/-- The keys that the path of a way of keys names are those of the way. -/
theorem keysOf_pathOf {names : List String} (nonempty : names ≠ []) (legible : ∀ name ∈ names, PathName name) :
    Document.keysOf (pathOf (names.map .key)) = names := by
  induction names using List.reverseRecOn with
  | nil => exact absurd rfl nonempty
  | append_singleton before name ih =>
    have here : PathName name := legible name (by simp)
    have earlier : ∀ other ∈ before, PathName other := fun other member => legible other (by simp [member])
    rw [List.map_append, List.map_singleton, pathOf_append_singleton, Segment.after]
    by_cases root : before = []
    · rw [root]
      exact keysOf_name here
    · have above : pathOf (before.map .key) ≠ "" :=
        pathOf_ne_empty (List.forall_mem_map.mpr earlier) (by simpa using root)
      rw [keysOf_joinPath above here, ih root earlier]

theorem exists_names {way : List Segment} (legible : ∀ segment ∈ way, segment.Legible)
    (unindexed : ∀ place, .index place ∉ way) :
    ∃ names : List String, way = names.map .key ∧ ∀ name ∈ names, PathName name := by
  induction way with
  | nil => exact ⟨[], rfl, List.forall_mem_nil _⟩
  | cons segment rest ih =>
    obtain ⟨here, below⟩ := List.forall_mem_cons.mp legible
    obtain ⟨names, rfl, named⟩ := ih below fun place member => unindexed place (List.mem_cons_of_mem _ member)
    cases segment with
    | field _ => exact here.elim
    | index place => exact absurd List.mem_cons_self (unindexed place)
    | key name => exact ⟨name :: names, rfl, List.forall_mem_cons.mpr ⟨here, named⟩⟩

/-- Behind keys alone, a position is what the store comes to. -/
theorem Value.position?_keys (value : Value) (names : List String) :
    value.position? (names.map .key) = value.at? names := by
  induction names generalizing value with
  | nil => rw [at?_nil]; rfl
  | cons name rest ih =>
    cases value with
    | mapping entries =>
      rw [at?_mapping_cons]
      show (Entries.get? entries name).bind _ = _
      simp only [ih]
    | _ => rfl

/-- A look-up with the path of a way of keys finds what stands at the end of the way. -/
theorem lookup?_pathOf (document : Document) {way : List Segment} (nonempty : way ≠ [])
    (legible : ∀ segment ∈ way, segment.Legible) (unindexed : ∀ place, .index place ∉ way) :
    Document.lookup? document (pathOf way) = (Value.mapping document).position? way := by
  obtain ⟨names, rfl, named⟩ := exists_names legible unindexed
  rw [Document.lookup?_eq, keysOf_pathOf (by simpa using nonempty) named, Value.position?_keys]

/-- Of ways of keys, the keys of one path begin those of another just if the one way begins the other. -/
theorem keysOf_pathOf_prefix_iff {way other : List Segment} (nonempty : way ≠ []) (alsoNonempty : other ≠ [])
    (legible : ∀ segment ∈ way, segment.Legible) (alsoLegible : ∀ segment ∈ other, segment.Legible)
    (unindexed : ∀ place, .index place ∉ way) (alsoUnindexed : ∀ place, .index place ∉ other) :
    Document.keysOf (pathOf way) <+: Document.keysOf (pathOf other) ↔ way <+: other := by
  obtain ⟨names, rfl, named⟩ := exists_names legible unindexed
  obtain ⟨others, rfl, alsoNamed⟩ := exists_names alsoLegible alsoUnindexed
  have injective : Function.Injective Segment.key := fun _ _ same => Segment.key.inj same
  rw [keysOf_pathOf (by simpa using nonempty) named, keysOf_pathOf (by simpa using alsoNonempty) alsoNamed,
    List.prefix_map_iff_of_injective injective]

end TaggedRecords
