import TaggedRecords.Proofs.StoreLaws
import TaggedRecords.Proofs.Stripping

/-!
# Writing the listed paths of a document

A write that lists paths brings the document into agreement with the new data at each of them, in whatever
order they are taken, and leaves alone what lies apart from all of them.
-/

namespace TaggedRecords

/-- Proper values with the same heads behind all keys are alike. -/
theorem Value.alike_of_heads {left right : Value} (leftProper : left.Proper) (rightProper : right.Proper)
    (heads : ∀ keys, (left.at? keys).map Value.head = (right.at? keys).map Value.head) : left.Alike right := by
  have root : left.head = right.head := by simpa using heads []
  cases left with
  | mapping as =>
    cases right with
    | mapping bs =>
      refine alike_of_get? leftProper.1 rightProper.1 fun key => ?_
      have below : ∀ rest, (((Entries.get? as key).bind fun value => value.at? rest).map Value.head) =
          (((Entries.get? bs key).bind fun value => value.at? rest).map Value.head) := fun rest => by
        simpa using heads (key :: rest)
      cases source : Entries.get? as key with
      | none =>
        cases target : Entries.get? bs key with
        | none => exact .none
        | some b => simpa [source, target] using below []
      | some a =>
        cases target : Entries.get? bs key with
        | none => simpa [source, target] using below []
        | some b =>
          have smaller : sizeOf a < 1 + sizeOf as := by
            have := List.sizeOf_lt_of_mem (Entries.mem_of_get? source)
            simp at this
            omega
          refine .some (Value.alike_of_heads (proper_of_get? leftProper.2 source)
            (proper_of_get? rightProper.2 target) fun keys => ?_)
          simpa [source, target] using below keys
    | _ => simp [Value.head] at root
  | _ =>
    cases right with
    | mapping bs => simp [Value.head] at root
    | _ => simp_all [Value.head, Value.alike_refl]
termination_by sizeOf left
decreasing_by
  subst_vars
  simpa using smaller

theorem Value.proper_at? {value found : Value} (proper : value.Proper) {keys : List String}
    (held : value.at? keys = some found) : found.Proper := by
  induction keys generalizing value with
  | nil =>
    rw [Value.at?_nil] at held
    cases held
    exact proper
  | cons key rest ih =>
    cases value with
    | mapping entries =>
      cases here : Entries.get? entries key with
      | none => simp [here] at held
      | some inner => exact ih (proper_of_get? proper.2 here) (by simpa [here] using held)
    | _ => simp [Value.at?] at held

namespace Document

/-- The document holds behind the keys what the data holds there once it is stripped. -/
def AgreesAt (data document : Document) (keys : List String) : Prop :=
  (Value.mapping document).at? keys = (Value.mapping (strippedEntries data)).at? keys

/-! ## One path -/

/-- Taking a path over sets what the stripped data holds there, or takes out what it does not hold. -/
theorem takePath_cases {data : Document} (proper : data.Proper) (document : Document) (path : String) :
    (∃ value, (Value.mapping (strippedEntries data)).at? (keysOf path) = some value.stripped ∧
      takePath data document path = setAt document (keysOf path) value) ∨
    ((Value.mapping (strippedEntries data)).at? (keysOf path) = none ∧
      takePath data document path = removeAt document (keysOf path)) := by
  have kept := Value.at?_stripped proper (keysOf_ne_nil path)
  rw [Value.stripped] at kept
  rw [takePath, lookup?_eq, kept]
  cases held : (Value.mapping data).at? (keysOf path) with
  | none => exact .inr ⟨rfl, rfl⟩
  | some value =>
    cases value with
    | delete => exact .inr ⟨rfl, rfl⟩
    | _ => exact .inl ⟨_, rfl, rfl⟩

theorem takePath_agrees {data : Document} (proper : data.Proper) (document : Document) (path : String) :
    AgreesAt data (takePath data document path) (keysOf path) := by
  unfold AgreesAt
  rcases takePath_cases proper document path with ⟨value, held, eq⟩ | ⟨absent, eq⟩
  · have set := at?_setAt_append document (keysOf_ne_nil path) value []
    rw [eq, held]
    simpa using set
  · have removed := at?_removeAt_append document (keysOf_ne_nil path) []
    rw [eq, absent]
    simpa using removed

/-- A path at which document and data agree already is left as it is. -/
theorem takePath_of_agrees {data document : Document} (proper : data.Proper) {path : String}
    (agrees : AgreesAt data document (keysOf path)) : takePath data document path = document := by
  unfold AgreesAt at agrees
  rcases takePath_cases proper document path with ⟨value, held, eq⟩ | ⟨absent, eq⟩
  · rw [eq]
    exact setAt_of_at? (keysOf_ne_nil path) (agrees.trans held)
  · rw [eq]
    exact removeAt_of_at?_none (agrees.trans absent)

/-- Agreement behind some keys is agreement below them. -/
theorem agreesAt_append {data document : Document} {keys : List String} (agrees : AgreesAt data document keys)
    (more : List String) : AgreesAt data document (keys ++ more) := by
  unfold AgreesAt at agrees ⊢
  rw [Value.at?_append, Value.at?_append, agrees]

/-- What lies apart from the path stays. -/
theorem at?_takePath_apart {data : Document} (proper : data.Proper) (document : Document) {path : String}
    {keys : List String} (below : ¬ keysOf path <+: keys) (above : ¬ keys <+: keysOf path) :
    (Value.mapping (takePath data document path)).at? keys = (Value.mapping document).at? keys := by
  rcases takePath_cases proper document path with ⟨value, _, eq⟩ | ⟨_, eq⟩
  · rw [eq]
    exact at?_setAt_apart document value below above
  · rw [eq]
    exact at?_removeAt_apart document below above

/-- A later path never breaks the agreement that an earlier one brought about. -/
theorem takePath_keeps_agreement {data document : Document} (proper : data.Proper) {keys : List String}
    (agrees : AgreesAt data document keys) (path : String) : AgreesAt data (takePath data document path) keys := by
  by_cases below : keysOf path <+: keys
  · obtain ⟨more, rfl⟩ := below
    exact agreesAt_append (takePath_agrees proper document path) more
  · by_cases above : keys <+: keysOf path
    · obtain ⟨more, eq⟩ := above
      rw [takePath_of_agrees proper (eq ▸ agreesAt_append agrees more)]
      exact agrees
    · exact (at?_takePath_apart proper document below above).trans agrees

/-- A path decides the head behind keys only at and below itself, and above itself only if it is set. -/
theorem head_takePath {data : Document} (proper : data.Proper) (document : Document) {path : String}
    {keys : List String} (below : ¬ keysOf path <+: keys)
    (unset : keys <+: keysOf path → (Value.mapping (strippedEntries data)).at? (keysOf path) = none) :
    ((Value.mapping (takePath data document path)).at? keys).map Value.head =
      ((Value.mapping document).at? keys).map Value.head := by
  by_cases above : keys <+: keysOf path
  · have absent := unset above
    rcases takePath_cases proper document path with ⟨value, held, _⟩ | ⟨_, eq⟩
    · rw [absent] at held
      cases held
    · obtain ⟨more, split⟩ := above
      cases more with
      | nil => exact absurd ⟨[], by simpa using split.symm⟩ below
      | cons key others =>
        rw [eq, ← split]
        exact head_at?_removeAt_above document keys key others
  · rw [at?_takePath_apart proper document below above]

/-! ## All paths of a list -/

/-- Takes the paths over one by one. -/
def takePaths (data document : Document) (paths : List String) : Document := paths.foldl (takePath data) document

theorem takePaths_keeps_agreement {data : Document} (proper : data.Proper) {keys : List String} (paths : List String) :
    ∀ {document : Document}, AgreesAt data document keys → AgreesAt data (takePaths data document paths) keys := by
  induction paths with
  | nil => exact id
  | cons path rest ih => exact fun agrees => ih (takePath_keeps_agreement proper agrees path)

theorem takePaths_agrees {data : Document} (proper : data.Proper) {path : String} {paths : List String}
    (member : path ∈ paths) (document : Document) : AgreesAt data (takePaths data document paths) (keysOf path) := by
  induction paths generalizing document with
  | nil => cases member
  | cons first rest ih =>
    rcases List.mem_cons.mp member with rfl | later
    · exact takePaths_keeps_agreement proper rest (takePath_agrees proper document path)
    · exact ih later (takePath data document first)

theorem takePaths_of_agrees {data document : Document} (proper : data.Proper) {paths : List String}
    (agree : ∀ path ∈ paths, AgreesAt data document (keysOf path)) : takePaths data document paths = document := by
  induction paths with
  | nil => rfl
  | cons path rest ih =>
    rw [takePaths, List.foldl_cons, takePath_of_agrees proper (agree path List.mem_cons_self)]
    exact ih fun other member => agree other (List.mem_cons_of_mem _ member)

theorem at?_takePaths_apart {data : Document} (proper : data.Proper) {keys : List String} {paths : List String}
    (apart : ∀ path ∈ paths, ¬ keysOf path <+: keys ∧ ¬ keys <+: keysOf path) (document : Document) :
    (Value.mapping (takePaths data document paths)).at? keys = (Value.mapping document).at? keys := by
  induction paths generalizing document with
  | nil => rfl
  | cons path rest ih =>
    obtain ⟨below, above⟩ := apart path List.mem_cons_self
    exact (ih (fun other member => apart other (List.mem_cons_of_mem _ member)) (takePath data document path)).trans
      (at?_takePath_apart proper document below above)

theorem head_takePaths {data : Document} (proper : data.Proper) {keys : List String} {paths : List String}
    (below : ∀ path ∈ paths, ¬ keysOf path <+: keys)
    (unset : ∀ path ∈ paths, keys <+: keysOf path → (Value.mapping (strippedEntries data)).at? (keysOf path) = none)
    (document : Document) :
    ((Value.mapping (takePaths data document paths)).at? keys).map Value.head =
      ((Value.mapping document).at? keys).map Value.head := by
  induction paths generalizing document with
  | nil => rfl
  | cons path rest ih =>
    exact (ih (fun other member => below other (List.mem_cons_of_mem _ member))
      (fun other member => unset other (List.mem_cons_of_mem _ member)) (takePath data document path)).trans
      (head_takePath proper document (below path List.mem_cons_self) (unset path List.mem_cons_self))

/-- Documents that agree with the data at every listed path have the same heads behind all keys if they have them where
nothing listed decides: where no listed path leads to the keys or above them, and none below them is set. -/
theorem heads_of_agreement {left right : Document} (Listed : Document → String → Prop)
    (first : ∀ data path, Listed data path → AgreesAt data left (keysOf path))
    (second : ∀ data path, Listed data path → AgreesAt data right (keysOf path))
    (undecided : ∀ keys, (∀ data path, Listed data path → ¬ keysOf path <+: keys) →
      (∀ data path, Listed data path → keys <+: keysOf path →
        (Value.mapping (strippedEntries data)).at? (keysOf path) = none) →
      ((Value.mapping left).at? keys).map Value.head = ((Value.mapping right).at? keys).map Value.head)
    (keys : List String) :
    ((Value.mapping left).at? keys).map Value.head = ((Value.mapping right).at? keys).map Value.head := by
  by_cases covered : ∃ data path, Listed data path ∧ keysOf path <+: keys
  · -- A listed path leads here or above: both documents agree with the data.
    obtain ⟨data, path, listed, more, rfl⟩ := covered
    have one := agreesAt_append (first data path listed) more
    have two := agreesAt_append (second data path listed) more
    unfold AgreesAt at one two
    rw [one, two]
  · have below : ∀ data path, Listed data path → ¬ keysOf path <+: keys :=
      fun data path listed reached => covered ⟨data, path, listed, reached⟩
    by_cases set : ∃ data path, Listed data path ∧ keys <+: keysOf path ∧
        (Value.mapping (strippedEntries data)).at? (keysOf path) ≠ none
    · -- A value is set further down: both documents have a mapping here.
      obtain ⟨data, path, listed, ⟨more, split⟩, live⟩ := set
      have mapping : ∀ document, AgreesAt data document (keysOf path) →
          ((Value.mapping document).at? keys).map Value.head = some (.mapping []) := by
        intro document agrees
        unfold AgreesAt at agrees
        obtain ⟨value, held⟩ := Option.ne_none_iff_exists'.mp live
        cases more with
        | nil => exact absurd ⟨[], by simpa using split.symm⟩ (below data path listed)
        | cons key rest =>
          rw [held, ← split] at agrees
          obtain ⟨entries, here⟩ := Value.at?_above_some keys agrees
          simp [here, Value.head]
      rw [mapping left (first data path listed), mapping right (second data path listed)]
    · refine undecided keys below fun data path listed above => ?_
      by_contra live
      exact set ⟨data, path, listed, above, live⟩

/-- Which paths are listed decides the heads behind all keys, not their order or number. -/
theorem heads_takePaths_congr {data : Document} (proper : data.Proper) (document : Document)
    {paths others : List String} (members : ∀ path, path ∈ others ↔ path ∈ paths) (keys : List String) :
    ((Value.mapping (takePaths data document others)).at? keys).map Value.head =
      ((Value.mapping (takePaths data document paths)).at? keys).map Value.head := by
  refine heads_of_agreement (fun source path => source = data ∧ path ∈ paths) ?_ ?_ ?_ keys
  · rintro _ path ⟨rfl, member⟩
    exact takePaths_agrees proper ((members path).mpr member) document
  · rintro _ path ⟨rfl, member⟩
    exact takePaths_agrees proper member document
  · -- Nothing listed reaches this far: both documents have the old head.
    intro keys below unset
    have clear : ∀ path ∈ paths, ¬ keysOf path <+: keys := fun path member => below data path ⟨rfl, member⟩
    have dead : ∀ path ∈ paths, keys <+: keysOf path →
        (Value.mapping (strippedEntries data)).at? (keysOf path) = none :=
      fun path member => unset data path ⟨rfl, member⟩
    rw [head_takePaths proper (fun path member => clear path ((members path).mp member))
      (fun path member => dead path ((members path).mp member)) document, head_takePaths proper clear dead document]

/-! ## Keys stay distinct -/

theorem proper_innerEntries {document : Document} (proper : document.Proper) (key : String) :
    (innerEntries document key).Proper := by
  unfold innerEntries
  split
  · next entries found => exact proper_of_get? proper.2 found
  · exact proper_nil

theorem proper_setAt {document : Document} (proper : document.Proper) {value : Value} (new : value.Proper)
    (keys : List String) : (setAt document keys value).Proper := by
  induction keys generalizing document with
  | nil => exact proper
  | cons key rest ih =>
    cases rest with
    | nil => exact proper_insert proper (Value.proper_stripped new) key
    | cons next more =>
      rw [setAt_cons document key (by simp)]
      exact proper_insert proper (ih (proper_innerEntries proper key)) key

theorem proper_removeAt {document : Document} (proper : document.Proper) (keys : List String) :
    (removeAt document keys).Proper := by
  induction keys generalizing document with
  | nil => exact proper
  | cons key rest ih =>
    cases rest with
    | nil => exact proper_erase proper key
    | cons next more =>
      rcases removeAt_cons_cases document key (List.cons_ne_nil next more) with ⟨inner, found, eq⟩ | ⟨eq, _⟩
      · rw [eq]
        exact proper_insert proper (ih (proper_of_get? proper.2 found)) key
      · rw [eq]
        exact proper

theorem proper_takePaths {data document : Document} (dataProper : data.Proper) (proper : document.Proper)
    (paths : List String) : (takePaths data document paths).Proper := by
  induction paths generalizing document with
  | nil => exact proper
  | cons path rest ih =>
    rw [takePaths, List.foldl_cons]
    refine ih ?_
    rw [takePath, lookup?_eq]
    split
    · exact proper_removeAt proper _
    · next value _ held => exact proper_setAt proper (Value.proper_at? dataProper held) _
    · exact proper_removeAt proper _

end Document

/-! ## The write -/

namespace Store

open Document in
/-- A write that lists paths leaves a document that agrees with the stripped data at each of them, so that what
the data lacks or marks with a tombstone is gone; that keeps every path apart from all of them; and that depends
neither on the order nor on the number of times in which paths are listed or the write is made. -/
theorem write_listed_paths (store : Store) (collection id : String) {data : Document} (paths : List String)
    (oldProper : (store.content collection id).Proper) (dataProper : data.Proper) :
    ∃ result, (store.write collection id data (.mergePaths paths)).document? collection id = some result ∧
      (∀ path ∈ paths, lookup? result path = lookup? (strippedEntries data) path) ∧
      (∀ path ∈ paths, lookup? data path = none ∨ lookup? data path = some .delete → lookup? result path = none) ∧
      (∀ path, (∀ listed ∈ paths, ¬ keysOf listed <+: keysOf path ∧ ¬ keysOf path <+: keysOf listed) →
        lookup? result path = lookup? (store.content collection id) path) ∧
      (∀ others, (∀ path, path ∈ others ↔ path ∈ paths) →
        ∃ other, (store.write collection id data (.mergePaths others)).document? collection id = some other ∧
          other.Alike result) ∧
      ((store.write collection id data (.mergePaths paths)).write collection id data
        (.mergePaths paths)).document? collection id = some result := by
  have agree : ∀ path ∈ paths,
      lookup? (takePaths data (store.content collection id) paths) path = lookup? (strippedEntries data) path := by
    intro path member
    rw [lookup?_eq, lookup?_eq]
    exact takePaths_agrees dataProper member _
  refine ⟨takePaths data (store.content collection id) paths, document?_write store collection id data _, agree,
    ?_, ?_, ?_, ?_⟩
  · intro path member gone
    have kept := Value.at?_stripped dataProper (keysOf_ne_nil path)
    rw [Value.stripped, ← lookup?_eq, ← lookup?_eq] at kept
    rw [agree path member, kept]
    rcases gone with absent | tombstone
    · rw [absent]
      rfl
    · rw [tombstone]
      rfl
  · intro path apart
    rw [lookup?_eq, lookup?_eq]
    exact at?_takePaths_apart dataProper apart _
  · intro others members
    refine ⟨takePaths data (store.content collection id) others, document?_write store collection id data _, ?_⟩
    exact Value.alike_of_heads (proper_takePaths dataProper oldProper others)
      (proper_takePaths dataProper oldProper paths) (heads_takePaths_congr dataProper _ members)
  · rw [document?_write, content_write]
    exact congrArg some (takePaths_of_agrees dataProper fun path member => takePaths_agrees dataProper member _)

/-- A prefix and its extension are listed in the unfavourable order, over a scalar that stands in the way. -/
theorem write_listed_paths_overlapping :
    ∃ result, ((empty.put "users" "ada" [("a", .int 7), ("z", .bool true)]).write "users" "ada"
        [("a", .mapping [("b", .int 1), ("c", .delete)])] (.mergePaths ["a.b", "a", "a.c"])).document? "users" "ada" =
          some result ∧
      Document.lookup? result "a.b" = some (.int 1) ∧ Document.lookup? result "a.c" = none ∧
      Document.lookup? result "z" = some (.bool true) := by
  have old : ((empty.put "users" "ada" [("a", .int 7), ("z", .bool true)]).content "users" "ada").Proper := by
    rw [content, document?_put]
    simp [Document.Proper, Value.Proper, EntriesProper, Entries.Distinct, Entries.keys]
  have new : Document.Proper [("a", .mapping [("b", .int 1), ("c", .delete)])] := by
    simp [Document.Proper, Value.Proper, EntriesProper, Entries.Distinct, Entries.keys]
  obtain ⟨result, written, agree, gone, apart, _⟩ :=
    write_listed_paths (empty.put "users" "ada" [("a", .int 7), ("z", .bool true)]) "users" "ada"
      ["a.b", "a", "a.c"] old new
  refine ⟨result, written, (agree "a.b" (by decide)).trans rfl, gone "a.c" (by decide) (.inr rfl),
    (apart "z" (by decide)).trans ?_⟩
  rw [content, document?_put]
  rfl

end Store

end TaggedRecords
