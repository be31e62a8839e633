import TaggedRecords.Proofs.RecordParts

/-!
# Positions below a content

Where a path leads below a content and below its snapshot. A write at a path that leads to a part is the write on that
part, put back in its place; everything beside the path stays as it was, and what is on the way keeps its outline. A
path that leads nowhere changes nothing.
-/

namespace TaggedRecords

/-! ## Positions -/

/-- The value at a position of a snapshot. -/
def Value.position? : Value → List Segment → Option Value
  | value, [] => some value
  | value, segment :: rest => (value.part? segment).bind fun part => part.position? rest

/-- The content at a position with its type: a field of a record that is not hidden, an item of a sequence or an entry
of a map, where options and boxes are looked through. -/
def Data.position? (catalog : Catalog) : Data → FieldType → List Segment → Option (FieldType × Data)
  | data, type, [] => .some (type, data)
  | data, type, segment :: rest =>
    (data.part? catalog type segment).bind fun found => found.2.position? catalog found.1 rest

section
variable {catalog : Catalog} {type : FieldType}

/-! ## Segments that lead nowhere -/

/-- The fault says that the path leads nowhere. -/
def ValueFault.Misses : ValueFault → Prop
  | missingElement _ => True
  | unexpectedSegment _ _ => True
  | _ => False

/-- The write failed for its path and left the content as it was. -/
def Written.Missed {α : Type} (written : Written α) (content : α) : Prop :=
  ∃ fault : ValueFault, written = .failed content fault ∧ fault.Misses

theorem Written.Missed.map {α β : Type} {written : Written α} {content : α} (missed : written.Missed content)
    (f : α → β) : (written.map f).Missed (f content) := by
  obtain ⟨fault, rfl, misses⟩ := missed
  exact ⟨fault, rfl, misses⟩

/-- A field that is hidden or not there is not written. -/
theorem writeField_missed (segment : String) (decls : List FieldDecl) (fields : List Data) (place : Nat)
    (path : List Segment) (value : Value)
    (nowhere : ∀ decl field, decls[place]? = some decl → fields[place]? = some field → decl.isHidden = true) :
    writeField catalog segment decls fields place path value = none ∨
      ∃ written, writeField catalog segment decls fields place path value = some written ∧ written.Missed fields := by
  induction decls generalizing fields place with
  | nil => exact .inl (by cases fields <;> rfl)
  | cons decl decls ih =>
    cases fields with
    | nil => exact .inl rfl
    | cons field rest =>
      cases place with
      | zero =>
        have hidden := nowhere decl field rfl rfl
        refine .inr ⟨_, by rw [writeField, if_pos hidden], .unexpectedSegment segment _, rfl, trivial⟩
      | succ place =>
        rw [writeField]
        rcases ih rest place nowhere with absent | ⟨written, writes, missed⟩
        · exact .inl (by rw [absent]; rfl)
        · exact .inr ⟨_, by rw [writes]; rfl, missed.map _⟩

theorem writeAt_missed_segment {data : Data} {segment : Segment} (nowhere : data.part? catalog type segment = none)
    (path : List Segment) (value : Value) : (data.writeAt catalog type (segment :: path) value).Missed data := by
  induction data using Data.layered generalizing type with
  | layer inner ih =>
    have write : (Data.some inner).writeAt catalog type (segment :: path) value =
        (inner.writeAt catalog type.unboxed.optionInner (segment :: path) value).map .some := by
      simp [Data.writeAt]
    rw [write]
    exact (ih nowhere).map Data.some
  | bare data bare =>
    cases data with
    | some inner => exact absurd rfl (bare inner)
    | sequence items =>
      cases segment with
      | index place =>
        have absent : items[place]? = none := Option.map_eq_none_iff.mp nowhere
        simp only [Data.writeAt, writeItem_eq, absent, Option.map_none]
        exact ⟨_, rfl, trivial⟩
      | _ => exact ⟨_, rfl, trivial⟩
    | mapping entries =>
      cases segment with
      | key name =>
        have absent : Entries.get? entries name = none := Option.map_eq_none_iff.mp nowhere
        simp only [Data.writeAt, writeEntry_eq, absent, Option.map_none]
        exact ⟨_, rfl, trivial⟩
      | _ => exact ⟨_, rfl, trivial⟩
    | record recordType fields =>
      cases segment with
      | field place =>
        have hides : ∀ decl field, (catalog.fields recordType)[place]? = some decl → fields[place]? = some field →
            decl.isHidden = true := by
          intro decl field declared held
          simpa [Data.part?, declared, held] using nowhere
        rcases writeField_missed (Segment.field place).text (catalog.fields recordType) fields place path value hides
          with absent | ⟨written, writes, missed⟩
        · rw [Data.writeAt, absent]
          exact ⟨_, rfl, trivial⟩
        · rw [Data.writeAt, writes]
          exact missed.map (Data.record recordType)
      | _ => exact ⟨_, rfl, trivial⟩
    | _ => exact ⟨_, rfl, trivial⟩

/-! ## Writes at a path -/

theorem Data.position?_cons {data : Data} {segment : Segment} {element : FieldType} {part : Data}
    (found : data.part? catalog type segment = .some (element, part)) (rest : List Segment) :
    data.position? catalog type (segment :: rest) = part.position? catalog element rest := by
  simp [Data.position?, found]

theorem PutsBack.position? {data : Data} {segment : Segment} {element : FieldType} {part : Data} {put : Data → Data}
    (puts : PutsBack catalog type data segment element part put) (new : Data) (rest : List Segment) :
    ((put new).snapshot catalog).position? (segment :: rest) = (new.snapshot catalog).position? rest := by
  simp [Value.position?, puts.hereShown]

/-- Where a path leads below a content, it leads below its snapshot. -/
theorem snapshot_position? {data : Data} {path : List Segment} {target : FieldType} {part : Data}
    (found : data.position? catalog type path = some (target, part)) :
    (data.snapshot catalog).position? path = some (part.snapshot catalog) := by
  induction path generalizing data type with
  | nil =>
    cases found
    rfl
  | cons segment rest ih =>
    obtain ⟨⟨element, inner⟩, here, below⟩ := Option.bind_eq_some_iff.mp found
    obtain ⟨put, puts⟩ := exists_putsBack here
    rw [← puts.same, puts.position?]
    exact ih below

/-- A path that leads nowhere fails for that and changes nothing. -/
theorem writeAt_missed {data : Data} {path : List Segment} (nowhere : data.position? catalog type path = none)
    (value : Value) : (data.writeAt catalog type path value).Missed data := by
  induction path generalizing data type with
  | nil => cases nowhere
  | cons segment rest ih =>
    cases found : data.part? catalog type segment with
    | none => exact writeAt_missed_segment found rest value
    | some held =>
      obtain ⟨element, part⟩ := held
      obtain ⟨put, puts⟩ := exists_putsBack found
      rw [Data.position?_cons found] at nowhere
      rw [puts.write, ← puts.same]
      exact (ih nowhere).map put

/-- A write at a path that leads somewhere is the write on the content there. -/
theorem writeAt_found {data : Data} {path : List Segment} {target : FieldType} {part : Data}
    (found : data.position? catalog type path = some (target, part)) (value : Value) :
    (data.writeAt catalog type path value).fault = (part.writeAt catalog target [] value).fault ∧
      ((data.writeAt catalog type path value).content.snapshot catalog).position? path =
        some ((part.writeAt catalog target [] value).content.snapshot catalog) := by
  induction path generalizing data type with
  | nil =>
    cases found
    exact ⟨rfl, rfl⟩
  | cons segment rest ih =>
    obtain ⟨⟨element, inner⟩, here, below⟩ := Option.bind_eq_some_iff.mp found
    obtain ⟨put, puts⟩ := exists_putsBack here
    rw [puts.write]
    obtain ⟨fault, stands⟩ := ih below
    exact ⟨fault, (puts.position? _ rest).trans stands⟩

/-- A write changes nothing beside its path. -/
theorem writeAt_apart {path other : List Segment} (behind : ¬ path <+: other) (above : ¬ other <+: path) (data : Data)
    (value : Value) :
    ((data.writeAt catalog type path value).content.snapshot catalog).position? other =
      (data.snapshot catalog).position? other := by
  induction path generalizing data type other with
  | nil => exact absurd List.nil_prefix behind
  | cons segment rest ih =>
    cases other with
    | nil => exact absurd List.nil_prefix above
    | cons next more =>
      cases found : data.part? catalog type segment with
      | none =>
        obtain ⟨fault, write, -⟩ := writeAt_missed_segment found rest value
        rw [write]
        rfl
      | some held =>
        obtain ⟨element, part⟩ := held
        obtain ⟨put, puts⟩ := exists_putsBack found
        rw [puts.write]
        -- Either the paths part at this segment, or they share it and part below.
        by_cases same : next = segment
        · subst same
          rw [List.cons_prefix_cons, not_and] at behind above
          have inside : ((part.writeAt catalog element rest value).content.snapshot catalog).position? more =
              (part.snapshot catalog).position? more := ih (behind rfl) (above rfl) part
          calc ((put (part.writeAt catalog element rest value).content).snapshot catalog).position? (next :: more)
              = ((part.writeAt catalog element rest value).content.snapshot catalog).position? more :=
                puts.position? _ more
            _ = (part.snapshot catalog).position? more := inside
            _ = ((put part).snapshot catalog).position? (next :: more) := (puts.position? part more).symm
            _ = (data.snapshot catalog).position? (next :: more) := by rw [puts.same]
        · exact congrArg (Option.bind · fun part => part.position? more) (puts.elsewhereShown _ next same)

/-- What a write passes on its way keeps its outline. -/
theorem writeAt_above {path other : List Segment} (above : other <+: path) (strictly : other ≠ path) (data : Data)
    (value : Value) :
    (((data.writeAt catalog type path value).content.snapshot catalog).position? other).map Value.outline =
      ((data.snapshot catalog).position? other).map Value.outline := by
  induction path generalizing data type other with
  | nil => exact absurd (List.prefix_nil.mp above) strictly
  | cons segment rest ih =>
    cases found : data.part? catalog type segment with
    | none =>
      obtain ⟨fault, write, -⟩ := writeAt_missed_segment found rest value
      rw [write]
      rfl
    | some held =>
      obtain ⟨element, part⟩ := held
      obtain ⟨put, puts⟩ := exists_putsBack found
      rw [puts.write]
      cases other with
      | nil => exact congrArg some (puts.outlineShown _)
      | cons next more =>
        obtain ⟨same, below⟩ := List.cons_prefix_cons.mp above
        subst same
        have inside : (((part.writeAt catalog element rest value).content.snapshot catalog).position? more).map
              Value.outline = ((part.snapshot catalog).position? more).map Value.outline :=
          ih below (fun equal => strictly (by rw [equal])) part
        have before : (data.snapshot catalog).position? (next :: more) = (part.snapshot catalog).position? more := by
          rw [← puts.same, puts.position?]
        rw [before, ← inside]
        exact congrArg (Option.map Value.outline) (puts.position? _ more)

end

end TaggedRecords
