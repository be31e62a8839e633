import TaggedRecords.Proofs.Conversions
import TaggedRecords.Proofs.OwnSnapshots

/-!
# Contained writes

Writing back what a position shows changes nothing that is seen. A write that fails changes nothing outside its position,
and nothing at all unless a record is assigned there as a whole: then the fields before the one that failed hold their new
values, and those behind it are as they were.
-/

namespace TaggedRecords

section
variable {catalog : Catalog} {type target : FieldType}

/-! ## Writing at a path -/

/-- Where a write leads to a part, what the write leaves of it stands. -/
theorem writeAt_position? {data : Data} {path : List Segment} {part : Data}
    (found : data.position? catalog type path = some (target, part)) (value : Value) :
    (data.writeAt catalog type path value).content.position? catalog type path =
      some (target, (part.writeAt catalog target [] value).content) := by
  induction path generalizing data type with
  | nil =>
    cases found
    rfl
  | cons segment rest ih =>
    obtain ⟨⟨element, inner⟩, here, below⟩ := Option.bind_eq_some_iff.mp found
    obtain ⟨put, puts⟩ := exists_putsBack here
    rw [puts.write]
    exact (Data.position?_cons (puts.here _) rest).trans (ih below)

/-- A write that leaves the part as it was leaves the whole content so. -/
theorem writeAt_kept {data : Data} {path : List Segment} {part : Data} {value : Value}
    (found : data.position? catalog type path = some (target, part))
    (kept : (part.writeAt catalog target [] value).content = part) :
    (data.writeAt catalog type path value).content = data := by
  induction path generalizing data type with
  | nil =>
    cases found
    exact kept
  | cons segment rest ih =>
    obtain ⟨⟨element, inner⟩, here, below⟩ := Option.bind_eq_some_iff.mp found
    obtain ⟨put, puts⟩ := exists_putsBack here
    rw [puts.write]
    exact (congrArg put (ih below)).trans puts.same

/-- A write after which the part shows the same leaves the whole snapshot the same. -/
theorem writeAt_shown {data : Data} {path : List Segment} {part : Data} {value : Value}
    (found : data.position? catalog type path = some (target, part))
    (same : (part.writeAt catalog target [] value).content.snapshot catalog = part.snapshot catalog) :
    (data.writeAt catalog type path value).content.snapshot catalog = data.snapshot catalog := by
  induction path generalizing data type with
  | nil =>
    cases found
    exact same
  | cons segment rest ih =>
    obtain ⟨⟨element, inner⟩, here, below⟩ := Option.bind_eq_some_iff.mp found
    obtain ⟨put, puts, shown⟩ := exists_putsBack_shown here
    rw [puts.write]
    exact shown _ (ih below)

/-- A part of settled content is settled. -/
theorem Data.Settled.part {data : Data} {segment : Segment} {part : Data} {element : FieldType}
    (settled : data.Settled catalog type) (found : data.part? catalog type segment = .some (element, part)) :
    part.Settled catalog element := by
  induction data using Data.layered generalizing type with
  | layer inner ih => exact ih settled found
  | bare data bare =>
    cases data with
    | some inner => exact absurd rfl (bare inner)
    | sequence items =>
      cases segment with
      | index place =>
        obtain ⟨item, held, same⟩ := Option.map_eq_some_iff.mp found
        cases same
        exact itemsSettled_iff.mp settled part (List.mem_of_getElem? held)
      | _ => cases found
    | mapping entries =>
      cases segment with
      | key name =>
        obtain ⟨item, held, same⟩ := Option.map_eq_some_iff.mp found
        cases same
        exact entriesSettled_iff.mp settled.2 (name, part) (Entries.mem_of_get? held)
      | _ => cases found
    | record recordType fields =>
      cases segment with
      | field place =>
        obtain ⟨decl, declared, held, visible, rfl⟩ := part?_field found
        exact FieldsSettled.getElem? settled declared held visible
      | _ => cases found
    | _ => cases found

theorem Data.Settled.position {data : Data} {path : List Segment} {part : Data} (settled : data.Settled catalog type)
    (found : data.position? catalog type path = .some (target, part)) : part.Settled catalog target := by
  induction path generalizing data type with
  | nil =>
    cases found
    exact settled
  | cons segment rest ih =>
    obtain ⟨⟨element, inner⟩, here, below⟩ := Option.bind_eq_some_iff.mp found
    exact ih (settled.part here) below

end

/-! ## Content that holds a value -/

/-- The content below all optional layers. -/
def Data.bare : Data → Data
  | .some inner => inner.bare
  | other => other

mutual

/-- The content shows the value, as far as its type can; of a record the fields that have a value hold it. -/
def Data.Holds (catalog : Catalog) : Data → FieldType → Value → Prop
  | .some inner, type, value => inner.Holds catalog type.unboxed.optionInner value
  | .record recordType fields, _, value => ∃ values, value = .record recordType values ∧
      FieldsHold catalog fields (catalog.fields recordType) (values.map Prod.snd)
  | data, type, value => (data.snapshot catalog).Matches (type.rounding value)

/-- Every field that is not hidden holds its value, as long as there are values. -/
def FieldsHold (catalog : Catalog) : List Data → List FieldDecl → List Value → Prop
  | field :: rest, decl :: decls, value :: values =>
      (decl.isHidden = false → field.Holds catalog decl.type value) ∧ FieldsHold catalog rest decls values
  | _, _, _ => True

end

section
variable {catalog : Catalog} {type : FieldType}

theorem FieldType.core_optionInner (type : FieldType) : type.unboxed.optionInner.core = type.core := by
  rw [← type.core_unboxed]
  cases type.unboxed <;> rfl

theorem FieldType.rounding_optionInner (type : FieldType) (value : Value) :
    type.unboxed.optionInner.rounding value = type.rounding value := by
  rw [rounding, rounding, type.core_optionInner]

theorem FieldType.rounding_null (type : FieldType) : type.rounding .null = .null := by
  unfold rounding
  split <;> rfl

theorem proper_of_mem_values {entries : List (String × Value)} (proper : EntriesProper entries) :
    ∀ value ∈ entries.map Prod.snd, value.Proper := by
  intro value member
  obtain ⟨entry, inside, rfl⟩ := List.mem_map.mp member
  exact entriesProper_iff.mp proper entry inside

/-- Content with a record below optional layers is of a type of this record. -/
theorem Data.core_of_bare {data : Data} (fits : data.Fits catalog type) {recordType : RecordType} {fields : List Data}
    (bare : data.bare = .record recordType fields) : type.core = .record recordType := by
  induction data using Data.layered generalizing type with
  | layer inner ih =>
    obtain ⟨under, layer, fits⟩ := fits
    rw [← type.core_unboxed, layer]
    show under.core = .record recordType
    exact ih fits bare
  | bare data plain =>
    cases data with
    | some inner => exact absurd rfl (plain inner)
    | record held contents =>
      cases bare
      rw [← type.core_unboxed, fits.1]
      rfl
    | _ => cases bare

/-- Records are never read from a value. -/
theorem FieldType.bare_of_ofValue {value : Value} {data : Data} (proper : value.Proper)
    (converted : type.ofValue value = .ok data) (recordType : RecordType) (fields : List Data) :
    data.bare ≠ .record recordType fields := by
  intro same
  have fits : data.Fits ⟨[]⟩ type := (type.ofValue_settled proper converted).1
  have core := Data.core_of_bare fits same
  clear fits
  induction type generalizing value data with
  | optional inner ih =>
    rcases ofValue_optional_ok converted with ⟨_, rfl⟩ | ⟨_, content, read, rfl⟩
    · cases same
    · exact ih proper read same core
  | boxed inner ih => exact ih proper converted same core
  | sequence element =>
    obtain ⟨_, _, _, _, rfl⟩ := ofValue_sequence_ok converted
    cases same
  | map order element =>
    obtain ⟨_, _, _, _, rfl⟩ := ofValue_map_ok converted
    cases same
  | record _ => cases converted
  | _ => cases core

theorem Data.holds_of_matches {data : Data} {value : Value}
    (matched : (data.snapshot catalog).Matches (type.rounding value))
    (plain : ∀ recordType fields, data.bare ≠ .record recordType fields) : data.Holds catalog type value := by
  induction data using Data.layered generalizing type with
  | layer inner ih =>
    refine ih ?_ plain
    rw [type.rounding_optionInner]
    exact matched
  | bare data bare =>
    cases data with
    | some inner => exact absurd rfl (bare inner)
    | record recordType fields => exact absurd rfl (plain recordType fields)
    | _ => exact matched

theorem FieldType.ofValue_holds {value : Value} {data : Data} (proper : value.Proper)
    (converted : type.ofValue value = .ok data) : data.Holds catalog type value :=
  Data.holds_of_matches (ofValue_matches catalog type proper converted) (bare_of_ofValue proper converted)

theorem replaced_holds {old : Data} {value : Value} (proper : value.Proper)
    (passes : (replaced type old value).fault = none) :
    (replaced type old value).content.Holds catalog type value := by
  obtain ⟨content, read, done⟩ := replaced_passes passes
  rw [done]
  exact type.ofValue_holds proper read

mutual

/-- After a write that succeeded the content holds the value. -/
theorem Data.writeAt_holds : ∀ {data : Data} {type : FieldType} {value : Value}, data.Fits catalog type →
    value.Proper → (data.writeAt catalog type [] value).fault = none →
    (data.writeAt catalog type [] value).content.Holds catalog type value
  | .bool _, _, _, _, proper, passes | .int _, _, _, _, proper, passes | .uint _, _, _, _, proper, passes
  | .float _, _, _, _, proper, passes | .string _, _, _, _, proper, passes | .bytes _, _, _, _, proper, passes
  | .time _, _, _, _, proper, passes | .sequence _, _, _, _, proper, passes
  | .mapping _, _, _, _, proper, passes => replaced_holds proper passes
  | .none, type, value, ⟨inner, layer⟩, proper, passes => by
    by_cases absent : value = .null
    · subst absent
      show Value.null.Matches (type.rounding .null)
      rw [type.rounding_null]
      exact .same _
    · obtain ⟨content, read, done⟩ := Data.writeAt_absent_passes layer absent passes
      rw [done]
      show content.Holds catalog type.unboxed.optionInner value
      rw [layer]
      exact inner.ofValue_holds proper read
  | .some inner, type, value, ⟨under, layer, fits⟩, proper, passes => by
    by_cases absent : value = .null
    · subst absent
      show Value.null.Matches (type.rounding .null)
      rw [type.rounding_null]
      exact .same _
    · rw [Data.writeAt_layer layer absent] at passes ⊢
      rw [Written.map, Data.Holds, layer]
      exact Data.writeAt_holds fits proper passes
  | .record recordType fields, type, value, ⟨_, fit⟩, proper, passes => by
    cases value with
    | record valueType values =>
      by_cases same : valueType = recordType
      · subst same
        simp only [Data.writeAt, if_true] at passes ⊢
        exact ⟨values, rfl, assignFields_hold fit (proper_of_mem_values proper) passes⟩
      · simp only [Data.writeAt, if_neg same] at passes
        cases passes
    | _ => cases passes
  | .hidden, _, _, fits, _, _ => fits.elim

/-- So do the fields of a record. -/
theorem assignFields_hold : ∀ {fields : List Data} {decls : List FieldDecl} {values : List Value},
    FieldsFit catalog fields decls → (∀ value ∈ values, value.Proper) →
    (assignFields catalog decls fields values).fault = none →
    FieldsHold catalog (assignFields catalog decls fields values).content decls values
  | [], [], _, _, _, _ => trivial
  | _ :: _, _ :: _, [], _, _, _ => trivial
  | field :: rest, decl :: decls, value :: values, ⟨here, fit⟩, proper, passes => by
    obtain ⟨head, tail⟩ := List.forall_mem_cons.mp proper
    rw [assignFields] at passes ⊢
    cases hidden : decl.isHidden with
    | true =>
      rw [hidden, if_pos rfl] at passes
      rw [if_pos rfl]
      refine ⟨fun visible => ?_, assignFields_hold fit tail passes⟩
      rw [hidden] at visible
      cases visible
    | false =>
      have fits : field.Fits catalog decl.type := by simpa [hidden] using here
      simp only [hidden, Bool.false_eq_true, if_false] at passes ⊢
      cases written : (field.writeAt catalog decl.type [] value).fault with
      | some fault => rw [written] at passes; cases passes
      | none =>
        rw [written] at passes
        exact ⟨fun _ => Data.writeAt_holds fits head written, assignFields_hold fit tail passes⟩

end

end

/-! ## Writes that fail -/

section
variable {catalog : Catalog} {type : FieldType}

theorem replaced_failed {old : Data} {value : Value} {fault : ValueFault}
    (failed : (replaced type old value).fault = some fault) : (replaced type old value).content = old := by
  unfold replaced at failed ⊢
  cases read : type.ofValue value with
  | error fault => rfl
  | ok content => rw [read] at failed; cases failed

/-- A write that fails changes nothing, unless it assigns a record of the type that the content is of. -/
theorem Data.writeAt_failed {data : Data} {value : Value} {fault : ValueFault}
    (failed : (data.writeAt catalog type [] value).fault = .some fault)
    (other : ∀ recordType fields values, data.bare = .record recordType fields → value ≠ .record recordType values) :
    (data.writeAt catalog type [] value).content = data := by
  induction data using Data.layered generalizing type with
  | layer inner ih =>
    rw [Data.writeAt] at failed ⊢
    split at failed
    · cases failed
    · next present =>
      rw [if_neg present]
      exact congrArg Data.some (ih failed other)
  | bare data bare =>
    cases data with
    | some inner => exact absurd rfl (bare inner)
    | none =>
      rw [Data.writeAt] at failed ⊢
      split at failed
      · cases failed
      · next present =>
        rw [if_neg present]
        split at failed
        · cases failed
        · rfl
    | record recordType fields =>
      cases value with
      | record valueType values =>
        have differ : valueType ≠ recordType := fun same => other recordType fields values rfl (by rw [same])
        rw [Data.writeAt, if_neg differ]
        rfl
      | _ => rfl
    | _ => exact replaced_failed failed

/-- How the fields of a record stand after values were assigned to them up to the first that was refused. -/
structure StoppedAt (catalog : Catalog) (decls : List FieldDecl) (fields : List Data) (values : List Value)
    (fault : ValueFault) (after : List Data) (place : Nat) : Prop where
  /-- The write on the field at the place failed and left what stands there. -/
  refused : ∃ decl field value, decls[place]? = some decl ∧ fields[place]? = some field ∧
    values[place]? = some value ∧ decl.isHidden = false ∧
    (field.writeAt catalog decl.type [] value).fault = some fault ∧
    after[place]? = some (field.writeAt catalog decl.type [] value).content
  /-- A field before it holds its value, or is as it was if it is hidden. -/
  before : ∀ earlier decl field value, earlier < place → decls[earlier]? = some decl →
    fields[earlier]? = some field → values[earlier]? = some value →
    ∃ left, after[earlier]? = some left ∧ (decl.isHidden = false → left.Holds catalog decl.type value) ∧
      (decl.isHidden = true → left = field)
  /-- A field behind it is as it was. -/
  behind : ∀ later, place < later → after[later]? = fields[later]?
  /-- No field is added or lost. -/
  count : after.length = fields.length

/-- A field in front that holds its value, or is hidden and as it was, makes it one place further. -/
theorem StoppedAt.cons {decls : List FieldDecl} {fields after : List Data} {values : List Value} {fault : ValueFault}
    {place : Nat} (stopped : StoppedAt catalog decls fields values fault after place) {decl : FieldDecl}
    {field left : Data} {value : Value} (holds : decl.isHidden = false → left.Holds catalog decl.type value)
    (same : decl.isHidden = true → left = field) :
    StoppedAt catalog (decl :: decls) (field :: fields) (value :: values) fault (left :: after) (place + 1) where
  refused := stopped.refused
  before := fun earlier other content written sooner declared held given => by
    cases earlier with
    | zero =>
      cases declared
      cases held
      cases given
      exact ⟨left, rfl, holds, same⟩
    | succ earlier => exact stopped.before earlier other content written (by omega) declared held given
  behind := fun later further => by
    cases later with
    | zero => omega
    | succ later => exact stopped.behind later (by omega)
  count := congrArg Nat.succ stopped.count

theorem assignFields_stopped {decls : List FieldDecl} {fields : List Data} {values : List Value} {fault : ValueFault}
    (fit : FieldsFit catalog fields decls) (proper : ∀ value ∈ values, value.Proper)
    (failed : (assignFields catalog decls fields values).fault = some fault) :
    ∃ place, StoppedAt catalog decls fields values fault (assignFields catalog decls fields values).content place := by
  induction decls generalizing fields values with
  | nil => cases fields <;> cases failed
  | cons decl decls ih =>
    cases fields with
    | nil => cases failed
    | cons field rest =>
      cases values with
      | nil => cases failed
      | cons value values =>
        obtain ⟨here, below⟩ := fit
        obtain ⟨head, tail⟩ := List.forall_mem_cons.mp proper
        rw [assignFields] at failed ⊢
        cases hidden : decl.isHidden with
        | true =>
          rw [hidden, if_pos rfl] at failed
          rw [if_pos rfl]
          obtain ⟨place, stopped⟩ := ih below tail failed
          refine ⟨place + 1, stopped.cons (fun visible => ?_) fun _ => rfl⟩
          rw [hidden] at visible
          cases visible
        | false =>
          have fits : field.Fits catalog decl.type := by simpa [hidden] using here
          simp only [hidden, Bool.false_eq_true, if_false] at failed ⊢
          cases written : (field.writeAt catalog decl.type [] value).fault with
          | none =>
            rw [written] at failed
            obtain ⟨place, stopped⟩ := ih below tail failed
            refine ⟨place + 1, stopped.cons (fun _ => Data.writeAt_holds fits head written) fun visible => ?_⟩
            rw [hidden] at visible
            cases visible
          | some cause =>
            rw [written] at failed
            cases failed
            refine ⟨0, ⟨decl, field, value, rfl, rfl, rfl, hidden, written, rfl⟩, ?_, ?_, rfl⟩
            · intro earlier _ _ _ sooner
              omega
            · intro later further
              cases later with
              | zero => omega
              | succ later => rfl

/-- Where a record is assigned and the write fails, its fields stand as after an assignment that stopped. -/
theorem Data.writeAt_stopped {data : Data} {recordType : RecordType} {fields : List Data}
    {values : List (String × Value)} {fault : ValueFault} (fits : data.Fits catalog type)
    (bare : data.bare = .record recordType fields) (proper : (Value.record recordType values).Proper)
    (failed : (data.writeAt catalog type [] (.record recordType values)).fault = .some fault) :
    ∃ after place, (data.writeAt catalog type [] (.record recordType values)).content.bare = .record recordType after ∧
      StoppedAt catalog (catalog.fields recordType) fields (values.map Prod.snd) fault after place := by
  induction data using Data.layered generalizing type with
  | layer inner ih =>
    obtain ⟨under, layer, fits⟩ := fits
    have present : Value.record recordType values ≠ .null := fun same => by cases same
    rw [Data.writeAt_layer layer present] at failed ⊢
    exact ih fits bare failed
  | bare data plain =>
    cases data with
    | some inner => exact absurd rfl (plain inner)
    | record held contents =>
      cases bare
      rw [Data.writeAt] at failed ⊢
      rw [if_pos rfl] at failed ⊢
      obtain ⟨place, stopped⟩ := assignFields_stopped fits.2 (proper_of_mem_values proper) failed
      exact ⟨_, place, rfl, stopped⟩
    | _ => cases bare

end

/-! ## Writing back -/

/-- Writing at a position what it shows succeeds and changes nothing that is seen, if no record stands in a sequence or a
mapping there. A write at a position that fails changes nothing beside it and no outline above it. It changes nothing at
all unless the position has a record, below optional layers, and the value is a record of this type; then the fields
before the first that is refused hold their values, and those behind it are as they were. -/
theorem Data.writeAt_contained {catalog : Catalog} {type target : FieldType} {data part : Data} {path : List Segment}
    (fits : data.Fits catalog type) (settled : data.Settled catalog type)
    (found : data.position? catalog type path = .some (target, part)) :
    (∀ shown, (data.snapshot catalog).position? path = .some shown → shown.Loose →
      (data.writeAt catalog type path shown).fault = .none ∧
        (data.writeAt catalog type path shown).content.snapshot catalog = data.snapshot catalog) ∧
    ∀ value fault, (data.writeAt catalog type path value).fault = .some fault →
      (∀ other, ¬ path <+: other → ¬ other <+: path →
        ((data.writeAt catalog type path value).content.snapshot catalog).position? other =
          (data.snapshot catalog).position? other) ∧
      (∀ other, other <+: path → other ≠ path →
        (((data.writeAt catalog type path value).content.snapshot catalog).position? other).map Value.outline =
          ((data.snapshot catalog).position? other).map Value.outline) ∧
      ((∀ recordType fields values, part.bare = .record recordType fields → value ≠ .record recordType values) →
        (data.writeAt catalog type path value).content = data) ∧
      ∀ recordType fields values, part.bare = .record recordType fields → value = .record recordType values →
        value.Proper → ∃ left after place,
          (data.writeAt catalog type path value).content.position? catalog type path = .some (target, left) ∧
          left.bare = .record recordType after ∧
          StoppedAt catalog (catalog.fields recordType) fields (values.map Prod.snd) fault after place := by
  refine ⟨fun shown stands loose => ?_, fun value fault failed => ⟨?_, ?_, fun other => ?_, ?_⟩⟩
  · have own : shown = part.snapshot catalog := by
      rw [snapshot_position? found] at stands
      cases stands
      rfl
    subst own
    obtain ⟨passes, same⟩ := Data.writeAt_own_snapshot (fits.position found) (settled.position found) loose
    exact ⟨(writeAt_found found _).1.trans passes, writeAt_shown found same⟩
  · exact fun _ behind above => writeAt_apart behind above data value
  · exact fun _ above strictly => writeAt_above above strictly data value
  · rw [(writeAt_found found value).1] at failed
    exact writeAt_kept found (Data.writeAt_failed failed other)
  · rintro recordType fields values bare rfl proper
    rw [(writeAt_found found _).1] at failed
    obtain ⟨after, place, holds, stopped⟩ := Data.writeAt_stopped (fits.position found) bare proper failed
    exact ⟨_, after, place, writeAt_position? found _, holds, stopped⟩

/-- Bookings, perhaps with a stay: a guest, a key that is hidden, a room, and the numbers of the nights. -/
def lodging : Catalog := ⟨[⟨"Stay", [⟨"guest", "guest", .string⟩, ⟨"key", "-", .unsupported "Mutex"⟩,
  ⟨"room", "room", .unsigned .w8⟩, ⟨"nights", "nights", .sequence (.boxed (.signed .w16))⟩]⟩,
  ⟨"Booking", [⟨"stay", "stay", .optional (.boxed (.record ⟨0, "Stay"⟩))⟩]⟩]⟩

/-- One with a stay. -/
def booking : Data :=
  .record ⟨1, "Booking"⟩ [.some (.record ⟨0, "Stay"⟩ [.string "Ada", .hidden, .uint 7, .sequence [.int 3]])]

/-- A stay with a room that does not exist. -/
def overbooked : List (String × Value) :=
  [("guest", .string "Bob"), ("key", .null), ("room", .uint 300), ("nights", .sequence [])]

/-- The stay can be written back, and one with a wrong room is assigned up to there. -/
theorem booking_writeAt_contained :
    let type := FieldType.record ⟨1, "Booking"⟩
    let stay := Value.record ⟨0, "Stay"⟩
      [("guest", .string "Ada"), ("key", .null), ("room", .uint 7), ("nights", .sequence [.int 3])]
    let written := booking.writeAt lodging type [.field 0] (.record ⟨0, "Stay"⟩ overbooked)
    booking.Fits lodging type ∧ booking.Settled lodging type ∧ stay.Loose ∧
      (booking.writeAt lodging type [.field 0] stay).fault = none ∧
      (booking.writeAt lodging type [.field 0] stay).content.snapshot lodging = booking.snapshot lodging ∧
      written.fault = some (.outOfRange (toString (300 : Int)) "u8") ∧ ∃ left after place,
        written.content.position? lodging type [.field 0] = some (.optional (.boxed (.record ⟨0, "Stay"⟩)), left) ∧
        left.bare = .record ⟨0, "Stay"⟩ after ∧
        StoppedAt lodging (lodging.fields ⟨0, "Stay"⟩) [.string "Ada", .hidden, .uint 7, .sequence [.int 3]]
          (overbooked.map Prod.snd) (.outOfRange (toString (300 : Int)) "u8") after place := by
  have fits : booking.Fits lodging (.record ⟨1, "Booking"⟩) := by
    simp [booking, lodging, Catalog.fields, FieldsFit, FieldDecl.isHidden, FieldDecl.descriptor,
      FieldType.descriptor, Descriptor.unsupportedKind?, Data.snapshot, Data.Fits, FieldType.unboxed, ItemsFit,
      Width.bits]
  have settled : booking.Settled lodging (.record ⟨1, "Booking"⟩) := by
    simp [booking, lodging, Catalog.fields, FieldsSettled, FieldDecl.isHidden, FieldDecl.descriptor,
      FieldType.descriptor, Descriptor.unsupportedKind?, Data.Settled, ItemsSettled]
  have refused : (booking.writeAt lodging (.record ⟨1, "Booking"⟩) [.field 0] (.record ⟨0, "Stay"⟩ overbooked)).fault =
      some (.outOfRange (toString (300 : Int)) "u8") := rfl
  have found : booking.position? lodging (.record ⟨1, "Booking"⟩) [.field 0] =
      some (.optional (.boxed (.record ⟨0, "Stay"⟩)),
        .some (.record ⟨0, "Stay"⟩ [.string "Ada", .hidden, .uint 7, .sequence [.int 3]])) := rfl
  have loose : (Value.record ⟨0, "Stay"⟩
      [("guest", .string "Ada"), ("key", .null), ("room", .uint 7), ("nights", .sequence [.int 3])]).Loose := by
    simp [Value.Loose, FieldsLoose, ItemsRecordless, Value.Recordless]
  have proper : (Value.record ⟨0, "Stay"⟩ overbooked).Proper := by
    simp [overbooked, Value.Proper, EntriesProper, ItemsProper]
  obtain ⟨back, contained⟩ := Data.writeAt_contained fits settled found
  obtain ⟨passes, same⟩ := back _ rfl loose
  exact ⟨fits, settled, loose, passes, same, refused, (contained _ _ refused).2.2.2 _ _ _ rfl rfl proper⟩

end TaggedRecords
