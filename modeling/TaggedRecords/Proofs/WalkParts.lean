import TaggedRecords.Proofs.PartRuns

/-!
# The traversal part by part

Visiting a field or an element writes only below its place, so visiting the parts of a value one by one is running
one plan on each part of the content. Without rules to run, what is visited is only looked at.
-/

namespace TaggedRecords

/-! ## Writes stay below the place -/

section
variable (setting : Setting) {nested : Nested}

theorem writesBelow_runChain (nullable : Bool) (place : Place) (scope : Scope) (entries : List RuleEntry) :
    (runChain setting nullable place scope entries).WritesBelow place.segments := by
  induction entries generalizing scope with
  | nil => exact .done _
  | cons entry rest ih =>
    rw [runChain]
    split
    · rcases runEntry_cases setting nullable place scope entry with ⟨fault, eq⟩ | eq | ⟨rule, next, _, _, _, eq⟩
      · rw [eq]
        exact .note (.fail fault)
      · rw [eq]
        exact .note (ih _)
      · rw [eq]
        exact .note (.write (List.append_nil _).symm (ih _))
    · exact ih scope

/-- Nested records are written only below their place. -/
def Nested.WritesBelow (nested : Nested) : Prop :=
  ∀ record place validate, (nested record place validate).WritesBelow place.segments

theorem writesBelow_emit (enter : nested.WritesBelow) (validate : Bool) (place : Place) (value : Value) :
    (emit nested validate place value).WritesBelow place.segments := by
  cases value with
  | record type fields => exact (enter _ place validate).bind fun _ => .done _
  | _ => exact .done _

theorem writesBelow_walkElement (enter : nested.WritesBelow) (owner : RecordValue) (dive : Dive) (validate : Bool)
    (place : Place) (name : String) (item : Value) :
    (walkElement setting nested owner dive validate place name item).WritesBelow place.segments := by
  refine .note ?_
  split
  · exact (writesBelow_runChain setting _ place _ _).bind fun value => writesBelow_emit enter _ place value
  · exact writesBelow_emit enter _ place item

theorem writesBelow_walkItems (enter : nested.WritesBelow) (owner : RecordValue) (dive : Dive) (validate : Bool)
    (place : Place) (index : Nat) (items : List Value) :
    (walkItems setting nested owner dive validate place index items).WritesBelow place.segments := by
  induction items generalizing index with
  | nil => exact .done _
  | cons item rest ih =>
    exact (writesBelow_walkElement setting enter owner dive validate (place.item index) _ item).above.bind fun _ =>
      (ih (index + 1)).bind fun _ => .done _

theorem writesBelow_walkEntries (enter : nested.WritesBelow) (owner : RecordValue) (dive : Dive) (validate : Bool)
    (place : Place) (entries : List (String × Value)) :
    (walkEntries setting nested owner dive validate place entries).WritesBelow place.segments := by
  induction entries with
  | nil => exact .done _
  | cons entry rest ih =>
    exact (writesBelow_walkElement setting enter owner dive validate (place.entry entry.1) _ entry.2).above.bind
      fun _ => ih.bind fun _ => .done _

theorem writesBelow_finish (enter : nested.WritesBelow) (owner : RecordValue) (dive : Option Dive) (validate : Bool)
    (place : Place) (value : Value) :
    (finish setting nested owner dive validate place value).WritesBelow place.segments := by
  unfold finish
  split
  · exact (writesBelow_walkItems setting enter owner _ validate place 0 _).bind fun _ => .done _
  · exact (writesBelow_walkEntries setting enter owner _ validate place _).bind fun _ => .done _
  · exact writesBelow_emit enter validate place value

theorem writesBelow_walkField (enter : nested.WritesBelow) (owner : RecordValue) (field : FieldMetadata)
    (validate : Bool) (place : Place) (value : Value) :
    (walkField setting nested owner field validate place value).WritesBelow place.segments := by
  refine .note ?_
  split
  · exact .done _
  · dsimp only
    refine (Plan.WritesBelow.bind ?_ fun value => writesBelow_finish setting enter owner _ _ place value).bind
      fun _ => .done _
    split
    · exact writesBelow_runChain setting _ place _ _
    · exact .done _

theorem writesBelow_walkFields (enter : nested.WritesBelow) (owner : RecordValue) (validate : Bool) (place : Place)
    (document : Document) (fields : List FieldMetadata) :
    (walkFields setting nested owner validate place document fields).WritesBelow place.segments := by
  induction fields generalizing document with
  | nil => exact .done _
  | cons field rest ih =>
    exact (writesBelow_walkField setting enter owner field validate
      (place.field field.name field.declared field.index) _).above.bind fun _ => ih _

theorem writesBelow_walkRecord (room : Nat) : (walkRecord setting room).WritesBelow := by
  induction room with
  | zero => exact fun record place validate => .fail _
  | succ room ih =>
    exact fun record place validate => .describe fun metadata =>
      writesBelow_walkFields setting ih record validate place [] metadata.fields

end

/-! ## One plan for each part -/

/-- The document after values arrived for fields, some of them none. -/
def Document.collect : Document → List FieldMetadata → List (Option Value) → Document
  | document, field :: fields, some value :: values =>
    Document.collect (Entries.insert document field.name value) fields values
  | document, _ :: fields, none :: values => Document.collect document fields values
  | document, _, _ => document

/-- The plan for one item of a sequence, given with its position. -/
def itemStep (setting : Setting) (nested : Nested) (owner : RecordValue) (dive : Dive) (validate : Bool)
    (place : Place) (item : Value × Nat) : Segment × Plan Value :=
  (.index item.2, walkElement setting nested owner dive validate (place.item item.2) (Place.positionName item.2) item.1)

/-- The plan for one entry of a mapping. -/
def entryStep (setting : Setting) (nested : Nested) (owner : RecordValue) (dive : Dive) (validate : Bool)
    (place : Place) (entry : String × Value) : Segment × Plan (String × Value) :=
  (.key entry.1, (walkElement setting nested owner dive validate (place.entry entry.1) entry.1 entry.2).bind
    fun emitted => .done (entry.1, emitted))

/-- The plan for one field of a record. -/
def fieldStep (setting : Setting) (nested : Nested) (owner : RecordValue) (validate : Bool) (place : Place)
    (field : FieldMetadata) : Segment × Plan (Option Value) :=
  (.field field.index, walkField setting nested owner field validate
    (place.field field.name field.declared field.index) ((owner.at? field.index).getD .null))

section
variable {catalog : Catalog} {registry : Registry} {Holds : RecordMetadata → Prop} {type : FieldType}
  {base : List Segment} {setting : Setting} {nested : Nested} {owner : RecordValue} {dive : Dive} {validate : Bool}
  {place : Place} {data after : Data}

theorem leavesEach_of_walkItems {items results : List Value} {index : Nat}
    (leaves : (walkItems setting nested owner dive validate place index items).Leaves catalog registry Holds type base
      data results after) :
    LeavesEach catalog registry Holds type base
      ((items.zipIdx index).map (itemStep setting nested owner dive validate place)) data results after := by
  induction items generalizing index data results with
  | nil =>
    cases leaves
    exact .nil
  | cons item rest ih =>
    obtain ⟨emitted, between, first, leaves⟩ := leaves.of_bind
    obtain ⟨others, _, second, leaves⟩ := leaves.of_bind
    cases leaves
    exact .cons first (ih second)

theorem leavesEach_of_walkEntries {entries results : List (String × Value)}
    (leaves : (walkEntries setting nested owner dive validate place entries).Leaves catalog registry Holds type base
      data results after) :
    LeavesEach catalog registry Holds type base (entries.map (entryStep setting nested owner dive validate place)) data
      results after := by
  induction entries generalizing data results with
  | nil =>
    cases leaves
    exact .nil
  | cons entry rest ih =>
    obtain ⟨emitted, between, first, leaves⟩ := leaves.of_bind
    obtain ⟨others, _, second, leaves⟩ := leaves.of_bind
    cases leaves
    exact .cons (first.bind .done) (ih second)

theorem leavesEach_of_walkFields {fields : List FieldMetadata} {document result : Document}
    (leaves : (walkFields setting nested owner validate place document fields).Leaves catalog registry Holds type base
      data result after) :
    ∃ results, LeavesEach catalog registry Holds type base (fields.map (fieldStep setting nested owner validate place))
      data results after ∧ result = document.collect fields results := by
  induction fields generalizing data document with
  | nil =>
    cases leaves
    exact ⟨[], .nil, rfl⟩
  | cons field rest ih =>
    obtain ⟨emitted, between, first, leaves⟩ := leaves.of_bind
    obtain ⟨others, each, collected⟩ := ih leaves
    refine ⟨emitted :: others, .cons first each, ?_⟩
    cases emitted with
    | some value => exact collected
    | none => exact collected

/-! ## Parts that are visited one by one -/

/-- Visiting the items of a sequence is a run on each item's part. -/
theorem walkItems_on_parts (enter : nested.WritesBelow) {items results : List Value}
    (parts : ∀ position item, items[position]? = some item →
      (data.part? catalog type (.index position)).isSome = true)
    (leaves : (walkItems setting nested owner dive validate place 0 items).Leaves catalog registry Holds type
      place.segments data results after) :
    List.Forall₂ (fun item => RanOnPart catalog registry Holds type place.segments data after
      (itemStep setting nested owner dive validate place item)) (items.zipIdx 0) results ∧
    after.outline = data.outline := by
  have deep : ∀ step ∈ (items.zipIdx 0).map (itemStep setting nested owner dive validate place),
      step.2.WritesBelow (place.segments ++ [step.1]) := by
    intro step member
    obtain ⟨item, _, rfl⟩ := List.mem_map.mp member
    exact writesBelow_walkElement setting enter owner dive validate (place.item item.2) _ item.1
  have distinct : (((items.zipIdx 0).map (itemStep setting nested owner dive validate place)).map Prod.fst).Nodup := by
    have positions : ((items.zipIdx 0).map (itemStep setting nested owner dive validate place)).map Prod.fst =
        ((items.zipIdx 0).map Prod.snd).map Segment.index := by
      rw [List.map_map, List.map_map]
      rfl
    rw [positions, List.zipIdx_map_snd]
    exact List.Nodup.map (fun _ _ same => Segment.index.inj same) List.nodup_range'
  obtain ⟨ran, _, frame⟩ := (leavesEach_of_walkItems leaves).on_parts deep distinct (by
    intro step member
    obtain ⟨item, inside, rfl⟩ := List.mem_map.mp member
    exact parts item.2 item.1 (List.mem_zipIdx_iff_getElem?.mp inside))
  exact ⟨List.forall₂_map_left_iff.mp ran, frame⟩

/-- Visiting the entries of a mapping is a run on each entry's part. -/
theorem walkEntries_on_parts (enter : nested.WritesBelow) {entries results : List (String × Value)}
    (distinct : Entries.Distinct entries)
    (parts : ∀ name item, Entries.get? entries name = some item → (data.part? catalog type (.key name)).isSome = true)
    (leaves : (walkEntries setting nested owner dive validate place entries).Leaves catalog registry Holds type
      place.segments data results after) :
    List.Forall₂ (fun entry => RanOnPart catalog registry Holds type place.segments data after
      (entryStep setting nested owner dive validate place entry)) entries results ∧
    after.outline = data.outline := by
  have deep : ∀ step ∈ entries.map (entryStep setting nested owner dive validate place),
      step.2.WritesBelow (place.segments ++ [step.1]) := by
    intro step member
    obtain ⟨entry, _, rfl⟩ := List.mem_map.mp member
    exact (writesBelow_walkElement setting enter owner dive validate (place.entry entry.1) _ entry.2).bind
      fun _ => .done _
  have apart : ((entries.map (entryStep setting nested owner dive validate place)).map Prod.fst).Nodup := by
    have names : (entries.map (entryStep setting nested owner dive validate place)).map Prod.fst =
        (Entries.keys entries).map Segment.key := by
      rw [Entries.keys, List.map_map, List.map_map]
      rfl
    rw [names]
    exact distinct.map fun _ _ same => Segment.key.inj same
  obtain ⟨ran, _, frame⟩ := (leavesEach_of_walkEntries leaves).on_parts deep apart (by
    intro step member
    obtain ⟨entry, inside, rfl⟩ := List.mem_map.mp member
    exact parts entry.1 entry.2 (Entries.get?_of_mem distinct inside))
  exact ⟨List.forall₂_map_left_iff.mp ran, frame⟩

/-- Visiting the fields of a record is a run on each field's part. -/
theorem walkFields_on_parts (enter : nested.WritesBelow) {fields : List FieldMetadata} {document result : Document}
    (distinct : (fields.map FieldMetadata.index).Nodup)
    (parts : ∀ field ∈ fields, (data.part? catalog type (.field field.index)).isSome = true)
    (leaves : (walkFields setting nested owner validate place document fields).Leaves catalog registry Holds type
      place.segments data result after) :
    ∃ results, List.Forall₂ (fun field => RanOnPart catalog registry Holds type place.segments data after
      (fieldStep setting nested owner validate place field)) fields results ∧
      result = document.collect fields results ∧ after.outline = data.outline := by
  have deep : ∀ step ∈ fields.map (fieldStep setting nested owner validate place),
      step.2.WritesBelow (place.segments ++ [step.1]) := by
    intro step member
    obtain ⟨field, _, rfl⟩ := List.mem_map.mp member
    exact writesBelow_walkField setting enter owner field validate (place.field field.name field.declared field.index) _
  have apart : ((fields.map (fieldStep setting nested owner validate place)).map Prod.fst).Nodup := by
    have indices : (fields.map (fieldStep setting nested owner validate place)).map Prod.fst =
        (fields.map FieldMetadata.index).map Segment.field := by
      rw [List.map_map, List.map_map]
      rfl
    rw [indices]
    exact distinct.map fun _ _ same => Segment.field.inj same
  obtain ⟨results, each, collected⟩ := leavesEach_of_walkFields leaves
  obtain ⟨ran, _, frame⟩ := each.on_parts deep apart (by
    intro step member
    obtain ⟨field, inside, rfl⟩ := List.mem_map.mp member
    exact parts field inside)
  exact ⟨results, List.forall₂_map_left_iff.mp ran, collected, frame⟩

end

end TaggedRecords
