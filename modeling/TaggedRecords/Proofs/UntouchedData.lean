import TaggedRecords.Proofs.Positions
import TaggedRecords.Proofs.WritePlaces

/-!
# Untouched data

A write leaves every scalar alone that does not lie at or below its place, and every container there keeps its length
and its keys, also if the write fails on its way. A run writes only where transformations are bound, so however it
ends, all other data is what it was.
-/

namespace TaggedRecords

/-! ## One write -/

/-- The content stands in for another: a scalar for itself, a container for one with the same outline. -/
structure Data.Retains (kept content : Data) : Prop where
  outline : kept.outline = content.outline
  scalar : content.outline = .plain → kept = content

theorem Data.retains_refl (content : Data) : content.Retains content := ⟨rfl, fun _ => rfl⟩

theorem Data.Retains.trans {first second third : Data} (later : first.Retains second) (earlier : second.Retains third) :
    first.Retains third :=
  ⟨later.outline.trans earlier.outline, fun plain =>
    (later.scalar (earlier.outline.trans plain)).trans (earlier.scalar plain)⟩

section
variable {catalog : Catalog} {type target : FieldType}

/-- A scalar has no parts. -/
theorem part?_of_plain {data : Data} (plain : data.outline = .plain) (segment : Segment) :
    data.part? catalog type segment = none := by
  induction data using Data.layered generalizing type with
  | layer inner ih => exact ih plain
  | bare data bare =>
    cases data with
    | some inner => exact absurd rfl (bare inner)
    | sequence items => cases plain
    | mapping entries => cases plain
    | record recordType fields => cases plain
    | _ => rfl

/-- A write retains whatever stands neither at its path nor below it. -/
theorem writeAt_retains {data content : Data} {path place : List Segment} (outside : ¬ path <+: place)
    (found : data.position? catalog type place = some (target, content)) (value : Value) :
    ∃ kept, (data.writeAt catalog type path value).content.position? catalog type place = some (target, kept) ∧
      kept.Retains content := by
  induction path generalizing data type place with
  | nil => exact absurd List.nil_prefix outside
  | cons segment rest ih =>
    cases part : data.part? catalog type segment with
    | none =>
      obtain ⟨fault, write, -⟩ := writeAt_missed_segment part rest value
      rw [write]
      exact ⟨content, found, content.retains_refl⟩
    | some held =>
      obtain ⟨element, inner⟩ := held
      obtain ⟨put, puts⟩ := exists_putsBack part
      rw [puts.write]
      cases place with
      | nil =>
        -- The write passes here on its way to a part, so this is no scalar.
        cases found
        refine ⟨_, rfl, puts.outline _, fun plain => ?_⟩
        rw [part?_of_plain plain] at part
        cases part
      | cons next more =>
        by_cases same : next = segment
        · subst same
          rw [List.cons_prefix_cons, not_and] at outside
          rw [Data.position?_cons part] at found
          obtain ⟨kept, stands, retains⟩ := ih (outside rfl) found
          exact ⟨kept, (Data.position?_cons (puts.here _) more).trans stands, retains⟩
        · refine ⟨content, ?_, content.retains_refl⟩
          rw [← found]
          exact congrArg (Option.bind · fun found => found.2.position? catalog found.1 more)
            (puts.elsewhere _ next same)

end

/-! ## Runs -/

/-- What stands at a place of a record that is not to be touched is retained by another record. -/
def TypedRecord.RetainsOutside (catalog : Catalog) (kept record : TypedRecord) (touched : List Segment → Prop) : Prop :=
  kept.type = record.type ∧ ∀ place target content, ¬ touched place →
    record.toData.position? catalog (.record record.type) place = some (target, content) →
    ∃ left, kept.toData.position? catalog (.record record.type) place = some (target, left) ∧ left.Retains content

section
variable {catalog : Catalog} {registry : Registry} {touched : List Segment → Prop}

theorem TypedRecord.retainsOutside_refl (record : TypedRecord) : record.RetainsOutside catalog record touched :=
  ⟨rfl, fun _ _ content _ found => ⟨content, found, content.retains_refl⟩⟩

theorem TypedRecord.RetainsOutside.trans {first second third : TypedRecord}
    (later : first.RetainsOutside catalog second touched) (earlier : second.RetainsOutside catalog third touched) :
    first.RetainsOutside catalog third touched := by
  obtain ⟨sameType, retains⟩ := earlier
  obtain ⟨alsoSame, alsoRetains⟩ := later
  refine ⟨alsoSame.trans sameType, fun place target content apart found => ?_⟩
  obtain ⟨between, stands, first⟩ := retains place target content apart found
  obtain ⟨left, stays, second⟩ := alsoRetains place target between apart (sameType ▸ stands)
  exact ⟨left, sameType ▸ stays, second.trans first⟩

/-- A write to a record at a touched place retains all that is not touched. -/
theorem TypedRecord.writeAt_retains (record : TypedRecord) {path : List Segment} (here : touched path)
    (closed : ∀ above more, touched above → touched (above ++ more)) (value : Value) :
    (record.writeAt catalog path value).content.RetainsOutside catalog record touched := by
  refine ⟨rfl, fun place target content apart found => ?_⟩
  rw [toData_writeAt]
  refine TaggedRecords.writeAt_retains (fun inside => apart ?_) found value
  obtain ⟨more, rfl⟩ := inside
  exact closed path more here

/-- A run whose plan writes only at touched places leaves a record that retains the rest, however it ends. -/
theorem Plan.run_retains {α : Type} {plan : Plan α} (closed : ∀ above more, touched above → touched (above ++ more)) :
    ∀ {cache : MetadataCache} {record : TypedRecord}, cache.Faithful catalog registry →
      plan.WritesAt catalog registry touched →
      ∃ left, (plan.run catalog registry cache (some record)).record = some left ∧
        left.RetainsOutside catalog record touched := by
  induction plan with
  | done result => exact fun {_ record} _ _ => ⟨record, rfl, record.retainsOutside_refl⟩
  | fail fault => exact fun {_ record} _ _ => ⟨record, rfl, record.retainsOutside_refl⟩
  | describe type next ih =>
    intro cache record faithful writes
    obtain ⟨kept, keptFaithful, answer⟩ := MetadataCache.getOrBuild_cases faithful type
    rw [run, answer]
    cases built : RecordMetadata.build catalog registry type with
    | ok metadata => exact ih metadata keptFaithful (writes metadata built)
    | error fault => exact ⟨record, rfl, record.retainsOutside_refl⟩
  | note event next ih => exact fun faithful writes => ih faithful writes
  | write place value next ih =>
    intro cache record faithful writes
    have retains : (record.writeAt catalog place.segments value).content.RetainsOutside catalog record touched :=
      record.writeAt_retains writes.1 closed value
    rw [run]
    cases (record.writeAt catalog place.segments value).fault with
    | none =>
      obtain ⟨left, kept, alsoRetains⟩ := ih faithful writes.2
      exact ⟨left, kept, alsoRetains.trans retains⟩
    | some cause => exact ⟨_, rfl, retains⟩

end

namespace Engine

/-- However a run that writes back ends, the record that it leaves retains every scalar, and the length and the keys of
every container, that has no transformation bound on its own chain nor on that of a field or an element around it. -/
theorem validateMut_retains_untransformed (engine : Engine) {cache : MetadataCache} (context : Context)
    {options : Options} (record : TypedRecord) (writes : options.writesBack = true)
    (fits : record.Fits engine.catalog) (faithful : cache.Faithful engine.catalog engine.registry) :
    ∃ left, (engine.validateMut cache context options record).record = some left ∧
      left.RetainsOutside engine.catalog record (Changeable engine.catalog engine.registry record.type) := by
  have shows : (FieldType.record record.type).Shows engine.catalog (record.snapshot engine.catalog).toValue :=
    ⟨record.toData, ⟨rfl, fits⟩, rfl⟩
  have places : (engine.plan context options (record.snapshot engine.catalog)).WritesAt engine.catalog engine.registry
      (Changeable engine.catalog engine.registry record.type) :=
    writesAt_walkRecord (engine.setting context options) (engine.settings.maxDepth + 1) _ _ _ ⟨_, shows⟩
      fun path changeable => changeable
  unfold validateMut
  simp only [writes, if_true]
  exact Plan.run_retains (fun above more changeable => changeable.append more) faithful places

/-- Plots with a title, with remarks in upper case and with a corner that is moved out of reach. -/
def surveying : Engine where
  catalog := ⟨[
    ⟨"Plot", [⟨"title", "title", .string⟩, ⟨"remarks", "remarks,dive,uppercase", .sequence .string⟩,
      ⟨"corner", "corner,move", .record ⟨1, "Corner"⟩⟩]⟩,
    ⟨"Corner", [⟨"x", "x", .signed .w8⟩, ⟨"y", "y", .signed .w8⟩]⟩]⟩
  registry := Registry.withBuiltIns.putTransformation "move"
    ⟨fun _ _ _ => .ok (.record ⟨1, "Corner"⟩ [("x", .int 100), ("y", .int 200)]), false⟩ false
  settings := ⟨3⟩

/-- One with two remarks. -/
def plot : TypedRecord :=
  ⟨⟨0, "Plot"⟩, [.string "Field", .sequence [.string "dry", .string "flat"], .record ⟨1, "Corner"⟩ [.int 1, .int 2]]⟩

/-- Neither the title nor the remarks as a whole have a transformation on their chains. -/
theorem surveying_unchangeable (index : Nat) (beside : index ≠ 2) :
    ¬ Changeable surveying.catalog surveying.registry plot.type [.field index] := by
  have all : ∀ metadata ∈ (RecordMetadata.build surveying.catalog surveying.registry plot.type).toOption,
      ∀ field ∈ metadata.fields, field.index = 2 ∨ ∀ entry ∈ field.rules, entry.action.isTransform = false := by
    decide +kernel
  intro changeable
  cases changeable with
  | field built member transforms =>
    obtain ⟨entry, bound, transform⟩ := transforms
    rcases all _ (by rw [built]; rfl) _ member with here | none
    · exact beside here
    · rw [none entry bound] at transform
      cases transform
  | inField built member holds below => cases below

/-- The write of the corner fails at its second field: the first one stays written, as do the remarks in their new
spelling, the title is the same and there are still two remarks. -/
theorem surveying_retains_untransformed :
    (surveying.validateMut .empty {} { writesBack := true } plot).result.isOk = false ∧
    ∃ left, (surveying.validateMut .empty {} { writesBack := true } plot).record = some left ∧
      ((left.snapshot surveying.catalog).toValue == .record ⟨0, "Plot"⟩ [("title", .string "Field"),
        ("remarks", .sequence [.string "DRY", .string "FLAT"]),
        ("corner", .record ⟨1, "Corner"⟩ [("x", .int 100), ("y", .int 2)])]) = true ∧
      (∀ index, index ≠ 2 → ¬ Changeable surveying.catalog surveying.registry plot.type [.field index]) ∧
      left.RetainsOutside surveying.catalog plot (Changeable surveying.catalog surveying.registry plot.type) := by
  have stops : (surveying.validateMut .empty {} { writesBack := true } plot).result.isOk = false := by decide +kernel
  have shown : ((surveying.validateMut .empty {} { writesBack := true } plot).record.all fun left =>
      (left.snapshot surveying.catalog).toValue == .record ⟨0, "Plot"⟩ [("title", .string "Field"),
        ("remarks", .sequence [.string "DRY", .string "FLAT"]),
        ("corner", .record ⟨1, "Corner"⟩ [("x", .int 100), ("y", .int 2)])]) = true := by decide +kernel
  have fits : plot.Fits surveying.catalog := by
    simp [plot, TypedRecord.Fits, surveying, Catalog.fields, FieldsFit, FieldDecl.isHidden, FieldDecl.descriptor,
      FieldType.descriptor, Descriptor.unsupportedKind?, Data.Fits, FieldType.unboxed, ItemsFit, Width.bits]
  obtain ⟨left, kept, retains⟩ := validateMut_retains_untransformed surveying {} plot
    (show ({ writesBack := true } : Options).writesBack = true from rfl) fits (MetadataCache.faithful_empty _ _)
  rw [kept] at shown
  exact ⟨stops, left, kept, shown, surveying_unchangeable, retains⟩

end Engine

end TaggedRecords
