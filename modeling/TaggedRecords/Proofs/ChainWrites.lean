import TaggedRecords.Proofs.BoundRules
import TaggedRecords.Proofs.PartRuns

/-!
# What a chain writes

A chain of rules on a field without records leaves content that denotes the value it ends with: each changed value
is legal for the field, and a legal value that can be written becomes content that denotes it.
-/

namespace TaggedRecords

/-! ## Proper rules -/

/-- The values a rule sees are proper. -/
def Scope.Proper (scope : Scope) : Prop := EntriesProper scope.owner.fields ∧ scope.value.Proper

/-- Whatever the transformation gives on proper values is proper: no mapping can have a key twice. -/
def Transformation.Proper (rule : Transformation) : Prop :=
  ∀ context transaction scope value, scope.Proper → rule.apply context transaction scope = .ok value → value.Proper

/-- All registered transformations are proper. -/
def Registry.Proper (registry : Registry) : Prop :=
  ∀ name rule, registry.transformation? name = some rule → rule.Proper

/-- An entry whose rule, if it is a transformation, is proper. -/
def RuleEntry.Proper (entry : RuleEntry) : Prop := ∀ rule, entry.action = .transform rule → rule.Proper

theorem proper_empty : Registry.empty.Proper := nofun

theorem proper_putValidation {registry : Registry} (proper : registry.Proper) (name : String) (rule : Validation)
    (builtIn : Bool) : (registry.putValidation name rule builtIn).Proper := proper

theorem proper_putTransformation {registry : Registry} (proper : registry.Proper) (name : String)
    {rule : Transformation} (properRule : rule.Proper) (builtIn : Bool) :
    (registry.putTransformation name rule builtIn).Proper := by
  intro other found held
  simp only [Registry.putTransformation, Registry.transformation?, Entries.get?_insert] at held
  split at held
  · cases held
    exact properRule
  · exact proper other found held

theorem proper_of_registered {registry : Registry} (proper : registry.Proper) {entries : List RuleEntry}
    (registered : ∀ entry ∈ entries, entry.action.Registered registry) : ∀ entry ∈ entries, entry.Proper := by
  intro entry member rule transforms
  have found := registered entry member
  rw [transforms] at found
  obtain ⟨name, bound⟩ := found
  exact proper name rule bound

/-! ## Legal values -/

theorem Descriptor.admits_null {d : Descriptor} (optional : d.isOptional = true) : d.admits .null = true := by
  cases d with
  | optional inner => rfl
  | _ => cases optional

theorem Descriptor.admits_of_dereferenced {d : Descriptor} {value : Value}
    (admitted : d.dereferenced.admits value = true) : d.admits value = true := by
  induction d with
  | optional inner ih =>
    by_cases null : value = .null
    · rw [null]
      rfl
    · rw [Descriptor.admits_optional inner null]
      exact ih admitted
  | _ => exact admitted

/-- What may be returned for a field is legal for it. -/
theorem admits_of_allows {d : Descriptor} {scope : Scope} {value : Value} (shape : scope.descriptor = d.dereferenced)
    (allowed : scope.allows d.isOptional value = true) : d.admits value = true := by
  unfold Scope.allows at allowed
  rcases Bool.or_eq_true_iff.mp allowed with null | admitted
  · obtain ⟨optional, absent⟩ := Bool.and_eq_true_iff.mp null
    cases value with
    | null => exact Descriptor.admits_null optional
    | _ => cases absent
  · rw [shape] at admitted
    exact Descriptor.admits_of_dereferenced admitted

/-! ## Writing a whole field -/

section
variable {catalog : Catalog}

theorem FieldType.descriptor_unboxed (type : FieldType) : type.unboxed.descriptor = type.descriptor := by
  induction type with
  | boxed inner ih => exact ih
  | _ => rfl

/-- What replaces a content is what was read from the value. -/
theorem replaced_passes {type : FieldType} {old : Data} {value : Value}
    (passes : (replaced type old value).fault = none) :
    ∃ content, type.ofValue value = .ok content ∧ replaced type old value = .done content := by
  unfold replaced at passes ⊢
  cases read : type.ofValue value with
  | error fault => rw [read] at passes; cases passes
  | ok content => exact ⟨content, rfl, rfl⟩

theorem denotes_of_replaced {type : FieldType} {old : Data} {value : Value} (converts : type.Converts catalog)
    (admitted : type.descriptor.admits value = true) (proper : value.Proper)
    (passes : (replaced type old value).fault = none) :
    (replaced type old value).content.Denotes catalog type value := by
  obtain ⟨content, read, done⟩ := replaced_passes passes
  rw [done]
  exact converts value content admitted proper read

theorem Value.isNull_of_ne {value : Value} (present : value ≠ .null) : value.isNull = false := by
  cases value <;> first | rfl | exact absurd rfl present

/-- A value that is not null is written over the content inside an optional layer. -/
theorem Data.writeAt_layer {type under : FieldType} (layer : type.unboxed = .optional under) {value : Value}
    (present : value ≠ .null) (inner : Data) :
    (Data.some inner).writeAt catalog type [] value = (inner.writeAt catalog under [] value).map .some := by
  simp [Data.writeAt, Value.isNull_of_ne present, layer, FieldType.optionInner]

/-- Where there is no content inside, it is read from the value. -/
theorem Data.writeAt_absent_passes {type under : FieldType} (layer : type.unboxed = .optional under) {value : Value}
    (present : value ≠ .null) (passes : (Data.none.writeAt catalog type [] value).fault = .none) :
    ∃ content, under.ofValue value = .ok content ∧
      Data.none.writeAt catalog type [] value = .done (.some content) := by
  simp only [Data.writeAt, Value.isNull_of_ne present, layer, FieldType.optionInner, Bool.false_eq_true, if_false]
    at passes ⊢
  cases read : under.ofValue value with
  | error fault => rw [read] at passes; cases passes
  | ok content => exact ⟨content, rfl, rfl⟩

/-- Null takes the content of an optional field away; what is under the layer decides on every other value. -/
theorem denotes_of_layer {type under : FieldType} {data : Data} {value : Value} (layer : type.unboxed = .optional under)
    (admitted : type.descriptor.admits value = true)
    (null : value = .null → data = .none)
    (other : value ≠ .null → under.descriptor.admits value = true →
      ∃ inner, data = .some inner ∧ inner.Denotes catalog under value) : data.Denotes catalog type value := by
  rw [← type.descriptor_unboxed, layer, FieldType.descriptor] at admitted
  by_cases absent : value = .null
  · rw [null absent, absent]
    exact ⟨⟨under, layer⟩, Value.alike_refl _⟩
  · rw [Descriptor.admits_optional under.descriptor absent] at admitted
    obtain ⟨inner, rfl, fits, alike⟩ := other absent admitted
    exact ⟨⟨under, layer, fits⟩, alike⟩

/-- A legal value written over the content of a field is what the field then denotes. -/
theorem denotes_of_writeAt {data : Data} {type : FieldType} {value : Value} (fits : data.Fits catalog type)
    (plain : type.descriptor.holdsRecord = false) (precise : type.core ≠ .single)
    (admitted : type.descriptor.admits value = true) (proper : value.Proper)
    (passes : (data.writeAt catalog type [] value).fault = none) :
    (data.writeAt catalog type [] value).content.Denotes catalog type value := by
  have converts := type.converts catalog plain precise
  induction data using Data.layered generalizing type with
  | layer inner ih =>
    obtain ⟨under, layer, fits⟩ := fits
    have plainUnder : under.descriptor.holdsRecord = false := by
      rwa [← type.descriptor_unboxed, layer] at plain
    have preciseUnder : under.core ≠ .single := by
      rwa [← type.core_unboxed, layer] at precise
    refine denotes_of_layer layer admitted ?_ ?_
    · rintro rfl
      rfl
    · intro present admits
      rw [Data.writeAt_layer layer present] at passes ⊢
      exact ⟨_, rfl, ih fits plainUnder preciseUnder admits passes (under.converts catalog plainUnder preciseUnder)⟩
  | bare data bare =>
    cases data with
    | some inner => exact absurd rfl (bare inner)
    | none =>
      obtain ⟨under, layer⟩ := fits
      have plainUnder : under.descriptor.holdsRecord = false := by
        rwa [← type.descriptor_unboxed, layer] at plain
      have preciseUnder : under.core ≠ .single := by
        rwa [← type.core_unboxed, layer] at precise
      refine denotes_of_layer layer admitted ?_ ?_
      · rintro rfl
        rfl
      · intro present admits
        obtain ⟨content, read, done⟩ := Data.writeAt_absent_passes layer present passes
        rw [done]
        exact ⟨content, rfl, under.converts catalog plainUnder preciseUnder value content admits proper read⟩
    | record held fields =>
      rw [← type.descriptor_unboxed, fits.1] at plain
      cases plain
    | hidden => exact fits.elim
    | _ => exact denotes_of_replaced converts admitted proper passes

/-! ## Chains -/

variable {registry : Registry} {Holds : RecordMetadata → Prop}

/-- One entry hands on a scope that the content it leaves keeps step with. -/
theorem denotes_of_runEntry {setting : Setting} {type : FieldType} {place : Place} {entry : RuleEntry}
    {scope next : Scope} {data after : Data} (precise : type.core ≠ .single) (properRule : entry.Proper)
    (plain : entry.action.isTransform = true → type.descriptor.holdsRecord = false)
    (shape : scope.descriptor = type.descriptor.dereferenced) (owner : EntriesProper scope.owner.fields)
    (denotes : data.Denotes catalog type scope.value)
    (leaves : (runEntry setting type.descriptor.isOptional place scope entry).Leaves catalog registry Holds type
      place.segments data next after) :
    after.Denotes catalog type next.value ∧ next.descriptor = scope.descriptor ∧ next.owner = scope.owner := by
  rcases runEntry_cases setting type.descriptor.isOptional place scope entry with
    ⟨fault, eq⟩ | eq | ⟨rule, value, action, given, allowed, eq⟩
  · rw [eq] at leaves
    cases leaves with
    | note below => cases below
  · rw [eq] at leaves
    cases leaves with
    | note below =>
      cases below
      exact ⟨denotes, rfl, rfl⟩
  · rw [eq] at leaves
    cases leaves with
    | note below =>
      cases below with
      | @write _ _ _ _ _ _ path inside passes below =>
        cases below
        have whole : path = [] := List.append_right_eq_self.mp inside.symm
        subst whole
        have seen : (scope.seenBy entry).Proper := ⟨owner, denotes.proper⟩
        have proper : value.Proper := properRule rule action _ _ _ _ seen given
        have transforms : entry.action.isTransform = true := by
          rw [action]
          rfl
        have admitted : type.descriptor.admits value = true := admits_of_allows shape allowed
        exact ⟨denotes_of_writeAt denotes.1 (plain transforms) precise admitted proper passes, rfl, rfl⟩

/-- A chain leaves content that denotes the value it ends with, provided that no transformation runs on a field with
records in it. -/
theorem denotes_of_runChain {setting : Setting} {type : FieldType} {place : Place} {entries : List RuleEntry}
    (precise : type.core ≠ .single) (properRules : ∀ entry ∈ entries, entry.Proper)
    (plain : (∃ entry ∈ entries, entry.action.isTransform = true) → type.descriptor.holdsRecord = false)
    {scope : Scope} {data after : Data} {value : Value} (shape : scope.descriptor = type.descriptor.dereferenced)
    (owner : EntriesProper scope.owner.fields) (denotes : data.Denotes catalog type scope.value)
    (leaves : (runChain setting type.descriptor.isOptional place scope entries).Leaves catalog registry Holds type
      place.segments data value after) :
    after.Denotes catalog type value := by
  induction entries generalizing scope data with
  | nil =>
    cases leaves
    exact denotes
  | cons entry rest ih =>
    have otherRules : ∀ other ∈ rest, other.Proper :=
      fun other member => properRules other (List.mem_cons_of_mem _ member)
    have othersPlain : (∃ other ∈ rest, other.action.isTransform = true) → type.descriptor.holdsRecord = false :=
      fun ⟨other, member, transforms⟩ => plain ⟨other, List.mem_cons_of_mem _ member, transforms⟩
    have plainHere : entry.action.isTransform = true → type.descriptor.holdsRecord = false :=
      fun transforms => plain ⟨entry, List.mem_cons_self, transforms⟩
    rw [runChain] at leaves
    split at leaves
    · obtain ⟨next, between, first, leaves⟩ := leaves.of_bind
      obtain ⟨still, sameShape, sameOwner⟩ :=
        denotes_of_runEntry precise (properRules entry List.mem_cons_self) plainHere shape owner denotes first
      exact ih otherRules othersPlain (sameShape.trans shape) (sameOwner ▸ owner) still leaves
    · exact ih otherRules othersPlain shape owner denotes leaves

end

end TaggedRecords
