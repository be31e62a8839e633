import TaggedRecords.Traversal

/-!
# Laws of plans

What one entry of a chain can do, how plans behind one another unfold, which elements a field's plan visits, and that
the plan of a run does not look at whether the run writes.
-/

namespace TaggedRecords

namespace Plan
variable {α β γ : Type}

@[simp] theorem bind_done (result : α) (follow : α → Plan β) : (done result).bind follow = follow result := rfl

end Plan

/-! ## One entry of a chain -/

/-- The scope as the rule of an entry sees it. -/
def Scope.seenBy (scope : Scope) (entry : RuleEntry) : Scope :=
  { scope with rule := entry.name, param := entry.param }

/-- The scope with another value. -/
def Scope.holding (scope : Scope) (value : Value) : Scope := { scope with value := value }

/-- What an entry does, said of the scope as its rule sees it. -/
theorem runEntry_eq (setting : Setting) (nullable : Bool) (place : Place) (scope : Scope) (entry : RuleEntry) :
    runEntry setting nullable place scope entry =
      .note (.ran entry (scope.seenBy entry)) (match entry.action with
        | .validate rule =>
          match rule.check setting.context setting.options.transaction (scope.seenBy entry) with
          | .error fault => .fail fault
          | .ok true => .done (scope.seenBy entry)
          | .ok false => .fail (setting.registry.failure (scope.seenBy entry))
        | .transform rule =>
          match rule.apply setting.context setting.options.transaction (scope.seenBy entry) with
          | .error fault => .fail fault
          | .ok next =>
            if !(scope.seenBy entry).allows nullable next then
              .fail (.typeMismatch entry.name place.path (scope.seenBy entry).descriptor.text next.kind)
            else if next.same (scope.seenBy entry).value then .done (scope.seenBy entry)
            else .write place next (.done ((scope.seenBy entry).holding next))) := rfl

/-- An entry runs its rule and then fails, goes on with the value it found, or writes another one that a
transformation gave and the field allows. -/
theorem runEntry_cases (setting : Setting) (nullable : Bool) (place : Place) (scope : Scope) (entry : RuleEntry) :
    (∃ fault, runEntry setting nullable place scope entry = .note (.ran entry (scope.seenBy entry)) (.fail fault)) ∨
    runEntry setting nullable place scope entry =
      .note (.ran entry (scope.seenBy entry)) (.done (scope.seenBy entry)) ∨
    ∃ rule next, entry.action = .transform rule ∧
      rule.apply setting.context setting.options.transaction (scope.seenBy entry) = .ok next ∧
      (scope.seenBy entry).allows nullable next = true ∧
      runEntry setting nullable place scope entry =
        .note (.ran entry (scope.seenBy entry)) (.write place next (.done ((scope.seenBy entry).holding next))) := by
  rw [runEntry_eq]
  cases entry.action with
  | validate rule =>
    dsimp only
    split
    · exact .inl ⟨_, rfl⟩
    · exact .inr (.inl rfl)
    · exact .inl ⟨_, rfl⟩
  | transform rule =>
    dsimp only
    split
    · exact .inl ⟨_, rfl⟩
    · next value given =>
      cases allowed : (scope.seenBy entry).allows nullable value with
      | false => exact .inl ⟨_, rfl⟩
      | true =>
        by_cases unchanged : value.same (scope.seenBy entry).value = true
        · exact .inr (.inl (by simp [unchanged]))
        · exact .inr (.inr ⟨rule, value, rfl, given, allowed, by simp [unchanged]⟩)

/-- A chain does nothing where no entry of it applies. -/
theorem runChain_idle {setting : Setting} (nullable : Bool) (place : Place) {entries : List RuleEntry}
    (idle : ∀ entry ∈ entries, entry.appliesTo setting.options.method = false) (scope : Scope) :
    runChain setting nullable place scope entries = .done scope.value := by
  induction entries with
  | nil => rfl
  | cons entry rest ih =>
    obtain ⟨here, below⟩ := List.forall_mem_cons.mp idle
    rw [runChain, Setting.runs, here, Bool.false_and, if_neg Bool.false_ne_true]
    exact ih below

/-- What a chain does depends on the rules' context, the method and the transaction alone. -/
theorem runChain_congr {setting other : Setting} (registry : setting.registry = other.registry)
    (context : setting.context = other.context) (method : setting.options.method = other.options.method)
    (transaction : setting.options.transaction = other.options.transaction) (nullable : Bool) (place : Place)
    (scope : Scope) (entries : List RuleEntry) :
    runChain setting nullable place scope entries = runChain other nullable place scope entries := by
  induction entries generalizing scope with
  | nil => rfl
  | cons entry rest ih =>
    simp only [runChain, runEntry, Setting.runs, registry, context, method, transaction, ih]

/-! ## Elements of a field -/

/-- The elements that a field's dive visits are those of the field, under its rules for elements. -/
theorem FieldMetadata.dive?_eq_some {field : FieldMetadata} {dive : Dive} (dives : field.dive? = some dive) :
    field.element = some dive.element ∧ dive.rules = field.elementRules := by
  unfold dive? at dives
  split at dives
  · next element _ isElement =>
    cases dives
    exact ⟨isElement, rfl⟩
  · cases dives

/-- An element is visited by its chain, unless no rule runs there, and then emitted. -/
theorem walkElement_eq (setting : Setting) (nested : Nested) (owner : RecordValue) (dive : Dive) (validate : Bool)
    (place : Place) (name : String) (item : Value) :
    walkElement setting nested owner dive validate place name item =
      .note (.reached place item) ((if (validate && setting.options.validates place.path) = true then
          runChain setting dive.element.isOptional place
            ⟨owner, name, name, place.path, place.declaredPath, item, dive.element.dereferenced, "", none⟩ dive.rules
        else .done item).bind (emit nested (validate && setting.options.validates place.path) place)) := by
  unfold walkElement
  cases validate && setting.options.validates place.path <;> cases dive.rules <;> rfl

/-! ## The plan does not look at the writes -/

/-- The setting of a run that writes or does not. -/
def Setting.writing (setting : Setting) (writes : Bool) : Setting :=
  { setting with options := { setting.options with writesBack := writes } }

section
variable (setting : Setting) (writes : Bool)

theorem runChain_writing (nullable : Bool) (place : Place) (scope : Scope) (entries : List RuleEntry) :
    runChain (setting.writing writes) nullable place scope entries = runChain setting nullable place scope entries := by
  apply runChain_congr <;> rfl

theorem walkElement_writing (nested : Nested) (owner : RecordValue) (dive : Dive) (validate : Bool) (place : Place)
    (name : String) (item : Value) :
    walkElement (setting.writing writes) nested owner dive validate place name item =
      walkElement setting nested owner dive validate place name item := by
  simp only [walkElement, runChain_writing]
  rfl

theorem walkItems_writing (nested : Nested) (owner : RecordValue) (dive : Dive) (validate : Bool) (place : Place)
    (index : Nat) (items : List Value) :
    walkItems (setting.writing writes) nested owner dive validate place index items =
      walkItems setting nested owner dive validate place index items := by
  induction items generalizing index with
  | nil => rfl
  | cons item rest ih => simp only [walkItems, walkElement_writing, ih]

theorem walkEntries_writing (nested : Nested) (owner : RecordValue) (dive : Dive) (validate : Bool) (place : Place)
    (entries : List (String × Value)) :
    walkEntries (setting.writing writes) nested owner dive validate place entries =
      walkEntries setting nested owner dive validate place entries := by
  induction entries with
  | nil => rfl
  | cons entry rest ih => simp only [walkEntries, walkElement_writing, ih]

theorem finish_writing (nested : Nested) (owner : RecordValue) (dive : Option Dive) (validate : Bool) (place : Place)
    (value : Value) :
    finish (setting.writing writes) nested owner dive validate place value =
      finish setting nested owner dive validate place value := by
  simp only [finish, walkItems_writing, walkEntries_writing]

theorem walkField_writing (nested : Nested) (owner : RecordValue) (field : FieldMetadata) (validate : Bool)
    (place : Place) (value : Value) :
    walkField (setting.writing writes) nested owner field validate place value =
      walkField setting nested owner field validate place value := by
  have finishes : finish (setting.writing writes) nested owner field.dive? =
      finish setting nested owner field.dive? := by
    funext validate place value
    exact finish_writing setting writes nested owner field.dive? validate place value
  simp only [walkField, runChain_writing, finishes]
  rfl

theorem walkFields_writing (nested : Nested) (owner : RecordValue) (validate : Bool) (place : Place)
    (document : Document) (fields : List FieldMetadata) :
    walkFields (setting.writing writes) nested owner validate place document fields =
      walkFields setting nested owner validate place document fields := by
  induction fields generalizing document with
  | nil => rfl
  | cons field rest ih => simp only [walkFields, walkField_writing, ih]

/-- Whether the run writes is nothing that its plan depends on. -/
theorem walkRecord_writing (room : Nat) :
    walkRecord (setting.writing writes) room = walkRecord setting room := by
  induction room with
  | zero => rfl
  | succ room ih =>
    funext record place validate
    simp only [walkRecord, ih, walkFields_writing]

end

end TaggedRecords
