import Mathlib.Data.List.Dedup
import TaggedRecords.Proofs.FaithfulCache

/-!
# Histories of the cache

What a cache holds after any calls are the types among them whose metadata could be built, each with what building
gives. So every call is answered as if it built, and a run does not show what was asked of the engine before.
-/

namespace TaggedRecords

namespace MetadataCache
variable (catalog : Catalog) (registry : Registry)

/-! ## Calls on one cache -/

/-- The cache after calls for the metadata of types. -/
def after (cache : MetadataCache) (calls : List RecordType) : MetadataCache :=
  calls.foldl (fun cache type => (cache.getOrBuild catalog registry type).2) cache

/-- What the calls are answered, in order. -/
def answers : MetadataCache → List RecordType → List (Except Fault RecordMetadata)
  | _, [] => []
  | cache, type :: rest =>
    (cache.getOrBuild catalog registry type).1 :: answers (cache.getOrBuild catalog registry type).2 rest

/-- The types that the cache holds. -/
def types (cache : MetadataCache) : List RecordType := cache.entries.map Prod.fst

variable {catalog registry} {cache : MetadataCache}

theorem after_append (calls more : List RecordType) :
    cache.after catalog registry (calls ++ more) = (cache.after catalog registry calls).after catalog registry more :=
  List.foldl_append

theorem mem_types_iff {type : RecordType} : type ∈ cache.types ↔ ∃ metadata, cache.get? type = some metadata := by
  unfold types get?
  induction cache.entries with
  | nil => simp
  | cons entry rest ih =>
    obtain ⟨held, metadata⟩ := entry
    by_cases same : type = held
    · simp [same]
    · have differs : (type == held) = false := by simpa using same
      simp only [List.map_cons, List.mem_cons, same, false_or, List.lookup_cons, differs, ih]

/-! ## One call -/

/-- A call stores what it built for a type that was not held; whatever else is held stays. -/
theorem get?_getOrBuild (asked type : RecordType) :
    ((cache.getOrBuild catalog registry asked).2).get? type =
      (cache.get? type).or
        (if type = asked then (RecordMetadata.build catalog registry type).toOption else none) := by
  unfold getOrBuild
  cases held : cache.get? asked with
  | some metadata =>
    by_cases same : type = asked
    · rw [same, held, Option.some_or]
    · rw [if_neg same, Option.or_none]
  | none =>
    cases built : RecordMetadata.build catalog registry asked with
    | ok metadata =>
      by_cases same : type = asked
      · subst same
        simp [get?, built, show cache.entries.lookup type = none from held, Except.toOption]
      · have differs : (type == asked) = false := by simpa using same
        simp [get?, List.lookup_cons, differs, same]
    | error fault =>
      by_cases same : type = asked
      · subst same
        simp [held, built, Except.toOption]
      · rw [if_neg same, Option.or_none]

/-- No type is stored twice. -/
theorem nodup_getOrBuild (distinct : cache.types.Nodup) (asked : RecordType) :
    ((cache.getOrBuild catalog registry asked).2).types.Nodup := by
  unfold getOrBuild
  cases held : cache.get? asked with
  | some metadata => exact distinct
  | none =>
    cases RecordMetadata.build catalog registry asked with
    | ok metadata =>
      have fresh : asked ∉ cache.types := by
        intro member
        obtain ⟨found, kept⟩ := mem_types_iff.mp member
        rw [held] at kept
        cases kept
      exact List.nodup_cons.mpr ⟨fresh, distinct⟩
    | error fault => exact distinct

/-! ## Any calls -/

/-- The calls add the types among them that can be built, and leave what was held. -/
theorem get?_after (calls : List RecordType) (type : RecordType) :
    (cache.after catalog registry calls).get? type =
      (cache.get? type).or
        (if type ∈ calls then (RecordMetadata.build catalog registry type).toOption else none) := by
  induction calls generalizing cache with
  | nil => simp [after]
  | cons asked rest ih =>
    have step : cache.after catalog registry (asked :: rest) =
        ((cache.getOrBuild catalog registry asked).2).after catalog registry rest := rfl
    rw [step, ih, get?_getOrBuild, Option.or_assoc]
    by_cases here : type = asked
    · subst here
      by_cases later : type ∈ rest <;> simp [later]
    · simp [here]

theorem faithful_after (faithful : cache.Faithful catalog registry) (calls : List RecordType) :
    (cache.after catalog registry calls).Faithful catalog registry := by
  induction calls generalizing cache with
  | nil => exact faithful
  | cons asked rest ih => exact ih (getOrBuild_of_faithful faithful asked).2

theorem nodup_after (distinct : cache.types.Nodup) (calls : List RecordType) :
    (cache.after catalog registry calls).types.Nodup := by
  induction calls generalizing cache with
  | nil => exact distinct
  | cons asked rest ih => exact ih (nodup_getOrBuild distinct asked)

/-- Every call is answered as if it built. -/
theorem answers_eq (faithful : cache.Faithful catalog registry) (calls : List RecordType) :
    cache.answers catalog registry calls = calls.map (RecordMetadata.build catalog registry) := by
  induction calls generalizing cache with
  | nil => rfl
  | cons asked rest ih =>
    obtain ⟨answer, kept⟩ := getOrBuild_of_faithful faithful asked
    rw [answers, answer, ih kept, List.map_cons]

/-- How many types the cache holds after calls: those among them that can be built, each counted once. -/
theorem size_after_empty (calls : List RecordType) :
    (empty.after catalog registry calls).size =
      (calls.filter fun type => (RecordMetadata.build catalog registry type).isOk).dedup.length := by
  have none : empty.types.Nodup := List.nodup_nil
  have distinct : (empty.after catalog registry calls).types.Nodup := nodup_after none calls
  have members (type : RecordType) : type ∈ (empty.after catalog registry calls).types ↔
      type ∈ (calls.filter fun type => (RecordMetadata.build catalog registry type).isOk).dedup := by
    rw [mem_types_iff, get?_after, List.mem_dedup, List.mem_filter]
    by_cases called : type ∈ calls <;> cases RecordMetadata.build catalog registry type <;>
      simp [called, empty, get?, Except.toOption, Except.isOk, Except.toBool]
  have perm := (List.perm_ext_iff_of_nodup distinct (List.nodup_dedup _)).mpr members
  rw [← perm.length_eq, types, List.length_map, size]

end MetadataCache

/-! ## Runs behind any calls -/

/-- The runs differ in the caches that they leave, if at all. -/
def Run.Matches {α : Type} (run other : Run α) : Prop :=
  run.result = other.result ∧ run.events = other.events ∧ run.record = other.record

/-- What a run does and comes to does not show which faithful cache it started from. -/
theorem Plan.run_matches {α : Type} {catalog : Catalog} {registry : Registry} (plan : Plan α) :
    ∀ {first second : MetadataCache} (record : Option TypedRecord), first.Faithful catalog registry →
      second.Faithful catalog registry →
      (plan.run catalog registry first record).Matches (plan.run catalog registry second record) := by
  induction plan with
  | done result => exact fun _ _ _ => ⟨rfl, rfl, rfl⟩
  | fail fault => exact fun _ _ _ => ⟨rfl, rfl, rfl⟩
  | describe type next ih =>
    intro first second record faithful alsoFaithful
    obtain ⟨kept, keptFaithful, answer⟩ := MetadataCache.getOrBuild_cases faithful type
    obtain ⟨also, alsoKept, same⟩ := MetadataCache.getOrBuild_cases alsoFaithful type
    rw [Plan.run, Plan.run, answer, same]
    cases RecordMetadata.build catalog registry type with
    | ok metadata => exact ih metadata record keptFaithful alsoKept
    | error fault => exact ⟨rfl, rfl, rfl⟩
  | note event next ih =>
    intro first second record faithful alsoFaithful
    obtain ⟨result, events, left⟩ := ih record faithful alsoFaithful
    exact ⟨result, congrArg (event :: ·) events, left⟩
  | write place value next ih =>
    intro first second record faithful alsoFaithful
    cases record with
    | none => exact ih none faithful alsoFaithful
    | some record =>
      rw [Plan.run, Plan.run]
      cases (record.writeAt catalog place.segments value).fault with
      | none => exact ih _ faithful alsoFaithful
      | some cause => exact ⟨rfl, rfl, rfl⟩

namespace Engine
variable (engine : Engine)

/-- What may be asked of an engine, with the result thrown away. -/
inductive Call where
  | validate (context : Context) (options : Options) (record : TypedRecord)
  | validateMut (context : Context) (options : Options) (record : TypedRecord)
  | metadata (type : RecordType)

/-- The cache that a call leaves. -/
def call (cache : MetadataCache) : Call → MetadataCache
  | .validate context options record => (engine.validate cache context options record).cache
  | .validateMut context options record => (engine.validateMut cache context options record).cache
  | .metadata type => (engine.metadata cache type).2

/-- The cache of a new engine after calls. -/
def cacheAfter (history : List Call) : MetadataCache := history.foldl engine.call .empty

theorem faithful_call {cache : MetadataCache} (faithful : cache.Faithful engine.catalog engine.registry)
    (call : Call) : (engine.call cache call).Faithful engine.catalog engine.registry := by
  cases call with
  | validate context options record =>
    show (engine.validateSnapshot cache context options (record.snapshot engine.catalog)).cache.Faithful _ _
    unfold validateSnapshot
    split
    · exact faithful
    · exact Plan.faithful_run _ faithful
  | validateMut context options record => exact Plan.faithful_run _ faithful
  | metadata type => exact (MetadataCache.getOrBuild_of_faithful faithful type).2

theorem faithful_cacheAfter (history : List Call) :
    (engine.cacheAfter history).Faithful engine.catalog engine.registry := by
  suffices anyStart : ∀ cache : MetadataCache, cache.Faithful engine.catalog engine.registry →
      (history.foldl engine.call cache).Faithful engine.catalog engine.registry from
    anyStart _ (MetadataCache.faithful_empty _ _)
  induction history with
  | nil => exact fun _ faithful => faithful
  | cons first rest ih => exact fun cache faithful => ih _ (engine.faithful_call faithful first)

/-- Calls on a new cache are answered as if each built, and leave in it exactly the types among them that can be
built, each with what building gives, for good; a call that fails leaves the cache as it was. And whatever was asked
of an engine before, its runs do and come to what those of a new engine do. -/
theorem cache_transparent (calls : List RecordType) (history : List Call) (context : Context) (options : Options)
    (record : TypedRecord) :
    MetadataCache.empty.answers engine.catalog engine.registry calls =
        calls.map (RecordMetadata.build engine.catalog engine.registry) ∧
    (∀ type metadata, (MetadataCache.empty.after engine.catalog engine.registry calls).get? type = some metadata ↔
      type ∈ calls ∧ RecordMetadata.build engine.catalog engine.registry type = .ok metadata) ∧
    (MetadataCache.empty.after engine.catalog engine.registry calls).size =
      (calls.filter fun type => (RecordMetadata.build engine.catalog engine.registry type).isOk).dedup.length ∧
    (∀ more type metadata,
      (MetadataCache.empty.after engine.catalog engine.registry calls).get? type = some metadata →
      (MetadataCache.empty.after engine.catalog engine.registry (calls ++ more)).get? type = some metadata) ∧
    (∀ type fault, RecordMetadata.build engine.catalog engine.registry type = .error fault →
      MetadataCache.empty.after engine.catalog engine.registry (calls ++ [type]) =
        MetadataCache.empty.after engine.catalog engine.registry calls) ∧
    (engine.validate (engine.cacheAfter history) context options record).Matches
      (engine.validate .empty context options record) ∧
    (engine.validateMut (engine.cacheAfter history) context options record).Matches
      (engine.validateMut .empty context options record) := by
  have fresh := MetadataCache.faithful_empty engine.catalog engine.registry
  have earlier := engine.faithful_cacheAfter history
  refine ⟨MetadataCache.answers_eq fresh calls, fun type metadata => ?_, MetadataCache.size_after_empty calls, ?_, ?_,
    ?_, ?_⟩
  · rw [MetadataCache.get?_after]
    by_cases called : type ∈ calls <;> cases RecordMetadata.build engine.catalog engine.registry type <;>
      simp [called, MetadataCache.empty, MetadataCache.get?, Except.toOption]
  · intro more type metadata held
    rw [MetadataCache.after_append, MetadataCache.get?_after, held, Option.some_or]
  · intro type fault fails
    rw [MetadataCache.after_append]
    exact MetadataCache.getOrBuild_of_fault (MetadataCache.faithful_after fresh calls) fails
  · unfold validate validateSnapshot
    split
    · exact ⟨rfl, rfl, rfl⟩
    · exact Plan.run_matches _ none earlier fresh
  · exact Plan.run_matches _ _ earlier fresh

/-- Notes, and drafts whose tag names no rule. -/
def drafting : Engine where
  catalog := ⟨[⟨"Note", [⟨"text", "text,required", .string⟩]⟩, ⟨"Draft", [⟨"text", "text,spelled", .string⟩]⟩]⟩
  registry := Registry.withBuiltIns
  settings := ⟨3⟩

/-- A draft is asked for before and between notes: it is never held, the notes stay, and a run does not see it. -/
theorem drafting_cache_transparent :
    (∃ fault, RecordMetadata.build drafting.catalog drafting.registry ⟨1, "Draft"⟩ = .error fault) ∧
    (∃ metadata, (MetadataCache.empty.after drafting.catalog drafting.registry
        [⟨1, "Draft"⟩, ⟨0, "Note"⟩, ⟨1, "Draft"⟩]).get? ⟨0, "Note"⟩ = some metadata ∧
      (MetadataCache.empty.after drafting.catalog drafting.registry
        ([⟨1, "Draft"⟩, ⟨0, "Note"⟩, ⟨1, "Draft"⟩] ++ [⟨1, "Draft"⟩, ⟨0, "Note"⟩])).get? ⟨0, "Note"⟩ =
          some metadata) ∧
    MetadataCache.empty.after drafting.catalog drafting.registry
        ([⟨1, "Draft"⟩, ⟨0, "Note"⟩, ⟨1, "Draft"⟩] ++ [⟨1, "Draft"⟩]) =
      MetadataCache.empty.after drafting.catalog drafting.registry [⟨1, "Draft"⟩, ⟨0, "Note"⟩, ⟨1, "Draft"⟩] ∧
    (drafting.validate (drafting.cacheAfter [.validate {} {} ⟨⟨1, "Draft"⟩, [.string "a"]⟩, .metadata ⟨0, "Note"⟩]) {}
        {} ⟨⟨0, "Note"⟩, [.string ""]⟩).Matches
      (drafting.validate .empty {} {} ⟨⟨0, "Note"⟩, [.string ""]⟩) := by
  have faulty : (RecordMetadata.build drafting.catalog drafting.registry ⟨1, "Draft"⟩).isOk = false := by
    decide +kernel
  have fine : (RecordMetadata.build drafting.catalog drafting.registry ⟨0, "Note"⟩).isOk = true := by decide +kernel
  obtain ⟨-, held, -, stays, refused, matched, -⟩ := drafting.cache_transparent
    [⟨1, "Draft"⟩, ⟨0, "Note"⟩, ⟨1, "Draft"⟩]
    [.validate {} {} ⟨⟨1, "Draft"⟩, [.string "a"]⟩, .metadata ⟨0, "Note"⟩] {} {} ⟨⟨0, "Note"⟩, [.string ""]⟩
  cases failed : RecordMetadata.build drafting.catalog drafting.registry ⟨1, "Draft"⟩ with
  | ok metadata => rw [failed] at faulty; cases faulty
  | error fault =>
    cases built : RecordMetadata.build drafting.catalog drafting.registry ⟨0, "Note"⟩ with
    | error other => rw [built] at fine; cases fine
    | ok metadata =>
      have kept := (held ⟨0, "Note"⟩ metadata).mpr ⟨by decide, built⟩
      exact ⟨⟨fault, rfl⟩, ⟨metadata, kept, stays _ _ _ kept⟩, refused _ fault failed, matched⟩

end Engine

end TaggedRecords
