import TaggedRecords.Engine

/-!
# Faithful caches

A cache is faithful if it keeps for each type the metadata that building it anew would give. The empty cache is,
and every run leaves a faithful cache behind, so what a run asks for does not depend on the runs before it.
-/

namespace TaggedRecords

/-- What the cache keeps for a type is what building its metadata gives. -/
def MetadataCache.Faithful (cache : MetadataCache) (catalog : Catalog) (registry : Registry) : Prop :=
  ∀ type metadata, cache.get? type = some metadata → RecordMetadata.build catalog registry type = .ok metadata

namespace MetadataCache
variable {catalog : Catalog} {registry : Registry} {cache : MetadataCache}

theorem faithful_empty (catalog : Catalog) (registry : Registry) : empty.Faithful catalog registry := by
  intro type metadata kept
  cases kept

/-- A faithful cache answers as if it built, and stays faithful. -/
theorem getOrBuild_of_faithful (faithful : cache.Faithful catalog registry) (type : RecordType) :
    (cache.getOrBuild catalog registry type).1 = RecordMetadata.build catalog registry type ∧
      (cache.getOrBuild catalog registry type).2.Faithful catalog registry := by
  unfold getOrBuild
  cases kept : cache.get? type with
  | some metadata => exact ⟨(faithful type metadata kept).symm, faithful⟩
  | none =>
    cases built : RecordMetadata.build catalog registry type with
    | error fault => exact ⟨rfl, faithful⟩
    | ok metadata =>
      refine ⟨rfl, fun other found held => ?_⟩
      by_cases same : other = type
      · subst same
        simp [get?] at held
        rw [built, held]
      · have differs : (other == type) = false := by simpa using same
        have earlier : cache.get? other = some found := by
          simpa [get?, List.lookup_cons, differs] using held
        exact faithful other found earlier

/-- The answer for a type, with the cache kept behind it. -/
theorem getOrBuild_cases (faithful : cache.Faithful catalog registry) (type : RecordType) :
    ∃ kept : MetadataCache, kept.Faithful catalog registry ∧
      cache.getOrBuild catalog registry type = (RecordMetadata.build catalog registry type, kept) := by
  obtain ⟨answer, kept⟩ := getOrBuild_of_faithful faithful type
  exact ⟨_, kept, Prod.ext answer rfl⟩

/-- A type that cannot be built leaves the cache as it is. -/
theorem getOrBuild_of_fault {type : RecordType} {fault : Fault} (faithful : cache.Faithful catalog registry)
    (fails : RecordMetadata.build catalog registry type = .error fault) :
    (cache.getOrBuild catalog registry type).2 = cache := by
  unfold getOrBuild
  cases held : cache.get? type with
  | some metadata => cases fails.symm.trans (faithful type metadata held)
  | none => simp only [fails]

/-- Nothing is kept anew but the type that was asked for. -/
theorem kept_of_getOrBuild {asked type : RecordType}
    (present : (((cache.getOrBuild catalog registry asked).2).get? type).isSome = true) :
    (cache.get? type).isSome = true ∨ type = asked := by
  unfold getOrBuild at present
  split at present
  · exact .inl present
  · split at present
    · by_cases same : type = asked
      · exact .inr same
      · have differs : (type == asked) = false := by simpa using same
        simp only [get?, List.lookup_cons, differs] at present
        exact .inl present
    · exact .inl present

end MetadataCache

/-- Every run leaves a faithful cache. -/
theorem Plan.faithful_run {α : Type} {catalog : Catalog} {registry : Registry} (plan : Plan α) :
    ∀ {cache : MetadataCache} {record : Option TypedRecord}, cache.Faithful catalog registry →
      (plan.run catalog registry cache record).cache.Faithful catalog registry := by
  induction plan with
  | done result => exact fun faithful => faithful
  | fail fault => exact fun faithful => faithful
  | describe type next ih =>
    intro cache record faithful
    obtain ⟨kept, keptFaithful, answer⟩ := MetadataCache.getOrBuild_cases faithful type
    rw [Plan.run, answer]
    cases RecordMetadata.build catalog registry type with
    | ok metadata => exact ih metadata keptFaithful
    | error fault => exact keptFaithful
  | note event next ih => exact fun faithful => ih faithful
  | write place value next ih =>
    intro cache record faithful
    cases record with
    | none => exact ih faithful
    | some record =>
      rw [Plan.run]
      split
      · exact ih faithful
      · exact faithful

end TaggedRecords
