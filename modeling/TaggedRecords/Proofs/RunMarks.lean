import TaggedRecords.Proofs.FaithfulCache

/-!
# Marks of runs

A run as a relation between its plan, the marks it leaves and what it comes to: which metadata it asks for, which
events it notes, and the fault that ends it, be it a write that the record refuses. Every run is one of these.
-/

namespace TaggedRecords

/-- A step that leaves a mark: the metadata of a type is asked for, or an event is noted. -/
inductive Mark where
  | asked (type : RecordType)
  | noted (event : Event)

/-- The event that the mark notes. -/
def Mark.event? : Mark → Option Event
  | asked _ => none
  | noted event => some event

/-- The fault that the result is, if it is one. -/
def faultOf? {α : Type} : Except Fault α → Option Fault
  | .ok _ => none
  | .error fault => some fault

theorem eq_error_iff_faultOf? {α : Type} {result : Except Fault α} {fault : Fault} :
    result = .error fault ↔ faultOf? result = some fault := by
  cases result <;> simp [faultOf?]

/-- The plan leaves the marks and comes to the result; a run that writes may be refused by the record. -/
inductive Plan.Comes (catalog : Catalog) (registry : Registry) (writes : Bool) {α : Type} :
    Plan α → List Mark → Except Fault α → Prop where
  | done (result : α) : Comes catalog registry writes (.done result) [] (.ok result)
  | fail (fault : Fault) : Comes catalog registry writes (.fail fault) [] (.error fault)
  | described {type : RecordType} {next : RecordMetadata → Plan α} {metadata : RecordMetadata} {marks : List Mark}
      {result : Except Fault α} (built : RecordMetadata.build catalog registry type = .ok metadata)
      (below : Comes catalog registry writes (next metadata) marks result) :
      Comes catalog registry writes (.describe type next) (.asked type :: marks) result
  | faulty {type : RecordType} {next : RecordMetadata → Plan α} {fault : Fault}
      (built : RecordMetadata.build catalog registry type = .error fault) :
      Comes catalog registry writes (.describe type next) [.asked type] (.error fault)
  | note {event : Event} {next : Plan α} {marks : List Mark} {result : Except Fault α}
      (below : Comes catalog registry writes next marks result) :
      Comes catalog registry writes (.note event next) (.noted event :: marks) result
  | written {place : Place} {value : Value} {next : Plan α} {marks : List Mark} {result : Except Fault α}
      (below : Comes catalog registry writes next marks result) :
      Comes catalog registry writes (.write place value next) marks result
  | refused {place : Place} {value : Value} {next : Plan α} (may : writes = true) (cause : ValueFault) :
      Comes catalog registry writes (.write place value next) [] (.error (.writeBack place.path cause))

namespace Plan
variable {α β : Type} {catalog : Catalog} {registry : Registry} {writes : Bool}

/-- What two plans behind one another come to: the fault of the first, or what the second makes of its result. -/
theorem Comes.of_bind {plan : Plan α} {follow : α → Plan β} {marks : List Mark} {result : Except Fault β}
    (comes : (plan.bind follow).Comes catalog registry writes marks result) :
    (∃ fault, plan.Comes catalog registry writes marks (.error fault) ∧ result = .error fault) ∨
    ∃ first before after, plan.Comes catalog registry writes before (.ok first) ∧
      (follow first).Comes catalog registry writes after result ∧ marks = before ++ after := by
  induction plan generalizing marks with
  | done first => exact .inr ⟨first, [], marks, .done first, comes, rfl⟩
  | fail fault =>
    cases comes
    exact .inl ⟨fault, .fail fault, rfl⟩
  | describe type next ih =>
    cases comes with
    | described built below =>
      rcases ih _ below with ⟨fault, first, same⟩ | ⟨first, before, after, ran, rest, rfl⟩
      · exact .inl ⟨fault, .described built first, same⟩
      · exact .inr ⟨first, _ :: before, after, .described built ran, rest, rfl⟩
    | faulty built => exact .inl ⟨_, .faulty built, rfl⟩
  | note event next ih =>
    cases comes with
    | note below =>
      rcases ih below with ⟨fault, first, same⟩ | ⟨first, before, after, ran, rest, rfl⟩
      · exact .inl ⟨fault, .note first, same⟩
      · exact .inr ⟨first, _ :: before, after, .note ran, rest, rfl⟩
  | write place value next ih =>
    cases comes with
    | written below =>
      rcases ih below with ⟨fault, first, same⟩ | ⟨first, before, after, ran, rest, rfl⟩
      · exact .inl ⟨fault, .written first, same⟩
      · exact .inr ⟨first, before, after, .written ran, rest, rfl⟩
    | refused may cause => exact .inl ⟨_, .refused may cause, rfl⟩

/-- A plan that only hands its result on comes to that result under the function. -/
theorem Comes.of_map {plan : Plan α} {f : α → β} {marks : List Mark} {result : Except Fault β}
    (comes : (plan.bind fun first => .done (f first)).Comes catalog registry writes marks result) :
    ∃ first, plan.Comes catalog registry writes marks first ∧ result = first.map f := by
  rcases comes.of_bind with ⟨fault, ran, rfl⟩ | ⟨first, before, after, ran, rest, rfl⟩
  · exact ⟨.error fault, ran, rfl⟩
  · cases rest
    exact ⟨.ok first, by rwa [List.append_nil], rfl⟩

/-- Whatever takes its writes, a run is one that its plan allows: its events are those of the marks, and its cache
keeps nothing new but what it asked for. -/
theorem comes_of_run (plan : Plan α) {cache : MetadataCache} {record : Option TypedRecord}
    (faithful : cache.Faithful catalog registry) (may : record.isSome = true → writes = true) :
    ∃ marks, plan.Comes catalog registry writes marks (plan.run catalog registry cache record).result ∧
      (plan.run catalog registry cache record).events = marks.filterMap Mark.event? ∧
      ∀ type, ((plan.run catalog registry cache record).cache.get? type).isSome = true →
        (cache.get? type).isSome = true ∨ .asked type ∈ marks := by
  induction plan generalizing cache record with
  | done result => exact ⟨[], .done result, rfl, fun type kept => .inl kept⟩
  | fail fault => exact ⟨[], .fail fault, rfl, fun type kept => .inl kept⟩
  | describe asked next ih =>
    obtain ⟨kept, keptFaithful, answer⟩ := MetadataCache.getOrBuild_cases faithful asked
    have grown : ∀ type, (kept.get? type).isSome = true → (cache.get? type).isSome = true ∨ type = asked := by
      intro type present
      have same : kept = (cache.getOrBuild catalog registry asked).2 := by rw [answer]
      rw [same] at present
      exact MetadataCache.kept_of_getOrBuild present
    rw [run, answer]
    cases built : RecordMetadata.build catalog registry asked with
    | error fault =>
      refine ⟨[.asked asked], .faulty built, rfl, fun type present => ?_⟩
      exact (grown type present).imp_right fun same => by rw [same]; exact List.mem_singleton_self _
    | ok metadata =>
      obtain ⟨marks, comes, events, caches⟩ := ih metadata keptFaithful may
      refine ⟨.asked asked :: marks, .described built comes, events, fun type present => ?_⟩
      rcases caches type present with earlier | later
      · exact (grown type earlier).imp_right fun same => by rw [same]; exact List.mem_cons_self
      · exact .inr (List.mem_cons_of_mem _ later)
  | note event next ih =>
    obtain ⟨marks, comes, events, caches⟩ := ih faithful may
    refine ⟨.noted event :: marks, .note comes, ?_, fun type present => ?_⟩
    · exact congrArg (event :: ·) events
    · exact (caches type present).imp_right fun later => List.mem_cons_of_mem _ later
  | write place value next ih =>
    cases record with
    | none =>
      obtain ⟨marks, comes, rest⟩ := ih faithful may
      exact ⟨marks, .written comes, rest⟩
    | some record =>
      rw [run]
      cases (record.writeAt catalog place.segments value).fault with
      | none =>
        have stillMay : (some (record.writeAt catalog place.segments value).content).isSome = true → writes = true :=
          fun _ => may rfl
        obtain ⟨marks, comes, rest⟩ := ih faithful stillMay
        exact ⟨marks, .written comes, rest⟩
      | some cause => exact ⟨[], .refused (may rfl) cause, rfl, fun type kept => .inl kept⟩

end Plan

end TaggedRecords
