import TaggedRecords.Proofs.LaidAccounts
import TaggedRecords.Proofs.MergePaths

/-!
# Runs whose paths are addresses

If the names on the way can stand in paths, the path of a visited location is its address: no other visited location
has it, the store finds at it in the document what was emitted there, and an option or a merge that lists it reaches
this location and what is inside, and no other.
-/

namespace TaggedRecords

/-- The place is that of a sequence element or lies below one. -/
def Place.InSequence (place : Place) : Prop := ∃ index, .index index ∈ place.segments

/-- The place of the location that the event comes to. -/
def Event.place? : Event → Option Place
  | reached place _ => some place
  | ran _ _ => none

mutual

theorem Account.places_events (way : List Segment) : ∀ account : Account,
    account.events.filterMap Event.place? = (account.stops way).map fun stop => stop.2.location.place
  | .omitted _ _ => rfl
  | .visited location value runs left inside => by
    have silent : (runs.map fun run => Event.ran run.1 run.2).filterMap Event.place? = [] := by
      simp [List.filterMap_map, Function.comp_def, Event.place?]
    have here : (Event.reached location.place value).place? = some location.place := rfl
    rw [Account.events, Account.stops, List.filterMap_cons_some here, List.filterMap_append, silent,
      places_eventsOf (way ++ [location.turn]) inside]
    rfl

/-- The events come to the places of the accounts, in order. -/
theorem places_eventsOf (way : List Segment) : ∀ accounts : List Account,
    (eventsOf accounts).filterMap Event.place? = (stopsOf way accounts).map fun stop => stop.2.location.place
  | [] => rfl
  | account :: rest => by
    rw [eventsOf, stopsOf, List.filterMap_append, List.map_append, account.places_events way, places_eventsOf way rest]

end

theorem exists_way {accounts : List Account} {account : Account} (member : account ∈ visitsOf accounts) :
    ∃ way, (way, account) ∈ stopsOf [] accounts := by
  obtain ⟨stop, among, rfl⟩ := List.mem_map.mp member
  exact ⟨stop.1, among⟩

/-! ## One path, one location -/

namespace Laid
variable {accounts : List Account} {tombstones : Bool}

theorem way_ne_nil {place : Place} {around : List Place} (laid : Laid place around accounts) {way : List Segment}
    {stop : List Segment × Account} (member : stop ∈ stopsOf way accounts) : stop.1 ≠ [] := by
  obtain ⟨account, _, more, same⟩ := laid.behind member
  simp [same]

/-- Stops with one path are one stop. -/
theorem stop_eq_of_path (laid : Laid .root [] accounts) {stop other : List Segment × Account}
    (member : stop ∈ stopsOf [] accounts) (among : other ∈ stopsOf [] accounts)
    (same : stop.2.location.place.path = other.2.location.place.path) : stop = other := by
  have ends := laid.endsAt Place.endsAt_root member
  have alsoEnds := laid.endsAt Place.endsAt_root among
  rw [ends.path, alsoEnds.path] at same
  exact List.inj_on_of_nodup_map (laid.nodup_ways []) member among
    (pathOf_injective ends.legible alsoEnds.legible same)

theorem nodup_paths (laid : Laid .root [] accounts) :
    ((visitsOf accounts).map fun account => account.location.place.path).Nodup := by
  have distinct : (stopsOf [] accounts).Nodup := List.Nodup.of_map Prod.fst (laid.nodup_ways [])
  rw [visitsOf, List.map_map]
  exact distinct.map_on fun stop member other among same => laid.stop_eq_of_path member among same

/-- Of the places at and around a visited location, only that of a visited location has its path. -/
theorem place_eq_of_path (laid : Laid .root [] accounts) {account other : Account}
    (member : account ∈ visitsOf accounts) (among : other ∈ visitsOf accounts) {place : Place}
    (here : place ∈ other.location.place :: other.location.around) (same : place.path = account.location.place.path) :
    place = account.location.place := by
  obtain ⟨way, stops⟩ := exists_way member
  obtain ⟨alsoWay, alsoStops⟩ := exists_way among
  obtain none | ⟨outer, held, _, rfl⟩ := (laid.mem_around_iff alsoStops).mp here
  · cases none
  · rw [laid.stop_eq_of_path held stops same]

/-- A location lies at or inside another if the way to the other begins its own. -/
theorem mem_around_of_prefix (laid : Laid .root [] accounts) {stop other : List Segment × Account}
    (member : stop ∈ stopsOf [] accounts) (among : other ∈ stopsOf [] accounts) (begins : stop.1 <+: other.1) :
    stop.2.location.place ∈ other.2.location.place :: other.2.location.around :=
  (laid.mem_around_iff among).mpr (.inr ⟨stop, member, begins, rfl⟩)

theorem unindexed (laid : Laid .root [] accounts) {stop : List Segment × Account}
    (member : stop ∈ stopsOf [] accounts) (outside : ¬ stop.2.location.place.InSequence) :
    ∀ index, .index index ∉ stop.1 :=
  fun index inside => outside ⟨index, ((laid.endsAt Place.endsAt_root member).indexed index).mpr inside⟩

/-- The store finds what was emitted. -/
theorem lookup?_path (laid : Laid .root [] accounts)
    (parts : ∀ account ∈ accounts, (Value.mapping (documentOf tombstones accounts)).part? account.turn =
      account.emitted? tombstones) {account : Account} (member : account ∈ visitsOf accounts)
    (outside : ¬ account.location.place.InSequence) :
    Document.lookup? (documentOf tombstones accounts) account.location.place.path = account.emitted? tombstones := by
  obtain ⟨way, stops⟩ := exists_way member
  have ends := laid.endsAt Place.endsAt_root stops
  have unindexed := laid.unindexed stops outside
  rw [ends.path, lookup?_pathOf _ (laid.way_ne_nil stops) ends.legible unindexed]
  exact laid.position? parts [] stops

/-- Paths of locations apart from each other are apart. -/
theorem keysOf_path_apart (laid : Laid .root [] accounts) {account other : Account}
    (member : account ∈ visitsOf accounts) (among : other ∈ visitsOf accounts)
    (outside : ¬ account.location.place.InSequence) (alsoOutside : ¬ other.location.place.InSequence)
    (apart : account.location.place ∉ other.location.place :: other.location.around) :
    ¬ Document.keysOf account.location.place.path <+: Document.keysOf other.location.place.path := by
  obtain ⟨way, stops⟩ := exists_way member
  obtain ⟨alsoWay, alsoStops⟩ := exists_way among
  have ends := laid.endsAt Place.endsAt_root stops
  have alsoEnds := laid.endsAt Place.endsAt_root alsoStops
  rw [ends.path, alsoEnds.path, keysOf_pathOf_prefix_iff (laid.way_ne_nil stops) (laid.way_ne_nil alsoStops)
    ends.legible alsoEnds.legible (laid.unindexed stops outside) (laid.unindexed alsoStops alsoOutside)]
  exact fun begins => apart (laid.mem_around_of_prefix stops alsoStops begins)

end Laid

/-! ## Options and writes that list paths -/

/-- What a write makes of a document if it lists the paths of some of the visited locations: at each stands what was
emitted there, and nothing if that is a tombstone; at locations apart from all of them stands what stood there. -/
structure MergedAt (tombstones : Bool) (accounts listed : List Account) (before after : Document) : Prop where
  here : ∀ account ∈ listed, Document.lookup? after account.location.place.path =
    (account.emitted? tombstones).bind Value.kept?
  apart : ∀ other ∈ visitsOf accounts, ¬ other.location.place.InSequence →
    (∀ account ∈ listed, account.location.place ∉ other.location.place :: other.location.around ∧
      other.location.place ∉ account.location.place :: account.location.around) →
    Document.lookup? after other.location.place.path = Document.lookup? before other.location.place.path

namespace Laid
variable {accounts : List Account} {tombstones : Bool}

theorem covered_skipping_path_iff (laid : Laid .root [] accounts) {account other : Account}
    (member : account ∈ visitsOf accounts) (among : other ∈ visitsOf accounts) (options : Options) :
    other.location.Covered (options.skipping [account.location.place.path]) ↔
      other.location.Covered options ∨ account.location.place ∈ other.location.place :: other.location.around := by
  constructor
  · rintro (all | ⟨place, here, listed⟩)
    · exact .inl (.inl all)
    · rcases List.mem_append.mp listed with before | same
      · exact .inl (.inr ⟨place, here, before⟩)
      · exact .inr (laid.place_eq_of_path member among here (List.mem_singleton.mp same) ▸ here)
  · rintro ((all | ⟨place, here, listed⟩) | inside)
    · exact .inl all
    · exact .inr ⟨place, here, List.mem_append_left _ listed⟩
    · exact .inr ⟨_, inside, List.mem_append_right _ (List.mem_singleton.mpr rfl)⟩

theorem omitted_asking_path_iff (laid : Laid .root [] accounts) {account other : Account}
    (member : account ∈ visitsOf accounts) (among : other ∈ visitsOf accounts) (options : Options) (value : Value) :
    other.location.Omitted { options with emptyPaths := account.location.place.path :: options.emptyPaths } value ↔
      other.location.Omitted options value ∧ other.location.place ≠ account.location.place := by
  have same : other.location.place.path = account.location.place.path ↔
      other.location.place = account.location.place :=
    ⟨laid.place_eq_of_path member among List.mem_cons_self, congrArg Place.path⟩
  simp only [Location.Omitted, List.mem_cons, not_or, same]
  constructor
  · rintro ⟨zero, applies, differs, unasked⟩
    exact ⟨⟨zero, applies, unasked⟩, differs⟩
  · rintro ⟨⟨zero, applies, unasked⟩, differs⟩
    exact ⟨zero, applies, differs, unasked⟩

theorem mergedAt_takePaths (laid : Laid .root [] accounts)
    (held : ∀ account ∈ visitsOf accounts, ¬ account.location.place.InSequence →
      Document.lookup? (documentOf tombstones accounts) account.location.place.path = account.emitted? tombstones)
    (proper : (documentOf tombstones accounts).Proper) (before : Document) {listed : List Account}
    (known : ∀ account ∈ listed, account ∈ visitsOf accounts ∧ ¬ account.location.place.InSequence) :
    MergedAt tombstones accounts listed before (Document.takePaths (documentOf tombstones accounts) before
      (listed.map fun account => account.location.place.path)) where
  here account member := by
    obtain ⟨visited, outside⟩ := known account member
    have agrees := Document.takePaths_agrees proper
      (List.mem_map_of_mem (f := fun account : Account => account.location.place.path) member) before
    have kept := Value.at?_stripped proper (Document.keysOf_ne_nil account.location.place.path)
    rw [Document.AgreesAt, ← Value.stripped, kept, ← Document.lookup?_eq, ← Document.lookup?_eq,
      held account visited outside] at agrees
    exact agrees
  apart other visited outside apart := by
    rw [Document.lookup?_eq, Document.lookup?_eq]
    refine Document.at?_takePaths_apart proper (List.forall_mem_map.mpr fun account member => ?_) _
    obtain ⟨alsoVisited, alsoOutside⟩ := known account member
    exact ⟨laid.keysOf_path_apart alsoVisited visited alsoOutside outside (apart account member).1,
      laid.keysOf_path_apart visited alsoVisited outside alsoOutside (apart account member).2⟩

end Laid

/-! ## Runs of an engine -/

/-- The accounts are those of the locations that the run visited, and the paths of these are addresses. -/
structure Run.Addresses (run : Run Document) (tombstones : Bool) (document : Document) (accounts : List Account) :
    Prop where
  visited : run.events.filterMap Event.place? = (visitsOf accounts).map fun account => account.location.place
  distinct : ((visitsOf accounts).map fun account => account.location.place.path).Nodup
  /-- Outside of sequences the document holds at a location's path what is emitted there. -/
  held : ∀ account ∈ visitsOf accounts, ¬ account.location.place.InSequence →
    Document.lookup? document account.location.place.path = account.emitted? tombstones
  /-- A path that is skipped covers its location and those inside it. -/
  skipped : ∀ account ∈ visitsOf accounts, ∀ other ∈ visitsOf accounts, ∀ options : Options,
    other.location.Covered (options.skipping [account.location.place.path]) ↔
      other.location.Covered options ∨ account.location.place ∈ other.location.place :: other.location.around
  /-- A path whose zero value is asked for keeps that of its location. -/
  kept : ∀ account ∈ visitsOf accounts, ∀ other ∈ visitsOf accounts, ∀ (options : Options) (value : Value),
    other.location.Omitted { options with emptyPaths := account.location.place.path :: options.emptyPaths } value ↔
      other.location.Omitted options value ∧ other.location.place ≠ account.location.place
  /-- A write that lists paths reaches their locations. -/
  merged : ∀ (store : Store) (collection id : String) (listed : List Account),
    (∀ account ∈ listed, account ∈ visitsOf accounts ∧ ¬ account.location.place.InSequence) →
    ∃ after, (store.write collection id document
        (.mergePaths (listed.map fun account => account.location.place.path))).document? collection id = some after ∧
      MergedAt tombstones accounts listed (store.content collection id) after

theorem Run.Accounted.places {run : Run Document} {setting : Setting} {catalog : Catalog} {snapshot : RecordValue}
    {accounts : List Account} (accounted : run.Accounted setting catalog snapshot accounts) :
    run.events.filterMap Event.place? = (visitsOf accounts).map fun account => account.location.place := by
  rw [accounted.events, places_eventsOf [], visitsOf, List.map_map]
  rfl

theorem Run.Accounted.addresses {run : Run Document} {setting : Setting} {catalog : Catalog} {snapshot : RecordValue}
    {accounts : List Account} (accounted : run.Accounted setting catalog snapshot accounts)
    (proper : setting.registry.Proper) (properSnapshot : EntriesProper snapshot.fields)
    (names : catalog.NamesFields snapshot.type) (named : ∀ account ∈ visitsOf accounts, account.Named catalog) :
    run.Addresses setting.options.tombstones (documentOf setting.options.tombstones accounts) accounts := by
  have derived := accounted.derived
  have laid : Laid .root [] accounts := derived.laid proper properSnapshot
    (fun stop member => named stop.2 (List.mem_map_of_mem member)) names
  have parts : ∀ account ∈ accounts, (Value.mapping (documentOf setting.options.tombstones accounts)).part?
      account.turn = account.emitted? setting.options.tombstones :=
    fun account member => derived.part?_documentOf laid.nodup_turns member
  have held (account : Account) (member : account ∈ visitsOf accounts)
      (outside : ¬ account.location.place.InSequence) := laid.lookup?_path parts member outside
  have document : (documentOf setting.options.tombstones accounts).Proper :=
    Document.proper_ofList (entriesProper_emittedFields (derived.proper_emitted proper properSnapshot))
  exact ⟨accounted.places, laid.nodup_paths, held,
    fun account member other among => laid.covered_skipping_path_iff member among,
    fun account member other among => laid.omitted_asking_path_iff member among,
    fun store collection id listed known => ⟨_, store.document?_write collection id _ _,
      laid.mergedAt_takePaths held document _ known⟩⟩

namespace Engine

/-- If the names on the way can stand in paths, a passing run, of a record that may take the writes or of any snapshot,
visits locations with distinct paths, and outside of sequences the document holds at the path of each what the run
emitted there, or nothing if it left the location out without a tombstone. So what a caller lists by its path, to skip
its rules, to keep its zero value or to merge it, is this location with what is inside it, and no other. -/
theorem paths_address (engine : Engine) {cache : MetadataCache} (context : Context) (options : Options)
    (faithful : cache.Faithful engine.catalog engine.registry) (proper : engine.registry.Proper) :
    (∀ record document, record.Fits engine.catalog →
      (engine.validateMut cache context options record).result = .ok document →
      ∃ accounts, (engine.validateMut cache context options record).Accounted (engine.setting context options)
          engine.catalog (record.snapshot engine.catalog) accounts ∧
        (engine.catalog.NamesFields record.type → (∀ account ∈ visitsOf accounts, account.Named engine.catalog) →
          (engine.validateMut cache context options record).Addresses options.tombstones document accounts)) ∧
    ∀ snapshot document, EntriesProper snapshot.fields →
      (engine.validateSnapshot cache context options snapshot).result = .ok document →
      ∃ accounts, (engine.validateSnapshot cache context options snapshot).Accounted (engine.setting context options)
          engine.catalog snapshot accounts ∧
        (engine.catalog.NamesFields snapshot.type → (∀ account ∈ visitsOf accounts, account.Named engine.catalog) →
          (engine.validateSnapshot cache context options snapshot).Addresses options.tombstones document accounts) := by
  constructor
  · intro record document fits ended
    obtain ⟨accounts, accounted⟩ := engine.exists_accounts context options (record.snapshot engine.catalog) faithful
      (writesBack_of_taken record) ended
    refine ⟨accounts, accounted, fun names named => ?_⟩
    cases ended.symm.trans accounted.document
    exact accounted.addresses proper (proper_snapshotFields fits) names named
  · intro snapshot document properSnapshot ended
    cases writes : options.writesBack with
    | true => simp [validateSnapshot, writes] at ended
    | false =>
      simp only [validateSnapshot, writes, Bool.false_eq_true, if_false] at ended ⊢
      obtain ⟨accounts, accounted⟩ := engine.exists_accounts context options snapshot faithful (by simp) ended
      refine ⟨accounts, accounted, fun names named => ?_⟩
      cases ended.symm.trans accounted.document
      exact accounted.addresses proper properSnapshot names named

/-- Parcels with an address, tags under names, lines, and perhaps a gift note. -/
def shipping : Engine where
  catalog := ⟨[
    ⟨"Parcel", [⟨"to", "to", .record ⟨1, "Address"⟩⟩, ⟨"tags", "tags,dive", .map .arrival .string⟩,
      ⟨"lines", "lines,dive", .sequence (.record ⟨2, "Line"⟩)⟩, ⟨"gift", "gift,omitempty", .string⟩]⟩,
    ⟨"Address", [⟨"street", "street", .string⟩]⟩,
    ⟨"Line", [⟨"item", "item", .string⟩]⟩]⟩
  registry := Registry.empty
  settings := ⟨3⟩

/-- One without a gift note. -/
def parcel : TypedRecord := ⟨⟨0, "Parcel"⟩, [.record ⟨1, "Address"⟩ [.string "Mill Lane"],
  .mapping [("care", .string "fragile")], .sequence [.record ⟨2, "Line"⟩ [.string "cup"]], .string ""]⟩

theorem shipping_names (type : RecordType) : shipping.catalog.NamesFields type := by
  have each : ∀ schema ∈ shipping.catalog.schemas,
      (∀ name ∈ schema.fields.filterMap FieldDecl.outputName?, PathName name) ∧
        (schema.fields.filterMap FieldDecl.outputName?).Nodup := by
    decide +kernel
  rcases fields_cases shipping.catalog type with none | ⟨schema, member, same⟩
  · exact ⟨by simp [none], by simp [none]⟩
  · exact ⟨same ▸ (each schema member).1, same ▸ (each schema member).2⟩

/-- The run comes to every location under a path of its own, and the store finds the street and the tag in the document,
but no gift note. -/
theorem shipping_paths_address : ∃ document accounts,
    (shipping.validateMut .empty {} {} parcel).result = .ok document ∧
    (shipping.validateMut .empty {} {} parcel).Addresses false document accounts ∧
    ((visitsOf accounts).map fun account => account.location.place.path) =
      ["to", "to.street", "tags", "tags.care", "lines", "lines[0]", "lines[0].item", "gift"] ∧
    (Document.lookup? document "to.street").bind Value.text? = some "Mill Lane" ∧
    (Document.lookup? document "tags.care").bind Value.text? = some "fragile" ∧
    (Document.lookup? document "gift").isNone = true := by
  have faithful : MetadataCache.empty.Faithful shipping.catalog shipping.registry := MetadataCache.faithful_empty _ _
  have fits : parcel.Fits shipping.catalog := by
    simp [parcel, TypedRecord.Fits, shipping, Catalog.fields, FieldsFit, FieldDecl.isHidden, FieldDecl.descriptor,
      FieldType.descriptor, Descriptor.unsupportedKind?, Data.Fits, ItemsFit, EntriesFit, FieldType.unboxed,
      Entries.Distinct, Entries.keys]
  have paths : ((shipping.validateMut .empty {} {} parcel).events.filterMap Event.place?).map Place.path =
      ["to", "to.street", "tags", "tags.care", "lines", "lines[0]", "lines[0].item", "gift"] := by
    decide +kernel
  have keys : ∀ place ∈ (shipping.validateMut .empty {} {} parcel).events.filterMap Event.place?,
      ∀ key ∈ place.keys, PathName key := by
    decide +kernel
  have finds : (shipping.validateMut .empty {} {} parcel).result.toOption.any (fun document =>
      (Document.lookup? document "to.street").bind Value.text? == some "Mill Lane" &&
      (Document.lookup? document "tags.care").bind Value.text? == some "fragile" &&
      (Document.lookup? document "gift").isNone) = true := by
    decide +kernel
  cases ended : (shipping.validateMut .empty {} {} parcel).result with
  | error fault =>
    rw [ended] at finds
    cases finds
  | ok document =>
    rw [ended] at finds
    obtain ⟨accounts, accounted, addresses⟩ :=
      (paths_address shipping {} {} faithful proper_empty).1 parcel document fits ended
    rw [accounted.places] at paths keys
    have named : ∀ account ∈ visitsOf accounts, account.Named shipping.catalog :=
      fun account member => ⟨fun type _ => shipping_names type, keys _ (List.mem_map_of_mem member)⟩
    rw [List.map_map] at paths
    exact ⟨document, accounts, rfl, addresses (shipping_names _) named, paths,
      by simpa [Except.toOption, and_assoc] using finds⟩

end Engine

end TaggedRecords
