import TaggedRecords.Proofs.EligibleRuns
import TaggedRecords.Proofs.IndependentFields
import TaggedRecords.Proofs.VisitedWays

/-!
# What passing runs lay out

Where every name on the way can stand in a path and no record type has a name twice, the accounts of a passing run are
laid out: what a location emits has the emitted parts where the segments of those inside lead. The documents emitted
have distinct keys throughout, whatever the names are.
-/

namespace TaggedRecords

/-- The names of the type's fields in documents can stand in paths, and no two fields have one name. -/
structure Catalog.NamesFields (catalog : Catalog) (type : RecordType) : Prop where
  legible : ∀ name ∈ (catalog.fields type).filterMap FieldDecl.outputName?, PathName name
  distinct : ((catalog.fields type).filterMap FieldDecl.outputName?).Nodup

/-- The key of a mapping that the segment leads to. -/
def Segment.key? : Segment → Option String
  | .key name => some name
  | _ => none

/-- The keys of mappings on the way to the place. -/
def Place.keys (place : Place) : List String := place.segments.filterMap Segment.key?

/-! ## Locations in a place -/

/-- How a location lies directly in a place: as a field of the record there, or as an element of the location there. -/
inductive Location.Within : Place → List Place → Location → Prop where
  | field (record : RecordValue) (place : Place) (around : List Place) {field : FieldMetadata}
      (named : PathName field.name) : Within place around (.ofField record place around field)
  | item (location : Location) (dive : Dive) (index : Nat) :
      Within location.place (location.place :: location.around)
        (location.element dive (location.place.item index) (Place.positionName index))
  | entry (location : Location) (dive : Dive) (key : String) :
      Within location.place (location.place :: location.around)
        (location.element dive (location.place.entry key) key)

namespace Location

@[simp] theorem turn_ofField (record : RecordValue) (place : Place) (around : List Place) (field : FieldMetadata) :
    (ofField record place around field).turn = .key field.name := by
  simp [turn, ofField, Place.field]

@[simp] theorem turn_item (location : Location) (dive : Dive) (index : Nat) (name : String) :
    (location.element dive (location.place.item index) name).turn = .index index := by
  simp [turn, element, Place.item]

@[simp] theorem turn_entry (location : Location) (dive : Dive) (key name : String) :
    (location.element dive (location.place.entry key) name).turn = .key name := by
  simp [turn, element, Place.entry]

variable {place : Place} {around : List Place} {location : Location}

theorem Within.around_eq (within : location.Within place around) : location.around = around := by
  cases within <;> rfl

theorem Within.leads (within : location.Within place around) : place.Leads location.turn location.place := by
  cases within with
  | field record _ _ named =>
    rw [turn_ofField]
    exact ⟨rfl, fun index => by simp [ofField, Place.field]⟩
  | item location dive index =>
    rw [turn_item]
    exact ⟨rfl, fun other => by simp [element, Place.item, eq_comm]⟩
  | entry location dive key =>
    rw [turn_entry]
    exact ⟨rfl, fun index => by simp [element, Place.entry]⟩

theorem Within.legible (within : location.Within place around)
    (keys : ∀ key ∈ location.place.keys, PathName key) : location.turn.Legible := by
  cases within with
  | field record _ _ named =>
    rw [turn_ofField]
    exact named
  | item location dive index =>
    rw [turn_item]
    trivial
  | entry location dive key =>
    rw [turn_entry]
    exact keys key (by simp [element, Place.entry, Place.keys, Segment.key?])

end Location

/-! ## What accounts emit, part by part -/

section
variable {setting : Setting} {catalog : Catalog} {tombstones : Bool}

theorem Accounts.map_location {list : List (Location × Value)} {accounts : List Account}
    (derived : Accounts setting catalog (.locations list) accounts) :
    accounts.map Account.location = list.map Prod.fst := by
  generalize same : Subject.locations list = subject at derived
  induction derived generalizing list with
  | entered _ _ _ _ => cases same
  | nothing =>
    cases same
    rfl
  | omitted _ _ ih =>
    cases same
    rw [List.map_cons, List.map_cons, ih rfl]
    rfl
  | passed _ _ _ _ _ ih =>
    cases same
    rw [List.map_cons, List.map_cons, ih rfl]
    rfl

theorem Accounts.exists_item {list : List (Location × Value)} {accounts : List Account}
    (derived : Accounts setting catalog (.locations list) accounts) {account : Account} (member : account ∈ accounts) :
    ∃ item ∈ list, item.1 = account.location :=
  List.mem_map.mp (derived.map_location ▸ List.mem_map_of_mem member)

/-- Something is emitted for what is not left out. -/
theorem Accounts.exists_emitted {list : List (Location × Value)} {accounts : List Account}
    (derived : Accounts setting catalog (.locations list) accounts)
    (stays : ∀ item ∈ list, ¬ item.1.Omitted setting.options item.2) {account : Account} (member : account ∈ accounts) :
    ∃ value, account.emitted? tombstones = some value := by
  generalize same : Subject.locations list = subject at derived
  induction derived generalizing list with
  | entered _ _ _ _ => cases same
  | nothing => cases member
  | omitted out _ _ =>
    cases same
    exact absurd out (stays _ List.mem_cons_self)
  | passed _ _ _ _ _ ih =>
    cases same
    rcases List.mem_cons.mp member with rfl | later
    · exact ⟨_, rfl⟩
    · exact ih (fun item among => stays item (List.mem_cons_of_mem _ among)) later rfl

theorem keys_emittedFields_sublist (accounts : List Account) :
    (Entries.keys (emittedFields tombstones accounts)).Sublist
      (accounts.map fun account => account.location.name) := by
  induction accounts with
  | nil => exact .slnil
  | cons account rest ih =>
    rw [emittedFields]
    split
    · exact ih.cons_cons _
    · exact ih.cons _

/-- Under the name of an account stands what it emits. -/
theorem get?_emittedFields {accounts : List Account}
    (distinct : (accounts.map fun account => account.location.name).Nodup) {account : Account}
    (member : account ∈ accounts) :
    Entries.get? (emittedFields tombstones accounts) account.location.name = account.emitted? tombstones := by
  induction accounts with
  | nil => cases member
  | cons first rest ih =>
    obtain ⟨fresh, below⟩ := List.nodup_cons.mp distinct
    have absent : Entries.get? (emittedFields tombstones rest) first.location.name = none :=
      Entries.get?_eq_none_iff.mpr fun held => fresh ((keys_emittedFields_sublist rest).subset held)
    rw [emittedFields]
    rcases List.mem_cons.mp member with rfl | later
    · cases account.emitted? tombstones with
      | none => exact absent
      | some value => simp [Entries.get?_cons]
    · have differs : first.location.name ≠ account.location.name :=
        fun same => fresh (List.mem_map.mpr ⟨account, later, same.symm⟩)
      cases first.emitted? tombstones with
      | none => exact ih below later
      | some value => simpa [Entries.get?_cons, differs] using ih below later

theorem get?_ofList_emittedFields {accounts : List Account}
    (distinct : (accounts.map fun account => account.location.name).Nodup) {account : Account}
    (member : account ∈ accounts) :
    Entries.get? (Entries.ofList (emittedFields tombstones accounts)) account.location.name =
      account.emitted? tombstones := by
  have keys : Entries.Distinct (emittedFields tombstones accounts) :=
    (keys_emittedFields_sublist accounts).nodup distinct
  rw [Entries.get?_perm (Entries.ofList_perm keys) keys, get?_emittedFields distinct member]

/-- Where accounts go by their names, names are distinct if the segments are. -/
theorem nodup_names {accounts : List Account} (distinct : (accounts.map Account.turn).Nodup)
    (named : ∀ account ∈ accounts, account.turn = .key account.location.name) :
    (accounts.map fun account => account.location.name).Nodup := by
  have turns : accounts.map Account.turn = (accounts.map fun account => account.location.name).map .key := by
    rw [List.map_map]
    exact List.map_congr_left named
  rw [turns] at distinct
  exact distinct.of_map

/-- The document of a record has what is emitted for its fields where the segments lead. -/
theorem Accounts.part?_documentOf {record : RecordValue} {place : Place} {around : List Place}
    {accounts : List Account} (derived : Accounts setting catalog (.record record place around) accounts)
    (distinct : (accounts.map Account.turn).Nodup) {account : Account} (member : account ∈ accounts) :
    (Value.mapping (documentOf tombstones accounts)).part? account.turn = account.emitted? tombstones := by
  cases derived with
  | entered _ _ below =>
    have named : ∀ account ∈ accounts, account.turn = .key account.location.name := by
      intro account among
      obtain ⟨item, listed, same⟩ := below.exists_item among
      obtain ⟨field, _, rfl⟩ := List.mem_map.mp listed
      rw [Account.turn, ← same]
      exact Location.turn_ofField _ _ _ _
    rw [named account member]
    exact get?_ofList_emittedFields (nodup_names distinct named) member

/-- What a location emits has what is emitted inside where the segments lead. -/
theorem Accounts.part?_emits {location : Location} {left : Value} {inner : List Account}
    (derived : Accounts setting catalog (location.inside left) inner) (distinct : (inner.map Account.turn).Nodup)
    {account : Account} (member : account ∈ inner) :
    (location.emits left (emittedFields tombstones inner) (emittedItems tombstones inner)).part? account.turn =
      account.emitted? tombstones := by
  unfold Location.inside at derived
  split at derived
  · exact derived.part?_documentOf distinct member
  · next items dive dives =>
    -- An element goes by its place among all, so none may have been left out before it.
    obtain ⟨index, held⟩ := List.getElem?_of_mem member
    have here : (inner.map Account.location)[index]? = some account.location := by rw [List.getElem?_map, held]; rfl
    rw [derived.map_location, List.map_map, List.getElem?_map, List.getElem?_zipIdx, Nat.zero_add] at here
    obtain ⟨item, found, same⟩ := Option.map_eq_some_iff.mp here
    obtain ⟨value, _, rfl⟩ := Option.map_eq_some_iff.mp found
    have turn : account.turn = .index index := by
      rw [Account.turn, ← same]
      exact Location.turn_item _ _ _ _
    have stays : ∀ item ∈ items.zipIdx.map fun item => (location.element dive (location.place.item item.2)
        (Place.positionName item.2), item.1), ¬ item.1.Omitted setting.options item.2 := by
      intro item listed
      obtain ⟨found, _, rfl⟩ := List.mem_map.mp listed
      exact location.not_omitted_element _ _ _ _ _
    obtain ⟨emitted, emits⟩ : ∃ emitted, account.emitted? tombstones = some emitted :=
      derived.exists_emitted stays member
    rw [turn, emits, emittedItems_eq_map]
    simp only [Location.emits, dives, Value.part?]
    rw [List.getElem?_map, held, Option.map_some, emits]
    rfl
  · next entries dive dives =>
    have named : ∀ account ∈ inner, account.turn = .key account.location.name := by
      intro account among
      obtain ⟨item, listed, same⟩ := derived.exists_item among
      obtain ⟨entry, _, rfl⟩ := List.mem_map.mp listed
      rw [Account.turn, ← same]
      exact Location.turn_entry _ _ _ _
    rw [named account member]
    simp only [Location.emits, dives]
    exact get?_emittedFields (nodup_names distinct named) member
  · cases derived
    cases member

/-! ## The accounts of a run are laid out -/

/-- The names that lead inside the account can stand in paths: those of the record that it enters, and the keys of the
mappings on the way to it. -/
structure Account.Named (catalog : Catalog) (account : Account) : Prop where
  fields : ∀ type, account.entered? = some type → catalog.NamesFields type
  keys : ∀ key ∈ account.location.place.keys, PathName key

/-- The accounts are laid out at the place of the subject, if its own segments are distinct. -/
def Subject.Lays (catalog : Catalog) (accounts : List Account) : Subject → Prop
  | record snapshot place around => catalog.NamesFields snapshot.type → Laid place around accounts
  | locations list => ∀ place around, (∀ item ∈ list, item.1.Within place around) →
      (list.map fun item => item.1.turn).Nodup → Laid place around accounts

/-- What is inside a location has distinct segments: other fields, other positions and other keys. -/
theorem Location.laid_inside {location : Location} {left : Value} {inner : List Account} (proper : left.Proper)
    (names : ∀ type fields, left = .record type fields → catalog.NamesFields type)
    (lays : (location.inside left).Lays catalog inner) :
    Laid location.place (location.place :: location.around) inner := by
  unfold inside at lays
  split at lays
  · exact lays (names _ _ rfl)
  · next items dive _ =>
    refine lays _ _ (fun item member => ?_) ?_
    · obtain ⟨found, _, rfl⟩ := List.mem_map.mp member
      exact .item location dive found.2
    · have turns : (items.zipIdx.map fun item => (location.element dive (location.place.item item.2)
            (Place.positionName item.2), item.1)).map (fun item => item.1.turn) =
          (items.zipIdx.map Prod.snd).map .index := by
        rw [List.map_map, List.map_map]
        exact List.map_congr_left fun item _ => turn_item location dive item.2 _
      rw [turns, List.zipIdx_map_snd]
      exact List.Nodup.map (fun a b same => Segment.index.inj same) List.nodup_range'
  · next entries dive _ =>
    refine lays _ _ (fun item member => ?_) ?_
    · obtain ⟨found, _, rfl⟩ := List.mem_map.mp member
      exact .entry location dive found.1
    · have turns : (entries.map fun entry =>
            (location.element dive (location.place.entry entry.1) entry.1, entry.2)).map (fun item => item.1.turn) =
          (Entries.keys entries).map .key := by
        simp [Entries.keys]
      rw [turns]
      exact proper.1.map fun a b same => Segment.key.inj same
  · exact lays _ _ (by simp) (by simp)

/-- An account of a location that lies in a place takes its stand before those of the others. -/
theorem Laid.cons_within {place : Place} {around : List Place} {account : Account} {rest : List Account}
    {list : List (Location × Value)} (derived : Accounts setting catalog (.locations list) rest)
    (named : account.Named catalog) (within : account.location.Within place around)
    (fresh : account.location.turn ∉ list.map fun item => item.1.turn)
    (parts : ∀ tombstones value, account.emitted? tombstones = some value →
      ∀ inner ∈ account.inside, value.part? inner.turn = inner.emitted? tombstones)
    (below : Laid account.location.place (account.location.place :: around) account.inside)
    (others : Laid place around rest) : Laid place around (account :: rest) := by
  refine .cons (within.legible named.keys) ?_ within.leads within.around_eq parts below others
  have turns : rest.map Account.turn = list.map fun item => item.1.turn := by
    have turns := congrArg (List.map Location.turn) derived.map_location
    rwa [List.map_map, List.map_map] at turns
  rw [turns]
  exact fresh

/-- Where names can stand in paths, what a passing run did is laid out. -/
theorem Accounts.laid {subject : Subject} {accounts : List Account} (proper : setting.registry.Proper)
    (derived : Accounts setting catalog subject accounts) (properSubject : subject.Proper) {way : List Segment}
    (named : ∀ stop ∈ stopsOf way accounts, stop.2.Named catalog) : subject.Lays catalog accounts := by
  induction derived generalizing way with
  | @entered record place around metadata accounts _ built _ ih =>
    intro names
    have outputs := names_of_build built
    refine ih (proper_locations proper built properSubject place around) named place around (fun item member => ?_) ?_
    · obtain ⟨field, among, rfl⟩ := List.mem_map.mp member
      exact .field record place around (names.legible _ (outputs ▸ List.mem_map_of_mem among))
    · have turns : (metadata.locations record place around).map (fun item => item.1.turn) =
          (metadata.fields.map FieldMetadata.name).map .key := by
        simp [RecordMetadata.locations]
      rw [turns, outputs]
      exact names.distinct.map fun a b same => Segment.key.inj same
  | nothing => exact fun place around _ _ => .nil place around
  | @omitted location value rest accounts out others ih =>
    intro place around within distinct
    obtain ⟨here, later⟩ := List.forall_mem_cons.mp within
    obtain ⟨fresh, distinct⟩ := List.nodup_cons.mp distinct
    have laid := ih (fun item member => properSubject item (List.mem_cons_of_mem _ member))
      (fun stop member => named stop (mem_stopsOf_cons.mpr (.inr (.inr member)))) place around later distinct
    have namedHere : (Account.omitted location value).Named catalog := named _ (mem_stopsOf_cons.mpr (.inl rfl))
    exact .cons_within others namedHere here fresh (fun _ _ _ => List.forall_mem_nil _) (.nil _ _) laid
  | @passed location value left rest runs inner accounts _ executes inside others insideIh ih =>
    intro place around within distinct
    obtain ⟨here, later⟩ := List.forall_mem_cons.mp within
    obtain ⟨fresh, distinct⟩ := List.nodup_cons.mp distinct
    obtain ⟨properLocation, properValue⟩ := properSubject (location, value) List.mem_cons_self
    have properLeft := executes.proper properLocation.owner properLocation.rules properValue
    have laid := ih (fun item member => properSubject item (List.mem_cons_of_mem _ member))
      (fun stop member => named stop (mem_stopsOf_cons.mpr (.inr (.inr member)))) place around later distinct
    have namedHere : (Account.visited location value runs left inner).Named catalog :=
      named _ (mem_stopsOf_cons.mpr (.inl rfl))
    have below := Location.laid_inside properLeft (fun type fields same => namedHere.fields type (by rw [same]; rfl))
      (insideIh (Location.proper_inside properLocation properLeft)
        fun stop member => named stop (mem_stopsOf_cons.mpr (.inr (.inl member))))
    refine .cons_within others namedHere here fresh (fun tombstones emitted emits account member => ?_)
      (here.around_eq ▸ below) laid
    cases emits
    exact inside.part?_emits below.nodup_turns member

/-! ## Documents with distinct keys -/

theorem Document.proper_ofList {pairs : List (String × Value)} (proper : EntriesProper pairs) :
    Document.Proper (Entries.ofList pairs) := by
  have onto (start : Document) (here : start.Proper) :
      Document.Proper (pairs.foldl (fun entries pair => Entries.insert entries pair.1 pair.2) start) := by
    induction pairs generalizing start with
    | nil => exact here
    | cons pair rest ih => exact ih proper.2 _ (Document.proper_insert here proper.1 pair.1)
  exact onto [] Document.proper_nil

theorem entriesProper_emittedFields {accounts : List Account}
    (proper : ∀ account ∈ accounts, ∀ value, account.emitted? tombstones = some value → value.Proper) :
    EntriesProper (emittedFields tombstones accounts) := by
  induction accounts with
  | nil => trivial
  | cons account rest ih =>
    obtain ⟨here, below⟩ := List.forall_mem_cons.mp proper
    rw [emittedFields]
    cases emitted : account.emitted? tombstones with
    | none => exact ih below
    | some value => exact ⟨here value emitted, ih below⟩

theorem itemsProper_emittedItems {accounts : List Account}
    (proper : ∀ account ∈ accounts, ∀ value, account.emitted? tombstones = some value → value.Proper) :
    ItemsProper (emittedItems tombstones accounts) := by
  rw [emittedItems_eq_map, itemsProper_iff]
  intro item member
  obtain ⟨account, among, rfl⟩ := List.mem_map.mp member
  cases emitted : account.emitted? tombstones with
  | none => trivial
  | some value => exact proper account among value emitted

/-- What is emitted has distinct keys if the values to visit have. -/
theorem Accounts.proper_emitted {subject : Subject} {accounts : List Account} (proper : setting.registry.Proper)
    (derived : Accounts setting catalog subject accounts) (properSubject : subject.Proper) :
    ∀ account ∈ accounts, ∀ value, account.emitted? tombstones = some value → value.Proper := by
  induction derived with
  | entered _ built _ ih => exact ih (proper_locations proper built properSubject _ _)
  | nothing => exact List.forall_mem_nil _
  | omitted _ _ ih =>
    refine List.forall_mem_cons.mpr ⟨fun value emitted => ?_,
      ih fun item member => properSubject item (List.mem_cons_of_mem _ member)⟩
    cases tombstones <;> cases emitted
    trivial
  | @passed location value left rest runs inner accounts _ executes inside _ insideIh ih =>
    refine List.forall_mem_cons.mpr ⟨fun emitted emits => ?_,
      ih fun item member => properSubject item (List.mem_cons_of_mem _ member)⟩
    obtain ⟨properLocation, properValue⟩ := properSubject (location, value) List.mem_cons_self
    have properLeft := executes.proper properLocation.owner properLocation.rules properValue
    have parts := insideIh (Location.proper_inside properLocation properLeft)
    cases emits
    unfold Location.emits
    split
    · exact Document.proper_ofList (entriesProper_emittedFields parts)
    · exact itemsProper_emittedItems parts
    · next entries dive dives =>
      refine ⟨(keys_emittedFields_sublist inner).nodup ?_, entriesProper_emittedFields parts⟩
      have names : (inner.map fun account => account.location.name) = Entries.keys entries := by
        simp only [Location.inside, dives] at inside
        have names := congrArg (List.map Location.name) inside.map_location
        rw [List.map_map, List.map_map, List.map_map] at names
        exact names
      rw [names]
      exact properLeft.1
    · exact properLeft

end

end TaggedRecords
