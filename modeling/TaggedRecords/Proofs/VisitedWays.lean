import TaggedRecords.Proofs.LocationPaths
import TaggedRecords.Proofs.SkippedPaths

/-!
# Ways to what is visited

Accounts of a run, laid out along the ways into its document: each account leads on by a segment of its own, its place
has the path of its way, and what it emits stands at the end of the way. So a path tells which location is meant, and a
location lies around another just if its way begins the other's.
-/

namespace TaggedRecords

/-! ## The accounts of a run with their ways -/

/-- The segment that leads to what the location emits, from what is emitted around it. -/
def Location.turn (location : Location) : Segment :=
  match location.place.segments.getLast? with
  | some (.index place) => .index place
  | _ => .key location.name

namespace Account

/-- The segment that leads to what the account emits. -/
def turn (account : Account) : Segment := account.location.turn

/-- The accounts of what was visited inside. -/
def inside : Account → List Account
  | omitted _ _ => []
  | visited _ _ _ _ inside => inside

/-- The type of the record that was entered. -/
def entered? : Account → Option RecordType
  | visited _ _ _ (.record type _) _ => some type
  | _ => none

end Account

mutual

/-- The account and those inside it with the ways to them, given the way to what is around. -/
def Account.stops (way : List Segment) : Account → List (List Segment × Account)
  | .omitted location value => [(way ++ [location.turn], .omitted location value)]
  | .visited location value runs left inside =>
    (way ++ [location.turn], .visited location value runs left inside) :: stopsOf (way ++ [location.turn]) inside

/-- The accounts and those inside them with the ways to them, in the order of the visits. -/
def stopsOf (way : List Segment) : List Account → List (List Segment × Account)
  | [] => []
  | account :: rest => account.stops way ++ stopsOf way rest

end

theorem stopsOf_cons (way : List Segment) (account : Account) (rest : List Account) :
    stopsOf way (account :: rest) =
      (way ++ [account.turn], account) :: (stopsOf (way ++ [account.turn]) account.inside ++ stopsOf way rest) := by
  cases account <;> rfl

theorem mem_stopsOf_cons {way : List Segment} {account : Account} {rest : List Account}
    {stop : List Segment × Account} : stop ∈ stopsOf way (account :: rest) ↔
      stop = (way ++ [account.turn], account) ∨ stop ∈ stopsOf (way ++ [account.turn]) account.inside ∨
        stop ∈ stopsOf way rest := by
  rw [stopsOf_cons, List.mem_cons, List.mem_append]

/-- All accounts of a run, also those inside others, in the order of the visits. -/
def visitsOf (accounts : List Account) : List Account := (stopsOf [] accounts).map Prod.snd

/-! ## Accounts laid out -/

/-- The segment leads from the one place to the other. -/
structure Place.Leads (place : Place) (segment : Segment) (next : Place) : Prop where
  path : next.path = segment.after place.path
  indexed : ∀ index, .index index ∈ next.segments ↔ .index index ∈ place.segments ∨ segment = .index index

/-- The accounts of what lies directly at a place, each led to by a segment of its own: what it emits has the emitted
parts where the segments of those inside lead. -/
inductive Laid : Place → List Place → List Account → Prop where
  | nil (place : Place) (around : List Place) : Laid place around []
  | cons {place : Place} {around : List Place} {account : Account} {rest : List Account}
      (legible : account.turn.Legible) (fresh : account.turn ∉ rest.map Account.turn)
      (leads : place.Leads account.turn account.location.place) (within : account.location.around = around)
      (parts : ∀ tombstones value, account.emitted? tombstones = some value →
        ∀ inner ∈ account.inside, value.part? inner.turn = inner.emitted? tombstones)
      (below : Laid account.location.place (account.location.place :: around) account.inside)
      (others : Laid place around rest) : Laid place around (account :: rest)

/-- The place is where the way leads. -/
structure Place.EndsAt (place : Place) (way : List Segment) : Prop where
  path : place.path = pathOf way
  legible : ∀ segment ∈ way, segment.Legible
  indexed : ∀ index, .index index ∈ place.segments ↔ .index index ∈ way

theorem Place.endsAt_root : Place.root.EndsAt [] := ⟨rfl, List.forall_mem_nil _, fun _ => Iff.rfl⟩

theorem Place.EndsAt.append {place next : Place} {way : List Segment} {segment : Segment} (ends : place.EndsAt way)
    (leads : place.Leads segment next) (legible : segment.Legible) : next.EndsAt (way ++ [segment]) where
  path := by rw [leads.path, ends.path, pathOf_append_singleton]
  legible := by
    simpa [or_imp, forall_and] using And.intro ends.legible legible
  indexed index := by
    rw [leads.indexed, ends.indexed, List.mem_append, List.mem_singleton, eq_comm (a := segment)]

namespace Laid
variable {place : Place} {around : List Place} {accounts : List Account}

theorem nodup_turns (laid : Laid place around accounts) : (accounts.map Account.turn).Nodup := by
  induction laid with
  | nil => exact List.nodup_nil
  | cons _ fresh _ _ _ _ _ _ ih => exact List.nodup_cons.mpr ⟨fresh, ih⟩

/-- Every stop is behind the way of one of the accounts. -/
theorem behind (laid : Laid place around accounts) {way : List Segment} {stop : List Segment × Account}
    (member : stop ∈ stopsOf way accounts) : ∃ account ∈ accounts, ∃ more, stop.1 = way ++ account.turn :: more := by
  induction laid generalizing way with
  | nil => cases member
  | @cons _ _ account _ _ _ _ _ _ _ _ insideIh ih =>
    rcases mem_stopsOf_cons.mp member with rfl | inside | later
    · exact ⟨account, List.mem_cons_self, [], rfl⟩
    · obtain ⟨inner, _, more, same⟩ := insideIh inside
      exact ⟨account, List.mem_cons_self, inner.turn :: more, by rw [same, List.append_assoc]; rfl⟩
    · obtain ⟨other, among, more, same⟩ := ih later
      exact ⟨other, List.mem_cons_of_mem _ among, more, same⟩

/-- Every stop is at the place where its way leads. -/
theorem endsAt (laid : Laid place around accounts) {way : List Segment} (ends : place.EndsAt way)
    {stop : List Segment × Account} (member : stop ∈ stopsOf way accounts) :
    stop.2.location.place.EndsAt stop.1 := by
  induction laid generalizing way with
  | nil => cases member
  | cons legible _ leads _ _ _ _ insideIh ih =>
    have here := ends.append leads legible
    rcases mem_stopsOf_cons.mp member with rfl | inside | later
    · exact here
    · exact insideIh here inside
    · exact ih ends later

/-- The ways behind a segment of its own and those to the other stops do not begin each other. -/
theorem not_prefix_of_fresh (laid : Laid place around accounts) {segment : Segment}
    (fresh : segment ∉ accounts.map Account.turn) {way : List Segment} {stop : List Segment × Account}
    (member : stop ∈ stopsOf way accounts) (more : List Segment) :
    ¬ way ++ segment :: more <+: stop.1 ∧ ¬ stop.1 <+: way ++ segment :: more := by
  obtain ⟨account, among, others, same⟩ := laid.behind member
  have differs : segment ≠ account.turn := fun equal => fresh (equal ▸ List.mem_map_of_mem among)
  rw [same, List.prefix_append_right_inj, List.prefix_append_right_inj, List.cons_prefix_cons, List.cons_prefix_cons]
  exact ⟨fun begins => differs begins.1, fun begins => differs begins.1.symm⟩

/-- The way to what is inside goes on from the way of the account. -/
theorem behind_inside {account : Account} (laid : Laid place around account.inside) {way : List Segment}
    {stop : List Segment × Account} (member : stop ∈ stopsOf (way ++ [account.turn]) account.inside) :
    ∃ segment more, stop.1 = way ++ account.turn :: segment :: more := by
  obtain ⟨inner, _, more, same⟩ := laid.behind member
  exact ⟨inner.turn, more, by rw [same, List.append_assoc]; rfl⟩

/-- No way leads to two stops. -/
theorem nodup_ways (laid : Laid place around accounts) (way : List Segment) :
    ((stopsOf way accounts).map Prod.fst).Nodup := by
  induction laid generalizing way with
  | nil => exact List.nodup_nil
  | @cons _ _ account rest _ fresh _ _ _ below others insideIh ih =>
    rw [stopsOf_cons, List.map_cons, List.map_append, List.nodup_cons, List.nodup_append]
    refine ⟨fun again => ?_, insideIh _, ih way, ?_⟩
    · rcases List.mem_append.mp again with inside | later
      · obtain ⟨stop, member, same⟩ := List.mem_map.mp inside
        obtain ⟨segment, more, longer⟩ := below.behind_inside member
        simp [longer] at same
      · obtain ⟨stop, member, same⟩ := List.mem_map.mp later
        exact (others.not_prefix_of_fresh fresh member []).2 (by simp [same])
    · intro first inside second later same
      obtain ⟨stop, member, rfl⟩ := List.mem_map.mp inside
      obtain ⟨other, among, rfl⟩ := List.mem_map.mp later
      obtain ⟨segment, more, longer⟩ := below.behind_inside member
      exact (others.not_prefix_of_fresh fresh among (segment :: more)).2 (by simp [← same, longer])

/-- What an account emits stands at the end of its way in the value that the accounts make up. -/
theorem position? (laid : Laid place around accounts) {tombstones : Bool} {value : Value}
    (parts : ∀ account ∈ accounts, value.part? account.turn = account.emitted? tombstones) (way : List Segment)
    {rest : List Segment} {account : Account} (member : (way ++ rest, account) ∈ stopsOf way accounts) :
    value.position? rest = account.emitted? tombstones := by
  induction laid generalizing way rest value with
  | nil => cases member
  | @cons _ _ first others _ _ _ _ partsInside below _ insideIh ih =>
    obtain ⟨here, later⟩ := List.forall_mem_cons.mp parts
    rcases mem_stopsOf_cons.mp member with same | inside | among
    · cases List.append_cancel_left (congrArg Prod.fst same)
      cases congrArg Prod.snd same
      rw [Value.position?, here]
      cases account.emitted? tombstones <;> rfl
    · obtain ⟨segment, more, longer⟩ := below.behind_inside inside
      cases List.append_cancel_left longer
      rw [Value.position?, here]
      cases emitted : first.emitted? tombstones with
      | none =>
        cases first with
        | omitted _ _ => cases inside
        | visited _ _ _ _ _ => cases emitted
      | some held =>
        exact insideIh (partsInside tombstones held emitted) _ (by rwa [List.append_assoc])
    · exact ih later way among

/-- The places at and around a stop are, but for those around all of them, those of the stops on its way. -/
theorem mem_around_iff (laid : Laid place around accounts) {way : List Segment} {stop : List Segment × Account}
    (member : stop ∈ stopsOf way accounts) {other : Place} :
    other ∈ stop.2.location.place :: stop.2.location.around ↔
      other ∈ around ∨ ∃ outer ∈ stopsOf way accounts, outer.1 <+: stop.1 ∧ outer.2.location.place = other := by
  induction laid generalizing way with
  | nil => cases member
  | @cons _ around account rest _ fresh _ within _ below others insideIh ih =>
    -- What begins the way to the stop is the account, or on the same side of it as the stop.
    rcases mem_stopsOf_cons.mp member with rfl | inside | later
    · rw [within, List.mem_cons]
      constructor
      · rintro (rfl | wider)
        · exact .inr ⟨_, mem_stopsOf_cons.mpr (.inl rfl), List.prefix_rfl, rfl⟩
        · exact .inl wider
      · rintro (wider | ⟨outer, among, begins, rfl⟩)
        · exact .inr wider
        · rcases mem_stopsOf_cons.mp among with rfl | inside | later
          · exact .inl rfl
          · obtain ⟨segment, more, longer⟩ := below.behind_inside inside
            have shorter := begins.length_le
            simp [longer] at shorter
          · exact absurd begins (others.not_prefix_of_fresh fresh later []).2
    · rw [insideIh inside, List.mem_cons]
      obtain ⟨segment, more, longer⟩ := below.behind_inside inside
      constructor
      · rintro ((rfl | wider) | ⟨outer, among, begins, same⟩)
        · refine .inr ⟨_, mem_stopsOf_cons.mpr (.inl rfl), ?_, rfl⟩
          rw [longer]
          exact ⟨segment :: more, by simp⟩
        · exact .inl wider
        · exact .inr ⟨outer, mem_stopsOf_cons.mpr (.inr (.inl among)), begins, same⟩
      · rintro (wider | ⟨outer, among, begins, same⟩)
        · exact .inl (.inr wider)
        · rcases mem_stopsOf_cons.mp among with rfl | alsoInside | later
          · exact .inl (.inl same.symm)
          · exact .inr ⟨outer, alsoInside, begins, same⟩
          · exact absurd (longer ▸ begins) (others.not_prefix_of_fresh fresh later _).2
    · rw [ih later]
      refine or_congr_right ⟨?_, ?_⟩
      · rintro ⟨outer, among, begins, same⟩
        exact ⟨outer, mem_stopsOf_cons.mpr (.inr (.inr among)), begins, same⟩
      · rintro ⟨outer, among, begins, same⟩
        rcases mem_stopsOf_cons.mp among with rfl | inside | alsoLater
        · exact absurd begins (others.not_prefix_of_fresh fresh later []).1
        · obtain ⟨segment, more, longer⟩ := below.behind_inside inside
          exact absurd (longer ▸ begins) (others.not_prefix_of_fresh fresh later _).1
        · exact ⟨outer, alsoLater, begins, same⟩

end Laid

end TaggedRecords
