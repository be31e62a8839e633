import TaggedRecords.Proofs.MergePaths

/-!
# Writes that list disjoint paths

Two writes whose listed paths lie apart leave the same document in either order, and each finds its own paths as it
wrote them whatever the other one did.
-/

namespace TaggedRecords

namespace Document

/-- The paths of the one list lie apart from those of the other: none leads to or through another. -/
def Disjoint (paths others : List String) : Prop :=
  ∀ path ∈ paths, ∀ other ∈ others, ¬ keysOf other <+: keysOf path ∧ ¬ keysOf path <+: keysOf other

variable {data other : Document} {paths others : List String}

theorem Disjoint.symm (apart : Disjoint paths others) : Disjoint others paths :=
  fun path member other inside => (apart other inside path member).symm

/-- Paths taken over later leave alone what was taken over at paths apart from them. -/
theorem takePaths_agrees_apart (proper : data.Proper) (otherProper : other.Proper) (apart : Disjoint paths others)
    {path : String} (member : path ∈ paths) (document : Document) :
    AgreesAt data (takePaths other (takePaths data document paths) others) (keysOf path) := by
  have agrees : AgreesAt data (takePaths data document paths) (keysOf path) := takePaths_agrees proper member document
  unfold AgreesAt at agrees ⊢
  rw [at?_takePaths_apart otherProper (apart path member), agrees]

/-- Disjoint paths are taken over from two data documents in either order. -/
theorem heads_takePaths_comm (proper : data.Proper) (otherProper : other.Proper) (apart : Disjoint paths others)
    (document : Document) (keys : List String) :
    ((Value.mapping (takePaths other (takePaths data document paths) others)).at? keys).map Value.head =
      ((Value.mapping (takePaths data (takePaths other document others) paths)).at? keys).map Value.head := by
  refine heads_of_agreement
    (fun source path => (source = data ∧ path ∈ paths) ∨ (source = other ∧ path ∈ others)) ?_ ?_ ?_ keys
  · rintro _ path (⟨rfl, member⟩ | ⟨rfl, member⟩)
    · exact takePaths_agrees_apart proper otherProper apart member document
    · exact takePaths_agrees otherProper member _
  · rintro _ path (⟨rfl, member⟩ | ⟨rfl, member⟩)
    · exact takePaths_agrees proper member _
    · exact takePaths_agrees_apart otherProper proper apart.symm member document
  · -- Neither list reaches this far, so each of the four steps keeps the head.
    intro keys below unset
    have clear : ∀ path ∈ paths, ¬ keysOf path <+: keys :=
      fun path member => below data path (.inl ⟨rfl, member⟩)
    have dead : ∀ path ∈ paths, keys <+: keysOf path →
        (Value.mapping (strippedEntries data)).at? (keysOf path) = none :=
      fun path member => unset data path (.inl ⟨rfl, member⟩)
    have otherClear : ∀ path ∈ others, ¬ keysOf path <+: keys :=
      fun path member => below other path (.inr ⟨rfl, member⟩)
    have otherDead : ∀ path ∈ others, keys <+: keysOf path →
        (Value.mapping (strippedEntries other)).at? (keysOf path) = none :=
      fun path member => unset other path (.inr ⟨rfl, member⟩)
    rw [head_takePaths otherProper otherClear otherDead, head_takePaths proper clear dead,
      head_takePaths proper clear dead, head_takePaths otherProper otherClear otherDead]

end Document

namespace Store

open Document in
/-- Two writes that list disjoint paths leave the same document in either order but for the order of its entries. In
both orders it holds at each listed path what the data of that write does without its tombstones, so that neither
write loses what the other one set or brings back what the other one removed. -/
theorem write_disjoint_paths_comm (store : Store) (collection id : String) {data other : Document}
    (paths others : List String) (oldProper : (store.content collection id).Proper) (proper : data.Proper)
    (otherProper : other.Proper) (apart : Disjoint paths others) :
    ∃ result swapped,
      ((store.write collection id data (.mergePaths paths)).write collection id other
        (.mergePaths others)).document? collection id = some result ∧
      ((store.write collection id other (.mergePaths others)).write collection id data
        (.mergePaths paths)).document? collection id = some swapped ∧
      result.Alike swapped ∧
      (∀ path ∈ paths, lookup? result path = lookup? (strippedEntries data) path ∧
        lookup? swapped path = lookup? (strippedEntries data) path) ∧
      (∀ path ∈ others, lookup? result path = lookup? (strippedEntries other) path ∧
        lookup? swapped path = lookup? (strippedEntries other) path) := by
  have applied (source document : Document) (list : List String) :
      (WriteMode.mergePaths list).apply document source = takePaths source document list := rfl
  simp only [document?_write, content_write, applied]
  refine ⟨_, _, rfl, rfl, ?_, ?_, ?_⟩
  · have first := proper_takePaths otherProper (proper_takePaths proper oldProper paths) others
    have second := proper_takePaths proper (proper_takePaths otherProper oldProper others) paths
    exact Value.alike_of_heads first second (heads_takePaths_comm proper otherProper apart _)
  · intro path member
    simp only [lookup?_eq]
    exact ⟨takePaths_agrees_apart proper otherProper apart member _, takePaths_agrees proper member _⟩
  · intro path member
    simp only [lookup?_eq]
    exact ⟨takePaths_agrees otherProper member _, takePaths_agrees_apart otherProper proper apart.symm member _⟩

/-- One write sets below a scalar and the other takes out below the same scalar. -/
theorem write_disjoint_paths_comm_siblings :
    ∃ result swapped,
      (((empty.put "users" "ada" [("a", .int 7)]).write "users" "ada" [("a", .mapping [("b", .int 1)])]
        (.mergePaths ["a.b"])).write "users" "ada" [("a", .mapping [("c", .delete)])]
          (.mergePaths ["a.c", "z"])).document? "users" "ada" = some result ∧
      (((empty.put "users" "ada" [("a", .int 7)]).write "users" "ada" [("a", .mapping [("c", .delete)])]
        (.mergePaths ["a.c", "z"])).write "users" "ada" [("a", .mapping [("b", .int 1)])]
          (.mergePaths ["a.b"])).document? "users" "ada" = some swapped ∧
      result.Alike swapped ∧ Document.lookup? result "a.b" = some (.int 1) ∧
      Document.lookup? swapped "a.b" = some (.int 1) ∧ Document.lookup? swapped "a.c" = none := by
  have old : ((empty.put "users" "ada" [("a", .int 7)]).content "users" "ada").Proper := by
    rw [content, document?_put]
    simp [Document.Proper, Value.Proper, EntriesProper, Entries.Distinct, Entries.keys]
  have first : Document.Proper [("a", .mapping [("b", .int 1)])] := by
    simp [Document.Proper, Value.Proper, EntriesProper, Entries.Distinct, Entries.keys]
  have second : Document.Proper [("a", .mapping [("c", .delete)])] := by
    simp [Document.Proper, Value.Proper, EntriesProper, Entries.Distinct, Entries.keys]
  obtain ⟨result, swapped, one, two, alike, set, gone⟩ :=
    write_disjoint_paths_comm (empty.put "users" "ada" [("a", .int 7)]) "users" "ada" ["a.b"]
      ["a.c", "z"] old first second (by unfold Document.Disjoint; decide)
  exact ⟨result, swapped, one, two, alike, (set "a.b" (by decide)).1.trans rfl, (set "a.b" (by decide)).2.trans rfl,
    (gone "a.c" (by decide)).2.trans rfl⟩

end Store

end TaggedRecords
