import TaggedRecords.Proofs.KeyPaths

/-!
# Stripping documents of tombstones

What stands under a key and behind keys once tombstones are taken out of the mappings of a document.
-/

namespace TaggedRecords

/-- What stripping leaves of the value of an entry. -/
def Value.kept? (value : Value) : Option Value := if value.isDelete then none else some value.stripped

theorem Value.isDelete_iff {value : Value} : value.isDelete = true ↔ value = .delete := by
  cases value <;> simp [Value.isDelete]

theorem Value.kept?_of_ne {value : Value} (solid : value ≠ .delete) : value.kept? = some value.stripped := by
  have stays : value.isDelete = false := Bool.eq_false_iff.mpr fun gone => solid (Value.isDelete_iff.mp gone)
  simp [Value.kept?, stays]

theorem keys_strippedEntries_subset {entries : List (String × Value)} {key : String}
    (member : key ∈ Entries.keys (strippedEntries entries)) : key ∈ Entries.keys entries := by
  induction entries with
  | nil => exact member
  | cons entry rest ih =>
    obtain ⟨k, value⟩ := entry
    rw [strippedEntries] at member
    split at member
    · exact List.mem_cons_of_mem _ (ih member)
    · rcases List.mem_cons.mp member with same | later
      · exact List.mem_cons.mpr (.inl same)
      · exact List.mem_cons_of_mem _ (ih later)

theorem distinct_strippedEntries {entries : List (String × Value)} (distinct : Entries.Distinct entries) :
    Entries.Distinct (strippedEntries entries) := by
  induction entries with
  | nil => exact distinct
  | cons entry rest ih =>
    obtain ⟨k, value⟩ := entry
    obtain ⟨fresh, below⟩ := List.nodup_cons.mp (show (k :: Entries.keys rest).Nodup from distinct)
    rw [strippedEntries]
    split
    · exact ih below
    · exact List.nodup_cons.mpr ⟨fun member => fresh (keys_strippedEntries_subset member), ih below⟩

/-- Under a key stands what stripping leaves of the value there. -/
theorem get?_strippedEntries {entries : List (String × Value)} (distinct : Entries.Distinct entries) (key : String) :
    Entries.get? (strippedEntries entries) key = (Entries.get? entries key).bind Value.kept? := by
  induction entries with
  | nil => rfl
  | cons entry rest ih =>
    obtain ⟨k, value⟩ := entry
    obtain ⟨fresh, below⟩ := List.nodup_cons.mp (show (k :: Entries.keys rest).Nodup from distinct)
    rw [strippedEntries, Entries.get?_cons]
    by_cases here : k = key
    · cases gone : value.isDelete with
      | true =>
        have absent : Entries.get? rest key = none := Entries.get?_eq_none_iff.mpr (here ▸ fresh)
        simp [here, ih below, absent, Value.kept?, gone]
      | false => simp [here, Value.kept?, gone, Entries.get?_cons]
    · cases gone : value.isDelete with
      | true => simp [here, ih below]
      | false => simp [here, ih below, Entries.get?_cons]

mutual

theorem Value.proper_stripped : ∀ {value : Value}, value.Proper → value.stripped.Proper
  | .mapping _, ⟨distinct, proper⟩ => ⟨distinct_strippedEntries distinct, entriesProper_stripped proper⟩
  | .sequence _, proper | .record _ _, proper => proper
  | .null, _ | .bool _, _ | .int _, _ | .uint _, _ | .float _, _ | .string _, _ | .bytes _, _ | .time _, _
  | .delete, _ => trivial

theorem entriesProper_stripped : ∀ {entries : List (String × Value)}, EntriesProper entries →
    EntriesProper (strippedEntries entries)
  | [], _ => trivial
  | (_, value) :: rest, ⟨head, tail⟩ => by
    rw [strippedEntries]
    split
    · exact entriesProper_stripped tail
    · exact ⟨Value.proper_stripped head, entriesProper_stripped tail⟩

end

/-- Behind keys stands what stripping leaves of the value there. -/
theorem Value.at?_stripped {value : Value} (proper : value.Proper) {keys : List String} (nonempty : keys ≠ []) :
    value.stripped.at? keys = (value.at? keys).bind Value.kept? := by
  induction keys generalizing value with
  | nil => exact absurd rfl nonempty
  | cons key rest ih =>
    cases value with
    | mapping entries =>
      simp only [Value.stripped, at?_mapping_cons, get?_strippedEntries proper.1]
      cases found : Entries.get? entries key with
      | none => rfl
      | some inner =>
        have innerProper : inner.Proper := proper_of_get? proper.2 found
        cases rest with
        | nil => simp
        | cons next more =>
          cases gone : inner.isDelete with
          | true =>
            have tombstone : inner = .delete := isDelete_iff.mp gone
            simp [Value.kept?, tombstone, Value.isDelete, Value.at?]
          | false => simpa [Value.kept?, gone] using ih innerProper (by simp)
    | _ => rfl

end TaggedRecords
