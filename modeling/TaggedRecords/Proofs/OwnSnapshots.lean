import TaggedRecords.Proofs.Positions
import TaggedRecords.Proofs.SettledContent

/-!
# Own snapshots

Writing the snapshot of a part over that part changes nothing that is seen, if no record stands inside a sequence or a
mapping there: containers are rebuilt with the same snapshot, and the fields of a record are written one by one.
-/

namespace TaggedRecords

/-! ## Values whose records stand free -/

mutual

/-- No record stands in a sequence or a mapping of the value. -/
def Value.Loose : Value → Prop
  | .sequence items => ItemsRecordless items
  | .mapping entries => EntriesRecordless entries
  | .record _ fields => FieldsLoose fields
  | .null => True
  | .bool _ => True
  | .int _ => True
  | .uint _ => True
  | .float _ => True
  | .string _ => True
  | .bytes _ => True
  | .time _ => True
  | .delete => True

/-- No record stands in a sequence or a mapping of the fields. -/
def FieldsLoose : List (String × Value) → Prop
  | [] => True
  | (_, value) :: rest => value.Loose ∧ FieldsLoose rest

end

section
variable {catalog : Catalog}

/-! ## Writing a whole content -/

/-- The write succeeded and the content shows the value. -/
def Written.Shows (catalog : Catalog) (written : Written Data) (value : Value) : Prop :=
  written.fault = none ∧ written.content.snapshot catalog = value

theorem replaced_shows {type : FieldType} {value : Value} (restores : type.Restores catalog value) (old : Data) :
    (replaced type old value).Shows catalog value := by
  obtain ⟨again, read, same⟩ := restores
  rw [replaced, read]
  exact ⟨rfl, same⟩

mutual

/-- Settled content shows its snapshot after that has been written over it. -/
theorem Data.writeAt_own_snapshot : ∀ {data : Data} {type : FieldType}, data.Fits catalog type →
    data.Settled catalog type → (data.snapshot catalog).Loose →
    (data.writeAt catalog type [] (data.snapshot catalog)).Shows catalog (data.snapshot catalog)
  | .bool _, _, fits, settled, _ | .int _, _, fits, settled, _ | .uint _, _, fits, settled, _
  | .float _, _, fits, settled, _ | .string _, _, fits, settled, _ | .bytes _, _, fits, settled, _
  | .time _, _, fits, settled, _ => replaced_shows (Data.restores_snapshot fits settled trivial) _
  | .sequence _, _, fits, settled, loose | .mapping _, _, fits, settled, loose =>
    replaced_shows (Data.restores_snapshot fits settled loose) _
  | .none, _, _, _, _ => ⟨rfl, rfl⟩
  | .some inner, type, ⟨under, layer, fits⟩, settled, loose => by
    have below := (Data.settled_some layer).mp settled
    by_cases absent : inner.snapshot catalog = .null
    · simp only [Data.snapshot, absent, Data.writeAt, List.isEmpty_nil, Value.isNull, Bool.and_self, if_true]
      exact ⟨rfl, rfl⟩
    · obtain ⟨passes, shows⟩ := Data.writeAt_own_snapshot fits below loose
      rw [Data.snapshot, Data.writeAt_layer layer absent]
      exact ⟨passes, shows⟩
  | .record recordType fields, type, ⟨_, fit⟩, settled, loose => by
    obtain ⟨passes, shows⟩ := assignFields_own_snapshot fit settled loose
    simp only [Data.snapshot, Data.writeAt, if_true]
    exact ⟨passes, congrArg (Value.record recordType) shows⟩
  | .hidden, _, fits, _, _ => fits.elim

/-- So do the fields of a record. -/
theorem assignFields_own_snapshot : ∀ {fields : List Data} {decls : List FieldDecl}, FieldsFit catalog fields decls →
    FieldsSettled catalog fields decls → FieldsLoose (snapshotFields catalog decls fields) →
    (assignFields catalog decls fields ((snapshotFields catalog decls fields).map Prod.snd)).fault = none ∧
      snapshotFields catalog decls
        (assignFields catalog decls fields ((snapshotFields catalog decls fields).map Prod.snd)).content =
      snapshotFields catalog decls fields
  | [], [], _, _, _ => ⟨rfl, rfl⟩
  | field :: rest, decl :: decls, ⟨here, fit⟩, ⟨settled, below⟩, ⟨loose, others⟩ => by
    obtain ⟨passes, shows⟩ := assignFields_own_snapshot fit below others
    rw [snapshotFields, List.map_cons, assignFields]
    cases hidden : decl.isHidden with
    | true =>
      rw [if_pos rfl]
      exact ⟨passes, congrArg (_ :: ·) shows⟩
    | false =>
      have fits : field.Fits catalog decl.type := by simpa [hidden] using here
      obtain ⟨written, same⟩ := Data.writeAt_own_snapshot fits (settled hidden) loose
      simp only [Bool.false_eq_true, if_false, written]
      refine ⟨passes, ?_⟩
      simp only [Written.map, snapshotFields, same, shows]

end

end

end TaggedRecords
