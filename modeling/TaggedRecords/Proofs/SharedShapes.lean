import Mathlib.Data.List.Forall2
import TaggedRecords.WriteBack

/-!
# Catalogs of the same shapes

Two catalogs may tag the fields of their record types differently and still declare the same names and types. Then
snapshots of content and writes into it are the same under both.
-/

namespace TaggedRecords

/-- The declarations differ in their tags, if at all. -/
def FieldDecl.SharesShape (decl other : FieldDecl) : Prop := other.name = decl.name ∧ other.type = decl.type

/-- For every record type both catalogs declare fields of the same names and types. -/
def Catalog.SharesShapes (catalog other : Catalog) : Prop :=
  ∀ type, List.Forall₂ FieldDecl.SharesShape (catalog.fields type) (other.fields type)

theorem FieldDecl.SharesShape.isHidden {decl other : FieldDecl} (shares : decl.SharesShape other) :
    other.isHidden = decl.isHidden := by
  rw [FieldDecl.isHidden, FieldDecl.descriptor, shares.2]
  rfl

variable {catalog other : Catalog}

/-! ## Snapshots -/

mutual

theorem Data.snapshot_congr (shares : catalog.SharesShapes other) :
    ∀ data : Data, data.snapshot other = data.snapshot catalog
  | .bool _ | .int _ | .uint _ | .float _ | .string _ | .bytes _ | .time _ | .none | .hidden => rfl
  | .some inner => inner.snapshot_congr shares
  | .sequence items => congrArg Value.sequence (snapshotItems_congr shares items)
  | .mapping entries => congrArg Value.mapping (snapshotEntries_congr shares entries)
  | .record type fields => congrArg (Value.record type) (snapshotFields_shared shares fields (shares type))

theorem snapshotItems_congr (shares : catalog.SharesShapes other) :
    ∀ items : List Data, snapshotItems other items = snapshotItems catalog items
  | [] => rfl
  | item :: rest => congrArg₂ List.cons (item.snapshot_congr shares) (snapshotItems_congr shares rest)

theorem snapshotEntries_congr (shares : catalog.SharesShapes other) :
    ∀ entries : List (String × Data), snapshotEntries other entries = snapshotEntries catalog entries
  | [] => rfl
  | (key, item) :: rest =>
    congrArg₂ (fun value values => (key, value) :: values) (item.snapshot_congr shares)
      (snapshotEntries_congr shares rest)

theorem snapshotFields_shared (shares : catalog.SharesShapes other) :
    ∀ (fields : List Data) {decls others : List FieldDecl}, List.Forall₂ FieldDecl.SharesShape decls others →
      snapshotFields other others fields = snapshotFields catalog decls fields
  | [], _, _, .nil | [], _, _, .cons _ _ | _ :: _, _, _, .nil => rfl
  | field :: rest, _, _, .cons same later => by
    rw [snapshotFields, snapshotFields, same.1, field.snapshot_congr shares, snapshotFields_shared shares rest later]

end

theorem TypedRecord.snapshot_congr (shares : catalog.SharesShapes other) (record : TypedRecord) :
    record.snapshot other = record.snapshot catalog :=
  congrArg (RecordValue.mk record.type) (snapshotFields_shared shares record.fields (shares record.type))

/-! ## Writes -/

mutual

theorem Data.writeAt_congr (shares : catalog.SharesShapes other) :
    ∀ (data : Data) (type : FieldType) (path : List Segment) (value : Value),
      data.writeAt other type path value = data.writeAt catalog type path value
  | .bool _, _, path, _ | .int _, _, path, _ | .uint _, _, path, _ | .float _, _, path, _ | .string _, _, path, _
  | .bytes _, _, path, _ | .time _, _, path, _ | .none, _, path, _ | .hidden, _, path, _ => by cases path <;> rfl
  | .some inner, type, path, value => by rw [Data.writeAt, Data.writeAt, inner.writeAt_congr shares]
  | .sequence items, type, path, value => by
    cases path with
    | nil => rfl
    | cons segment rest =>
      cases segment with
      | index place => rw [Data.writeAt, Data.writeAt, writeItem_congr shares items]
      | _ => rfl
  | .mapping entries, type, path, value => by
    cases path with
    | nil => rfl
    | cons segment rest =>
      cases segment with
      | key name => rw [Data.writeAt, Data.writeAt, writeEntry_congr shares entries]
      | _ => rfl
  | .record recordType fields, type, path, value => by
    cases path with
    | nil =>
      cases value with
      | record valueType values =>
        rw [Data.writeAt, Data.writeAt, assignFields_congr shares fields (values.map Prod.snd) (shares recordType)]
      | _ => rfl
    | cons segment rest =>
      cases segment with
      | field place =>
        rw [Data.writeAt, Data.writeAt, writeField_congr shares fields _ place rest value (shares recordType)]
      | _ => rfl

theorem writeItem_congr (shares : catalog.SharesShapes other) :
    ∀ (items : List Data) (element : FieldType) (place : Nat) (path : List Segment) (value : Value),
      writeItem other element items place path value = writeItem catalog element items place path value
  | [], _, _, _, _ => rfl
  | item :: rest, element, 0, path, value => by rw [writeItem, writeItem, item.writeAt_congr shares]
  | item :: rest, element, place + 1, path, value => by rw [writeItem, writeItem, writeItem_congr shares rest]

theorem writeEntry_congr (shares : catalog.SharesShapes other) :
    ∀ (entries : List (String × Data)) (element : FieldType) (name : String) (path : List Segment) (value : Value),
      writeEntry other element entries name path value = writeEntry catalog element entries name path value
  | [], _, _, _, _ => rfl
  | (key, item) :: rest, element, name, path, value => by
    rw [writeEntry, writeEntry, item.writeAt_congr shares, writeEntry_congr shares rest]

theorem writeField_congr (shares : catalog.SharesShapes other) :
    ∀ (fields : List Data) (segment : String) (place : Nat) (path : List Segment) (value : Value)
      {decls others : List FieldDecl}, List.Forall₂ FieldDecl.SharesShape decls others →
      writeField other segment others fields place path value = writeField catalog segment decls fields place path value
  | [], _, _, _, _, _, _, same => by cases same <;> rfl
  | _ :: _, _, _, _, _, _, _, .nil => rfl
  | field :: rest, segment, 0, path, value, _ :: _, _ :: _, .cons same _ => by
    rw [writeField, writeField, same.isHidden, same.2, field.writeAt_congr shares]
  | field :: rest, segment, place + 1, path, value, _ :: _, _ :: _, .cons _ later => by
    rw [writeField, writeField, writeField_congr shares rest segment place path value later]

theorem assignFields_congr (shares : catalog.SharesShapes other) :
    ∀ (fields : List Data) (values : List Value) {decls others : List FieldDecl},
      List.Forall₂ FieldDecl.SharesShape decls others →
      assignFields other others fields values = assignFields catalog decls fields values
  | [], _, _, _, same => by cases same <;> rfl
  | _ :: _, _, _, _, .nil => rfl
  | _ :: _, [], _, _, .cons _ _ => rfl
  | field :: rest, value :: values, _ :: _, _ :: _, .cons same later => by
    rw [assignFields, assignFields, same.isHidden, same.2, field.writeAt_congr shares,
      assignFields_congr shares rest values later]

end

theorem TypedRecord.writeAt_congr (shares : catalog.SharesShapes other) (record : TypedRecord) (path : List Segment)
    (value : Value) : record.writeAt other path value = record.writeAt catalog path value := by
  rw [TypedRecord.writeAt, TypedRecord.writeAt, Data.writeAt_congr shares]

end TaggedRecords
