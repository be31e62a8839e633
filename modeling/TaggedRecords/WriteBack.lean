import TaggedRecords.RecordData

/-!
# Writing values back

Replaces the part of a content that a path of segments leads to by the content that a value denotes. Optional
layers and boxes take no segment. A failed write changes nothing, except that a record assigned as a whole
keeps the fields assigned before the first that fails.
-/

namespace TaggedRecords

/-- A content after a write, and why the write failed if it did. -/
structure Written (α : Type) where
  content : α
  fault : Option ValueFault

namespace Written
variable {α β : Type}

/-- A write that succeeded. -/
def done (content : α) : Written α := ⟨content, .none⟩

/-- A write that failed and left this content. -/
def failed (content : α) (fault : ValueFault) : Written α := ⟨content, .some fault⟩

/-- The same write seen in a larger content. -/
def map (f : α → β) (written : Written α) : Written β := ⟨f written.content, written.fault⟩

end Written

/-- The content that a value denotes for the type, in place of the old one. -/
def replaced (type : FieldType) (old : Data) (value : Value) : Written Data :=
  match type.ofValue value with
  | .ok content => .done content
  | .error fault => .failed old fault

/-- The type under an optional layer. -/
def FieldType.optionInner : FieldType → FieldType
  | .optional inner => inner
  | other => other

/-- The type of a container's elements. -/
def FieldType.containerElement : FieldType → FieldType
  | .sequence element => element
  | .map _ element => element
  | other => other

mutual

/-- Writes a value at a path below the content of a type. -/
def Data.writeAt (catalog : Catalog) (type : FieldType) : Data → List Segment → Value → Written Data
  | .none, [], value =>
    if value.isNull then .done .none
    else
      match type.unboxed.optionInner.ofValue value with
      | .ok content => .done (.some content)
      | .error fault => .failed .none fault
  | .none, segment :: _, _ => .failed .none (.missingElement segment.text)
  | .some inner, path, value =>
    if path.isEmpty && value.isNull then .done .none
    else (inner.writeAt catalog type.unboxed.optionInner path value).map .some
  | .sequence items, [], value => replaced type (.sequence items) value
  | .sequence items, .index place :: path, value =>
    match writeItem catalog type.unboxed.containerElement items place path value with
    | .some written => written.map .sequence
    | .none => .failed (.sequence items) (.missingElement (Segment.index place).text)
  | .sequence items, segment :: _, _ =>
    .failed (.sequence items) (.unexpectedSegment segment.text type.descriptor.text)
  | .mapping entries, [], value => replaced type (.mapping entries) value
  | .mapping entries, .key name :: path, value =>
    match writeEntry catalog type.unboxed.containerElement entries name path value with
    | .some written => written.map .mapping
    | .none => .failed (.mapping entries) (.missingElement (Segment.key name).text)
  | .mapping entries, segment :: _, _ =>
    .failed (.mapping entries) (.unexpectedSegment segment.text type.descriptor.text)
  | .record recordType fields, [], value =>
    match value with
    | .record valueType values =>
      if valueType = recordType then
        (assignFields catalog (catalog.fields recordType) fields (values.map Prod.snd)).map (.record recordType)
      else .failed (.record recordType fields) (.kindMismatch (Descriptor.record recordType).text value.kind)
    | other => .failed (.record recordType fields) (.kindMismatch (Descriptor.record recordType).text other.kind)
  | .record recordType fields, .field place :: path, value =>
    match writeField catalog (Segment.field place).text (catalog.fields recordType) fields place path value with
    | .some written => written.map (.record recordType)
    | .none => .failed (.record recordType fields)
        (.unexpectedSegment (Segment.field place).text (Descriptor.record recordType).text)
  | .record recordType fields, segment :: _, _ =>
    .failed (.record recordType fields) (.unexpectedSegment segment.text (Descriptor.record recordType).text)
  | other, [], value => replaced type other value
  | other, segment :: _, _ => .failed other (.unexpectedSegment segment.text type.descriptor.text)

/-- Writes below the item at a place, if there is one. -/
def writeItem (catalog : Catalog) (element : FieldType) :
    List Data → Nat → List Segment → Value → Option (Written (List Data))
  | [], _, _, _ => .none
  | item :: rest, 0, path, value => .some ((item.writeAt catalog element path value).map (· :: rest))
  | item :: rest, place + 1, path, value =>
    (writeItem catalog element rest place path value).map fun written => written.map (item :: ·)

/-- Writes below the entry under a key, if there is one. -/
def writeEntry (catalog : Catalog) (element : FieldType) :
    List (String × Data) → String → List Segment → Value → Option (Written (List (String × Data)))
  | [], _, _, _ => .none
  | (key, item) :: rest, name, path, value =>
    if key = name then .some ((item.writeAt catalog element path value).map fun item => (key, item) :: rest)
    else (writeEntry catalog element rest name path value).map fun written => written.map ((key, item) :: ·)

/-- Writes below the field at a place, if it is declared; a hidden field cannot be written, and the failure
names the segment that led to it. -/
def writeField (catalog : Catalog) (segment : String) :
    List FieldDecl → List Data → Nat → List Segment → Value → Option (Written (List Data))
  | decl :: _, field :: rest, 0, path, value =>
    if decl.isHidden then
      .some (.failed (field :: rest) (.unexpectedSegment segment (Descriptor.unsupported "field").text))
    else .some ((field.writeAt catalog decl.type path value).map (· :: rest))
  | _ :: decls, field :: rest, place + 1, path, value =>
    (writeField catalog segment decls rest place path value).map fun written => written.map (field :: ·)
  | _, _, _, _, _ => .none

/-- Assigns values to the fields in order until the values end or an assignment fails; a hidden field passes
its value over. -/
def assignFields (catalog : Catalog) : List FieldDecl → List Data → List Value → Written (List Data)
  | decl :: decls, field :: rest, value :: values =>
    if decl.isHidden then (assignFields catalog decls rest values).map (field :: ·)
    else
      let written := field.writeAt catalog decl.type [] value
      match written.fault with
      | .none => (assignFields catalog decls rest values).map (written.content :: ·)
      | .some fault => .failed (written.content :: rest) fault
  | _, fields, _ => .done fields

end

/-- The fields of a record's content. -/
def Data.fields : Data → List Data
  | .record _ fields => fields
  | _ => []

/-- Writes a value at a path below a record. -/
def TypedRecord.writeAt (catalog : Catalog) (record : TypedRecord) (path : List Segment) (value : Value) :
    Written TypedRecord :=
  (record.toData.writeAt catalog (.record record.type) path value).map fun content =>
    ⟨record.type, content.fields⟩

end TaggedRecords
