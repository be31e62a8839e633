import TaggedRecords.Pieces
import TaggedRecords.Value

/-!
# Paths into documents and merging

Reading, setting and removing the value at a path of keys, taking tombstones out, and merging one document into
another.
-/

namespace TaggedRecords

namespace Document

/-- The keys that a path with dots between them names. -/
def keysOf (path : String) : List String := pieces '.' path

/-- The value behind keys, each but the last leading into a mapping. -/
def at? : Document → List String → Option Value
  | _, [] => none
  | document, [key] => Entries.get? document key
  | document, key :: rest =>
    match Entries.get? document key with
    | some (.mapping entries) => at? entries rest
    | _ => none

/-- The value at a path. -/
def lookup? (document : Document) (path : String) : Option Value := at? document (keysOf path)

end Document

/-! ## Tombstones -/

mutual

/-- The value without the tombstones in its mappings, mappings inside mappings included. -/
def Value.stripped : Value → Value
  | .mapping entries => .mapping (strippedEntries entries)
  | other => other

/-- The entries without tombstones. -/
def strippedEntries : List (String × Value) → List (String × Value)
  | [] => []
  | (key, value) :: rest =>
    if value.isDelete then strippedEntries rest else (key, value.stripped) :: strippedEntries rest

end

/-! ## Merging -/

mutual

/-- Merges entries into a document one by one. -/
def mergeEntries (document : Document) : List (String × Value) → Document
  | [] => document
  | (key, value) :: rest => mergeEntries (mergeValue document key value) rest

/-- Merges one value under a key: a tombstone takes the key out, a mapping is merged into the mapping that
stands there or takes the place of what else does, any other value is put there. -/
def mergeValue (document : Document) (key : String) : Value → Document
  | .delete => Entries.erase document key
  | .mapping entries =>
    match Entries.get? document key with
    | some (.mapping current) => Entries.insert document key (.mapping (mergeEntries current entries))
    | some _ => Entries.insert document key (.mapping (strippedEntries entries))
    | none => Entries.insert document key (.mapping (mergeEntries [] entries))
  | other => Entries.insert document key other

end

namespace Document

/-- Puts a value behind keys; what is no mapping on the way gives way to one. -/
def setAt : Document → List String → Value → Document
  | document, [], _ => document
  | document, [key], value => Entries.insert document key value.stripped
  | document, key :: rest, value =>
    let inner := match Entries.get? document key with
      | some (.mapping entries) => entries
      | _ => []
    Entries.insert document key (.mapping (setAt inner rest value))

/-- Takes out the value behind keys, if they lead through mappings. -/
def removeAt : Document → List String → Document
  | document, [] => document
  | document, [key] => Entries.erase document key
  | document, key :: rest =>
    match Entries.get? document key with
    | some (.mapping inner) => Entries.insert document key (.mapping (removeAt inner rest))
    | _ => document

/-- Takes one path over from new data: its value is set, or removed if the data has none or a tombstone. -/
def takePath (data document : Document) (path : String) : Document :=
  match lookup? data path with
  | some .delete => removeAt document (keysOf path)
  | some value => setAt document (keysOf path) value
  | none => removeAt document (keysOf path)

end Document

end TaggedRecords
