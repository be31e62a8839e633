import TaggedRecords.DocumentPath
import TaggedRecords.Rule
import TaggedRecords.ValueOrder

/-!
# Queries

What a query asks for, the faults of the store, and the documents that a query finds among given ones, in its
order and within its window.
-/

namespace TaggedRecords

/-- Why a store operation came to no result. -/
inductive StoreFault where
  | notFound (collection id : String)
  | alreadyExists (collection id : String)
  | unsupported (what : String)
  | validation (fault : Fault)
  | decode (reason : String)
  /-- No fault that is returned: many documents are sorted by a comparison that is no total order. That is where sorting
  may panic, and if it does not then nothing says in which order it leaves them. -/
  | unsettledOrder

namespace StoreFault

/-- What the fault says. -/
def message : StoreFault → String
  | notFound collection id => "document `" ++ id ++ "` not found in `" ++ collection ++ "`"
  | alreadyExists collection id => "document `" ++ id ++ "` already exists in `" ++ collection ++ "`"
  | unsupported what => "unsupported operation: " ++ what
  | validation fault => fault.message
  | decode reason => "failed to decode document: " ++ reason
  | unsettledOrder => "user-provided comparison function does not correctly implement a total order"

/-- The code that programs tell faults apart by. -/
def code : StoreFault → String
  | notFound _ _ => "NOT_FOUND"
  | alreadyExists _ _ => "ALREADY_EXISTS"
  | unsupported _ => "UNSUPPORTED"
  | validation _ => "VALIDATION"
  | decode _ => "DECODE"
  | unsettledOrder => "PANIC"

end StoreFault

/-! ## Parts of a query -/

/-- The direction of an order clause. -/
inductive Direction where
  | ascending
  | descending
deriving DecidableEq

/-- How a filter compares the value at its path with its operand. -/
inductive FilterOp where
  | equal | notEqual | less | atMost | greater | atLeast | oneOf | noneOf | contains | containsAny
deriving DecidableEq

namespace FilterOp

/-- All operators. -/
def all : List FilterOp :=
  [equal, notEqual, less, atMost, greater, atLeast, oneOf, noneOf, contains, containsAny]

/-- The sign of an operator. -/
def text : FilterOp → String
  | equal => "=="
  | notEqual => "!="
  | less => "<"
  | atMost => "<="
  | greater => ">"
  | atLeast => ">="
  | oneOf => "in"
  | noneOf => "not-in"
  | contains => "array-contains"
  | containsAny => "array-contains-any"

/-- The operator with a sign. -/
def ofText (sign : String) : Except StoreFault FilterOp :=
  match all.find? fun op => op.text == sign with
  | some op => .ok op
  | none => .error (.unsupported ("filter operator `" ++ sign ++ "`"))

end FilterOp

/-- A condition on the value at a path. -/
structure Filter where
  path : String
  op : FilterOp
  operand : Value

/-- A path to order by. -/
structure OrderClause where
  path : String
  direction : Direction

/-- Where a cursor stands. -/
inductive CursorKind where
  | startAt | startAfter | endBefore | endAt
deriving DecidableEq

/-- A position in the order, given by values for the order clauses. -/
structure Cursor where
  kind : CursorKind
  values : List Value

/-- How many documents are kept, from the front or from the end. -/
inductive Limit where
  | first (count : Nat)
  | last (count : Nat)
deriving DecidableEq

/-- What a query asks for. Without ids every document may match. -/
structure Query where
  ids : List String := []
  filters : List Filter := []
  ordering : List OrderClause := []
  start : Option Cursor := none
  finish : Option Cursor := none
  limit : Option Limit := none
  offset : Nat := 0

namespace Query

/-- Also lists these ids. -/
def addIds (query : Query) (ids : List String) : Query := { query with ids := query.ids ++ ids }

/-- Also wants a condition to hold. -/
def addFilter (query : Query) (path : String) (op : FilterOp) (operand : Value) : Query :=
  { query with filters := query.filters ++ [⟨path, op, operand⟩] }

/-- Orders by a path where the clauses before leave a tie. -/
def orderBy (query : Query) (path : String) (direction : Direction) : Query :=
  { query with ordering := query.ordering ++ [⟨path, direction⟩] }

/-- Sets the cursor for the start or for the end, as its kind says. -/
def addCursor (query : Query) (kind : CursorKind) (values : List Value) : Query :=
  match kind with
  | .startAt => { query with start := some ⟨kind, values⟩ }
  | .startAfter => { query with start := some ⟨kind, values⟩ }
  | .endBefore => { query with finish := some ⟨kind, values⟩ }
  | .endAt => { query with finish := some ⟨kind, values⟩ }

end Query

/-! ## Finding -/

/-- Whether an order of field and operand is one that the operator wants; there may be none. -/
def ordered (order : Option Ordering) (accept : Ordering → Bool) : Bool := order.any accept

/-- Whether a value at a filter's path fulfils the filter. -/
def Filter.accepts (filter : Filter) (value : Value) : Bool :=
  match filter.op with
  | .equal => value.equals filter.operand
  | .notEqual => !value.equals filter.operand
  | .less => ordered (value.order? filter.operand) fun order => order == .lt
  | .atMost => ordered (value.order? filter.operand) fun order => order != .gt
  | .greater => ordered (value.order? filter.operand) fun order => order == .gt
  | .atLeast => ordered (value.order? filter.operand) fun order => order != .lt
  | .oneOf => filter.operand.items.any fun item => value.equals item
  | .noneOf => !filter.operand.items.any fun item => value.equals item
  | .contains => value.items.any fun item => item.equals filter.operand
  | .containsAny => value.items.any fun item => filter.operand.items.any fun other => item.equals other

/-- Whether a document has a value at the filter's path that fulfils it. -/
def Filter.matches (filter : Filter) (document : Document) : Bool :=
  (Document.lookup? document filter.path).any filter.accepts

/-- Whether a document with its id is one that the query asks for. -/
def Query.matches (query : Query) (stored : String × Document) : Bool :=
  (query.ids.isEmpty || query.ids.contains stored.1) &&
    query.filters.all (fun filter => filter.matches stored.2) &&
    query.ordering.all fun clause => (Document.lookup? stored.2 clause.path).isSome

/-- The order that one clause puts two documents in. -/
def OrderClause.order (clause : OrderClause) (a b : Document) : Ordering :=
  let ascending := Value.orderPresent (Document.lookup? a clause.path) (Document.lookup? b clause.path)
  match clause.direction with
  | .ascending => ascending
  | .descending => ascending.swap

/-- The order of two documents: the first clause that tells them apart, or else their ids. -/
def orderStored (ordering : List OrderClause) (a b : String × Document) : Ordering :=
  match ordering with
  | [] => compare a.1 b.1
  | clause :: rest => (clause.order a.2 b.2).then (orderStored rest a b)

/-- Puts an item behind all that do not come after it, in a list with the last item first. -/
def insertLast {α : Type} (order : α → α → Ordering) (item : α) : List α → List α
  | [] => [item]
  | last :: rest =>
    if order item last = .lt then last :: insertLast order item rest else item :: last :: rest

/-- The items inserted one after the other; items in no order of each other keep their places. -/
def sortByInsertion {α : Type} (order : α → α → Ordering) (items : List α) : List α :=
  (items.foldl (fun sorted item => insertLast order item sorted) []).reverse

/-- Whether the comparison is a total preorder on the items: it turns with its arguments, and what does not come after
an item does not come after what this one does not come after. -/
def isTotalOn {α : Type} (order : α → α → Ordering) (items : List α) : Bool :=
  items.all fun a => items.all fun b => order a b == (order b a).swap &&
    items.all fun c => !(order a b).isLE || !(order b c).isLE || (order a c).isLE

/-- So many items are sorted by insertion, whatever the comparison. -/
def insertionLimit : Nat := 20

/-- The items in order; items in no order of each other keep their places. If there are more than the limit the way they
are sorted is left open, and there is a result only if all ways come to the same: the comparison must be a total
preorder on them. -/
def sortItems? {α : Type} (order : α → α → Ordering) (items : List α) : Option (List α) :=
  if items.length ≤ insertionLimit || isTotalOn order items then some (sortByInsertion order items) else none

/-- What the offset and the limit leave of a list. -/
def Query.window {α : Type} (query : Query) (items : List α) : List α :=
  let rest := items.drop query.offset
  match query.limit with
  | some (.first count) => rest.take count
  | some (.last count) => rest.drop (rest.length - count)
  | none => rest

/-- The documents that a query finds. Cursors are refused, and an order that leaves the sorting open has no result. -/
def Query.select (query : Query) (documents : List (String × Document)) :
    Except StoreFault (List (String × Document)) :=
  if query.start.isSome || query.finish.isSome then .error (.unsupported "query cursors in the memory store")
  else
    match sortItems? (orderStored query.ordering) (documents.filter query.matches) with
    | some sorted => .ok (query.window sorted)
    | none => .error .unsettledOrder

end TaggedRecords
