/-!
# Entries: mappings in order of arrival

Lists of keyed items in which a key keeps the place it first took. Documents, mapping values, registries and
contexts are entries. The laws say what reading, writing and erasing one key do to every other.
-/

namespace TaggedRecords

/-- Keyed items in order of arrival. -/
abbrev Entries (α : Type) := List (String × α)

namespace Entries
variable {α β : Type}

/-- The item under a key. -/
def get? : Entries α → String → Option α
  | [], _ => none
  | (k, a) :: rest, key => if k = key then some a else get? rest key

/-- Whether an item stands under the key. -/
def contains (entries : Entries α) (key : String) : Bool := (get? entries key).isSome

/-- Puts an item under a key, in the key's old place or at the end. -/
def insert : Entries α → String → α → Entries α
  | [], key, a => [(key, a)]
  | (k, b) :: rest, key, a => if k = key then (k, a) :: rest else (k, b) :: insert rest key a

/-- Takes a key out; the others keep their order. -/
def erase : Entries α → String → Entries α
  | [], _ => []
  | (k, b) :: rest, key => if k = key then erase rest key else (k, b) :: erase rest key

/-- The entries after the pairs arrived one by one: a repeated key keeps its place and takes the last item. -/
def ofList (pairs : List (String × α)) : Entries α :=
  pairs.foldl (fun entries pair => insert entries pair.1 pair.2) []

/-- The keys in order. -/
def keys (entries : Entries α) : List String := entries.map Prod.fst

/-- No key stands twice. -/
def Distinct (entries : Entries α) : Prop := (keys entries).Nodup

/-! ## Entries ordered by key -/

/-- Puts an item before the first larger key; an equal key takes the new item. -/
def insertByKey : Entries α → String → α → Entries α
  | [], key, a => [(key, a)]
  | (k, b) :: rest, key, a =>
    if key < k then (key, a) :: (k, b) :: rest
    else if key = k then (key, a) :: rest
    else (k, b) :: insertByKey rest key a

/-- The pairs ordered by key; a repeated key takes the last item. -/
def sortByKey (pairs : List (String × α)) : Entries α :=
  pairs.foldl (fun entries pair => insertByKey entries pair.1 pair.2) []

/-! ## Reading after writing -/

@[simp] theorem get?_nil (key : String) : get? ([] : Entries α) key = none := rfl

theorem get?_cons (k key : String) (a : α) (rest : Entries α) :
    get? ((k, a) :: rest) key = if k = key then some a else get? rest key := rfl

theorem get?_insert (entries : Entries α) (key other : String) (a : α) :
    get? (insert entries key a) other = if key = other then some a else get? entries other := by
  induction entries with
  | nil => simp [insert, get?]
  | cons head rest ih =>
    obtain ⟨k, b⟩ := head
    by_cases here : k = key <;> by_cases there : k = other <;> by_cases same : key = other <;>
      simp_all [insert, get?_cons]

theorem get?_erase (entries : Entries α) (key other : String) :
    get? (erase entries key) other = if key = other then none else get? entries other := by
  induction entries with
  | nil => simp [erase]
  | cons head rest ih =>
    obtain ⟨k, b⟩ := head
    by_cases here : k = key <;> by_cases there : k = other <;> by_cases same : key = other <;>
      simp_all [erase, get?_cons]

end Entries

end TaggedRecords
