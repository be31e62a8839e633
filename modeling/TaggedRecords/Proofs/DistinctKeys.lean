import Mathlib.Data.List.Forall2
import Mathlib.Data.List.Perm.Basic
import TaggedRecords.Entries
import TaggedRecords.RecordData

/-!
# Entries with distinct keys

What a mapping says of each key, how the operations keep the keys distinct, and that putting distinct pairs
into a mapping of either order only rearranges them.
-/

namespace TaggedRecords

/-! ## Related options and lists -/

section
variable {α β : Type} {Rel : α → β → Prop} {left : Option α} {right : Option β}

theorem eq_none_of_rel_left (related : Option.Rel Rel left right) (absent : left = none) : right = none := by
  subst absent
  cases related
  rfl

theorem eq_none_of_rel_right (related : Option.Rel Rel left right) (absent : right = none) : left = none := by
  subst absent
  cases related
  rfl

theorem exists_of_rel_left (related : Option.Rel Rel left right) {a : α} (held : left = some a) :
    ∃ b, right = some b ∧ Rel a b := by
  subst held
  cases related with
  | some rel => exact ⟨_, rfl, rel⟩

theorem exists_of_rel_right (related : Option.Rel Rel left right) {b : β} (held : right = some b) :
    ∃ a, left = some a ∧ Rel a b := by
  subst held
  cases related with
  | some rel => exact ⟨_, rfl, rel⟩

end

theorem forall₂_getElem? {α β : Type} {Rel : α → β → Prop} {as : List α} {bs : List β}
    (related : List.Forall₂ Rel as bs) {place : Nat} {b : β} (held : bs[place]? = some b) :
    ∃ a, as[place]? = some a ∧ Rel a b := by
  induction related generalizing place with
  | nil => cases held
  | cons first _ ih =>
    cases place with
    | zero =>
      cases held
      exact ⟨_, rfl, first⟩
    | succ place => exact ih held

theorem forall₂_rel_getElem? {α β : Type} {Rel : α → β → Prop} {as : List α} {bs : List β}
    (related : List.Forall₂ Rel as bs) (place : Nat) : Option.Rel Rel as[place]? bs[place]? := by
  induction related generalizing place with
  | nil => exact .none
  | cons first _ ih =>
    cases place with
    | zero => exact .some first
    | succ place => exact ih place

theorem forall₂_of_getElem? {α β : Type} {Rel : α → β → Prop} {as : List α} {bs : List β}
    (length : as.length = bs.length)
    (each : ∀ (place : Nat) a b, as[place]? = some a → bs[place]? = some b → Rel a b) : List.Forall₂ Rel as bs :=
  List.forall₂_iff_get.mpr ⟨length, fun place inside alsoInside =>
    each place _ _ (List.getElem?_eq_getElem inside) (List.getElem?_eq_getElem alsoInside)⟩

/-- Pairs with the same keys in order, whose values are related place by place. -/
theorem forall₂_of_keys {κ α β : Type} {Rel : α → β → Prop} {as : List (κ × α)} {bs : List (κ × β)}
    (keys : as.map Prod.fst = bs.map Prod.fst)
    (each : ∀ (place : Nat) a b, as[place]? = some a → bs[place]? = some b → Rel a.2 b.2) :
    List.Forall₂ (fun a b => a.1 = b.1 ∧ Rel a.2 b.2) as bs := by
  have length : as.length = bs.length := by simpa using congrArg List.length keys
  refine forall₂_of_getElem? length fun place a b found alsoFound => ⟨?_, each place a b found alsoFound⟩
  have sameKey : (as.map Prod.fst)[place]? = (bs.map Prod.fst)[place]? := by rw [keys]
  simpa [found, alsoFound] using sameKey

theorem eq_of_forall₂_keyed {κ α : Type} {as bs : List (κ × α)}
    (same : List.Forall₂ (fun a b => a.1 = b.1 ∧ a.2 = b.2) as bs) : as = bs :=
  List.forall₂_eq_eq_eq ▸ same.imp fun _ _ pair => Prod.ext pair.1 pair.2

theorem forall₂_all {α β : Type} {Rel : α → β → Prop} {as : List α} {bs : List β} (related : List.Forall₂ Rel as bs)
    {p : α → Bool} {q : β → Bool} (agree : ∀ a b, Rel a b → p a = q b) : as.all p = bs.all q := by
  induction related with
  | nil => rfl
  | cons first _ ih => rw [List.all_cons, List.all_cons, agree _ _ first, ih]

theorem forall₂_mem_left {α β : Type} {Rel : α → β → Prop} {as : List α} {bs : List β}
    (related : List.Forall₂ Rel as bs) {a : α} (member : a ∈ as) : ∃ b ∈ bs, Rel a b := by
  induction related with
  | nil => cases member
  | cons first _ ih =>
    rcases List.mem_cons.mp member with rfl | later
    · exact ⟨_, List.mem_cons_self, first⟩
    · obtain ⟨b, inside, rel⟩ := ih later
      exact ⟨b, List.mem_cons_of_mem _ inside, rel⟩

end TaggedRecords

namespace TaggedRecords.Entries
variable {α β : Type}

/-! ## What stands under a key -/

theorem mem_of_get? {entries : Entries α} {key : String} {a : α} (found : get? entries key = some a) :
    (key, a) ∈ entries := by
  induction entries with
  | nil => simp at found
  | cons head rest ih =>
    obtain ⟨k, b⟩ := head
    rw [get?_cons] at found
    by_cases here : k = key
    · simp only [here, if_true, Option.some.injEq] at found
      simp [here, found]
    · rw [if_neg here] at found
      exact List.mem_cons_of_mem _ (ih found)

theorem mem_keys_of_get? {entries : Entries α} {key : String} {a : α} (found : get? entries key = some a) :
    key ∈ keys entries :=
  List.mem_map.mpr ⟨_, mem_of_get? found, rfl⟩

theorem get?_eq_none_iff {entries : Entries α} {key : String} : get? entries key = none ↔ key ∉ keys entries := by
  induction entries with
  | nil => simp [keys]
  | cons head rest ih =>
    obtain ⟨k, b⟩ := head
    have below : get? rest key = none ↔ key ∉ rest.map Prod.fst := ih
    by_cases here : k = key
    · simp [get?_cons, keys, here]
    · simp [get?_cons, keys, here, below, Ne.symm here]

theorem get?_append (left right : Entries α) (key : String) :
    get? (left ++ right) key = (get? left key <|> get? right key) := by
  induction left with
  | nil => rfl
  | cons head rest ih =>
    obtain ⟨k, a⟩ := head
    by_cases here : k = key <;> simp [get?_cons, here, ih]

theorem get?_of_mem {entries : Entries α} (distinct : Distinct entries) {key : String} {a : α}
    (member : (key, a) ∈ entries) : get? entries key = some a := by
  induction entries with
  | nil => simp at member
  | cons head rest ih =>
    obtain ⟨k, b⟩ := head
    obtain ⟨fresh, below⟩ := List.nodup_cons.mp (show ((k, b).1 :: keys rest).Nodup from distinct)
    rcases List.mem_cons.mp member with same | later
    · cases same
      simp [get?_cons]
    · have other : k ≠ key := fun same => fresh (same ▸ List.mem_map.mpr ⟨_, later, rfl⟩)
      rw [get?_cons, if_neg other]
      exact ih below later

/-- With distinct keys the order of the entries does not matter to a reader. -/
theorem get?_perm {left right : Entries α} (perm : left.Perm right) (distinct : Distinct right) (key : String) :
    get? left key = get? right key := by
  have kept : Distinct left := (perm.map Prod.fst).nodup_iff.mpr distinct
  cases found : get? left key with
  | some a => exact (get?_of_mem distinct (perm.mem_iff.mp (mem_of_get? found))).symm
  | none =>
    have absent : key ∉ keys right := fun member =>
      get?_eq_none_iff.mp found ((perm.map Prod.fst).mem_iff.mpr member)
    exact (get?_eq_none_iff.mpr absent).symm

/-! ## Entries related in place -/

theorem keys_of_forall₂ {Rel : String × α → String × β → Prop} {left : Entries α} {right : Entries β}
    (related : List.Forall₂ (fun a b => a.1 = b.1 ∧ Rel a b) left right) : keys right = keys left := by
  induction related with
  | nil => rfl
  | cons first _ ih =>
    rw [keys, keys, List.map_cons, List.map_cons, first.1]
    exact congrArg _ ih

/-- Entries related in place, each as its key asks, are so under every key. -/
theorem get?_of_forall₂_keyed (Rel : String → α → β → Prop) {left : Entries α} {right : Entries β}
    (related : List.Forall₂ (fun a b => a.1 = b.1 ∧ Rel a.1 a.2 b.2) left right) (key : String) :
    Option.Rel (Rel key) (get? left key) (get? right key) := by
  induction related with
  | nil => exact .none
  | @cons a b _ _ first _ ih =>
    obtain ⟨same, here⟩ := first
    rw [get?_cons, get?_cons, ← same]
    split
    · next asked =>
      rw [asked] at here
      exact .some here
    · exact ih

/-- Entries related in place are related under every key. -/
theorem get?_of_forall₂ {Rel : α → β → Prop} {left : Entries α} {right : Entries β}
    (related : List.Forall₂ (fun a b => a.1 = b.1 ∧ Rel a.2 b.2) left right) (key : String) :
    Option.Rel Rel (get? left key) (get? right key) :=
  get?_of_forall₂_keyed (fun _ => Rel) related key

/-- Entries related in place stay so when items related as the key asks are put under it. -/
theorem forall₂_insert (Rel : String → α → β → Prop) {left : Entries α} {right : Entries β}
    (related : List.Forall₂ (fun a b => a.1 = b.1 ∧ Rel a.1 a.2 b.2) left right) (key : String) {a : α} {b : β}
    (new : Rel key a b) :
    List.Forall₂ (fun a b => a.1 = b.1 ∧ Rel a.1 a.2 b.2) (insert left key a) (insert right key b) := by
  induction related with
  | nil => exact .cons ⟨rfl, new⟩ .nil
  | @cons first second _ _ head tail ih =>
    obtain ⟨name, old⟩ := first
    obtain ⟨_, alsoOld⟩ := second
    obtain ⟨rfl, here⟩ := head
    rw [insert, insert]
    split
    · next same => exact .cons ⟨rfl, same ▸ new⟩ tail
    · exact .cons ⟨rfl, here⟩ ih

/-- Entries made of related pairs are related in place. -/
theorem forall₂_ofList (Rel : String → α → β → Prop) {pairs : List (String × α)} {others : List (String × β)}
    (related : List.Forall₂ (fun a b => a.1 = b.1 ∧ Rel a.1 a.2 b.2) pairs others) :
    List.Forall₂ (fun a b => a.1 = b.1 ∧ Rel a.1 a.2 b.2) (ofList pairs) (ofList others) := by
  have onto (left : Entries α) (right : Entries β)
      (start : List.Forall₂ (fun a b => a.1 = b.1 ∧ Rel a.1 a.2 b.2) left right) :
      List.Forall₂ (fun a b => a.1 = b.1 ∧ Rel a.1 a.2 b.2)
        (pairs.foldl (fun entries pair => insert entries pair.1 pair.2) left)
        (others.foldl (fun entries pair => insert entries pair.1 pair.2) right) := by
    induction related generalizing left right with
    | nil => exact start
    | @cons first second _ _ head _ ih =>
      obtain ⟨key, a⟩ := first
      obtain ⟨_, b⟩ := second
      obtain ⟨rfl, here⟩ := head
      exact ih _ _ (forall₂_insert Rel start key here)
  exact onto [] [] .nil

/-! ## Reading entries out -/

/-- The entry under a key. -/
def read? (entries : Entries α) (key : String) : Option (String × α) := (get? entries key).map fun a => (key, a)

/-- Entries read out key by key are the same entries, in the order of the keys. -/
theorem readOut_perm {entries : Entries α} (distinct : Distinct entries) {order : List String}
    (same : order.Perm (keys entries)) : (order.filterMap (read? entries)).Perm entries := by
  have inPlace : (keys entries).filterMap (read? entries) = entries := by
    rw [keys, List.filterMap_map]
    have each : ∀ entry ∈ entries, (read? entries ∘ Prod.fst) entry = some entry := by
      intro entry member
      simp [read?, get?_of_mem distinct (show (entry.1, entry.2) ∈ entries from member)]
    rw [List.filterMap_congr each, List.filterMap_some]
  have perm := same.filterMap (read? entries)
  rwa [inPlace] at perm

/-! ## The operations on one key -/

theorem keys_insert (entries : Entries α) (key : String) (a : α) :
    keys (insert entries key a) = if key ∈ keys entries then keys entries else keys entries ++ [key] := by
  induction entries with
  | nil => rfl
  | cons head rest ih =>
    obtain ⟨k, b⟩ := head
    have below : (insert rest key a).map Prod.fst =
        if key ∈ rest.map Prod.fst then rest.map Prod.fst else rest.map Prod.fst ++ [key] := ih
    by_cases here : k = key
    · simp [insert, keys, here]
    · by_cases later : key ∈ rest.map Prod.fst
      · simp [insert, keys, here, below, later]
      · simp [insert, keys, here, below, later, Ne.symm here]

theorem distinct_insert {entries : Entries α} (distinct : Distinct entries) (key : String) (a : α) :
    Distinct (insert entries key a) := by
  unfold Distinct at distinct ⊢
  rw [keys_insert]
  split
  · exact distinct
  · next fresh =>
    exact (List.perm_append_singleton key (keys entries)).nodup_iff.mpr (List.nodup_cons.mpr ⟨fresh, distinct⟩)

theorem mem_of_mem_insert {entries : Entries α} {key : String} {a : α} {entry : String × α}
    (member : entry ∈ insert entries key a) : entry = (key, a) ∨ entry ∈ entries := by
  induction entries with
  | nil => exact .inl (List.mem_singleton.mp member)
  | cons head rest ih =>
    obtain ⟨k, b⟩ := head
    by_cases here : k = key
    · rw [insert, if_pos here, here] at member
      exact (List.mem_cons.mp member).imp_right (List.mem_cons_of_mem _)
    · rw [insert, if_neg here] at member
      rcases List.mem_cons.mp member with rfl | later
      · exact .inr List.mem_cons_self
      · exact (ih later).imp_right (List.mem_cons_of_mem _)

theorem erase_eq_filter (entries : Entries α) (key : String) :
    erase entries key = entries.filter fun entry => decide (entry.1 ≠ key) := by
  induction entries with
  | nil => rfl
  | cons head rest ih =>
    obtain ⟨k, b⟩ := head
    by_cases here : k = key
    · simp [erase, here, ih]
    · simp [erase, here, ih]

theorem distinct_erase {entries : Entries α} (distinct : Distinct entries) (key : String) :
    Distinct (erase entries key) := by
  rw [erase_eq_filter]
  exact List.Nodup.sublist (List.filter_sublist.map Prod.fst) distinct

/-- Writing what is there already changes nothing. -/
theorem insert_of_get? {entries : Entries α} {key : String} {a : α} (found : get? entries key = some a) :
    insert entries key a = entries := by
  induction entries with
  | nil => simp at found
  | cons head rest ih =>
    obtain ⟨k, b⟩ := head
    rw [get?_cons] at found
    by_cases here : k = key
    · simp only [here, if_true, Option.some.injEq] at found
      simp [insert, here, found]
    · rw [if_neg here] at found
      simp [insert, here, ih found]

/-- Taking out what is not there changes nothing. -/
theorem erase_of_get?_none {entries : Entries α} {key : String} (absent : get? entries key = none) :
    erase entries key = entries := by
  rw [erase_eq_filter, List.filter_eq_self]
  intro entry member
  have other : entry.1 ≠ key := fun same =>
    get?_eq_none_iff.mp absent (same ▸ List.mem_map.mpr ⟨entry, member, rfl⟩)
  simpa using other

theorem mem_of_mem_insertByKey {entries : Entries α} {key : String} {a : α} {entry : String × α}
    (member : entry ∈ insertByKey entries key a) : entry = (key, a) ∨ entry ∈ entries := by
  induction entries with
  | nil => exact .inl (List.mem_singleton.mp member)
  | cons head rest ih =>
    rw [insertByKey] at member
    split at member
    · exact List.mem_cons.mp member
    · split at member
      · exact (List.mem_cons.mp member).imp_right (List.mem_cons_of_mem _)
      · rcases List.mem_cons.mp member with rfl | later
        · exact .inr List.mem_cons_self
        · exact (ih later).imp_right (List.mem_cons_of_mem _)

theorem get?_insertByKey (entries : Entries α) (key other : String) (a : α) :
    get? (insertByKey entries key a) other = if key = other then some a else get? entries other := by
  induction entries with
  | nil => simp [insertByKey, get?]
  | cons head rest ih =>
    obtain ⟨k, b⟩ := head
    by_cases before : key < k
    · simp [insertByKey, before, get?_cons]
    · by_cases same : key = k
      · by_cases asked : k = other <;> simp [insertByKey, same, get?_cons, asked]
      · rw [insertByKey, if_neg before, if_neg same, get?_cons, get?_cons, ih]
        by_cases asked : k = other
        · have fresh : key ≠ other := fun equal => same (equal.trans asked.symm)
          simp [asked, fresh]
        · simp [asked]

/-! ## Building a mapping from pairs -/

theorem insert_of_absent {entries : Entries α} {key : String} (a : α) (fresh : key ∉ keys entries) :
    insert entries key a = entries ++ [(key, a)] := by
  induction entries with
  | nil => rfl
  | cons head rest ih =>
    obtain ⟨k, b⟩ := head
    have here : k ≠ key := fun same => fresh (by simp [keys, same])
    have later : key ∉ keys rest := fun member => fresh (List.mem_cons_of_mem _ member)
    simp [insert, here, ih later]

theorem insertByKey_perm {entries : Entries α} {key : String} (a : α) (fresh : key ∉ keys entries) :
    (insertByKey entries key a).Perm ((key, a) :: entries) := by
  induction entries with
  | nil => exact List.Perm.refl _
  | cons head rest ih =>
    obtain ⟨k, b⟩ := head
    have here : key ≠ k := fun same => fresh (by simp [keys, same])
    have later : key ∉ keys rest := fun member => fresh (List.mem_cons_of_mem _ member)
    by_cases before : key < k
    · simp [insertByKey, before]
    · simp only [insertByKey, before, here, if_false]
      exact ((ih later).cons (k, b)).trans (List.Perm.swap _ _ _)

theorem foldl_perm {step : Entries α → String → α → Entries α}
    (adds : ∀ entries key a, key ∉ keys entries → (step entries key a).Perm ((key, a) :: entries)) :
    ∀ (pairs start : Entries α), Distinct (start ++ pairs) →
      (pairs.foldl (fun entries pair => step entries pair.1 pair.2) start).Perm (start ++ pairs)
  | [], start, _ => by simp
  | (key, a) :: rest, start, distinct => by
    have split : (keys start ++ key :: keys rest).Nodup := by simpa [Distinct, keys] using distinct
    have fresh : key ∉ keys start := fun member =>
      (List.nodup_append.mp split).2.2 key member key List.mem_cons_self rfl
    have added := adds start key a fresh
    have moved : (step start key a ++ rest).Perm (start ++ (key, a) :: rest) :=
      (added.append_right rest).trans List.perm_middle.symm
    have kept : Distinct (step start key a ++ rest) := (moved.map Prod.fst).nodup_iff.mpr distinct
    exact (foldl_perm adds rest (step start key a) kept).trans moved

theorem ofList_perm {pairs : List (String × α)} (distinct : Distinct pairs) : (ofList pairs).Perm pairs :=
  foldl_perm (fun entries key a fresh => by
    rw [insert_of_absent a fresh]
    exact List.perm_append_singleton _ _) pairs [] distinct

theorem sortByKey_perm {pairs : List (String × α)} (distinct : Distinct pairs) : (sortByKey pairs).Perm pairs :=
  foldl_perm (fun _ _ a fresh => insertByKey_perm a fresh) pairs [] distinct

/-- Of the pairs with a key, the last one stands under it. -/
theorem get?_ofList (pairs : List (String × α)) (key : String) : get? (ofList pairs) key = get? pairs.reverse key := by
  have onto (start : Entries α) : get? (pairs.foldl (fun entries pair => insert entries pair.1 pair.2) start) key =
      (get? pairs.reverse key <|> get? start key) := by
    induction pairs generalizing start with
    | nil => rfl
    | cons pair rest ih =>
      rw [List.foldl_cons, ih, get?_insert, List.reverse_cons, get?_append, get?_cons, get?_nil]
      cases get? rest.reverse key <;> by_cases here : pair.1 = key <;> simp [here]
  rw [ofList, onto]
  cases get? pairs.reverse key <;> rfl

theorem distinct_ofList (pairs : List (String × α)) : Distinct (ofList pairs) := by
  have start : Distinct ([] : Entries α) := List.nodup_nil
  exact List.foldlRecOn pairs _ start fun entries distinct pair _ => distinct_insert distinct pair.1 pair.2

theorem mem_of_mem_ofList {pairs : List (String × α)} {entry : String × α} (member : entry ∈ ofList pairs) :
    entry ∈ pairs := by
  have held := get?_of_mem (distinct_ofList pairs) member
  rw [get?_ofList] at held
  exact List.mem_reverse.mp (mem_of_get? held)

/-- Pairs arrive as they are exactly if no key is repeated. -/
theorem ofList_eq_self_iff {pairs : List (String × α)} : ofList pairs = pairs ↔ Distinct pairs := by
  refine ⟨fun same => same ▸ distinct_ofList pairs, fun distinct => ?_⟩
  have onto (start : Entries α) (fresh : Distinct (start ++ pairs)) :
      pairs.foldl (fun entries pair => insert entries pair.1 pair.2) start = start ++ pairs := by
    induction pairs generalizing start with
    | nil => simp
    | cons pair rest ih =>
      have others : Distinct (start ++ [pair] ++ rest) := by rwa [List.append_assoc]
      have absent : pair.1 ∉ keys start := by
        intro member
        have apart := (List.nodup_append.mp (show (keys start ++ keys (pair :: rest)).Nodup by
          simpa [Distinct, keys] using fresh)).2.2
        exact apart pair.1 member pair.1 List.mem_cons_self rfl
      have later : Distinct rest := (List.nodup_cons.mp distinct).2
      rw [List.foldl_cons, insert_of_absent pair.2 absent, ih later _ others, List.append_assoc]
      rfl
  exact onto [] distinct

end TaggedRecords.Entries

namespace TaggedRecords

/-- A map of either order only rearranges pairs with distinct keys. -/
theorem MapOrder.arrange_perm {α : Type} (order : MapOrder) {pairs : List (String × α)}
    (distinct : Entries.Distinct pairs) : (order.arrange pairs).Perm pairs := by
  cases order with
  | arrival => exact Entries.ofList_perm distinct
  | byKey => exact Entries.sortByKey_perm distinct

end TaggedRecords
