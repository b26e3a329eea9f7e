import SchemaTree.Proofs.Registrations

/-!
# The first item of an id

Where ids are repeated, whoever answers an id with an item takes the first one. `firsts` are the
elements of a list that are the first with their keys, and `newcomers` are those of them whose keys
are not known from before. They are what remains when items are added one after the other and an
item whose id is taken is passed over, as in a table (`ItemTable.foldl_add`) or a registry.

A search does not add anything up: it goes down the tree and stops at the first item that it is
looking for. It meets the items in the order in which a table is filled, so the two find the same
items (`lookups_agree`). There is one exception, the id of the root, which an item may have as well:
a search passes such an item over, though not what is below it.
-/

namespace SchemaTree

open Json

/-! ## Lists in which ids are repeated -/

/-- Elements may be left out before or after repetitions are. -/
theorem eraseDups_filter {α : Type _} [BEq α] [LawfulBEq α] (p : α → Bool) (xs : List α) :
    (xs.filter p).eraseDups = xs.eraseDups.filter p := by
  match xs with
  | [] => rfl
  | x :: xs =>
    have ih := eraseDups_filter p (xs.filter fun y ↦ !y == x)
    rw [List.eraseDups_cons, List.filter_cons, List.filter_cons, ← ih, List.filter_filter]
    by_cases hx : p x
    · rw [if_pos hx, if_pos hx, List.eraseDups_cons, List.filter_filter]
      simp only [Bool.and_comm]
    · -- whatever is kept is different from `x` anyway
      rw [if_neg hx, if_neg hx]
      refine congrArg List.eraseDups (List.filter_congr fun y _ ↦ ?_)
      by_cases hy : y = x
      · rw [hy, Bool.eq_false_of_not_eq_true hx, Bool.false_and]
      · simp [hy]
termination_by xs.length
decreasing_by exact Nat.lt_succ_of_le (List.length_filter_le _ _)

section Lists

variable {α : Type _} {key : α → String} {known : List String} {x : α} {xs : List α}

/-- The elements of a list that are the first with their keys, in order. -/
def firsts (key : α → String) : List α → List α
  | [] => []
  | x :: xs => x :: (firsts key xs).filter fun y ↦ key y ≠ key x

/-- The elements that are the first with their keys, where these are not known from before. -/
def newcomers (key : α → String) (known : List String) (xs : List α) : List α :=
  (firsts key xs).filter fun x ↦ key x ∉ known

/-- The keys of the first elements are all keys, each once and in order. -/
theorem map_firsts (key : α → String) (xs : List α) :
    (firsts key xs).map key = (xs.map key).eraseDups := by
  induction xs with
  | nil => rfl
  | cons x xs ih =>
    have hfilter : ((firsts key xs).filter fun y ↦ key y ≠ key x).map key =
        ((firsts key xs).map key).filter fun k ↦ !k == key x := by
      rw [List.filter_map]
      refine congrArg (List.map key) (List.filter_congr fun y _ ↦ ?_)
      exact decide_not
    rw [firsts, List.map_cons, hfilter, ih, List.map_cons, List.eraseDups_cons, eraseDups_filter]

/-- No two of the first elements have the same key. -/
theorem nodup_map_firsts (key : α → String) (xs : List α) : ((firsts key xs).map key).Nodup := by
  induction xs with
  | nil => exact List.nodup_nil
  | cons x xs ih =>
    refine List.nodup_cons.mpr ⟨fun hmem ↦ ?_, ih.sublist (List.filter_sublist.map key)⟩
    obtain ⟨y, hy, hkey⟩ := List.mem_map.mp hmem
    exact of_decide_eq_true (List.mem_filter.mp hy).2 hkey

theorem map_newcomers (key : α → String) (known : List String) (xs : List α) :
    (newcomers key known xs).map key = (xs.map key).eraseDups.filter (· ∉ known) := by
  rw [newcomers, ← map_firsts, List.filter_map]
  rfl

theorem newcomers_nil_known (xs : List α) : newcomers key [] xs = firsts key xs := by
  simp [newcomers]

/-- An element with a known key is no newcomer. -/
theorem newcomers_cons_of_mem (h : key x ∈ known) :
    newcomers key known (x :: xs) = newcomers key known xs := by
  rw [newcomers, firsts, List.filter_cons_of_neg (by simpa using h), List.filter_filter, newcomers]
  refine List.filter_congr fun y _ ↦ ?_
  by_cases hy : key y = key x
  · simp [hy, h]
  · simp [hy]

/-- Any other element is one, and from then on its key is known. -/
theorem newcomers_cons_of_notMem (h : key x ∉ known) :
    newcomers key known (x :: xs) = x :: newcomers key (known ++ [key x]) xs := by
  rw [newcomers, firsts, List.filter_cons_of_pos (by simpa using h), List.filter_filter, newcomers]
  simp [not_or]

/-- Where no key is repeated, every element is the first with its key. -/
theorem firsts_of_nodup (h : (xs.map key).Nodup) : firsts key xs = xs := by
  induction xs with
  | nil => rfl
  | cons x xs ih =>
    rw [List.map_cons, List.nodup_cons] at h
    rw [firsts, ih h.2, List.filter_eq_self.mpr]
    intro y hy
    have hne : key y ≠ key x := fun heq ↦ h.1 (heq ▸ List.mem_map_of_mem hy)
    exact decide_eq_true hne

end Lists

/-! ## Items -/

theorem mem_firsts_iff {x : Item} {xs : List Item} :
    x ∈ firsts Item.id xs ↔ named xs x.id = some x := by
  induction xs with
  | nil => simp [firsts, named]
  | cons y xs ih =>
    rw [firsts, List.mem_cons, List.mem_filter, ih, named_cons]
    by_cases hid : y.id = x.id
    · simp [hid, eq_comm]
    · have hne : x ≠ y := fun h ↦ hid (h ▸ rfl)
      simp [hid, hne, Ne.symm hid]

theorem named_firsts (xs : List Item) (id : String) :
    named (firsts Item.id xs) id = named xs id := by
  induction xs with
  | nil => rfl
  | cons x xs ih =>
    rw [firsts, named_cons, named_cons, ← ih]
    split
    · rfl
    · rename_i hx
      rw [named, List.find?_filter, named]
      refine congrArg (fun p ↦ List.find? p (firsts Item.id xs)) (funext fun y ↦ ?_)
      by_cases hy : y.id = id
      · simp [hy, Ne.symm hx]
      · simp [hy]

theorem find?_map_id (xs : List Item) (id : String) :
    Members.find? id (xs.map fun x ↦ (x.id, x)) = named xs id := by
  induction xs with
  | nil => rfl
  | cons x xs ih => rw [List.map_cons, Members.find?, ih, named_cons]

/-! ## Tables -/

namespace ItemTable

variable {table : ItemTable} {x : Item}

/-- An item whose id is taken is passed over. -/
theorem add_of_mem (h : x.id ∈ Members.keys table) : table.add x = table := by
  obtain ⟨m, hm, hid⟩ := List.mem_map.mp h
  rw [add]
  exact if_pos (List.any_eq_true.mpr ⟨m, hm, decide_eq_true hid⟩)

/-- An item with a new id is added to a table at its end. -/
theorem add_of_notMem (h : x.id ∉ Members.keys table) : table.add x = table ++ [(x.id, x)] := by
  rw [add]
  refine if_neg fun hany ↦ h ?_
  obtain ⟨p, hmem, hid⟩ := List.any_eq_true.mp hany
  exact List.mem_map.mpr ⟨p, hmem, of_decide_eq_true hid⟩

/-- **What a table gains** by items that are added one after the other. -/
theorem foldl_add (xs : List Item) (table : ItemTable) :
    xs.foldl ItemTable.add table =
      table ++ (newcomers Item.id (Members.keys table) xs).map fun x ↦ (x.id, x) := by
  induction xs generalizing table with
  | nil => exact (List.append_nil _).symm
  | cons x xs ih =>
    rw [List.foldl_cons, ih]
    by_cases hx : x.id ∈ Members.keys table
    · rw [add_of_mem hx, newcomers_cons_of_mem hx]
    · have hkeys : Members.keys (table ++ [(x.id, x)]) = Members.keys table ++ [x.id] :=
        List.map_append
      rw [add_of_notMem hx, newcomers_cons_of_notMem hx, hkeys, List.append_assoc]
      rfl

/-- A table that is made of items holds those that are the first with their ids. -/
theorem foldl_add_nil (xs : List Item) :
    xs.foldl ItemTable.add [] = (firsts Item.id xs).map fun x ↦ (x.id, x) := by
  rw [foldl_add, List.nil_append, Members.keys, List.map_nil, newcomers_nil_known]

/-- Such a table finds the first item of every id. -/
theorem find?_foldl_add (xs : List Item) (id : String) :
    ItemTable.find? (xs.foldl ItemTable.add []) id = named xs id := by
  rw [foldl_add_nil, ItemTable.find?, find?_map_id, named_firsts]

end ItemTable

/-! ## Below items -/

/-- What is below an item that is below another one is below that one. -/
theorem Item.descendants_subset {x y : Item} (hy : y ∈ x :: x.descendants) :
    y.descendants ⊆ x.descendants := by
  induction x using childrenInduction with
  | step x ih =>
    rcases List.mem_cons.mp hy with rfl | hy
    · exact List.Subset.refl _
    · rw [descendants_eq x] at hy ⊢
      obtain ⟨z, hz, hyz⟩ := List.mem_flatMap.mp hy
      exact fun w hw ↦ List.mem_flatMap.mpr ⟨z, hz, List.mem_cons_of_mem z (ih z hz hyz hw)⟩

theorem Document.descendants_subset_items (d : Document) {x : Item} (hx : x ∈ d.items) :
    x.descendants ⊆ d.items := by
  rw [items_eq] at hx ⊢
  obtain ⟨z, hz, hxz⟩ := List.mem_flatMap.mp hx
  intro w hw
  exact List.mem_flatMap.mpr ⟨z, hz, List.mem_cons_of_mem z (Item.descendants_subset hxz hw)⟩

/-! ## Searches -/

theorem findSome?_congr {α β : Type _} {xs : List α} {f g : α → Option β}
    (h : ∀ x ∈ xs, f x = g x) : xs.findSome? f = xs.findSome? g := by
  induction xs with
  | nil => rfl
  | cons x xs ih =>
    obtain ⟨hx, hxs⟩ := List.forall_mem_cons.mp h
    rw [List.findSome?_cons, List.findSome?_cons, hx, ih hxs]

namespace Item

theorem findList?_eq (id : String) (xs : List Item) :
    findList? id xs = xs.findSome? (Item.find? id) := by
  induction xs with
  | nil => rfl
  | cons x xs ih =>
    rw [findList?, List.findSome?_cons, ih]
    cases x.find? id <;> rfl

theorem findSlot?_eq (id : String) (slot : Option (List Item)) :
    findSlot? id slot = (slot.getD []).findSome? (Item.find? id) := by
  cases slot with
  | none => rfl
  | some xs => exact findList?_eq id xs

/-- A search stops at the item itself or goes through its children. -/
theorem find?_eq (x : Item) (id : String) :
    x.find? id =
      if x.id = id ∧ x.id ≠ rootId then some x else x.children.findSome? (Item.find? id) := by
  obtain ⟨a, fields, options⟩ := x
  rw [find?, findSlot?_eq, findSlot?_eq, children, List.findSome?_append, Item.fields, Item.options]
  refine if_congr Iff.rfl rfl ?_
  cases (fields.getD []).findSome? (Item.find? id) <;> rfl

/-- **What a search finds**: the first item on its way down that it may stop at. -/
theorem find?_eq_find? (x : Item) (id : String) :
    x.find? id = (x :: x.descendants).find? fun y ↦ y.id = id ∧ y.id ≠ rootId := by
  induction x using childrenInduction with
  | step x ih =>
    rw [find?_eq, descendants_eq]
    by_cases hx : x.id = id ∧ x.id ≠ rootId
    · rw [if_pos hx, List.find?_cons_of_pos (by simpa using hx)]
    · rw [if_neg hx, List.find?_cons_of_neg (by simpa using hx), List.find?_flatMap]
      exact findSome?_congr ih

/-- An id other than the root's is found wherever it occurs. -/
theorem find?_of_ne (x : Item) {id : String} (h : id ≠ rootId) :
    x.find? id = named (x :: x.descendants) id := by
  rw [find?_eq_find?, named]
  refine congrArg (fun p ↦ List.find? p (x :: x.descendants)) (funext fun y ↦ ?_)
  refine decide_eq_decide.mpr (and_iff_left_of_imp ?_)
  rintro rfl
  exact h

/-- The root's id is never found. -/
theorem find?_rootId (x : Item) : x.find? rootId = none := by
  rw [find?_eq_find?, List.find?_eq_none]
  simp

end Item

namespace Document

theorem find?_of_ne (d : Document) {id : String} (h : id ≠ rootId) :
    d.find? id = named d.items id := by
  rw [find?, Item.findList?_eq, items_eq, named, List.find?_flatMap]
  exact findSome?_congr fun x _ ↦ x.find?_of_ne h

theorem find?_rootId (d : Document) : d.find? rootId = none := by
  rw [find?, Item.findList?_eq, List.findSome?_eq_none_iff]
  exact fun x _ ↦ x.find?_rootId

end Document

/-! ## Agreement -/

/-- A search and a table find the same of several items. Of every id that is not the root's the
search finds the first item, or nothing if no item has it, and so does the table, which holds the
ids in the order of their first occurrence. The root's id is never found, but whatever is below an
item that has it is found as below any other. -/
structure FindsFirst (items : List Item) (search : String → Option Item) (table : ItemTable) :
    Prop where
  first : ∀ id, id ≠ rootId → search id = named items id
  none_iff : ∀ id, id ≠ rootId → (search id = none ↔ ∀ x ∈ items, x.id ≠ id)
  agrees : ∀ id, id ≠ rootId → search id = table.find? id
  keys : Members.keys table = (items.map Item.id).eraseDups
  root : search rootId = none
  below : ∀ x ∈ items, x.id = rootId → ∀ y ∈ x.descendants, y.id ≠ rootId → (search y.id).isSome

theorem findsFirst_of_search {items : List Item} {search : String → Option Item}
    (hitems : ∀ x ∈ items, x.descendants ⊆ items)
    (hfirst : ∀ id, id ≠ rootId → search id = named items id) (hroot : search rootId = none) :
    FindsFirst items search (items.foldl ItemTable.add []) where
  first := hfirst
  none_iff id hid := by rw [hfirst id hid, named_eq_none_iff]
  agrees id hid := by rw [hfirst id hid, ItemTable.find?_foldl_add]
  keys := by
    rw [ItemTable.foldl_add_nil, Members.keys, List.map_map]
    exact map_firsts Item.id items
  root := hroot
  below x hx _ y hy hid := by
    rw [hfirst y.id hid, Option.isSome_iff_ne_none, ne_eq, named_eq_none_iff]
    exact fun hnone ↦ hnone y (hitems x hx hy) rfl

/-- **Searches and tables agree**, for a document and its items as for an item and those below it,
whether ids are repeated or not. -/
theorem lookups_agree :
    (∀ d : Document, FindsFirst d.items d.find? d.index) ∧
      ∀ x : Item, FindsFirst (x :: x.descendants) (fun id ↦ x.find? id) x.index := by
  constructor
  · intro d
    exact findsFirst_of_search (fun _ ↦ d.descendants_subset_items) (fun _ ↦ d.find?_of_ne)
      d.find?_rootId
  · intro x
    refine findsFirst_of_search (fun y hy ↦ ?_) (fun _ ↦ x.find?_of_ne) x.find?_rootId
    exact List.subset_cons_of_subset x (Item.descendants_subset hy)

end SchemaTree
