import SchemaTree.Tree.Traversal
import Mathlib.Data.List.Flatten
import Mathlib.Data.List.Perm.Subperm

/-!
# The items of a tree that count

Only some children have a say in what a document means: the fields of an object and the options of a
union, and only if the item has no reference. They are the *parts* of an item, and the items that
are built are those that one reaches from the root's fields by going from an item to its parts.

`Item.induction` is the induction over a tree; it replaces the three-fold mutual recursion by a
single step whose hypotheses speak of the members of both lists of children. Most proofs only need
what holds of the parts (`Item.partsInduction`). Where all children are parts, the built items are
the items of the tree in another order (`built_perm_items`).
-/

namespace SchemaTree

open scoped List

/-- Lists that can be found within others can be joined to be found within the joined others. -/
theorem flatMap_subperm {α β : Type _} {xs : List α} {f g : α → List β}
    (h : ∀ x ∈ xs, f x <+~ g x) : xs.flatMap f <+~ xs.flatMap g := by
  induction xs with
  | nil => exact List.Subperm.refl _
  | cons x xs ih =>
    rw [List.flatMap_cons, List.flatMap_cons]
    exact (h x List.mem_cons_self).append (ih fun y hy ↦ h y (List.mem_cons_of_mem _ hy))

namespace Item

/-! ## Induction -/

section Induction

variable {P : Item → Prop}

mutual

/-- A property of items holds of all if an item has it whenever its fields and options do. -/
theorem induction
    (step : ∀ a fields options, (∀ y ∈ fields.getD [], P y) → (∀ y ∈ options.getD [], P y) →
      P (.mk a fields options)) : ∀ x, P x
  | .mk a fields options =>
    step a fields options (inductionSlot step fields) (inductionSlot step options)

theorem inductionSlot
    (step : ∀ a fields options, (∀ y ∈ fields.getD [], P y) → (∀ y ∈ options.getD [], P y) →
      P (.mk a fields options)) : ∀ slot : Option (List Item), ∀ y ∈ slot.getD [], P y
  | none => by simp
  | some xs => inductionList step xs

theorem inductionList
    (step : ∀ a fields options, (∀ y ∈ fields.getD [], P y) → (∀ y ∈ options.getD [], P y) →
      P (.mk a fields options)) : ∀ xs : List Item, ∀ y ∈ xs, P y
  | [] => by simp
  | x :: rest => List.forall_mem_cons.mpr ⟨induction step x, inductionList step rest⟩

end

end Induction

/-! ## Descendants -/

theorem descendantsList_eq (xs : List Item) :
    descendantsList xs = xs.flatMap fun x ↦ x :: x.descendants := by
  induction xs with
  | nil => rfl
  | cons x xs ih => rw [descendantsList, ih, List.flatMap_cons, List.cons_append]

theorem descendantsSlot_eq (slot : Option (List Item)) :
    descendantsSlot slot = (slot.getD []).flatMap fun x ↦ x :: x.descendants := by
  cases slot with
  | none => rfl
  | some xs => exact descendantsList_eq xs

theorem descendants_eq (x : Item) :
    x.descendants = x.children.flatMap fun y ↦ y :: y.descendants := by
  obtain ⟨a, fields, options⟩ := x
  rw [descendants, descendantsSlot_eq, descendantsSlot_eq, children, List.flatMap_append,
    Item.fields, Item.options]

/-! ## Parts -/

/-- The id an item refers to. -/
def target? (x : Item) : Option String := x.attributes.target?

/-- What an item can be: a reference whatever its kind, or else an object, a union or a leaf. -/
inductive Role (x : Item) : Prop where
  | reference {id : String} (ht : x.target? = some id)
  | object (ht : x.target? = none) (hk : x.kind = .object)
  | union (ht : x.target? = none) (hk : x.kind = .union)
  | leaf (ht : x.target? = none) (ho : x.kind ≠ .object) (hu : x.kind ≠ .union)

theorem role (x : Item) : x.Role := by
  cases ht : x.target? with
  | some id => exact .reference ht
  | none =>
    by_cases ho : x.kind = .object
    · exact .object ht ho
    by_cases hu : x.kind = .union
    · exact .union ht hu
    · exact .leaf ht ho hu

/-- The children that have a say: the fields of an object and the options of a union, unless the
item has a reference. -/
def parts : Item → List Item
  | .mk a fields options =>
    match a.target?, a.kind with
    | none, .object => fields.getD []
    | none, .union => options.getD []
    | _, _ => []

theorem parts_of_target {x : Item} {id : String} (h : x.target? = some id) : x.parts = [] := by
  obtain ⟨a, fields, options⟩ := x
  rw [target?, attributes] at h
  rw [parts, h]

theorem parts_of_object {x : Item} (ht : x.target? = none) (hk : x.kind = .object) :
    x.parts = x.fields.getD [] := by
  obtain ⟨a, fields, options⟩ := x
  rw [target?, attributes] at ht
  rw [kind, attributes] at hk
  rw [parts, ht, hk, Item.fields]

theorem parts_of_union {x : Item} (ht : x.target? = none) (hk : x.kind = .union) :
    x.parts = x.options.getD [] := by
  obtain ⟨a, fields, options⟩ := x
  rw [target?, attributes] at ht
  rw [kind, attributes] at hk
  rw [parts, ht, hk, Item.options]

theorem parts_of_leaf {x : Item} (ho : x.kind ≠ .object) (hu : x.kind ≠ .union) :
    x.parts = [] := by
  obtain ⟨a, fields, options⟩ := x
  rw [kind, attributes] at ho hu
  rw [parts]
  cases a.target? <;> cases hk : a.kind <;> simp_all

/-- The parts are some of the children. -/
theorem parts_sublist_children (x : Item) : x.parts.Sublist x.children := by
  cases x.role with
  | reference ht =>
    rw [parts_of_target ht]
    exact List.nil_sublist _
  | object ht hk =>
    rw [parts_of_object ht hk]
    exact List.sublist_append_left _ _
  | union ht hk =>
    rw [parts_of_union ht hk]
    exact List.sublist_append_right _ _
  | leaf _ ho hu =>
    rw [parts_of_leaf ho hu]
    exact List.nil_sublist _

/-- A property of items holds of all if an item has it whenever its children do. -/
theorem childrenInduction {P : Item → Prop} (step : ∀ x : Item, (∀ y ∈ x.children, P y) → P x)
    (x : Item) : P x := by
  induction x using induction with
  | step a fields options ihf iho =>
    exact step _ fun y hy ↦ (List.mem_append.mp hy).elim (ihf y) (iho y)

/-- A property of items holds of all if an item has it whenever its parts do. -/
theorem partsInduction {P : Item → Prop} (step : ∀ x : Item, (∀ y ∈ x.parts, P y) → P x)
    (x : Item) : P x := by
  induction x using childrenInduction with
  | step x ih => exact step x fun y hy ↦ ih y (x.parts_sublist_children.subset hy)

/-! ## Walks -/

section Walks

variable {walk visited : Item → List Item}
  (hwalk : ∀ x, walk x = (visited x).flatMap walk ++ [x]) {x y z : Item}
include hwalk

/-- A walk that visits some children before the item itself comes to the item. -/
theorem self_mem_walk (x : Item) : x ∈ walk x := by
  rw [hwalk]
  exact List.mem_append_right _ List.mem_cons_self

theorem walk_subset_of_mem (h : y ∈ visited x) : walk y ⊆ walk x := by
  intro z hz
  rw [hwalk x]
  exact List.mem_append_left _ (List.mem_flatMap.mpr ⟨y, h, hz⟩)

/-- What a walk comes to from an item that it comes to, it comes to. -/
theorem walk_trans (hvisited : ∀ x, visited x ⊆ x.children) (hy : y ∈ walk x) (hz : z ∈ walk y) :
    z ∈ walk x := by
  induction x using childrenInduction with
  | step x ih =>
    rw [hwalk x, List.mem_append, List.mem_singleton] at hy
    rcases hy with hy | rfl
    · obtain ⟨w, hw, hyw⟩ := List.mem_flatMap.mp hy
      exact walk_subset_of_mem hwalk hw (ih w (hvisited x hw) hyw)
    · exact hz

end Walks

/-! ## Built items -/

mutual

/-- The items that are built for an item, parts before the whole. -/
def built : Item → List Item
  | .mk a fields options =>
    (match a.target?, a.kind with
      | none, .object => builtSlot fields
      | none, .union => builtSlot options
      | _, _ => []) ++ [.mk a fields options]

/-- The items that are built for an optional list of children. -/
def builtSlot : Option (List Item) → List Item
  | none => []
  | some xs => builtList xs

/-- The items that are built for a list of children. -/
def builtList : List Item → List Item
  | [] => []
  | x :: rest => x.built ++ builtList rest

end

theorem builtList_eq (xs : List Item) : builtList xs = xs.flatMap built := by
  induction xs with
  | nil => rfl
  | cons x xs ih => rw [builtList, ih, List.flatMap_cons]

theorem builtSlot_eq (slot : Option (List Item)) :
    builtSlot slot = (slot.getD []).flatMap built := by
  cases slot with
  | none => rfl
  | some xs => exact builtList_eq xs

theorem built_eq (x : Item) : x.built = x.parts.flatMap built ++ [x] := by
  obtain ⟨a, fields, options⟩ := x
  rw [built, parts]
  split <;> simp only [builtSlot_eq, List.flatMap_nil]

theorem self_mem_built (x : Item) : x ∈ x.built := self_mem_walk built_eq x

/-- With an item, its parts are built. -/
theorem built_subset_of_mem_parts {x y : Item} (h : y ∈ x.parts) : y.built ⊆ x.built :=
  walk_subset_of_mem built_eq h

/-- What is built for an item that is built for another one is built for that one. -/
theorem built_trans {x y z : Item} (hy : y ∈ x.built) (hz : z ∈ y.built) : z ∈ x.built :=
  walk_trans built_eq (fun x ↦ x.parts_sublist_children.subset) hy hz

/-- Every item is built at most as often as it occurs in the tree. -/
theorem built_subperm (x : Item) : x.built <+~ x :: x.descendants := by
  induction x using partsInduction with
  | step x ih =>
    have hparts : x.parts.flatMap built <+~ x.descendants := by
      rw [descendants_eq]
      exact (flatMap_subperm ih).trans ((parts_sublist_children x).flatMap _).subperm
    rw [built_eq]
    refine (List.perm_append_singleton x _).subperm.trans ?_
    exact (List.subperm_cons x).mpr hparts

/-! ## Items in place -/

/-- Only an object has fields and only a union has options, and neither has any beside a
reference. -/
structure InPlace (x : Item) : Prop where
  fields : x.fields.getD [] ≠ [] → x.target? = none ∧ x.kind = .object
  options : x.options.getD [] ≠ [] → x.target? = none ∧ x.kind = .union

instance (x : Item) : Decidable x.InPlace :=
  decidable_of_iff ((x.fields.getD [] = [] ∨ x.target? = none ∧ x.kind = .object) ∧
      (x.options.getD [] = [] ∨ x.target? = none ∧ x.kind = .union))
    ⟨fun h ↦ ⟨h.1.resolve_left, h.2.resolve_left⟩, fun h ↦
      ⟨Decidable.or_iff_not_imp_left.mpr h.fields, Decidable.or_iff_not_imp_left.mpr h.options⟩⟩

/-- All children of an item in place are parts. -/
theorem InPlace.parts_eq_children {x : Item} (h : x.InPlace) : x.parts = x.children := by
  rw [children]
  by_cases hf : x.fields.getD [] = []
  · by_cases ho : x.options.getD [] = []
    · rw [hf, ho, List.append_nil]
      exact List.sublist_nil.mp (by simpa [children, hf, ho] using parts_sublist_children x)
    · obtain ⟨ht, hk⟩ := h.options ho
      rw [parts_of_union ht hk, hf, List.nil_append]
  · obtain ⟨ht, hk⟩ := h.fields hf
    have ho : x.options.getD [] = [] := by
      by_contra ho
      rw [(h.options ho).2] at hk
      exact Kind.noConfusion hk
    rw [parts_of_object ht hk, ho, List.append_nil]

/-- Where all items are in place, all are built. -/
theorem built_perm {x : Item} (h : ∀ y ∈ x :: x.descendants, y.InPlace) :
    x.built ~ x :: x.descendants := by
  induction x using childrenInduction with
  | step x ih =>
    have hbuilt : ∀ y ∈ x.children, y.built ~ y :: y.descendants := by
      intro y hy
      have hsub : y :: y.descendants ⊆ x :: x.descendants := by
        intro z hz
        rw [descendants_eq x]
        exact List.mem_cons_of_mem _ (List.mem_flatMap.mpr ⟨y, hy, hz⟩)
      exact ih y hy fun z hz ↦ h z (hsub hz)
    rw [built_eq, (h x List.mem_cons_self).parts_eq_children, descendants_eq]
    exact (List.perm_append_singleton x _).trans ((List.Perm.flatMap_left _ hbuilt).cons x)

end Item

namespace Document

theorem items_eq (d : Document) : d.items = d.fields.flatMap fun x ↦ x :: x.descendants :=
  Item.descendantsList_eq d.fields

/-- The items of a document that are built, parts before the whole. -/
def built (d : Document) : List Item := Item.builtList d.fields

theorem built_eq (d : Document) : d.built = d.fields.flatMap Item.built :=
  Item.builtList_eq d.fields

theorem built_subperm_items (d : Document) : d.built <+~ d.items := by
  rw [built_eq, items_eq]
  exact flatMap_subperm fun x _ ↦ x.built_subperm

/-- Where all items are in place, the built items are those of the document in another order. -/
theorem built_perm_items {d : Document} (h : ∀ x ∈ d.items, x.InPlace) : d.built ~ d.items := by
  rw [built_eq, items_eq]
  refine List.Perm.flatMap_left _ fun x hx ↦ Item.built_perm fun y hy ↦ h y ?_
  rw [items_eq]
  exact List.mem_flatMap.mpr ⟨x, hx, hy⟩

/-- With an item of a document that is built, its parts are built. -/
theorem mem_built_of_mem_parts {d : Document} {x y : Item} (hx : x ∈ d.built) (hy : y ∈ x.parts) :
    y ∈ d.built := by
  rw [built_eq] at hx ⊢
  obtain ⟨z, hz, hxz⟩ := List.mem_flatMap.mp hx
  have hyx : y ∈ x.built := Item.built_subset_of_mem_parts hy y.self_mem_built
  exact List.mem_flatMap.mpr ⟨z, hz, Item.built_trans hxz hyx⟩

theorem mem_built_of_mem_fields {d : Document} {x : Item} (hx : x ∈ d.fields) : x ∈ d.built := by
  rw [built_eq]
  exact List.mem_flatMap.mpr ⟨x, hx, x.self_mem_built⟩

end Document

end SchemaTree
