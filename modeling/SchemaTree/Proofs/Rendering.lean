import SchemaTree.Proofs.Building
import SchemaTree.Proofs.Rendered

/-!
# What rendering yields

Rendering an item yields a type and the blocks that the type needs, with the blocks of its parts in
front. Not every part leaves a trace: of several fields with one name only the last one does, and an
option only if its union has at least two. The *rendered* items are those that one reaches by going
from an item to the parts that do; they are some of the built items (`Item.rendered_subperm_built`).

What a rendered item contributes depends on the item alone. An object contributes its class, an item
with an alias its alias, and any other item no block at all: `RenderContext.block?` is that block.
The blocks of an item are those of the items that are rendered for it, in their order
(`blocks_render`). -/

namespace SchemaTree

open Json
open scoped List

/-- Some of the lists, with some members of each, can be found within all of them joined. -/
theorem subperm_flatMap {α β : Type _} {xs ys : List α} {f g : α → List β} (hsub : xs <+~ ys)
    (h : ∀ x ∈ xs, f x <+~ g x) : xs.flatMap f <+~ ys.flatMap g := by
  obtain ⟨zs, hperm, hzs⟩ := hsub
  have hjoined : xs.flatMap g <+~ ys.flatMap g :=
    (hperm.flatMap_right g).symm.subperm.trans (hzs.flatMap g).subperm
  exact (flatMap_subperm h).trans hjoined

/-! ## Fields that count -/

/-- The last field of each name, in the order in which the names first occur. -/
def lastFields (xs : List Item) : List Item :=
  (Members.ofList (xs.map fun x ↦ (x.name, x))).map Prod.snd

section Fields

variable {xs : List Item} {x : Item}

theorem mem_ofList_named {m : String × Item} (h : m ∈ Members.ofList (xs.map fun x ↦ (x.name, x))) :
    m.1 = m.2.name ∧ m.2 ∈ xs := by
  obtain ⟨name, y⟩ := m
  have hmem := Members.mem_of_find?_eq_some (Members.mem_ofList_iff.mp h)
  obtain ⟨x, hx, heq⟩ := List.mem_map.mp (List.mem_reverse.mp hmem)
  obtain ⟨rfl, rfl⟩ := Prod.mk.inj heq
  exact ⟨rfl, hx⟩

theorem mem_of_mem_lastFields (h : x ∈ lastFields xs) : x ∈ xs := by
  obtain ⟨m, hm, rfl⟩ := List.mem_map.mp h
  exact (mem_ofList_named hm).2

theorem map_name_lastFields (xs : List Item) :
    (lastFields xs).map Item.name = Members.keys (Members.ofList (xs.map fun x ↦ (x.name, x))) := by
  rw [lastFields, List.map_map, Members.keys]
  exact List.map_congr_left fun m hm ↦ (mem_ofList_named hm).1.symm

theorem nodup_map_name_lastFields (xs : List Item) : ((lastFields xs).map Item.name).Nodup := by
  rw [map_name_lastFields]
  exact Members.nodup_keys_ofList _

theorem nodup_lastFields (xs : List Item) : (lastFields xs).Nodup :=
  (nodup_map_name_lastFields xs).of_map

theorem lastFields_subperm (xs : List Item) : lastFields xs <+~ xs :=
  List.subperm_of_subset (nodup_lastFields xs) fun _ ↦ mem_of_mem_lastFields

/-- Fields without a repeated name all count. -/
theorem lastFields_of_nodup (h : (xs.map Item.name).Nodup) : lastFields xs = xs := by
  have hkeys : (Members.keys (xs.map fun x ↦ (x.name, x))).Nodup := by
    rw [Members.keys, List.map_map]
    exact h
  rw [lastFields, Members.ofList_of_nodup hkeys, List.map_map]
  exact List.map_id xs

/-- What is made of the fields by name is made of those that count. -/
theorem ofList_map_fields {α : Type} (f : Item → α) (xs : List Item) :
    Members.ofList (xs.map fun x ↦ (x.name, f x)) = (lastFields xs).map fun x ↦ (x.name, f x) := by
  have hpairs : xs.map (fun x ↦ (x.name, f x)) =
      (xs.map fun x ↦ (x.name, x)).map fun m ↦ (m.1, f m.2) := by
    rw [List.map_map]
    rfl
  rw [hpairs, ← Members.map_ofList, lastFields, List.map_map]
  refine List.map_congr_left fun m hm ↦ ?_
  rw [Function.comp_apply, (mem_ofList_named hm).1]

/-- The fields that count, with their attribute keys. -/
def keyedFields (xs : List Item) : List (String × Item) :=
  (Naming.fieldKeys ((lastFields xs).map Item.name)).zip (lastFields xs)

theorem map_snd_keyedFields (xs : List Item) : (keyedFields xs).map Prod.snd = lastFields xs := by
  have hlength := length_fieldKeys ((lastFields xs).map Item.name)
  rw [List.length_map] at hlength
  exact List.map_snd_zip (Nat.le_of_eq hlength.symm)

/-- What is made of the names and the values of fields, with their keys. -/
theorem zip_fieldKeys_ofList {α β : Type} (f : Item → α) (g : String → String → α → β)
    (xs : List Item) :
    ((Naming.fieldKeys ((Members.ofList (xs.map fun x ↦ (x.name, f x))).map (·.1))).zip
        (Members.ofList (xs.map fun x ↦ (x.name, f x)))).map (fun m ↦ g m.1 m.2.1 m.2.2) =
      (keyedFields xs).map fun m ↦ g m.1 m.2.name (f m.2) := by
  have hnames : ((lastFields xs).map fun x ↦ (x.name, f x)).map (·.1) =
      (lastFields xs).map Item.name := by
    rw [List.map_map]
    rfl
  rw [ofList_map_fields, hnames, List.zip_map_right, List.map_map, keyedFields]
  rfl

theorem mem_map_name_lastFields_iff {name : String} :
    name ∈ (lastFields xs).map Item.name ↔ name ∈ xs.map Item.name := by
  rw [map_name_lastFields, Members.mem_keys_ofList_iff, Members.keys, List.map_map]
  rfl

/-- Apart from their keys, the fields of a record are made of the items that count. -/
theorem map_recordFields_lastFields (anonymous : String) (xs : List Item) :
    (recordFields (Item.fieldListShapes anonymous xs)).map
        (fun f ↦ (f.1.name, f.1.default, f.2)) =
      (lastFields xs).map fun x ↦ (x.name, (x.shape anonymous).asField x.attributes) := by
  rw [map_recordFields, Item.fieldListShapes_eq]
  exact ofList_map_fields (fun x ↦ (x.shape anonymous).asField x.attributes) xs

/-- The fields of a record by the items that count. -/
theorem recordFields_eq (anonymous : String) (xs : List Item) :
    recordFields (Item.fieldListShapes anonymous xs) =
      (keyedFields xs).map fun m ↦
        (⟨m.1, m.2.name, ((m.2.shape anonymous).asField m.2.attributes).1⟩,
          ((m.2.shape anonymous).asField m.2.attributes).2) := by
  rw [Item.fieldListShapes_eq]
  exact zip_fieldKeys_ofList (fun x ↦ (x.shape anonymous).asField x.attributes)
    (fun key name field ↦ ((⟨key, name, field.1⟩ : FieldHead), field.2)) xs

end Fields

namespace Item

/-! ## Rendered items -/

/-- The parts that leave a trace where an item is rendered. -/
def renderedParts : Item → List Item
  | .mk a fields options =>
    match a.target?, a.kind with
    | none, .object => lastFields (fields.getD [])
    | none, .union => if (options.getD []).length < 2 then [] else options.getD []
    | _, _ => []

section Parts

variable {x : Item}

theorem renderedParts_of_target {id : String} (h : x.target? = some id) : x.renderedParts = [] := by
  obtain ⟨a, fields, options⟩ := x
  rw [target?, attributes] at h
  rw [renderedParts, h]

theorem renderedParts_of_object (ht : x.target? = none) (hk : x.kind = .object) :
    x.renderedParts = lastFields (x.fields.getD []) := by
  obtain ⟨a, fields, options⟩ := x
  rw [target?, attributes] at ht
  rw [kind, attributes] at hk
  rw [renderedParts, ht, hk, Item.fields]

theorem renderedParts_of_union (ht : x.target? = none) (hk : x.kind = .union) :
    x.renderedParts = if (x.options.getD []).length < 2 then [] else x.options.getD [] := by
  obtain ⟨a, fields, options⟩ := x
  rw [target?, attributes] at ht
  rw [kind, attributes] at hk
  rw [renderedParts, ht, hk, Item.options]

theorem renderedParts_of_leaf (ho : x.kind ≠ .object) (hu : x.kind ≠ .union) :
    x.renderedParts = [] := by
  obtain ⟨a, fields, options⟩ := x
  rw [kind, attributes] at ho hu
  rw [renderedParts]
  cases a.target? <;> cases hk : a.kind <;> simp_all

theorem renderedParts_subperm_parts (x : Item) : x.renderedParts <+~ x.parts := by
  cases x.role with
  | reference ht =>
    rw [renderedParts_of_target ht]
    exact List.nil_subperm
  | object ht hk =>
    rw [renderedParts_of_object ht hk, parts_of_object ht hk]
    exact lastFields_subperm _
  | union ht hk =>
    rw [renderedParts_of_union ht hk, parts_of_union ht hk]
    split
    · exact List.nil_subperm
    · exact List.Subperm.refl _
  | leaf _ ho hu =>
    rw [renderedParts_of_leaf ho hu]
    exact List.nil_subperm

/-- A property of items holds of all if an item has it whenever its rendered parts do. -/
theorem renderedInduction {P : Item → Prop} (step : ∀ x : Item, (∀ y ∈ x.renderedParts, P y) → P x)
    (x : Item) : P x := by
  induction x using partsInduction with
  | step x ih => exact step x fun y hy ↦ ih y (x.renderedParts_subperm_parts.subset hy)

end Parts

mutual

/-- The items that are rendered for an item, parts before the whole. -/
def rendered : Item → List Item
  | .mk a fields options =>
    (match a.target?, a.kind with
      | none, .object => (Members.ofList (renderedFields fields)).flatMap Prod.snd
      | none, .union =>
        let groups := renderedOptions options
        if groups.length < 2 then [] else groups.flatten
      | _, _ => []) ++ [.mk a fields options]

/-- The items that are rendered for each field of an object, by name. -/
def renderedFields : Option (List Item) → List (String × List Item)
  | none => []
  | some xs => renderedFieldList xs

/-- The items that are rendered for each field in a list, by name. -/
def renderedFieldList : List Item → List (String × List Item)
  | [] => []
  | x :: rest => (x.name, x.rendered) :: renderedFieldList rest

/-- The items that are rendered for each option of a union. -/
def renderedOptions : Option (List Item) → List (List Item)
  | none => []
  | some xs => renderedOptionList xs

/-- The items that are rendered for each option in a list. -/
def renderedOptionList : List Item → List (List Item)
  | [] => []
  | x :: rest => x.rendered :: renderedOptionList rest

end

theorem renderedFields_eq (slot : Option (List Item)) :
    renderedFields slot = (slot.getD []).map fun x ↦ (x.name, x.rendered) := by
  have hlist (xs : List Item) : renderedFieldList xs = xs.map fun x ↦ (x.name, x.rendered) := by
    induction xs with
    | nil => rfl
    | cons x xs ih => rw [renderedFieldList, ih, List.map_cons]
  cases slot with
  | none => rfl
  | some xs => exact hlist xs

theorem renderedOptions_eq (slot : Option (List Item)) :
    renderedOptions slot = (slot.getD []).map rendered := by
  have hlist (xs : List Item) : renderedOptionList xs = xs.map rendered := by
    induction xs with
    | nil => rfl
    | cons x xs ih => rw [renderedOptionList, ih, List.map_cons]
  cases slot with
  | none => rfl
  | some xs => exact hlist xs

theorem rendered_eq (x : Item) : x.rendered = x.renderedParts.flatMap rendered ++ [x] := by
  obtain ⟨a, fields, options⟩ := x
  rw [rendered, renderedParts]
  cases a.target? with
  | some id => rfl
  | none =>
    cases a.kind with
    | object =>
      dsimp only
      rw [renderedFields_eq, ofList_map_fields, List.flatMap_map]
    | union =>
      dsimp only
      rw [renderedOptions_eq, List.length_map, List.flatMap_def]
      split <;> rfl
    | _ => rfl

theorem self_mem_rendered (x : Item) : x ∈ x.rendered := self_mem_walk rendered_eq x

/-- Every item is rendered at most as often as it is built. -/
theorem rendered_subperm_built (x : Item) : x.rendered <+~ x.built := by
  induction x using partsInduction with
  | step x ih =>
    have hsub := x.renderedParts_subperm_parts
    rw [rendered_eq, built_eq]
    exact (subperm_flatMap hsub fun y hy ↦ ih y (hsub.subset hy)).append (List.Subperm.refl _)

/-- An item all of whose children count: it is in its place, no two of its fields share a name, and
if it has options, it has more than one. -/
structure Tidy (x : Item) : Prop where
  inPlace : x.InPlace
  names : ((x.fields.getD []).map name).Nodup
  options : (x.options.getD []).length ≠ 1

instance (x : Item) : Decidable x.Tidy :=
  decidable_of_iff (x.InPlace ∧ ((x.fields.getD []).map name).Nodup ∧
      (x.options.getD []).length ≠ 1)
    ⟨fun h ↦ ⟨h.1, h.2.1, h.2.2⟩, fun h ↦ ⟨h.inPlace, h.names, h.options⟩⟩

theorem Tidy.renderedParts_eq_parts {x : Item} (h : x.Tidy) : x.renderedParts = x.parts := by
  cases x.role with
  | reference ht => rw [renderedParts_of_target ht, parts_of_target ht]
  | object ht hk =>
    rw [renderedParts_of_object ht hk, parts_of_object ht hk, lastFields_of_nodup h.names]
  | union ht hk =>
    rw [renderedParts_of_union ht hk, parts_of_union ht hk]
    split
    · have hlength := h.options
      exact (List.length_eq_zero_iff.mp (by omega)).symm
    · rfl
  | leaf _ ho hu => rw [renderedParts_of_leaf ho hu, parts_of_leaf ho hu]

/-- Where all items are tidy, all that are built are rendered. -/
theorem rendered_eq_built {x : Item} (h : ∀ y ∈ x :: x.descendants, y.Tidy) :
    x.rendered = x.built := by
  induction x using childrenInduction with
  | step x ih =>
    have hx : x.Tidy := h x List.mem_cons_self
    have hparts : x.parts.flatMap rendered = x.parts.flatMap built := by
      refine List.flatMap_congr fun y hy ↦ ?_
      have hchild : y ∈ x.children := x.parts_sublist_children.subset hy
      refine ih y hchild fun z hz ↦ h z (List.mem_cons_of_mem _ ?_)
      rw [descendants_eq]
      exact List.mem_flatMap.mpr ⟨y, hchild, hz⟩
    rw [rendered_eq, built_eq, hx.renderedParts_eq_parts, hparts]

/-- With an item, its rendered parts are rendered. -/
theorem rendered_subset_of_mem_renderedParts {x y : Item} (h : y ∈ x.renderedParts) :
    y.rendered ⊆ x.rendered := walk_subset_of_mem rendered_eq h

/-- What is rendered for an item that is rendered for another one is rendered for that one. -/
theorem rendered_trans {x y z : Item} (hy : y ∈ x.rendered) (hz : z ∈ y.rendered) :
    z ∈ x.rendered :=
  walk_trans rendered_eq
    (fun x ↦ List.Subset.trans x.renderedParts_subperm_parts.subset x.parts_sublist_children.subset)
    hy hz

end Item

/-! ## Types -/

/-- A union with fewer than two options has neither blocks nor a type of its own. -/
theorem Rendered.union_eq (options : List Rendered) :
    Rendered.union options =
      if options.length < 2 then ⟨[], .any⟩
      else ⟨options.flatMap (·.blocks), .union (options.map (·.type))⟩ := by
  match options with
  | [] => rfl
  | [_] => rfl
  | first :: second :: rest =>
    rw [if_neg (by simp)]
    rfl

/-- What holds of a type and survives that the type is put into a list holds of an option. -/
theorem Rendered.asOption_induction {P : TypeExpr → Prop} (hlist : ∀ type, P type → P (.list type))
    {r : Rendered} (h : P r.type) (a : Attributes) : P (r.asOption a).type := by
  rw [Rendered.asOption]
  split
  · exact hlist _ h
  · exact h

/-- What also survives that the type is made optional holds of a field. -/
theorem Rendered.asField_induction {P : TypeExpr → Prop} (hlist : ∀ type, P type → P (.list type))
    (hoptional : ∀ type, P type → P (.optional type)) {r : Rendered} (h : P r.type)
    (a : Attributes) : P (r.asField a).type := by
  have hoption : P (r.asOption a).type := asOption_induction hlist h a
  have hfield : (r.asField a).type =
      if a.required then (r.asOption a).type else .optional (r.asOption a).type := rfl
  rw [hfield]
  split
  · exact hoption
  · exact hoptional _ hoption

/-- What survives that a type is described holds of a type with any description. -/
theorem TypeExpr.describedBy_induction {P : TypeExpr → Prop} {description : Json} {type : TypeExpr}
    (hdescribed : description.truthy → P type → P (.described type description)) (h : P type) :
    P (type.describedBy description) := by
  rw [describedBy]
  split
  · rename_i htruthy
    exact hdescribed htruthy h
  · exact h

variable (context : RenderContext)

namespace Item

theorem renderFields_eq (slot : Option (List Item)) :
    renderFields context slot =
      (slot.getD []).map fun x ↦ (x.name, (x.render context).asField x.attributes) := by
  have hlist (xs : List Item) : renderFieldList context xs =
      xs.map fun x ↦ (x.name, (x.render context).asField x.attributes) := by
    induction xs with
    | nil => rfl
    | cons x xs ih => rw [renderFieldList, ih, List.map_cons]
  cases slot with
  | none => rfl
  | some xs => exact hlist xs

theorem renderOptions_eq (slot : Option (List Item)) :
    renderOptions context slot =
      (slot.getD []).map fun x ↦ (x.render context).asOption x.attributes := by
  have hlist (xs : List Item) : renderOptionList context xs =
      xs.map fun x ↦ (x.render context).asOption x.attributes := by
    induction xs with
    | nil => rfl
    | cons x xs ih => rw [renderOptionList, ih, List.map_cons]
  cases slot with
  | none => rfl
  | some xs => exact hlist xs

/-- The type of an item where it stands as an option. -/
def optionType (x : Item) : TypeExpr := ((x.render context).asOption x.attributes).type

/-- The type of a union or a leaf apart from its alias. -/
def ownType (x : Item) : TypeExpr :=
  let type : TypeExpr :=
    if x.kind = .union then
      if (x.options.getD []).length < 2 then .any
      else .union ((x.options.getD []).map (optionType context))
    else .leaf x.attributes
  type.describedBy x.attributes.description

end Item

/-- The attribute of a class that a field becomes under a key. -/
def RenderContext.line (key : String) (x : Item) : FieldLine where
  key := key
  type := ((x.render context).asField x.attributes).type
  default := ((x.render context).asField x.attributes).default
  external := if key = x.name then none else some x.name

/-- The attributes of the class of an object with the given fields. -/
def RenderContext.lines (xs : List Item) : List FieldLine :=
  (keyedFields xs).map fun m ↦ context.line m.1 m.2

/-- The block that an item contributes. -/
def RenderContext.block? (x : Item) : Option Block :=
  match x.target?, x.kind with
  | some _, _ => none
  | none, .object =>
    some (.cls ((Members.find? x.id context.names.classes).getD "") x.attributes.description
      (context.lines (x.fields.getD [])))
  | none, _ => (Members.find? x.id context.names.aliases).map (.typeAlias · (x.ownType context))

/-- The class of an object comes behind the blocks of its fields. -/
theorem classBlocks_eq (name : String) (description : Json) (xs : List Item) :
    classBlocks name description
        (xs.map fun x ↦ (x.name, (x.render context).asField x.attributes)) =
      (lastFields xs).flatMap (fun x ↦ (x.render context).blocks) ++
        [.cls name description (context.lines xs)] := by
  have hlines := zip_fieldKeys_ofList (fun x ↦ (x.render context).asField x.attributes)
    (fun key external (field : RenderedField) ↦
      { key
        type := field.type
        default := field.default
        external := if key = external then none else some external : FieldLine }) xs
  rw [classBlocks]
  dsimp only
  rw [hlines, ofList_map_fields, List.flatMap_map]
  rfl

/-- The types of the attributes of a class are those of the fields that count. -/
theorem map_type_lines (xs : List Item) :
    (context.lines xs).map FieldLine.type =
      (lastFields xs).map fun x ↦ ((x.render context).asField x.attributes).type := by
  rw [← map_snd_keyedFields, RenderContext.lines, List.map_map, List.map_map]
  rfl

/-- A reference without an end is rendered as a type that admits anything. -/
theorem reference_of_none {a : Attributes} (h : context.table.resolve a = none) :
    context.reference a = .any := by
  rw [RenderContext.reference, h]

/-- A reference is rendered as the quoted name of the item at its end. An item without a name is
copied. -/
theorem reference_of_some {a : Attributes} {target : Item}
    (h : context.table.resolve a = some target) :
    context.reference a =
      (((Members.find? target.id context.names.classes).or
        (Members.find? target.id context.names.aliases)).map .forward).getD
          (.leaf target.attributes) := by
  rw [RenderContext.reference, h]
  dsimp only
  cases Members.find? target.id context.names.classes with
  | some name => rfl
  | none => cases Members.find? target.id context.names.aliases <;> rfl

section Render

variable {x : Item}

/-- The type of a union is made of its parts. -/
theorem ownType_of_union (ht : x.target? = none) (hk : x.kind = .union) :
    x.ownType context =
      (if x.renderedParts = [] then TypeExpr.any
        else .union (x.renderedParts.map (Item.optionType context))).describedBy
        x.attributes.description := by
  rw [Item.ownType, Item.renderedParts_of_union ht hk, if_pos hk]
  by_cases hsmall : (x.options.getD []).length < 2
  · rw [if_pos hsmall, if_pos hsmall, if_pos rfl]
  · have hne : x.options.getD [] ≠ [] := by
      rintro h
      rw [h] at hsmall
      exact hsmall Nat.two_pos
    rw [if_neg hsmall, if_neg hsmall, if_neg hne]

theorem ownType_of_leaf (hu : x.kind ≠ .union) :
    x.ownType context =
      (TypeExpr.leaf x.attributes).describedBy x.attributes.description := by
  rw [Item.ownType, if_neg hu]

theorem block?_of_target {id : String} (h : x.target? = some id) : context.block? x = none := by
  rw [RenderContext.block?, h]

theorem block?_of_object (ht : x.target? = none) (hk : x.kind = .object) :
    context.block? x = some (.cls ((Members.find? x.id context.names.classes).getD "")
      x.attributes.description (context.lines (x.fields.getD []))) := by
  rw [RenderContext.block?, ht, hk]

theorem block?_of_other (ht : x.target? = none) (ho : x.kind ≠ .object) :
    context.block? x =
      (Members.find? x.id context.names.aliases).map (.typeAlias · (x.ownType context)) := by
  rw [RenderContext.block?, ht]
  cases hk : x.kind <;> first | rfl | contradiction

/-- **The block of an item** is the class of an object, or the alias of what is no object. -/
theorem block?_cases {b : Block} (h : context.block? x = some b) :
    x.target? = none ∧
      (x.kind = .object ∧ b = .cls ((Members.find? x.id context.names.classes).getD "")
          x.attributes.description (context.lines (x.fields.getD [])) ∨
        x.kind ≠ .object ∧ ∃ name, Members.find? x.id context.names.aliases = some name ∧
          b = .typeAlias name (x.ownType context)) := by
  cases ht : x.target? with
  | some id =>
    rw [block?_of_target context ht] at h
    cases h
  | none =>
    refine ⟨rfl, ?_⟩
    by_cases ho : x.kind = .object
    · rw [block?_of_object context ht ho, Option.some_inj] at h
      exact .inl ⟨ho, h.symm⟩
    · rw [block?_of_other context ht ho] at h
      obtain ⟨name, hname, rfl⟩ := Option.map_eq_some_iff.mp h
      exact .inr ⟨ho, name, hname, rfl⟩

theorem blocks_aliased (id : String) (r : Rendered) :
    (context.aliased id r).blocks =
      r.blocks ++ ((Members.find? id context.names.aliases).map (.typeAlias · r.type)).toList := by
  rw [RenderContext.aliased]
  cases Members.find? id context.names.aliases with
  | none => exact (List.append_nil _).symm
  | some name => rfl

theorem type_aliased (id : String) (r : Rendered) :
    (context.aliased id r).type =
      ((Members.find? id context.names.aliases).map .name).getD r.type := by
  rw [RenderContext.aliased]
  cases Members.find? id context.names.aliases <;> rfl

theorem render_of_target {id : String} (h : x.target? = some id) :
    x.render context = ⟨[], context.reference x.attributes⟩ := by
  obtain ⟨a, fields, options⟩ := x
  rw [Item.target?, Item.attributes] at h
  rw [Item.render, h]
  rfl

theorem render_of_object (ht : x.target? = none) (hk : x.kind = .object) :
    x.render context =
      ⟨x.renderedParts.flatMap (fun y ↦ (y.render context).blocks) ++ (context.block? x).toList,
        .name ((Members.find? x.id context.names.classes).getD "")⟩ := by
  rw [block?_of_object context ht hk, Item.renderedParts_of_object ht hk]
  obtain ⟨a, fields, options⟩ := x
  rw [Item.target?, Item.attributes] at ht
  rw [Item.kind, Item.attributes] at hk
  rw [Item.render, ht, hk, Item.renderFields_eq]
  dsimp only
  rw [classBlocks_eq]
  rfl

theorem render_of_union (ht : x.target? = none) (hk : x.kind = .union) :
    x.render context = context.aliased x.id
      ⟨x.renderedParts.flatMap fun y ↦ (y.render context).blocks, x.ownType context⟩ := by
  rw [Item.renderedParts_of_union ht hk, Item.ownType, hk]
  obtain ⟨a, fields, options⟩ := x
  rw [Item.target?, Item.attributes] at ht
  rw [Item.kind, Item.attributes] at hk
  rw [Item.render, ht, Option.isSome_none, if_neg Bool.false_ne_true, hk, Item.renderOptions_eq,
    Rendered.union_eq, List.length_map, Item.options]
  dsimp only
  split
  · rfl
  · rw [List.flatMap_map, List.map_map]
    rfl

theorem render_of_leaf (ht : x.target? = none) (ho : x.kind ≠ .object) (hu : x.kind ≠ .union) :
    x.render context = context.aliased x.id ⟨[], x.ownType context⟩ := by
  rw [Item.ownType, if_neg hu]
  obtain ⟨a, fields, options⟩ := x
  rw [Item.target?, Item.attributes] at ht
  rw [Item.kind, Item.attributes] at ho hu
  rw [Item.render, ht, Option.isSome_none, if_neg Bool.false_ne_true]
  cases hk : a.kind <;> first | rfl | contradiction

/-- Unions and leaves are rendered alike: the blocks of the parts, and the alias if there is one. -/
theorem render_of_other (ht : x.target? = none) (ho : x.kind ≠ .object) :
    x.render context = context.aliased x.id
      ⟨x.renderedParts.flatMap fun y ↦ (y.render context).blocks, x.ownType context⟩ := by
  by_cases hu : x.kind = .union
  · exact render_of_union context ht hu
  · rw [Item.renderedParts_of_leaf ho hu]
    exact render_of_leaf context ht ho hu

theorem type_of_target {id : String} (h : x.target? = some id) :
    (x.render context).type = context.reference x.attributes := by
  rw [render_of_target context h]

theorem type_of_object (ht : x.target? = none) (hk : x.kind = .object) :
    (x.render context).type =
      .name ((Members.find? x.id context.names.classes).getD "") := by
  rw [render_of_object context ht hk]

theorem type_of_other (ht : x.target? = none) (ho : x.kind ≠ .object) :
    (x.render context).type =
      ((Members.find? x.id context.names.aliases).map .name).getD (x.ownType context) := by
  rw [render_of_other context ht ho, type_aliased]

/-- An item is rendered to the blocks of its parts and its own, if it contributes one. -/
theorem blocks_render_eq_parts (x : Item) :
    (x.render context).blocks =
      x.renderedParts.flatMap (fun y ↦ (y.render context).blocks) ++
        (context.block? x).toList := by
  cases ht : x.target? with
  | some id =>
    rw [render_of_target context ht, block?_of_target context ht, Item.renderedParts_of_target ht]
    rfl
  | none =>
    by_cases ho : x.kind = .object
    · rw [render_of_object context ht ho]
    · rw [render_of_other context ht ho, blocks_aliased, block?_of_other context ht ho]

/-- **What an item is rendered to**: the blocks of all items that are rendered for it. -/
theorem blocks_render (x : Item) :
    (x.render context).blocks = x.rendered.filterMap context.block? := by
  induction x using Item.renderedInduction with
  | step x ih =>
    have hparts : x.renderedParts.flatMap (fun y ↦ (y.render context).blocks) =
        x.renderedParts.flatMap fun y ↦ y.rendered.filterMap context.block? :=
      List.flatMap_congr ih
    rw [blocks_render_eq_parts, hparts, Item.rendered_eq, List.filterMap_append,
      List.filterMap_flatMap]
    congr 1

end Render

/-! ## Documents -/

namespace Document

variable {d : Document}

/-- What rendering a document looks up. -/
def renderContext (d : Document) : RenderContext := ⟨d.index, d.definitionNames⟩

/-- The items of a document that are rendered, parts before the whole. -/
def rendered (d : Document) : List Item := (lastFields d.fields).flatMap Item.rendered

theorem rendered_subperm_built (d : Document) : d.rendered <+~ d.built := by
  rw [rendered, built_eq]
  exact subperm_flatMap (lastFields_subperm d.fields) fun x _ ↦ x.rendered_subperm_built

theorem mem_built_of_mem_rendered {x : Item} (h : x ∈ d.rendered) : x ∈ d.built :=
  d.rendered_subperm_built.subset h

theorem mem_items_of_mem_rendered {x : Item} (h : x ∈ d.rendered) : x ∈ d.items :=
  d.built_subperm_items.subset (mem_built_of_mem_rendered h)

/-- The fields that count are rendered. -/
theorem mem_rendered_of_mem_lastFields {x : Item} (h : x ∈ lastFields d.fields) : x ∈ d.rendered :=
  List.mem_flatMap.mpr ⟨x, h, x.self_mem_rendered⟩

/-- With an item of a document that is rendered, its rendered parts are rendered. -/
theorem mem_rendered_of_mem_renderedParts {x y : Item} (hx : x ∈ d.rendered)
    (hy : y ∈ x.renderedParts) : y ∈ d.rendered := by
  obtain ⟨z, hz, hxz⟩ := List.mem_flatMap.mp hx
  have hyx : y ∈ x.rendered := Item.rendered_subset_of_mem_renderedParts hy y.self_mem_rendered
  exact List.mem_flatMap.mpr ⟨z, hz, Item.rendered_trans hxz hyx⟩

/-- A document all of whose items count. -/
structure Tidy (d : Document) : Prop where
  names : (d.fields.map Item.name).Nodup
  items : ∀ x ∈ d.items, x.Tidy

/-- In a tidy document every item is rendered. -/
theorem Tidy.mem_rendered (h : d.Tidy) {x : Item} (hx : x ∈ d.items) : x ∈ d.rendered := by
  have hbuilt : d.rendered = d.built := by
    rw [rendered, built_eq, lastFields_of_nodup h.names]
    refine List.flatMap_congr fun y hy ↦ Item.rendered_eq_built fun z hz ↦ h.items z ?_
    rw [items_eq]
    exact List.mem_flatMap.mpr ⟨y, hy, hz⟩
  rw [hbuilt]
  exact (built_perm_items fun y hy ↦ (h.items y hy).inPlace).mem_iff.mpr hx

/-- Where no id is repeated, no item is rendered twice. -/
theorem nodup_rendered (hids : (d.items.map Item.id).Nodup) : (d.rendered.map Item.id).Nodup := by
  obtain ⟨xs, hperm, hsub⟩ := d.rendered_subperm_built.trans d.built_subperm_items
  exact (hperm.map Item.id).nodup_iff.mp (hids.sublist (hsub.map Item.id))

end Document

end SchemaTree
