import SchemaTree.Import.OfShape
import SchemaTree.Proofs.Building
import SchemaTree.Proofs.NormalForm
import SchemaTree.Tree.Edit

/-!
# Import undoes build

What a document is built into shows itself to an importer as a view, and the import of the view
brings the document back (`import_build`). Building wraps the shape of a field from the inside out,
first as a list, then as optional, then with a default; the view of a field shows these wrappings
and the import turns each into the mark that it came from. A description is shown by the innermost
view and again by the wrappings of a field, where it is no news.

The proof goes along the views: `Imports view name y` says that a view is imported under a name as
the item `y`, ids apart and without foreign values, and each form has a lemma.
-/

namespace SchemaTree

open Json

/-! ## Marks -/

variable {name : String}

namespace Item

variable {x : Item} {f : Attributes → Attributes}

@[simp] theorem attributes_mark : (x.mark f).attributes = f x.attributes := by
  cases x
  rfl

@[simp] theorem attributes_eraseIds : x.eraseIds.attributes = { x.attributes with id := "" } := by
  cases x
  rfl

theorem eraseIds_mark (hf : ∀ a, { f a with id := "" } = f { a with id := "" }) :
    (x.mark f).eraseIds = x.eraseIds.mark f := by
  cases x
  rw [mark, eraseIds, hf, eraseIds, mark]

/-- An item with a description, unless it has one already. -/
def describe (d : Json) (x : Item) : Item :=
  if x.attributes.description.truthy then x
  else if d.truthy then x.mark fun a ↦ { a with description := d } else x

theorem eraseIds_describe (d : Json) : (x.describe d).eraseIds = x.eraseIds.describe d := by
  rw [describe, describe, attributes_eraseIds]
  split_ifs
  · rfl
  · exact eraseIds_mark fun _ ↦ rfl
  · rfl

/-- A description that counts as false, or that the item has, is no news. -/
theorem describe_of_known {d : Json} (h : d.truthy → x.attributes.description = d) :
    x.describe d = x := by
  rw [describe]
  split_ifs with hx hd
  · rfl
  · rw [h hd] at hx
    exact absurd hd hx
  · rfl

end Item

theorem describe_blank (kind : Kind) (literal d : Json) (fields options : Option (List Item)) :
    (Item.mk (.blank name kind literal) fields options).describe d.orNull =
      .mk { Attributes.blank name kind literal with description := d.orNull } fields options := by
  have hblank : ¬ (Attributes.blank name kind literal).description.truthy := Bool.false_ne_true
  rw [Item.describe, Item.attributes, if_neg hblank]
  by_cases hd : d.truthy
  · rw [orNull, if_pos hd, if_pos hd]
    rfl
  · rw [orNull, if_neg hd]
    rfl

/-! ## Forms -/

/-- A form is imported under a name as an item, ids apart. -/
def SchemaForm.Imports (form : SchemaForm) (name : String) (y : Item) : Prop :=
  ∀ ids, ∃ x ids', Yields (form.toItem name) ids ⟨x, none, []⟩ ids' ∧ x.eraseIds = y

/-- A view is imported under a name as an item, ids apart. -/
def SchemaView.Imports (view : SchemaView) (name : String) (y : Item) : Prop :=
  ∀ ids, ∃ x ids', Yields (view.toItem? name) ids (some ⟨x, none, []⟩) ids' ∧ x.eraseIds = y

/-- Properties or options are imported as items, ids apart. -/
def ImportsAll (items : Importing (List Imported)) (ys : List Item) : Prop :=
  ∀ ids, ∃ xs ids', Yields items ids (xs.map fun x ↦ ⟨x, none, []⟩) ids' ∧ Item.eraseList xs = ys

variable {x y : Item} {ys : List Item} {view : SchemaView} {form : SchemaForm}

/-- Items without foreign values are no more than items. -/
theorem map_item_plain (xs : List Item) :
    (xs.map fun x ↦ (⟨x, none, []⟩ : Imported)).map Imported.item = xs := by
  rw [List.map_map]
  exact List.map_id xs

theorem foreign_plain (xs : List Item) :
    (xs.map fun x ↦ (⟨x, none, []⟩ : Imported)).flatMap Imported.foreign = [] := by
  simp [List.flatMap_map, Imported.foreign]

/-- An item made of items without foreign values has none. -/
theorem yields_importedItem (kind : Kind) (fields options : Option (List Item)) (literal : Json)
    (ids : IdSupply) :
    Yields (importedItem name kind (fields.map (·.map fun x ↦ ⟨x, none, []⟩))
        (options.map (·.map fun x ↦ ⟨x, none, []⟩)) (.json literal)) ids
      ⟨.mk { Attributes.blank name kind literal with id := ids.fresh.1 } fields options, none, []⟩
      ids.fresh.2 := by
  refine .bind (yields_modifyGet_iff.mpr rfl) (yields_pure_iff.mpr ⟨?_, rfl⟩)
  have hitems (slot : Option (List Item)) :
      (slot.map (·.map fun x ↦ (⟨x, none, []⟩ : Imported))).map (·.map Imported.item) = slot := by
    cases slot with
    | none => rfl
    | some xs => exact congrArg some (map_item_plain xs)
  have hforeign (slot : Option (List Item)) :
      ((slot.map (·.map fun x ↦ (⟨x, none, []⟩ : Imported))).getD []).flatMap
        Imported.foreign = [] := by
    cases slot with
    | none => rfl
    | some xs => exact foreign_plain xs
  rw [hitems, hitems, List.flatMap_append, hforeign, hforeign]
  rfl

theorem imports_scalar (type : ScalarType) :
    (SchemaForm.scalar type).Imports name (.mk (.blank name type.kind .null) none none) := by
  intro ids
  exact ⟨_, _, yields_importedItem type.kind none none .null ids, rfl⟩

theorem imports_literal (value : Json) :
    (SchemaForm.literal (.json value)).Imports name
      (.mk (.blank name .literal value) none none) := by
  intro ids
  exact ⟨_, _, yields_importedItem .literal none none value ids, rfl⟩

theorem imports_object {properties : List (String × SchemaView)}
    (h : ImportsAll (SchemaForm.propertyItems properties) ys) :
    (SchemaForm.object properties).Imports name
      (.mk (.blank name .object .null) (some ys) none) := by
  intro ids
  obtain ⟨xs, ids', hxs, rfl⟩ := h ids
  exact ⟨_, _, hxs.bind (yields_importedItem .object (some xs) none .null ids'), rfl⟩

theorem imports_union {options : List SchemaView}
    (h : ImportsAll (SchemaForm.optionItems 0 options) ys) :
    (SchemaForm.union options).Imports name (.mk (.blank name .union .null) none (some ys)) := by
  intro ids
  obtain ⟨xs, ids', hxs, rfl⟩ := h ids
  exact ⟨_, _, hxs.bind (yields_importedItem .union none (some xs) .null ids'), rfl⟩

/-- A form that wraps another view is imported as its item with a mark. -/
theorem imports_wrapping {f : Attributes → Attributes}
    (hf : ∀ a, { f a with id := "" } = f { a with id := "" })
    (hform : ∀ ids x ids', Yields (view.toItem? name) ids (some ⟨x, none, []⟩) ids' →
      Yields (form.toItem name) ids ⟨x.mark f, none, []⟩ ids')
    (h : view.Imports name y) : form.Imports name (y.mark f) := by
  intro ids
  obtain ⟨x, ids', hx, rfl⟩ := h ids
  exact ⟨x.mark f, ids', hform ids x ids' hx, Item.eraseIds_mark hf⟩

theorem imports_array (h : view.Imports name y) :
    (SchemaForm.array view).Imports name (y.mark fun a ↦ { a with isArray := true }) := by
  refine imports_wrapping (fun _ ↦ rfl) (fun ids x ids' hx ↦ ?_) h
  exact hx.bind (.pure _ _)

theorem imports_optional (h : view.Imports name y) :
    (SchemaForm.optional view).Imports name (y.mark fun a ↦ { a with required := false }) := by
  refine imports_wrapping (fun _ ↦ rfl) (fun ids x ids' hx ↦ ?_) h
  exact hx.bind (.pure _ _)

theorem imports_default (h : view.Imports name y) (value : Json) :
    (SchemaForm.default view (.json value)).Imports name
      (y.mark fun a ↦ { a with defaultValue := value, hasDefault := true }) := by
  refine imports_wrapping (fun _ ↦ rfl) (fun ids x ids' hx ↦ ?_) h
  exact hx.bind (.pure _ _)

/-! ## Views -/

/-- Whether views of a form have an item whose kind the form tells. -/
def SchemaForm.hasItem : SchemaForm → Bool
  | .mistagged _ | .opaqueTo _ | .null | .failing _ | .endless => false
  | _ => true

theorem toItem?_of_hasItem {description : Description} (h : form.hasItem) :
    (SchemaView.mk description form).toItem? name =
      (do some <$> describeItem description (← form.toItem name)) := by
  cases form <;> first | rfl | cases h

theorem yields_describeItem (d : Json) (x : Item) (ids : IdSupply) :
    Yields (describeItem (.ok d) ⟨x, none, []⟩) ids ⟨x.describe d, none, []⟩ ids := by
  rw [describeItem, Item.describe]
  dsimp only
  split_ifs
  · exact .pure _ _
  · exact .pure _ _
  · exact .pure _ _

/-- A view is imported as its form is, and described. -/
theorem imports_view {d : Json} (hform : form.hasItem) (h : form.Imports name y) :
    (SchemaView.mk (.ok d) form).Imports name (y.describe d) := by
  intro ids
  obtain ⟨x, ids', hx, rfl⟩ := h ids
  rw [toItem?_of_hasItem hform]
  exact ⟨x.describe d, ids', hx.bind ((yields_describeItem d x ids').map some),
    x.eraseIds_describe d⟩

/-- A view is imported as an item, and its description is that of the item or none. -/
structure SchemaView.Shows (view : SchemaView) (name : String) (y : Item) : Prop where
  imports : view.Imports name y
  described : ∃ d, view.description = .ok d ∧ (d.truthy → y.attributes.description = d)

theorem shows_view {d : Json} (hform : form.hasItem) (h : form.Imports name y)
    (hd : d.truthy → y.attributes.description = d) :
    (SchemaView.mk (.ok d) form).Shows name y where
  imports := by
    rw [← y.describe_of_known hd]
    exact imports_view hform h
  described := ⟨d, rfl, hd⟩

theorem shows_plain (hform : form.hasItem) (h : form.Imports name y) :
    (SchemaView.plain form).Shows name y :=
  shows_view hform h (fun hnull ↦ absurd hnull Bool.false_ne_true)

/-- A view with the description of the view that it wraps. -/
theorem SchemaView.Shows.wrap {f : Attributes → Attributes} (h : view.Shows name y)
    (hf : ∀ a, (f a).description = a.description) (hform : form.hasItem)
    (himports : form.Imports name (y.mark f)) :
    (SchemaView.mk view.description form).Shows name (y.mark f) := by
  obtain ⟨d, hview, hd⟩ := h.described
  rw [hview]
  refine shows_view hform himports fun htruthy ↦ ?_
  rw [Item.attributes_mark, hf, hd htruthy]

/-! ## Positions -/

theorem mark_normalWith (f : Attributes → Attributes) (b : Attributes) (x : Item) :
    (x.normalWith b).mark f = x.normalWith (f b) := by
  cases x
  rfl

/-- Whether a shape is no more than a list, a scalar, a literal, a record or a union, described or
not. -/
def Shape.isSolid (shape : Shape) : Bool :=
  match shape.bare with
  | .scalar _ | .literal _ | .record .. | .union _ | .list _ => true
  | _ => false

variable {shape : Shape}

theorem admitsNull_of_isSolid (h : shape.isSolid) : shape.admitsNull = false := by
  rw [Shape.isSolid] at h
  rw [Shape.admitsNull]
  cases hbare : shape.bare <;> simp_all

theorem form_view_bare (shape : Shape) : shape.bare.view.form = shape.view.form := by
  fun_induction Shape.bare shape with
  | case1 inner description ih =>
    rw [ih, Shape.view]
    rfl
  | case2 => rfl

/-- The view of a solid shape is not wrapped as optional. -/
theorem form_ne_optional_of_isSolid (h : shape.isSolid) (inner : SchemaView) :
    shape.view.form ≠ .optional inner := by
  rw [← form_view_bare]
  rw [Shape.isSolid] at h
  cases hbare : shape.bare <;> simp_all [Shape.view, SchemaView.plain, SchemaView.form]

theorem isSolid_describedBy (description : Json) :
    (shape.describedBy description).isSolid = shape.isSolid := by
  rw [Shape.describedBy]
  split
  · rw [Shape.isSolid, Shape.bare, ← Shape.isSolid]
  · rfl

theorem isSolid_asOption (h : shape.isSolid) (a : Attributes) : (shape.asOption a).isSolid := by
  rw [Shape.asOption]
  split
  · rfl
  · exact h

variable {b : Attributes}

/-- What an item shows where it stands: an array is a wrapping around it. -/
theorem shows_asOption (h : shape.view.Shows name (x.normalWith b))
    (hb : b.isArray = false) (a : Attributes) :
    (shape.asOption a).view.Shows name (x.normalWith { b with isArray := a.isArray }) := by
  rw [Shape.asOption]
  cases ha : a.isArray with
  | false =>
    have hsame : { b with isArray := false } = b := by rw [← hb]
    rw [hsame]
    exact h
  | true =>
    rw [if_pos rfl, Shape.view, ← mark_normalWith fun b ↦ { b with isArray := true }]
    exact shows_plain rfl (imports_array h.imports)

/-! ## Fields -/

theorem withDefault_none {admitsNull : Bool} (h : ∀ inner, view.form ≠ .optional inner) :
    view.withDefault admitsNull none = view := by
  obtain ⟨description, form⟩ := view
  cases form <;> first | rfl | exact absurd rfl (h _)

/-- A default is shown unless null is accepted anyway. -/
theorem withDefault_some {admitsNull : Bool} {value : Json}
    (h : admitsNull = false ∨ value.isNull = false) :
    view.withDefault admitsNull (some value) =
      .mk view.description (.default view (.json value)) := by
  cases value with
  | null =>
    rw [h.resolve_right (by simp [isNull])]
    rfl
  | _ => rfl

theorem shows_optional (h : view.Shows name (x.normalWith b)) :
    (SchemaView.mk view.description (.optional view)).Shows name
      (x.normalWith { b with required := false }) := by
  rw [← mark_normalWith fun b ↦ { b with required := false }]
  exact h.wrap (fun _ ↦ rfl) rfl (imports_optional h.imports)

theorem shows_default (h : view.Shows name (x.normalWith b)) (value : Json) :
    (SchemaView.mk view.description (.default view (.json value))).Shows name
      (x.normalWith { b with defaultValue := value, hasDefault := true }) := by
  rw [← mark_normalWith fun b ↦ { b with defaultValue := value, hasDefault := true }]
  exact h.wrap (fun _ ↦ rfl) rfl (imports_default h.imports value)

/-- The view of a field. -/
def Item.fieldView (anonymous : String) (f : Item) : SchemaView :=
  let p := (f.shape anonymous).asField f.attributes
  p.2.view.withDefault p.2.admitsNull p.1

/-- The default of a field is one that is kept, or null where the field is not required. -/
theorem fst_asField (a : Attributes) (shape : Shape) :
    (shape.asField a).1 =
      if a.keepsDefault then some a.defaultValue else if a.required then none else some .null := by
  rw [Shape.asField, Attributes.keepsDefault]
  cases a.hasDefault <;> cases a.required <;> cases a.defaultValue <;> rfl

/-- What a field shows, its default apart. -/
theorem shows_asField {f : Item}
    (h : shape.view.Shows name (f.normalWith (f.attributes.core name))) :
    (shape.asField f.attributes).2.view.Shows name (f.normalWith
      { f.attributes.core name with
        required := f.attributes.required
        isArray := f.attributes.isArray }) := by
  have hhere := shows_asOption h rfl f.attributes
  rw [snd_asField]
  cases f.attributes.required with
  | true => exact hhere
  | false =>
    rw [if_neg Bool.false_ne_true, Shape.view]
    have hoptional := imports_optional hhere.imports
    rw [mark_normalWith] at hoptional
    exact shows_plain rfl hoptional

/-- **What a field shows**: its wrappings are the marks that it has left. -/
theorem shows_fieldView {f : Item} {anonymous : String} (hsolid : (f.shape anonymous).isSolid)
    (h : (f.shape anonymous).view.Shows f.name (f.normalWith (f.attributes.core f.name))) :
    (f.fieldView anonymous).Shows f.name (f.normalWith f.attributes.normalField) := by
  have hsolid' := isSolid_asOption hsolid f.attributes
  have hshows := shows_asField h
  rw [Item.fieldView]
  cases hkeeps : f.attributes.keepsDefault with
  | true =>
    -- a view hides null as a default of what accepts null, but such a default is not kept
    have hnull : ((f.shape anonymous).asField f.attributes).2.admitsNull = false ∨
        f.attributes.defaultValue.isNull = false := by
      rw [Attributes.keepsDefault, Bool.and_eq_true, Bool.or_eq_true, Bool.not_eq_true'] at hkeeps
      refine hkeeps.2.imp_left fun hr ↦ ?_
      rw [snd_asField, if_pos hr]
      exact admitsNull_of_isSolid hsolid'
    rw [fst_asField, if_pos hkeeps, withDefault_some hnull,
      Attributes.normalField_of_keepsDefault hkeeps]
    exact shows_default hshows f.attributes.defaultValue
  | false =>
    rw [fst_asField, if_neg (by simp [hkeeps]), Attributes.normalField_of_not_keepsDefault hkeeps]
    cases hr : f.attributes.required with
    | true =>
      rw [hr] at hshows
      rw [snd_asField, if_pos hr] at hshows ⊢
      rw [if_pos rfl, withDefault_none (form_ne_optional_of_isSolid hsolid')]
      exact hshows
    | false =>
      -- the null that stands for a missing field is seen as one more optional wrapping
      rw [hr] at hshows
      rw [snd_asField, if_neg (by simp [hr])] at hshows ⊢
      exact shows_optional hshows

/-! ## Children -/

variable {xs : List Item} {anonymous : String}

theorem importsAll_propertyItems {view : Item → SchemaView}
    (h : ∀ f ∈ xs, (view f).Imports f.name (f.normalWith f.attributes.normalField)) :
    ImportsAll (SchemaForm.propertyItems (xs.map fun f ↦ (f.name, view f)))
      (Item.normalFieldList xs) := by
  induction xs with
  | nil => exact fun ids ↦ ⟨[], ids, .pure _ _, rfl⟩
  | cons f rest ih =>
    intro ids
    obtain ⟨hfirst, hrest⟩ := List.forall_mem_cons.mp h
    obtain ⟨y, ids', hy, hfy⟩ := hfirst ids
    obtain ⟨ys, ids'', hys, hrests⟩ := ih hrest ids'
    rw [List.map_cons, SchemaForm.propertyItems, Item.normalFieldList, ← hfy, ← hrests]
    exact ⟨y :: ys, ids'', hy.bind (hys.bind (.pure _ _)), rfl⟩

theorem importsAll_optionItems {view : Item → SchemaView} (index : Nat)
    (h : ∀ y ∈ xs, ∀ index, (view y).Imports (optionName index)
      (y.normalWith (y.attributes.normalOption index))) :
    ImportsAll (SchemaForm.optionItems index (xs.map view)) (Item.normalOptionList index xs) := by
  induction xs generalizing index with
  | nil => exact fun ids ↦ ⟨[], ids, .pure _ _, rfl⟩
  | cons y rest ih =>
    intro ids
    obtain ⟨hfirst, hrest⟩ := List.forall_mem_cons.mp h
    obtain ⟨z, ids', hz, hyz⟩ := hfirst index ids
    obtain ⟨zs, ids'', hzs, hrests⟩ := ih (index + 1) hrest ids'
    rw [List.map_cons, SchemaForm.optionItems, Item.normalOptionList, ← hyz, ← hrests]
    exact ⟨z :: zs, ids'', hz.bind (hzs.bind (.pure _ _)), rfl⟩

theorem views_eq (shapes : List Shape) : Shape.views shapes = shapes.map Shape.view := by
  induction shapes with
  | nil => rfl
  | cons shape rest ih => rw [Shape.views, ih, List.map_cons]

theorem fieldViews_eq (fields : List (FieldHead × Shape)) :
    Shape.fieldViews fields =
      fields.map fun f ↦ (f.1.viewName, f.2.view.withDefault f.2.admitsNull f.1.default) := by
  induction fields with
  | nil => rfl
  | cons f rest ih => rw [Shape.fieldViews, ih, List.map_cons]

/-- Fields with different names that are not empty are seen under their names. -/
theorem fieldViews_recordFields (hne : "" ∉ xs.map Item.name) (hnd : (xs.map Item.name).Nodup) :
    Members.ofList (Shape.fieldViews (recordFields (Item.fieldListShapes anonymous xs))) =
      xs.map fun f ↦ (f.name, f.fieldView anonymous) := by
  have hkeys : Members.keys (Item.fieldListShapes anonymous xs) = xs.map Item.name := by
    rw [Item.fieldListShapes_eq, Members.keys, List.map_map]
    rfl
  -- without repeated names the record has a field for every item, in the order of the items
  have hfields := map_recordFields (Item.fieldListShapes anonymous xs)
  rw [Members.ofList_of_nodup (by rw [hkeys]; exact hnd)] at hfields
  have hname : ∀ p ∈ recordFields (Item.fieldListShapes anonymous xs),
      p.1.viewName = p.1.name := by
    intro p hp
    have hmem : (p.1.name, p.1.default, p.2) ∈ Item.fieldListShapes anonymous xs := by
      rw [← hfields]
      exact List.mem_map_of_mem hp
    have hxs : p.1.name ∈ xs.map Item.name := hkeys ▸ Members.mem_keys_of_mem hmem
    rw [FieldHead.viewName, if_neg fun hempty : p.1.name = "" ↦ hne (hempty ▸ hxs)]
  have hviews : Shape.fieldViews (recordFields (Item.fieldListShapes anonymous xs)) =
      xs.map fun f ↦ (f.name, f.fieldView anonymous) :=
    calc Shape.fieldViews (recordFields (Item.fieldListShapes anonymous xs))
      _ = (recordFields (Item.fieldListShapes anonymous xs)).map fun p ↦
            (p.1.name, p.2.view.withDefault p.2.admitsNull p.1.default) := by
          rw [fieldViews_eq]
          exact List.map_congr_left fun p hp ↦ by rw [hname p hp]
      _ = ((recordFields (Item.fieldListShapes anonymous xs)).map fun p ↦
            (p.1.name, p.1.default, p.2)).map fun m ↦
              (m.1, m.2.2.view.withDefault m.2.2.admitsNull m.2.1) := by
          rw [List.map_map]
          rfl
      _ = xs.map fun f ↦ (f.name, f.fieldView anonymous) := by
          rw [hfields, Item.fieldListShapes_eq, List.map_map]
          rfl
  rw [hviews, Members.ofList_of_nodup]
  rw [Members.keys, List.map_map]
  exact hnd

/-! ## Items -/

theorem view_describedBy {description : Json} (h : shape.view.description = .ok .null) :
    (shape.describedBy description).view = .mk (.ok description.orNull) shape.view.form := by
  rw [Shape.describedBy, orNull]
  split_ifs with htruthy
  · rw [Shape.view, Description.orElse, if_pos htruthy]
  · rw [← h]
    cases shape.view
    rfl

/-- A cleaned documentation is seen as it is. -/
theorem ofDocumentation_of_isCleaned {d : Json} (h : d.IsCleaned) :
    Description.ofDocumentation d = .ok d.orNull := by
  rw [orNull]
  cases d with
  | str s =>
    rw [IsCleaned] at h
    rw [Description.ofDocumentation, h, String.ofList_toList]
    split_ifs <;> rfl
  | _ =>
    unfold Description.ofDocumentation
    rw [if_neg (Bool.not_eq_true _ ▸ h), if_neg (Bool.not_eq_true _ ▸ h)]

/-- A view of an item of which, apart from its description, only the kind and parts are known. -/
theorem shows_blank {kind : Kind} {literal d : Json} {fields options : Option (List Item)}
    (hform : form.hasItem) (h : form.Imports name (.mk (.blank name kind literal) fields options)) :
    (SchemaView.mk (.ok d.orNull) form).Shows name
      (.mk { Attributes.blank name kind literal with description := d.orNull } fields options) where
  imports := describe_blank kind literal d fields options ▸ imports_view hform h
  described := ⟨d.orNull, rfl, fun _ ↦ rfl⟩

/-- The shapes of importable items are solid. -/
theorem isSolid_shape (h : x.Importable) : (x.shape anonymous).isSolid := by
  rcases h.kind_cases with hk | hk | hk | ⟨type, hk⟩
  · rw [Item.shape_of_object h.noReference hk]
    rfl
  · rw [Item.shape_of_union h.noReference hk, isSolid_describedBy, Shape.ofOptions,
      Item.optionListShapes_eq, List.length_map, if_neg (Nat.not_lt.mpr (h.options hk))]
    rfl
  · rw [Item.shape_of_literal h.noReference hk, isSolid_describedBy]
    rfl
  · rw [Item.shape_of_scalar h.noReference hk, isSolid_describedBy]
    rfl

/-- **What an importable item shows**: all of itself but its position. -/
theorem shows_shape (h : ∀ y ∈ x.built, y.Importable) (name : String) :
    (x.shape anonymous).view.Shows name (x.normalWith (x.attributes.core name)) := by
  induction x using Item.partsInduction generalizing name with
  | step x ih =>
    have hx := h x x.self_mem_built
    have ih (y : Item) (hy : y ∈ x.parts) (name : String) :
        (y.shape anonymous).view.Shows name (y.normalWith (y.attributes.core name)) ∧
          (y.shape anonymous).isSolid :=
      have hbuilt := Item.built_subset_of_mem_parts hy
      ⟨ih y hy (fun z hz ↦ h z (hbuilt hz)) name, isSolid_shape (h y (hbuilt y.self_mem_built))⟩
    rw [Item.normalWith_eq, Attributes.core, ← Item.kind]
    rcases hx.kind_cases with hk | hk | hk | ⟨type, hk⟩
    · rw [Item.parts_of_object hx.noReference hk] at ih
      obtain ⟨hne, hnd⟩ := hx.names hk
      rw [Item.shape_of_object hx.noReference hk, Shape.view,
        ofDocumentation_of_isCleaned (hx.documentation hk), fieldViews_recordFields hne hnd]
      simp only [hk, ↓reduceIte, reduceCtorEq]
      exact shows_blank rfl (imports_object (importsAll_propertyItems fun f hf ↦
        (shows_fieldView (ih f hf f.name).2 (ih f hf f.name).1).imports))
    · rw [Item.parts_of_union hx.noReference hk] at ih
      rw [Item.shape_of_union hx.noReference hk, Shape.ofOptions, Item.optionListShapes_eq,
        List.length_map, if_neg (Nat.not_lt.mpr (hx.options hk)), view_describedBy rfl, Shape.view,
        views_eq, List.map_map]
      simp only [hk, ↓reduceIte, reduceCtorEq]
      exact shows_blank rfl (imports_union (importsAll_optionItems 0 fun y hy index ↦
        (shows_asOption (ih y hy (optionName index)).1 rfl y.attributes).imports))
    · rw [Item.shape_of_literal hx.noReference hk, view_describedBy rfl, Shape.view,
        Attributes.toJson_scalar (hx.literal hk)]
      simp only [hk, ↓reduceIte, reduceCtorEq]
      exact shows_blank rfl (imports_literal x.attributes.literal)
    · have hliteral : type.kind ≠ .literal := by cases type <;> decide
      rw [Item.shape_of_scalar hx.noReference hk, view_describedBy rfl, Shape.view, hk,
        if_neg type.kind_ne_object, if_neg type.kind_ne_union, if_neg hliteral]
      exact shows_blank rfl (imports_scalar type)

/-! ## Documents -/

/-- **Import undoes build.** The model of an importable document is imported as the document, its
normal form to be exact, with other ids and without foreign values. -/
theorem import_build {d : Document} {settings : BuilderSettings} {root anonymous : String}
    (hs : settings.NameModels root anonymous) (hd : d.Importable) :
    ∃ m, (d.build settings).value = .ok m ∧ ∀ ids, ∃ imported ids',
      Yields m.shape.view.toDocument ids ⟨imported, []⟩ ids' ∧ imported.eraseIds = d.normal := by
  refine ⟨d.model root anonymous, Document.build_value hs d, fun ids ↦ ?_⟩
  have hfield : ∀ f ∈ d.fields, (f.fieldView anonymous).Imports f.name
      (f.normalWith f.attributes.normalField) := by
    intro f hf
    have hitems : ∀ y ∈ f.built, y.Importable := by
      intro y hy
      refine hd.items y ?_
      rw [Document.built_eq]
      exact List.mem_flatMap.mpr ⟨f, hf, hy⟩
    exact (shows_fieldView (isSolid_shape (hitems f f.self_mem_built))
      (shows_shape hitems f.name)).imports
  obtain ⟨xs, ids', hxs, herase⟩ := importsAll_propertyItems hfield ids
  refine ⟨⟨xs⟩, ids', ?_, congrArg Document.mk herase⟩
  rw [Document.model, Shape.view, fieldViews_recordFields hd.names.1 hd.names.2]
  refine hxs.bind (yields_pure_iff.mpr ⟨?_, rfl⟩)
  rw [map_item_plain, foreign_plain]

/-- An array of objects with a field whose default is lost, and a union with a default that is kept
and an array among its options; neither name is a key. -/
def Document.assorted : Document where
  fields := [
    .mk { (Item.new "a" .object "people").attributes with
        description := .str "Everybody.", isArray := true }
      (some [
        .mk { (Item.new "b" .string "first name").attributes with
          required := false, hasDefault := true } none none,
        .mk { (Item.new "c" .union "age?").attributes with
            hasDefault := true, defaultValue := .int 0 } none
          (some [
            .mk { (Item.new "d" .number "years").attributes with isArray := true } none none,
            Item.new "e" .literal "unknown"])]) none]

theorem import_build_assorted :
    Document.assorted.Importable ∧ ∃ m, (Document.assorted.build {}).value = .ok m ∧
      ∀ ids, ∃ imported ids', Yields m.shape.view.toDocument ids ⟨imported, []⟩ ids' ∧
        imported.eraseIds = Document.assorted.normal := by
  have himportable : Document.assorted.Importable := ⟨by decide, by decide⟩
  exact ⟨himportable, import_build BuilderSettings.nameModels_default himportable⟩

end SchemaTree
