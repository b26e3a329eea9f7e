import SchemaTree.Proofs.Reimport

/-!
# Wrappings become marks

Three forms of a schema wrap another one, so every view is a *core*, a view of any other form, in
wrappings (`SchemaView.exists_wrapAll`). However many of them there are, the import goes through
them from the inside out, and what it comes to can be said at once (`SchemaView.toItem?_wrapAll`):
the item of the core with the marks of all wrappings, each of which is there or is not, with the
outermost default and with the first description that counts (`Imported.wrapped`). So wrappings of
one sort collapse, and those of different sorts may change places.

A core that only null satisfies has no item. The innermost wrapping then makes one up, a text, and
marks it; but a default of what has no item is lost, and nothing but its description is left.
-/

namespace SchemaTree

/-! ## Wrappings -/

/-- A form that wraps another view, without that view. -/
inductive Wrapping where
  | optional
  | array
  | default (value : SchemaValue)

/-- A wrapping with the description of the schema that it makes. -/
structure Wrapper where
  description : Description
  wrapping : Wrapping

namespace Wrapping

/-- The form that a wrapping makes of a view. -/
def form (inner : SchemaView) : Wrapping → SchemaForm
  | optional => .optional inner
  | array => .array inner
  | default value => .default inner value

/-- Whether a wrapping makes a schema optional. -/
def isOptional : Wrapping → Bool
  | optional => true
  | _ => false

/-- Whether a wrapping makes an array. -/
def isArray : Wrapping → Bool
  | array => true
  | _ => false

/-- The default that a wrapping gives. -/
def value? : Wrapping → Option SchemaValue
  | default value => some value
  | _ => none

/-- The mark that a wrapping leaves on the item within. -/
def mark : Wrapping → Imported → Imported
  | optional => Imported.markOptional
  | array => Imported.markArray
  | default value => Imported.markDefault value

/-- What is left of the innermost wrapping where there is no item within: a default is lost. -/
def aroundNull : Wrapping → List Wrapping
  | default _ => []
  | wrapping => [wrapping]

end Wrapping

namespace SchemaView

/-- A view in one more wrapping. -/
def wrap (inner : SchemaView) (w : Wrapper) : SchemaView :=
  .mk w.description (w.wrapping.form inner)

/-- A view in several wrappings, from the innermost to the outermost. -/
def wrapAll : SchemaView → List Wrapper → SchemaView
  | view, [] => view
  | view, w :: ws => (view.wrap w).wrapAll ws

/-- A view that wraps no other one. -/
def IsCore (view : SchemaView) : Prop := ∀ inner wrapping, view.form ≠ Wrapping.form inner wrapping

theorem wrapAll_concat (view : SchemaView) (ws : List Wrapper) (w : Wrapper) :
    view.wrapAll (ws ++ [w]) = (view.wrapAll ws).wrap w := by
  induction ws generalizing view with
  | nil => rfl
  | cons v ws ih => exact ih (view.wrap v)

/-- Every view is a core in wrappings. -/
theorem exists_wrapAll :
    ∀ view : SchemaView, ∃ (core : SchemaView) (ws : List Wrapper), core.IsCore ∧
      view = core.wrapAll ws
  | .mk description form => by
    have hwrapped (inner : SchemaView) (w : Wrapper)
        (h : ∃ (core : SchemaView) (ws : List Wrapper), core.IsCore ∧ inner = core.wrapAll ws) :
        ∃ (core : SchemaView) (ws : List Wrapper), core.IsCore ∧
          inner.wrap w = core.wrapAll ws := by
      obtain ⟨core, ws, hcore, rfl⟩ := h
      exact ⟨core, ws ++ [w], hcore, (wrapAll_concat core ws w).symm⟩
    match form with
    | .optional inner => exact hwrapped inner ⟨description, .optional⟩ (exists_wrapAll inner)
    | .array inner => exact hwrapped inner ⟨description, .array⟩ (exists_wrapAll inner)
    | .default inner value =>
      exact hwrapped inner ⟨description, .default value⟩ (exists_wrapAll inner)
    | .scalar _ | .literal _ | .object _ | .union _ | .null | .any | .other | .opaqueTo _
    | .mistagged _ | .failingDefault _ _ | .failing _ | .endless =>
      refine ⟨_, [], ?_, rfl⟩
      rintro inner (_ | _ | _) h <;> exact nomatch h

end SchemaView

/-! ## Marks -/

/-- The first of several descriptions that counts, where `d` comes before them all. One that cannot
be had stops the search. -/
def firstDescription (d : Json) : List Description → Description
  | [] => .ok d
  | description :: rest => Description.orElse d do
    let d' ← description
    firstDescription (if d'.truthy then d' else d) rest

/-- The attributes of an item in wrappings, its description apart. -/
def Attributes.wrapped (a : Attributes) (wrappings : List Wrapping) : Attributes :=
  let default? := (wrappings.filterMap Wrapping.value?).getLast?
  { a with
    required := a.required && !wrappings.any Wrapping.isOptional
    isArray := a.isArray || wrappings.any Wrapping.isArray
    hasDefault := a.hasDefault || default?.isSome
    defaultValue := (default?.map SchemaValue.toJson).getD a.defaultValue }

namespace Imported

/-- An item in wrappings, its description apart. -/
def marked (x : Imported) (wrappings : List Wrapping) : Imported :=
  let default? := (wrappings.filterMap Wrapping.value?).getLast?
  { x.mark (·.wrapped wrappings) with
    foreignDefault := (default?.map SchemaValue.foreign?).getD x.foreignDefault }

/-- An item with a description in place of its own. -/
def describedAs (x : Imported) (d : Json) : Imported := x.mark fun a ↦ { a with description := d }

/-- **What wrappings make of an item**: all their marks, the outermost default, and the first
description that counts, its own before the others. -/
def wrapped (wrappings : List Wrapping) (descriptions : List Description) (x : Imported) :
    Importing Imported :=
  match firstDescription x.item.attributes.description descriptions with
  | .error e => throw (.documentation e)
  | .ok d => pure ((x.marked wrappings).describedAs d)

end Imported

section Marks

theorem Attributes.wrapped_nil (a : Attributes) : a.wrapped [] = a := by
  simp [wrapped]

/-- Marks are left one after the other. -/
theorem Attributes.wrapped_append (a : Attributes) (ws vs : List Wrapping) :
    (a.wrapped ws).wrapped vs = a.wrapped (ws ++ vs) := by
  simp only [wrapped, List.any_append, List.filterMap_append, List.getLast?_append,
    Option.isSome_or, Option.map_or, Option.getD_or, Bool.not_or, Bool.and_assoc, Bool.or_assoc]
  rw [Bool.or_comm (Option.isSome _)]

theorem Item.mark_mark (f g : Attributes → Attributes) (x : Item) :
    (x.mark f).mark g = x.mark fun a ↦ g (f a) := by
  cases x
  rfl

theorem Item.mark_id (x : Item) : (x.mark fun a ↦ a) = x := by
  cases x
  rfl

namespace Imported

variable (x : Imported) (ws vs : List Wrapping)

theorem mark_eq_marked (wrapping : Wrapping) : wrapping.mark x = x.marked [wrapping] := by
  obtain ⟨⟨a, fields, options⟩, foreignDefault, foreignInside⟩ := x
  cases wrapping <;>
    simp [Wrapping.mark, markOptional, markArray, markDefault, mark, marked, Item.mark,
      Attributes.wrapped, Wrapping.isOptional, Wrapping.isArray, Wrapping.value?]

@[simp] theorem marked_nil : x.marked [] = x := by
  rw [marked, mark]
  simp only [Attributes.wrapped_nil, Item.mark_id]
  rfl

theorem marked_marked : (x.marked ws).marked vs = x.marked (ws ++ vs) := by
  simp only [marked, mark, Item.mark_mark, Attributes.wrapped_append, List.filterMap_append,
    List.getLast?_append, Option.map_or, Option.getD_or]

@[simp] theorem description_marked :
    (x.marked ws).item.attributes.description = x.item.attributes.description := by
  rw [marked, mark, Item.attributes_mark]
  rfl

@[simp] theorem description_describedAs (d : Json) :
    (x.describedAs d).item.attributes.description = d := by
  rw [describedAs, mark, Item.attributes_mark]

/-- Marks and descriptions do not meet. -/
theorem marked_describedAs (d : Json) :
    (x.describedAs d).marked ws = (x.marked ws).describedAs d := by
  simp only [marked, describedAs, mark, Item.mark_mark]
  rfl

theorem describedAs_describedAs (c d : Json) :
    (x.describedAs c).describedAs d = x.describedAs d := by
  simp only [describedAs, mark, Item.mark_mark]

theorem describedAs_self : x.describedAs x.item.attributes.description = x := by
  obtain ⟨⟨a, fields, options⟩, foreignDefault, foreignInside⟩ := x
  rfl

end Imported

theorem firstDescription_of_truthy {d : Json} (h : d.truthy) (descriptions : List Description) :
    firstDescription d descriptions = .ok d := by
  cases descriptions with
  | nil => rfl
  | cons description rest => exact if_pos h

theorem firstDescription_skip {d e : Json} (hd : ¬ d.truthy) (he : ¬ e.truthy)
    (rest : List Description) : firstDescription d (.ok e :: rest) = firstDescription d rest := by
  rw [firstDescription, Description.orElse, if_neg hd]
  change firstDescription (if e.truthy then e else d) rest = _
  rw [if_neg he]

theorem firstDescription_found {d e : Json} (hd : ¬ d.truthy) (he : e.truthy)
    (rest : List Description) : firstDescription d (.ok e :: rest) = .ok e := by
  rw [firstDescription, Description.orElse, if_neg hd]
  change firstDescription (if e.truthy then e else d) rest = _
  rw [if_pos he, firstDescription_of_truthy he]

/-- A search goes on with what it has found. -/
theorem firstDescription_cons (d : Json) (description : Description) (rest : List Description) :
    firstDescription d (description :: rest) = (do
      firstDescription (← firstDescription d [description]) rest) := by
  by_cases hd : d.truthy
  · rw [firstDescription_of_truthy hd, firstDescription_of_truthy hd]
    exact (firstDescription_of_truthy hd rest).symm
  · rw [firstDescription, firstDescription, Description.orElse, Description.orElse, if_neg hd,
      if_neg hd]
    cases description <;> rfl

namespace Imported

variable (x : Imported) (ws vs : List Wrapping)

theorem wrapped_nil : x.wrapped [] [] = pure x := by
  rw [wrapped, firstDescription]
  dsimp only
  rw [marked_nil, describedAs_self]

/-- An item in wrappings can be wrapped on, after the innermost description. -/
theorem wrapped_bind (d : Description) (ds : List Description) :
    x.wrapped ws [d] >>= wrapped vs ds = x.wrapped (ws ++ vs) (d :: ds) := by
  rw [wrapped, wrapped, firstDescription_cons _ d ds]
  cases firstDescription x.item.attributes.description [d] with
  | error e => rfl
  | ok c =>
    change (pure _ : Importing Imported) >>= wrapped vs ds = _
    rw [pure_bind, wrapped, description_describedAs]
    dsimp only [bind, Except.bind]
    cases firstDescription c ds with
    | error e => rfl
    | ok d' =>
      dsimp only
      rw [marked_describedAs, describedAs_describedAs, marked_marked]

/-- A description is a wrapping without a mark. -/
theorem describeItem_eq (d : Description) : describeItem d x = x.wrapped [] [d] := by
  rw [describeItem.eq_def, wrapped, firstDescription, Description.orElse]
  by_cases hx : x.item.attributes.description.truthy
  · rw [if_pos hx, if_pos hx]
    dsimp only
    rw [marked_nil, describedAs_self]
  · rw [if_neg hx, if_neg hx]
    cases d with
    | error e => rfl
    | ok d =>
      dsimp only [bind, Except.bind, firstDescription]
      rw [marked_nil]
      split
      · rfl
      · rw [describedAs_self]

/-- An item is described after it has been marked. -/
theorem describeItem_marked (d : Description) :
    describeItem d (x.marked ws) = x.wrapped ws [d] := by
  rw [describeItem_eq, wrapped, wrapped, description_marked, marked_nil]

end Imported

end Marks

/-! ## Views in wrappings -/

/-- What wrappings make where there is no item: the innermost makes up a text. -/
def wrappedNull (name : String) : List Wrapper → Importing (Option Imported)
  | [] => return none
  | w :: ws => some <$> (importedLeaf name .string >>=
      Imported.wrapped (w.wrapping.aroundNull ++ ws.map Wrapper.wrapping)
        (w.description :: ws.map Wrapper.description))

/-- What wrappings make of what is imported within. -/
def wrappedItem? (name : String) (ws : List Wrapper) :
    Option Imported → Importing (Option Imported)
  | some x => some <$> x.wrapped (ws.map Wrapper.wrapping) (ws.map Wrapper.description)
  | none => wrappedNull name ws

namespace SchemaView

/-- A wrapping marks the item within, and if there is none the text that it makes up. -/
theorem toItem_form (view : SchemaView) (wrapping : Wrapping) (name : String) :
    (wrapping.form view).toItem name = view.toItem? name >>= fun
      | some x => pure (x.marked [wrapping])
      | none => importedLeaf name .string >>= fun x ↦ pure (x.marked wrapping.aroundNull) := by
  rcases wrapping with _ | _ | value <;> rw [Wrapping.form, SchemaForm.toItem] <;>
    refine bind_congr fun found ↦ ?_ <;> rcases found with _ | x
  · simp only [Wrapping.aroundNull, ← Imported.mark_eq_marked]
    rfl
  · exact congrArg pure (x.mark_eq_marked .optional)
  · simp only [Wrapping.aroundNull, ← Imported.mark_eq_marked]
    rfl
  · exact congrArg pure (x.mark_eq_marked .array)
  · simp only [Wrapping.aroundNull, Imported.marked_nil, bind_pure]
  · exact congrArg pure (x.mark_eq_marked (.default value))

theorem toItem?_wrap (view : SchemaView) (w : Wrapper) (name : String) :
    (view.wrap w).toItem? name = view.toItem? name >>= wrappedItem? name [w] := by
  have hitem : (w.wrapping.form view).hasItem := by
    rcases w with ⟨d, _ | _ | value⟩ <;> rfl
  rw [wrap, toItem?_of_hasItem hitem, toItem_form, bind_assoc]
  refine bind_congr fun found ↦ ?_
  cases found with
  | some x =>
    dsimp only
    rw [pure_bind, Imported.describeItem_marked]
    rfl
  | none =>
    dsimp only
    rw [bind_assoc, wrappedItem?, wrappedNull, map_bind, List.map_nil, List.append_nil,
      List.map_nil]
    refine bind_congr fun x ↦ ?_
    rw [pure_bind, Imported.describeItem_marked]

theorem map_some_bind_wrappedItem? (item : Importing Imported) (name : String) (ws : List Wrapper) :
    some <$> item >>= wrappedItem? name ws =
      some <$> (item >>= Imported.wrapped (ws.map Wrapper.wrapping)
        (ws.map Wrapper.description)) := by
  rw [bind_map_left, map_bind]
  rfl

/-- **What a view in wrappings is imported as**, by what is imported within. -/
theorem toItem?_wrapAll (view : SchemaView) (ws : List Wrapper) (name : String) :
    (view.wrapAll ws).toItem? name = view.toItem? name >>= wrappedItem? name ws := by
  induction ws generalizing view with
  | nil =>
    have hnone : wrappedItem? name [] = pure := by
      funext found
      cases found with
      | some x => exact (congrArg _ x.wrapped_nil).trans (map_pure some x)
      | none => rfl
    rw [hnone, bind_pure]
    rfl
  | cons w ws ih =>
    -- the innermost wrapping is put on the view, and the others around the result
    rw [wrapAll, ih, toItem?_wrap, bind_assoc]
    refine bind_congr fun found ↦ ?_
    cases found with
    | some x =>
      rw [wrappedItem?, map_some_bind_wrappedItem?, List.map_singleton, List.map_singleton,
        Imported.wrapped_bind]
      rfl
    | none =>
      rw [wrappedItem?, wrappedNull, map_some_bind_wrappedItem?, bind_assoc]
      simp only [List.map_nil, List.append_nil, Imported.wrapped_bind]
      rfl

end SchemaView

/-! ## Cores -/

/-- An item without any mark of a wrapping. -/
structure Imported.IsUnmarked (x : Imported) : Prop where
  required : x.item.attributes.required = true
  isArray : x.item.attributes.isArray = false
  hasDefault : x.item.attributes.hasDefault = false
  defaultValue : x.item.attributes.defaultValue = .null
  foreignDefault : x.foreignDefault = none

section Cores

variable {name : String} {x y : Imported} {ids ids' : IdSupply}

theorem isUnmarked_of_importedItem {kind : Kind} {fields options : Option (List Imported)}
    {literal : SchemaValue}
    (h : Yields (importedItem name kind fields options literal) ids x ids') :
    x.IsUnmarked := by
  obtain ⟨id, ids'', -, hx⟩ := yields_bind_iff.mp h
  obtain ⟨rfl, -⟩ := yields_pure_iff.mp hx
  exact ⟨rfl, rfl, rfl, rfl, rfl⟩

theorem isUnmarked_of_describeItem {d : Description} (hx : x.IsUnmarked)
    (h : Yields (describeItem d x) ids y ids') : y.IsUnmarked := by
  rw [describeItem.eq_def] at h
  split at h
  · obtain ⟨rfl, -⟩ := yields_pure_iff.mp h
    exact hx
  · split at h
    · exact absurd h not_yields_throw
    · obtain ⟨rfl, -⟩ := yields_pure_iff.mp h
      split
      · obtain ⟨⟨a, fields, options⟩, foreignDefault, foreignInside⟩ := x
        exact ⟨hx.required, hx.isArray, hx.hasDefault, hx.defaultValue, hx.foreignDefault⟩
      · exact hx

/-- The forms that wrap no other view make items without marks. -/
theorem isUnmarked_of_toItem {form : SchemaForm}
    (hform : ∀ inner wrapping, form ≠ Wrapping.form inner wrapping)
    (h : Yields (form.toItem name) ids x ids') : x.IsUnmarked := by
  match form with
  | .scalar type => exact isUnmarked_of_importedItem h
  | .literal value => exact isUnmarked_of_importedItem h
  | .object properties | .union options =>
    obtain ⟨xs, ids'', -, hx⟩ := yields_bind_iff.mp h
    exact isUnmarked_of_importedItem hx
  | .array inner => exact absurd rfl (hform inner .array)
  | .optional inner => exact absurd rfl (hform inner .optional)
  | .default inner value => exact absurd rfl (hform inner (.default value))
  | .failingDefault inner problem =>
    obtain ⟨found, ids'', -, hx⟩ := yields_bind_iff.mp h
    cases found with
    | none => exact isUnmarked_of_importedItem hx
    | some y => exact absurd hx not_yields_throw
  | .null | .any | .other | .opaqueTo _ | .mistagged _ | .failing _ | .endless =>
    obtain ⟨u, ids'', -, hx⟩ := yields_bind_iff.mp h
    exact isUnmarked_of_importedItem hx

/-- **A core that is not null has an item**, and the item has no marks. -/
theorem exists_item {core : SchemaView} (hcore : core.IsCore) (hnull : core.form ≠ .null)
    (name : String) :
    ∃ item : Importing Imported, core.toItem? name = some <$> item ∧
      ∀ ids x ids', Yields item ids x ids' → x.IsUnmarked := by
  obtain ⟨description, form⟩ := core
  have hseen (hitem : form.hasItem) :
      ∃ item : Importing Imported, (SchemaView.mk description form).toItem? name = some <$> item ∧
        ∀ ids x ids', Yields item ids x ids' → x.IsUnmarked := by
    refine ⟨form.toItem name >>= describeItem description, ?_, fun ids y ids' h ↦ ?_⟩
    · rw [toItem?_of_hasItem hitem, map_bind]
    · obtain ⟨x, ids'', hx, hy⟩ := yields_bind_iff.mp h
      exact isUnmarked_of_describeItem (isUnmarked_of_toItem hcore hx) hy
  match form with
  | .null => exact absurd rfl hnull
  | .mistagged tag => exact ⟨throw (.mistagged tag), rfl, fun _ _ _ h ↦ absurd h not_yields_throw⟩
  | .failing problem =>
    exact ⟨throw (.failed problem), rfl, fun _ _ _ h ↦ absurd h not_yields_throw⟩
  | .endless => exact ⟨throw .endless, rfl, fun _ _ _ h ↦ absurd h not_yields_throw⟩
  | .opaqueTo respond =>
    refine ⟨importOpaque respond name, rfl, fun ids x ids' h ↦ ?_⟩
    obtain ⟨type, ids₁, -, h⟩ := yields_bind_iff.mp h
    obtain ⟨u, ids₂, -, h⟩ := yields_bind_iff.mp h
    exact isUnmarked_of_importedItem h
  | .scalar _ | .literal _ | .object _ | .union _ | .any | .other | .array _ | .optional _
  | .default _ _ | .failingDefault _ _ => exact hseen rfl

end Cores

/-! ## Schemas in wrappings -/

/-- Wrappers that say the same: wrappings of the same sorts, the same defaults in the same order,
and descriptions of which the same one counts. -/
structure Wrapper.SaysSame (ws vs : List Wrapper) : Prop where
  optional : (ws.map wrapping).any Wrapping.isOptional = (vs.map wrapping).any Wrapping.isOptional
  array : (ws.map wrapping).any Wrapping.isArray = (vs.map wrapping).any Wrapping.isArray
  defaults : (ws.map wrapping).filterMap Wrapping.value? =
    (vs.map wrapping).filterMap Wrapping.value?
  descriptions : ∀ d, firstDescription d (ws.map description) =
    firstDescription d (vs.map description)

theorem Wrapper.SaysSame.wrapped_eq {ws vs : List Wrapper} (h : SaysSame ws vs) (x : Imported) :
    x.wrapped (ws.map wrapping) (ws.map description) =
      x.wrapped (vs.map wrapping) (vs.map description) := by
  simp only [Imported.wrapped, Imported.marked, Attributes.wrapped, h.optional, h.array, h.defaults,
    h.descriptions]

/-- **Wrappings commute into marks.** A core that is not null is imported as an item without marks,
and in any wrappings as that item with all their marks, the outermost default and the first
description that counts; so wrappers that say the same make no difference. A core that is null is
imported as nothing, and in wrappings as a text that the outer ones mark like any item. The
innermost one makes it optional or an array as well, but its default is lost. -/
theorem imported_wrapAll_core {core : SchemaView} (hcore : core.IsCore) (name : String) :
    (core.form ≠ .null → ∃ item : Importing Imported, core.toItem? name = some <$> item ∧
      (∀ ids x ids', Yields item ids x ids' → x.IsUnmarked) ∧
      (∀ ws, (core.wrapAll ws).toItem? name = some <$> (item >>=
        Imported.wrapped (ws.map Wrapper.wrapping) (ws.map Wrapper.description))) ∧
      ∀ ws vs, Wrapper.SaysSame ws vs →
        (core.wrapAll ws).toItem? name = (core.wrapAll vs).toItem? name) ∧
    (core.form = .null →
      core.toItem? name = (do Importing.report (.nullOnly name); return none) ∧
      ∀ w ws, (core.wrapAll (w :: ws)).toItem? name = (do
        Importing.report (.nullOnly name)
        some <$> (importedLeaf name .string >>=
          Imported.wrapped (w.wrapping.aroundNull ++ ws.map Wrapper.wrapping)
            (w.description :: ws.map Wrapper.description)))) := by
  constructor
  · intro hnull
    obtain ⟨item, hitem, hunmarked⟩ := exists_item hcore hnull name
    have hwrapped (ws : List Wrapper) : (core.wrapAll ws).toItem? name = some <$> (item >>=
        Imported.wrapped (ws.map Wrapper.wrapping) (ws.map Wrapper.description)) := by
      rw [SchemaView.toItem?_wrapAll, hitem, SchemaView.map_some_bind_wrappedItem?]
    refine ⟨item, hitem, hunmarked, hwrapped, fun ws vs hsame ↦ ?_⟩
    rw [hwrapped, hwrapped]
    exact congrArg _ (bind_congr hsame.wrapped_eq)
  · intro hnull
    obtain ⟨description, form⟩ := core
    obtain rfl : form = .null := hnull
    have hcore : (SchemaView.mk description .null).toItem? name =
        (do Importing.report (.nullOnly name); return none) := rfl
    refine ⟨hcore, fun w ws ↦ ?_⟩
    rw [SchemaView.toItem?_wrapAll, hcore, bind_assoc]
    refine bind_congr fun u ↦ ?_
    rw [pure_bind]
    rfl

/-- Two defaults, two arrays and an optional wrapping, of which two are described. -/
def Wrapper.layered : List Wrapper := [
  ⟨.ok .null, .array⟩, ⟨.ok .null, .default (.json (.int 1))⟩, ⟨.ok (.str "at most"), .optional⟩,
  ⟨.ok (.str "limit"), .default (.json (.int 2))⟩, ⟨.ok .null, .array⟩]

/-- The same with one array only, and with the optional wrapping outside. -/
def Wrapper.relayered : List Wrapper := [
  ⟨.ok .null, .default (.json (.int 1))⟩, ⟨.ok (.str "at most"), .array⟩,
  ⟨.ok .null, .default (.json (.int 2))⟩, ⟨.ok .null, .optional⟩]

theorem Wrapper.saysSame_layered : SaysSame layered relayered where
  optional := rfl
  array := rfl
  defaults := rfl
  descriptions d := by
    by_cases hd : d.truthy
    · rw [firstDescription_of_truthy hd, firstDescription_of_truthy hd]
    · have hnull : ¬ Json.null.truthy := Bool.false_ne_true
      have hfound : (Json.str "at most").truthy := by decide
      simp only [layered, relayered, List.map_cons, firstDescription_skip hd hnull,
        firstDescription_found hd hfound]

theorem imported_wrapAll_core_layered :
    (SchemaView.plain (.scalar .number)).IsCore ∧
      Wrapper.SaysSame Wrapper.layered Wrapper.relayered ∧
      ((SchemaView.plain (.scalar .number)).wrapAll Wrapper.layered).toItem? "bound" =
        ((SchemaView.plain (.scalar .number)).wrapAll Wrapper.relayered).toItem? "bound" ∧
      (SchemaView.plain .null).IsCore ∧
      ((SchemaView.plain .null).wrapAll Wrapper.relayered).toItem? "bound" = (do
        Importing.report (.nullOnly "bound")
        some <$> (importedLeaf "bound" .string >>=
          Imported.wrapped [.array, .default (.json (.int 2)), .optional]
            [.ok .null, .ok (.str "at most"), .ok .null, .ok .null])) := by
  have hnumber : (SchemaView.plain (.scalar .number)).IsCore := by
    rintro inner (_ | _ | _) h <;> exact nomatch h
  have hnull : (SchemaView.plain .null).IsCore := by
    rintro inner (_ | _ | _) h <;> exact nomatch h
  obtain ⟨item, -, -, -, hsame⟩ := (imported_wrapAll_core hnumber "bound").1 nofun
  refine ⟨hnumber, Wrapper.saysSame_layered, hsame _ _ Wrapper.saysSame_layered, hnull, ?_⟩
  exact ((imported_wrapAll_core hnull "bound").2 rfl).2 _ _

end SchemaTree
