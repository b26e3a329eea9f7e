import SchemaTree.Proofs.Reimport
import SchemaTree.RuntimeType.View
import Mathlib.Logic.Relation

/-!
# When importing fails

An importer looks at a type and at everything that is a part of it. It fails at an object that
cannot be looked at, at a default that cannot be made, and at a model that has itself as a part. It
also reads the documentation of a type where the type is a part of another one and no description
from outside takes its place, and documentation that is no text cannot be read. Nothing else makes
the import of a runtime type fail (`SchemaView.toDocument_eq_error_iff`).

A description that cannot be read does no harm where another one has been found inside. The views of
runtime types leave no such place: such a description stands at an object or was copied from a part
(`SchemaView.Regular`).
-/

namespace SchemaTree

open Relation

/-! ## Parts of views -/

/-- The views that are imported with a form. -/
def SchemaForm.parts : SchemaForm → List SchemaView
  | .object properties => properties.map (·.2)
  | .union options => options
  | .array inner | .optional inner | .default inner _ | .failingDefault inner _ => [inner]
  | _ => []

/-- What a schema is cannot be seen. -/
inductive SchemaForm.Unseen : SchemaForm → Prop where
  | mistagged (tag : Json) : Unseen (.mistagged tag)
  | failing (problem : String) : Unseen (.failing problem)
  | endless : Unseen .endless

/-- A form that cannot be imported, whatever its parts are. -/
inductive SchemaForm.Fails : SchemaForm → Prop where
  | unseen {form : SchemaForm} (h : form.Unseen) : Fails form
  /-- A default is only made for what has an item. -/
  | failingDefault {inner : SchemaView} (problem : String) (h : inner.form ≠ .null) :
    Fails (.failingDefault inner problem)

theorem SchemaForm.fails_failingDefault_iff {inner : SchemaView} {problem : String} :
    (SchemaForm.failingDefault inner problem).Fails ↔ inner.form ≠ .null := by
  constructor
  · rintro (⟨⟨⟩⟩ | ⟨-, h⟩)
    exact h
  · exact .failingDefault problem

namespace SchemaView

variable {view part : SchemaView} {form : SchemaForm} {description : Description}

/-- A view that is imported as a part of another one. -/
def HasPart (view part : SchemaView) : Prop := part ∈ view.form.parts

/-- An import fails at the view itself. -/
def Fails (view : SchemaView) : Prop := ¬ view.description.isOk ∨ view.form.Fails

/-- An import fails nowhere in the view. -/
def Readable (view : SchemaView) : Prop := ∀ part, ReflTransGen HasPart view part → ¬ part.Fails

theorem readable_iff :
    view.Readable ↔ ¬ view.Fails ∧ ∀ part ∈ view.form.parts, part.Readable := by
  constructor
  · intro h
    exact ⟨h view .refl, fun part hpart inner hinner ↦ h inner (.head hpart hinner)⟩
  · rintro ⟨hself, hparts⟩ part hpart
    obtain rfl | ⟨next, hnext, hpart⟩ := hpart.cases_head
    · exact hself
    · exact hparts next hnext part hpart

/-- A view as runtime types have it: a description that cannot be read is that of an object or that
of a part. -/
inductive Regular : SchemaView → Prop where
  | mk {description : Description} {form : SchemaForm}
    (hdescription : description.isOk ∨ (∃ properties, form = .object properties) ∨
      ∃ part ∈ form.parts, ¬ part.description.isOk)
    (hparts : ∀ part ∈ form.parts, Regular part) :
    Regular (.mk description form)

end SchemaView

/-! ## Steps of an import -/

section Steps

variable {description : Description} {form : SchemaForm} {view : SchemaView} {name : String}

theorem requires_importedItem (name : String) (kind : Kind)
    (fields options : Option (List Imported)) (literal : SchemaValue) :
    Requires (importedItem name kind fields options literal) True
      fun x ↦ x.item.attributes.description = .null :=
  (Requires.modifyGet _).bind_of_succeeds fun _ _ ↦ .pure rfl

theorem requires_importedLeaf (name : String) (kind : Kind) :
    Requires (importedLeaf name kind) True fun x ↦ x.item.attributes.description = .null :=
  requires_importedItem name kind none none (.json .null)

/-- A description has to be readable, unless there is one already. -/
theorem requires_describeItem (description : Description) (x : Imported) :
    Requires (describeItem description x)
      (description.isOk ∨ x.item.attributes.description.truthy) fun _ ↦ True := by
  cases description with
  | ok d =>
    refine Requires.of_iff ?_ (iff_of_true trivial (.inl rfl))
    rw [describeItem]
    split
    · exact .pure trivial
    · exact .pure trivial
  | error e =>
    rw [describeItem]
    split
    · next htruthy => exact (Requires.pure trivial).of_iff (iff_of_true trivial (.inr htruthy))
    · next htruthy =>
      refine (Requires.throw _).of_iff (iff_of_false id ?_)
      exact not_or.mpr ⟨Bool.false_ne_true, htruthy⟩

theorem requires_classifyBySamples (respond : Sample → Response) (samples : List Sample) :
    Requires (classifyBySamples respond samples) True fun _ ↦ True := by
  induction samples with
  | nil => exact .pure trivial
  | cons sample rest ih =>
    rw [classifyBySamples]
    split
    · exact .pure trivial
    · exact ih
    · exact (Requires.report _).bind_of_succeeds fun _ _ ↦ ih

theorem requires_importOpaque (respond : Sample → Response) (name : String) :
    Requires (importOpaque respond name) True fun _ ↦ True := by
  refine (requires_classifyBySamples respond _).bind_of_succeeds fun type _ ↦ ?_
  refine (Requires.report _).bind_of_succeeds fun _ _ ↦ ?_
  exact (requires_importedLeaf name _).mono fun _ _ ↦ trivial

/-- Importing a view requires that everything in it can be read. It then has an item, unless it is
that of null. -/
def SchemaView.ImportRequires (view : SchemaView) : Prop :=
  ∀ name, Requires (view.toItem? name) view.Readable fun x? ↦ x? = none ↔ view.form = .null

theorem requires_propertyItems {properties : List (String × SchemaView)}
    (h : ∀ property ∈ properties, property.2.ImportRequires) :
    Requires (SchemaForm.propertyItems properties)
      (∀ property ∈ properties, property.2.Readable) fun _ ↦ True := by
  induction properties with
  | nil => exact (Requires.pure trivial).of_iff (iff_of_true trivial nofun)
  | cons property rest ih =>
    obtain ⟨name, view⟩ := property
    obtain ⟨hview, hrest⟩ := List.forall_mem_cons.mp h
    rw [List.forall_mem_cons]
    exact (hview name).bind fun _ _ ↦ (ih hrest).bind_of_succeeds fun _ _ ↦ .pure trivial

theorem requires_optionItems {options : List SchemaView} (h : ∀ view ∈ options, view.ImportRequires)
    (index : Nat) :
    Requires (SchemaForm.optionItems index options) (∀ view ∈ options, view.Readable)
      fun _ ↦ True := by
  induction options generalizing index with
  | nil => exact (Requires.pure trivial).of_iff (iff_of_true trivial nofun)
  | cons view rest ih =>
    obtain ⟨hview, hrest⟩ := List.forall_mem_cons.mp h
    rw [List.forall_mem_cons]
    exact (hview _).bind fun _ _ ↦ (ih hrest (index + 1)).bind_of_succeeds fun _ _ ↦ .pure trivial

/-- A default that cannot be made is only asked for where there is an item to get it. -/
theorem requires_failingDefault {inner : SchemaView} (h : inner.ImportRequires) (problem : String)
    (name : String) :
    Requires ((SchemaForm.failingDefault inner problem).toItem name)
      (inner.Readable ∧ inner.form = .null) fun _ ↦ True := by
  refine (h name).bind fun x? hx ↦ ?_
  cases x? with
  | none =>
    refine ((requires_importedLeaf name .string).mono fun _ _ ↦ trivial).of_iff ?_
    exact iff_of_true trivial (hx.mp rfl)
  | some x => exact (Requires.throw _).of_iff (iff_of_false id fun hnull ↦ nomatch hx.mpr hnull)

/-- Importing a form requires what its parts do and that it does not fail itself. An object is left
without a description. -/
theorem requires_toItem (hitem : form.hasItem) (h : ∀ part ∈ form.parts, part.ImportRequires)
    (name : String) :
    Requires (form.toItem name) (¬ form.Fails ∧ ∀ part ∈ form.parts, part.Readable)
      fun x ↦ (∃ properties, form = .object properties) →
        x.item.attributes.description = .null := by
  have hleaf {kind : Kind} (hform : ∀ properties, form ≠ .object properties) :
      Requires (importedLeaf name kind) True
        fun x ↦ (∃ properties, form = .object properties) →
          x.item.attributes.description = .null :=
    (requires_importedLeaf name kind).mono fun _ hx _ ↦ hx
  -- a form that does not fail itself requires what its parts do
  have hparts {p : Prop} (hfails : ¬ form.Fails) (hp : p ↔ ∀ part ∈ form.parts, part.Readable) :
      p ↔ ¬ form.Fails ∧ ∀ part ∈ form.parts, part.Readable := hp.trans (and_iff_right hfails).symm
  cases form with
  | scalar type => exact (hleaf nofun).of_iff (hparts nofun (iff_of_true trivial nofun))
  | literal value =>
    refine ((requires_importedItem name .literal none none value).mono fun _ hx _ ↦ hx).of_iff ?_
    exact hparts nofun (iff_of_true trivial nofun)
  | object properties =>
    refine Requires.of_iff ?_ (hparts nofun Iff.rfl)
    rw [SchemaForm.parts, List.forall_mem_map] at h ⊢
    refine (requires_propertyItems h).bind_of_succeeds fun xs _ ↦ ?_
    exact (requires_importedItem _ _ _ _ _).mono fun _ hx _ ↦ hx
  | union options =>
    refine Requires.of_iff ?_ (hparts nofun Iff.rfl)
    refine (requires_optionItems h 0).bind_of_succeeds fun xs _ ↦ ?_
    exact (requires_importedItem _ _ _ _ _).mono fun _ hx _ ↦ hx
  | default inner value =>
    refine Requires.of_iff ?_ (hparts nofun List.forall_mem_singleton.symm)
    refine (h inner List.mem_cons_self name).bind_of_succeeds fun x? _ ↦ ?_
    cases x? with
    | none => exact hleaf nofun
    | some x => exact .pure nofun
  | failingDefault inner problem =>
    refine ((requires_failingDefault (h inner List.mem_cons_self) problem name).mono
      fun _ _ hobject ↦ ?_).of_iff ?_
    · obtain ⟨_, ⟨⟩⟩ := hobject
    · rw [SchemaForm.fails_failingDefault_iff, not_not, SchemaForm.parts,
        List.forall_mem_singleton, and_comm]
  | array inner | optional inner =>
    refine Requires.of_iff ?_ (hparts nofun List.forall_mem_singleton.symm)
    refine (h inner List.mem_cons_self name).bind_of_succeeds fun x? _ ↦ ?_
    cases x? with
    | none => exact (requires_importedLeaf name _).bind_of_succeeds fun x _ ↦ .pure nofun
    | some x => exact .pure nofun
  | any | other =>
    refine ((Requires.report _).bind_of_succeeds fun _ _ ↦ hleaf nofun).of_iff ?_
    exact hparts nofun (iff_of_true trivial nofun)
  | null | opaqueTo respond | mistagged tag | failing problem | endless => cases hitem

/-- A view that becomes an item requires that its description and its parts can be read. -/
theorem importRequires_of_hasItem (hitem : form.hasItem)
    (hdescription : description.isOk ∨ (∃ properties, form = .object properties) ∨
      ∃ part ∈ form.parts, ¬ part.description.isOk)
    (h : ∀ part ∈ form.parts, part.ImportRequires) :
    (SchemaView.mk description form).ImportRequires := by
  intro name
  rw [toItem?_of_hasItem hitem]
  have hnull : form ≠ .null := by
    rintro rfl
    cases hitem
  have hform := requires_toItem hitem h name
  have hdescribe (x : Imported) := (requires_describeItem description x).map (f := some)
    (R := fun x? ↦ x? = none ↔ form = .null) fun _ _ ↦ iff_of_false nofun hnull
  by_cases hok : description.isOk
  · have hdescribed (x : Imported) := (hdescribe x).of_iff (iff_of_true (.inl hok) trivial)
    have hreadable : (SchemaView.mk description form).Readable ↔
        ¬ form.Fails ∧ ∀ part ∈ form.parts, part.Readable := by
      rw [SchemaView.readable_iff, SchemaView.Fails, not_or]
      exact and_congr_left' (and_iff_right (not_not_intro hok))
    exact (hform.bind_of_succeeds fun x _ ↦ hdescribed x).of_iff hreadable.symm
  · have hunreadable : ¬ (SchemaView.mk description form).Readable :=
      fun h ↦ (SchemaView.readable_iff.mp h).1 (.inl hok)
    refine Requires.of_iff ?_ (iff_of_false id hunreadable)
    obtain h | hobject | ⟨part, hpart, hpartial⟩ := hdescription
    · exact absurd h hok
    · -- nothing has described the object before
      refine (hform.bind fun x hx ↦ (hdescribe x).of_iff ?_).of_iff (iff_of_false And.right id)
      rw [hx hobject]
      exact iff_of_false (not_or.mpr ⟨hok, Bool.false_ne_true⟩) id
    · refine (hform.of_iff (iff_of_false (fun h ↦ ?_) id)).bind_of_fails _
      exact (SchemaView.readable_iff.mp (h.2 part hpart)).1 (.inl hpartial)

/-- A view of a runtime type that has no parts, is no object and does not fail by its form can be
read. -/
theorem SchemaView.Regular.readable_of_parts_eq_nil (h : (SchemaView.mk description form).Regular)
    (hparts : form.parts = []) (hobject : ∀ properties, form ≠ .object properties)
    (hfails : ¬ form.Fails) : (SchemaView.mk description form).Readable := by
  obtain ⟨hdescription, -⟩ := h
  refine SchemaView.readable_iff.mpr ⟨not_or.mpr ⟨not_not_intro ?_, hfails⟩, fun part hpart ↦ ?_⟩
  · obtain h | ⟨properties, h⟩ | ⟨part, hpart, -⟩ := hdescription
    · exact h
    · exact absurd h (hobject properties)
    · exact absurd (hparts ▸ hpart) List.not_mem_nil
  · exact absurd (show part ∈ [] from hparts ▸ hpart) List.not_mem_nil

/-- **What importing a view requires**, where the view is one of a runtime type. -/
theorem SchemaView.Regular.importRequires (h : view.Regular) : view.ImportRequires := by
  induction h with
  | @mk description form hdescription hparts ih =>
    by_cases hitem : form.hasItem
    · exact importRequires_of_hasItem hitem hdescription ih
    · intro name
      have hreadable := (SchemaView.Regular.mk hdescription hparts).readable_of_parts_eq_nil
      have hthrow (e : ImportError) (hunseen : form.Unseen) :
          Requires (throw e : Importing (Option Imported)) (SchemaView.mk description form).Readable
            fun x? ↦ x? = none ↔ form = .null :=
        (Requires.throw e).of_iff (iff_of_false id fun h ↦
          (SchemaView.readable_iff.mp h).1 (.inr (.unseen hunseen)))
      cases form with
      | mistagged tag => exact hthrow _ (.mistagged tag)
      | failing problem => exact hthrow _ (.failing problem)
      | endless => exact hthrow _ .endless
      | opaqueTo respond =>
        refine Requires.of_iff ?_ (iff_of_true trivial (hreadable rfl nofun nofun))
        exact (requires_importOpaque respond name).map fun _ _ ↦ iff_of_false nofun nofun
      | null =>
        refine Requires.of_iff ?_ (iff_of_true trivial (hreadable rfl nofun nofun))
        exact (Requires.report _).bind_of_succeeds fun _ _ ↦ .pure (iff_of_true rfl rfl)
      | _ => exact absurd rfl hitem

/-- **When importing fails**: the schema cannot be looked at, or it is an object and an import fails
at something in it. The description of the object itself does not count. -/
theorem SchemaView.toDocument_eq_error_iff (h : view.Regular) (ids : IdSupply) :
    (∃ e, (view.toDocument.run ids).value.1 = .error e) ↔
      view.form.Unseen ∨ (∃ properties, view.form = .object properties) ∧
        ∃ part, TransGen SchemaView.HasPart view part ∧ part.Fails := by
  obtain ⟨-, hparts⟩ := h
  rename_i description form
  change _ ↔ form.Unseen ∨ (∃ properties, form = .object properties) ∧ _
  have hempty : Requires
      (do Importing.report .rootNotObject; pure ({ document := ⟨[]⟩ } : ImportedDocument)) True
      fun _ ↦ True := (Requires.report _).bind_of_succeeds fun _ _ ↦ .pure trivial
  cases form with
  | object properties =>
    have hroot : Requires (SchemaView.mk description (.object properties)).toDocument
        (∀ property ∈ properties, property.2.Readable) fun _ ↦ True := by
      refine (requires_propertyItems fun property hproperty ↦ ?_).bind_of_succeeds
        fun _ _ ↦ .pure trivial
      exact (hparts _ (List.mem_map_of_mem hproperty)).importRequires
    refine (hroot.exists_error_iff ids).trans ?_
    have hseen : ¬ (SchemaForm.object properties).Unseen := nofun
    rw [and_iff_right ⟨properties, rfl⟩, or_iff_right hseen]
    constructor
    · intro h
      push Not at h
      obtain ⟨property, hproperty, h⟩ := h
      unfold SchemaView.Readable at h
      push Not at h
      obtain ⟨part, hpart, h⟩ := h
      exact ⟨part, .head' (List.mem_map_of_mem hproperty) hpart, h⟩
    · rintro ⟨part, hpart, hfails⟩ h
      obtain ⟨next, hnext, hpart⟩ := TransGen.head'_iff.mp hpart
      obtain ⟨property, hproperty, rfl⟩ := List.mem_map.mp hnext
      exact h property hproperty part hpart hfails
  | mistagged tag => exact iff_of_true ⟨_, rfl⟩ (.inl (.mistagged tag))
  | failing problem => exact iff_of_true ⟨_, rfl⟩ (.inl (.failing problem))
  | endless => exact iff_of_true ⟨_, rfl⟩ (.inl .endless)
  | _ =>
    refine iff_of_false (fun h ↦ (hempty.exists_error_iff ids).mp h trivial) ?_
    rintro (h | ⟨⟨_, h⟩, -⟩) <;> cases h

end Steps

/-! ## Views of runtime types -/

namespace SchemaView.Regular

variable {view : SchemaView} {form : SchemaForm}

theorem plain (hparts : ∀ part ∈ form.parts, Regular part) : (SchemaView.plain form).Regular :=
  .mk (.inl rfl) hparts

/-- A view can be described from outside. -/
theorem describe (h : view.Regular) (description : Json) :
    (SchemaView.mk (.orElse description view.description) view.form).Regular := by
  obtain ⟨hdescription, hparts⟩ := h
  refine .mk ?_ hparts
  rw [Description.orElse]
  split
  · exact .inl rfl
  · exact hdescription

/-- A wrapper with the description of what it wraps. -/
theorem wrap (h : view.Regular) (hparts : form.parts = [view]) :
    (SchemaView.mk view.description form).Regular := by
  refine .mk ?_ fun part hpart ↦ ?_
  · by_cases hok : view.description.isOk
    · exact .inl hok
    · exact .inr (.inr ⟨view, hparts ▸ List.mem_cons_self, hok⟩)
  · rw [hparts] at hpart
    exact List.mem_singleton.mp hpart ▸ h

theorem withDefault (h : view.Regular) (admitsNull : Bool) (default : Option Json) :
    (view.withDefault admitsNull default).Regular := by
  unfold SchemaView.withDefault
  split
  · exact h.wrap rfl
  · exact h
  · cases admitsNull with
    | true => exact h.wrap rfl
    | false => exact h.wrap rfl
  · exact h.wrap rfl

/-- Objects may have any description. -/
theorem object {properties : List (String × SchemaView)} (description : Description)
    (h : ∀ property ∈ properties, property.2.Regular) :
    (SchemaView.mk description (.object (Json.Members.ofList properties))).Regular := by
  refine .mk (.inr (.inl ⟨_, rfl⟩)) fun part hpart ↦ ?_
  obtain ⟨⟨name, view⟩, hproperty, rfl⟩ := List.mem_map.mp hpart
  have hmem := Json.Members.mem_of_find?_eq_some (Json.Members.mem_ofList_iff.mp hproperty)
  exact h (name, view) (List.mem_reverse.mp hmem)

end SchemaView.Regular

open SchemaView

mutual

theorem Shape.regular_view : ∀ shape : Shape, shape.view.Regular
  | .scalar _ | .literal _ | .anything | .reference _ => .plain nofun
  | .record _ documentation fields => by
    rw [Shape.view]
    exact .object _ (Shape.regular_fieldViews fields)
  | .union options => .plain (Shape.regular_views options)
  | .list element => .plain (List.forall_mem_singleton.mpr element.regular_view)
  | .optional inner => .plain (List.forall_mem_singleton.mpr inner.regular_view)
  | .described inner description => inner.regular_view.describe description

theorem Shape.regular_fieldViews :
    ∀ fields : List (FieldHead × Shape), ∀ property ∈ Shape.fieldViews fields, property.2.Regular
  | [] => nofun
  | (head, shape) :: rest => List.forall_mem_cons.mpr
    ⟨shape.regular_view.withDefault shape.admitsNull head.default, Shape.regular_fieldViews rest⟩

theorem Shape.regular_views : ∀ shapes : List Shape, ∀ view ∈ Shape.views shapes, view.Regular
  | [] => nofun
  | shape :: rest => List.forall_mem_cons.mpr ⟨shape.regular_view, Shape.regular_views rest⟩

end

theorem BasicType.regular_plain_form (type : BasicType) (respond : Sample → Response) :
    (SchemaView.plain (type.form respond)).Regular := by
  cases type <;> exact .plain nofun

theorem SchemaView.regular_ofMembers {members : List (Bool × SchemaView)}
    (h : ∀ member ∈ members, member.2.Regular) : (SchemaView.ofMembers members).Regular := by
  have hall (members' : List (Bool × SchemaView)) (hsub : members' ⊆ members) :
      (SchemaView.plain (.union (members'.map (·.2)))).Regular := by
    refine .plain fun part hpart ↦ ?_
    obtain ⟨member, hmember, rfl⟩ := List.mem_map.mp hpart
    exact h member (hsub hmember)
  rw [SchemaView.ofMembers]
  split
  · split
    · next view hview =>
      have hmem := List.mem_filter.mp (hview ▸ List.mem_cons_self)
      exact .plain (List.forall_mem_singleton.mpr (h _ hmem.1))
    · exact .plain (List.forall_mem_singleton.mpr (hall _ (List.filter_subset_self _)))
  · exact hall members (List.Subset.refl _)

theorem SchemaView.regular_ofLiterals (values : List SchemaValue) :
    (SchemaView.ofLiterals values).Regular := by
  unfold SchemaView.ofLiterals
  split
  · exact .plain nofun
  · refine .plain fun part hpart ↦ ?_
    obtain ⟨value, -, rfl⟩ := List.mem_map.mp hpart
    exact .plain nofun

theorem FieldDefault.regular_view {view : SchemaView} (default : FieldDefault) (h : view.Regular)
    (admitsNull : Bool) : (default.view admitsNull view).Regular := by
  unfold FieldDefault.view
  split
  · exact h.withDefault admitsNull none
  · exact h.withDefault admitsNull _
  · exact h.wrap rfl
  · exact h.wrap rfl
  · exact h.wrap rfl
  · exact h.wrap rfl

namespace RuntimeType

mutual

/-- **The views of runtime types are regular.** -/
theorem regular_view : ∀ type : RuntimeType, type.view.Regular
  | .basic type => type.regular_plain_form _
  | .container .list arguments | .container .set arguments | .container .frozenSet arguments
  | .container .sequence arguments =>
    .plain (List.forall_mem_singleton.mpr (regular_argumentView arguments))
  | .container .dictionary _ | .container .tuple _ | .container .classOf _ => .plain nofun
  | .union members => regular_ofMembers (regular_memberViews members)
  | .literal values => regular_ofLiterals values
  | .remarked base _ => (regular_view base).describe _
  | .model _ _ fields => .object _ (regular_fieldViews fields)
  | .adapter _ | .recurring _ | .failing _ => .plain nofun
  | .built m => m.shape.regular_view

theorem regular_argumentView : ∀ types : List RuntimeType, (argumentView types).Regular
  | [] => .plain nofun
  | type :: _ => regular_view type

theorem regular_memberViews :
    ∀ types : List RuntimeType, ∀ member ∈ memberViews types, member.2.Regular
  | [] => nofun
  | type :: rest => List.forall_mem_cons.mpr ⟨regular_view type, regular_memberViews rest⟩

theorem regular_fieldViews :
    ∀ fields : List (ModelField × RuntimeType), ∀ property ∈ fieldViews fields, property.2.Regular
  | [] => nofun
  | (field, type) :: rest => by
    rw [fieldViews.eq_def]
    refine List.forall_mem_cons.mpr ⟨field.default.regular_view ?_ _, regular_fieldViews rest⟩
    have htype := regular_view type
    cases type with
    | remarked base remarks => exact (regular_view base).describe _
    | _ => exact htype.describe _

end

end RuntimeType

end SchemaTree
