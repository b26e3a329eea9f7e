import SchemaTree.Proofs.Building

/-!
# When building fails

Two settings name models, and their values are only looked at when a model is named. So building a
document fails exactly if the root cannot be named by its setting, or if an object without a name is
built and cannot be named by the other one (`Document.build_eq_error_iff`).
-/

namespace SchemaTree

/-- An object that is built under the name for those that have none: there are no words in its own.
-/
structure Item.Nameless (x : Item) : Prop where
  target : x.target? = none
  object : x.kind = .object
  wordless : Naming.pascalCase x.name = ""

variable {settings : BuilderSettings} {a : Attributes}

/-- A value that can name records. -/
def Json.CanName (value : Json) : Prop := ∃ name, value.Names name

/-- The settings name the objects without a name among some items, if there are any. -/
def BuilderSettings.Cover (settings : BuilderSettings) (xs : List Item) : Prop :=
  ∀ x ∈ xs, x.Nameless → settings.anonymousModelName.CanName

theorem BuilderSettings.cover_append {xs ys : List Item} :
    settings.Cover (xs ++ ys) ↔ settings.Cover xs ∧ settings.Cover ys := List.forall_mem_append

/-! ## Steps of building -/

theorem requires_recordName (value : Json) :
    Requires (recordName value) value.CanName fun _ ↦ True := by
  match value with
  | .str name =>
    rw [recordName]
    split
    · next hzero =>
      refine (Requires.throw _).of_iff (iff_of_false id ?_)
      rintro ⟨_, ⟨⟩, hzeroless⟩
      exact hzeroless hzero
    · next hzero => exact (Requires.pure trivial).of_iff (iff_of_true trivial ⟨name, rfl, hzero⟩)
  | .null | .bool _ | .int _ | .float _ | .arr _ | .obj _ =>
    refine (Requires.throw _).of_iff (iff_of_false id ?_)
    rintro ⟨_, ⟨⟩, -⟩

theorem requires_buildLeaf (a : Attributes) : Requires (buildLeaf a) True fun _ ↦ True := by
  have hliteral : Requires (buildLiteral a) True fun _ ↦ True := by
    rw [buildLiteral]
    split
    · exact (Requires.report _).bind_of_succeeds fun _ _ ↦ .pure trivial
    · exact .pure trivial
  rw [buildLeaf]
  split
  · exact .pure trivial
  · split
    · exact hliteral
    · exact (Requires.report _).bind_of_succeeds fun _ _ ↦ .pure trivial

theorem requires_buildUnion (a : Attributes) (options : List Shape) :
    Requires (buildUnion a options) True fun _ ↦ True := by
  rw [buildUnion]
  split
  · exact (Requires.report _).bind_of_succeeds fun _ _ ↦ .pure trivial
  · exact .pure trivial

theorem requires_buildRecord (settings : BuilderSettings) (a : Attributes)
    (fields : List (String × Option Json × Shape)) :
    Requires (buildRecord settings a fields)
      (Naming.pascalCase a.name = "" → settings.anonymousModelName.CanName) fun _ ↦ True := by
  rw [buildRecord]
  split
  · next hname =>
    refine ((requires_recordName _).bind_of_succeeds fun _ _ ↦ .pure trivial).of_iff ?_
    exact ⟨fun h _ ↦ h, fun h ↦ h hname⟩
  · next hname =>
    have hpure : Requires (pure (Naming.pascalCase a.name) : Building String) True fun _ ↦ True :=
      .pure trivial
    refine (hpure.bind_of_succeeds fun _ _ ↦ .pure trivial).of_iff ?_
    exact iff_of_true trivial fun h ↦ absurd h hname

theorem requires_register (a : Attributes) (shape : Shape) :
    Requires (Building.register a shape) True fun _ ↦ True := .modifyGet _

/-! ## Items -/

/-- Building an item requires a name for the objects without one that are built for it. -/
def Item.BuildRequires (settings : BuilderSettings) (x : Item) : Prop :=
  Requires (x.build settings) (settings.Cover x.built) fun _ ↦ True

theorem requires_buildList {α : Type} (build : List Item → Building (List α))
    (use : Item → Shape → α) (hnil : build [] = pure [])
    (hcons : ∀ x xs, build (x :: xs) = (do
      let shape ← x.build settings
      let rest ← build xs
      return use x shape :: rest))
    {xs : List Item} (h : ∀ x ∈ xs, x.BuildRequires settings) :
    Requires (build xs) (settings.Cover (Item.builtList xs)) fun _ ↦ True := by
  induction xs with
  | nil =>
    rw [hnil]
    exact (Requires.pure trivial).of_iff (iff_of_true trivial nofun)
  | cons x xs ih =>
    obtain ⟨hx, hxs⟩ := List.forall_mem_cons.mp h
    rw [hcons, Item.builtList]
    refine Requires.of_iff ?_ BuilderSettings.cover_append.symm
    exact hx.bind fun _ _ ↦ (ih hxs).bind_of_succeeds fun _ _ ↦ .pure trivial

theorem requires_buildFieldList {xs : List Item} (h : ∀ x ∈ xs, x.BuildRequires settings) :
    Requires (Item.buildFieldList settings xs) (settings.Cover (Item.builtList xs)) fun _ ↦ True :=
  requires_buildList (Item.buildFieldList settings)
    (fun x shape ↦ (x.name, shape.asField x.attributes)) rfl (fun _ _ ↦ rfl) h

theorem requires_buildOptionList {xs : List Item} (h : ∀ x ∈ xs, x.BuildRequires settings) :
    Requires (Item.buildOptionList settings xs) (settings.Cover (Item.builtList xs)) fun _ ↦ True :=
  requires_buildList (Item.buildOptionList settings)
    (fun x shape ↦ shape.asOption x.attributes) rfl (fun _ _ ↦ rfl) h

theorem requires_buildFields {slot : Option (List Item)}
    (h : ∀ x ∈ slot.getD [], x.BuildRequires settings) :
    Requires (Item.buildFields settings slot) (settings.Cover (Item.builtSlot slot))
      fun _ ↦ True := by
  cases slot with
  | none => exact (Requires.pure trivial).of_iff (iff_of_true trivial nofun)
  | some xs => exact requires_buildFieldList h

theorem requires_buildOptions {slot : Option (List Item)}
    (h : ∀ x ∈ slot.getD [], x.BuildRequires settings) :
    Requires (Item.buildOptions settings slot) (settings.Cover (Item.builtSlot slot))
      fun _ ↦ True := by
  cases slot with
  | none => exact (Requires.pure trivial).of_iff (iff_of_true trivial nofun)
  | some xs => exact requires_buildOptionList h

theorem Item.buildRequires (settings : BuilderSettings) (x : Item) : x.BuildRequires settings := by
  induction x using Item.induction with
  | step a fields options ihf iho =>
    have hregister (shape : Shape) :
        Requires (do Building.register a shape; pure shape) True fun _ ↦ True :=
      (requires_register a shape).bind_of_succeeds fun _ _ ↦ .pure trivial
    have hdescribed (shape : Shape) : Requires (do
        let shape ← pure shape
        Building.register a shape
        pure shape) True fun _ ↦ True :=
      hregister shape
    -- an item that is no object requires nothing besides what its parts do
    have hself (p : Prop) (h : ¬ (mk a fields options).Nameless) :
        p ↔ p ∧ settings.Cover [mk a fields options] := by
      refine (and_iff_left fun y hy hnameless ↦ ?_).symm
      exact absurd (List.mem_singleton.mp hy ▸ hnameless) h
    have hnone : settings.Cover [] := List.forall_mem_nil _
    rw [Item.BuildRequires, Item.build, Item.built]
    refine Requires.of_iff ?_ BuilderSettings.cover_append.symm
    cases ht : a.target? with
    | some target =>
      refine (hdescribed (.reference target)).of_iff ?_
      refine (iff_true_intro hnone).symm.trans (hself _ fun h ↦ ?_)
      cases ht.symm.trans h.target
    | none =>
      cases hk : a.kind with
      | object =>
        refine ((requires_buildFields ihf).bind fun shapes _ ↦ (requires_buildRecord settings a
          shapes).bind_of_succeeds fun shape _ ↦ hregister shape).of_iff ?_
        refine and_congr_right' ⟨fun h y hy hnameless ↦ ?_, fun h hname ↦ ?_⟩
        · obtain rfl := List.mem_singleton.mp hy
          exact h hnameless.wordless
        · exact h _ List.mem_cons_self ⟨ht, hk, hname⟩
      | union =>
        have hunion := (requires_buildOptions iho).bind_of_succeeds fun shapes _ ↦
          (requires_buildUnion a shapes).bind_of_succeeds fun shape _ ↦
            hdescribed (shape.describedBy a.description)
        refine hunion.of_iff (hself _ fun h ↦ ?_)
        cases hk.symm.trans h.object
      | _ =>
        refine ((requires_buildLeaf a).bind_of_succeeds fun shape _ ↦
          hdescribed (shape.describedBy a.description)).of_iff ?_
        refine (iff_true_intro hnone).symm.trans (hself _ fun h ↦ ?_)
        cases hk.symm.trans h.object

/-! ## Documents -/

/-- **When building fails**: if a value cannot name the record that it is needed for. -/
theorem Document.build_eq_error_iff (d : Document) (settings : BuilderSettings) :
    (∃ e, (d.build settings).value = .error e) ↔
      ¬ settings.rootModelName.CanName ∨
        (∃ x ∈ d.built, x.Nameless) ∧ ¬ settings.anonymousModelName.CanName := by
  have hroot : Requires (d.buildRoot settings)
      (settings.Cover d.built ∧ settings.rootModelName.CanName) fun _ ↦ True := by
    rw [buildRoot]
    refine (requires_buildFieldList fun x _ ↦ x.buildRequires settings).bind fun fields _ ↦ ?_
    exact (requires_recordName _).bind_of_succeeds fun _ _ ↦ .pure trivial
  have hfails : (∃ e, (d.build settings).value = .error e) ↔
      ¬ (settings.Cover d.built ∧ settings.rootModelName.CanName) := by
    rw [← hroot.exists_error_iff {}, build, Logged.value_bind]
    change _ ↔ ∃ e, ((d.buildRoot settings).run {}).value.1 = .error e
    generalize ((d.buildRoot settings).run {}).value = ended
    obtain ⟨result, registry⟩ := ended
    cases result with
    | error e => exact iff_of_true ⟨e, rfl⟩ ⟨e, rfl⟩
    | ok shape => exact iff_of_false not_exists_ok_eq_error not_exists_ok_eq_error
  rw [hfails, BuilderSettings.Cover, not_and_or, or_comm]
  refine or_congr_right ?_
  push Not
  constructor
  · rintro ⟨x, hx, hnameless, h⟩
    exact ⟨⟨x, hx, hnameless⟩, h⟩
  · rintro ⟨⟨x, hx, hnameless⟩, h⟩
    exact ⟨x, hx, hnameless, h⟩

end SchemaTree
