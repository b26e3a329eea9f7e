import SchemaTree.Proofs.Parametricity
import SchemaTree.Proofs.Validation
import Mathlib.Data.Set.Finite.List
import Mathlib.Order.WellFounded

/-!
# Validation ends

Validation calls itself: on the elements of a list and the members of an object, on the options of a
union, and on what a reference leads to. `Calls` is the relation between a call and the calls that
it may make, without any bound, and `Terminates` says that no chain of calls goes on for ever.

References and options pass the data on as it is, so neither the data nor the tree carries the
argument alone. In a guarded document the steps that keep the data cannot go round in a circle, and
as there are finitely many items they are well-founded (`Document.Guarded.wellFounded`). The measure
is therefore lexicographic: first the depth of the data, then the items below by such steps
(`terminates_item`).

The validator itself is bounded. That it never stops early is said by two facts: a validation that
ends within a bound ends in the same way within every greater one (`Registry.follow_approximates`),
and the bound of a model is great enough (`decides_item`).
-/

namespace SchemaTree

open Relation Json

/-! ## Calls -/

section Calls

variable {registry : Registry Shape} {s : Shape} {v : Json}

/-- Validation of some data against a shape, and the validations that it may call for. -/
inductive Calls (registry : Registry Shape) : Shape × Json → Shape × Json → Prop where
  | element {s : Shape} {elements : List Json} {e : Json} (he : e ∈ elements) :
      Calls registry (.list s, .arr elements) (s, e)
  | member {name : String} {documentation : Json} {fields : List (FieldHead × Shape)}
      {members : List (String × Json)} {f : FieldHead × Shape} {w : Json} (hf : f ∈ fields)
      (hw : Members.find? f.1.name members = some w) :
      Calls registry (.record name documentation fields, .obj members) (f.2, w)
  | option {options : List Shape} {s : Shape} {v : Json} (hs : s ∈ options) :
      Calls registry (.union options, v) (s, v)
  | present {s : Shape} {v : Json} (hv : v ≠ .null) : Calls registry (.optional s, v) (s, v)
  | described {s : Shape} {description v : Json} :
      Calls registry (.described s description, v) (s, v)
  | reference {id : String} {s : Shape} {v : Json} (hs : (registry.lookup id).value = some s) :
      Calls registry (.reference id, v) (s, v)

/-- No chain of calls from this one goes on for ever. -/
def Terminates (registry : Registry Shape) (call : Shape × Json) : Prop :=
  Acc (fun callee caller ↦ Calls registry caller callee) call

theorem terminates_of_calls {call : Shape × Json}
    (h : ∀ callee, Calls registry call callee → Terminates registry callee) :
    Terminates registry call := Acc.intro call h

theorem terminates_describedBy {description : Json} (h : Terminates registry (s, v)) :
    Terminates registry (s.describedBy description, v) := by
  rw [Shape.describedBy]
  split
  · refine terminates_of_calls fun callee hcall ↦ ?_
    cases hcall
    exact h
  · exact h

theorem terminates_list (h : ∀ elements, v = .arr elements → ∀ e ∈ elements,
    Terminates registry (s, e)) : Terminates registry (.list s, v) := by
  refine terminates_of_calls fun callee hcall ↦ ?_
  cases hcall with
  | element he => exact h _ rfl _ he

theorem terminates_optional (h : Terminates registry (s, v)) :
    Terminates registry (.optional s, v) := by
  refine terminates_of_calls fun callee hcall ↦ ?_
  cases hcall
  exact h

/-- A shape where it stands as an option: it sees the data, or the elements of a list. -/
theorem terminates_asOption {a : Attributes}
    (hsingle : a.isArray = false → Terminates registry (s, v))
    (harray : ∀ elements, v = .arr elements → ∀ e ∈ elements, Terminates registry (s, e)) :
    Terminates registry (s.asOption a, v) := by
  rw [Shape.asOption]
  cases ha : a.isArray with
  | false => exact hsingle ha
  | true => exact terminates_list harray

/-- A shape where it stands as a field sees nothing that is deeper than the data. -/
theorem terminates_asField {a : Attributes}
    (h : ∀ w, w.depth ≤ v.depth → Terminates registry (s, w)) :
    Terminates registry ((s.asField a).2, v) := by
  have hhere : Terminates registry (s.asOption a, v) := by
    refine terminates_asOption (fun _ ↦ h v le_rfl) fun elements hv e he ↦ h e ?_
    rw [hv]
    exact (depth_lt_of_mem he).le
  rw [snd_asField]
  split
  · exact hhere
  · exact terminates_optional hhere

/-- The record of an object only sees smaller data. -/
theorem terminates_record {anonymous name : String} {documentation : Json} {xs : List Item}
    (h : ∀ y ∈ xs, ∀ w, w.depth < v.depth → Terminates registry (y.shape anonymous, w)) :
    Terminates registry (.record name documentation
      (recordFields (Item.fieldListShapes anonymous xs)), v) := by
  refine terminates_of_calls fun callee hcall ↦ ?_
  cases hcall with
  | member hf hw =>
    rename_i members f w
    obtain ⟨y, hlast, hy⟩ := mem_recordFields_iff.mp ⟨f.1.key, hf⟩
    have hshape : (y.shape anonymous).asField y.attributes = (f.1.default, f.2) :=
      (Prod.mk.inj hy).2
    have hdepth : w.depth < (Json.obj members).depth :=
      depth_lt_of_mem_members (Members.mem_of_find?_eq_some hw)
    rw [← (Prod.mk.inj hshape).2]
    exact terminates_asField fun u hu ↦ h y hlast.mem u (hu.trans_lt hdepth)

/-- A leaf makes no calls. -/
theorem terminates_leafShape (a : Attributes) : Terminates registry (a.leafShape, v) := by
  refine terminates_of_calls fun callee hcall ↦ ?_
  rw [Attributes.leafShape] at hcall
  split at hcall
  · cases hcall
  · split at hcall <;> cases hcall

end Calls

/-! ## Steps that keep the data -/

section Guarded

variable {d : Document} {anonymous : String} {x y : Item} {v : Json}

/-- **The steps between built items that keep the data are well-founded** in a guarded document:
they do not go round in a circle, and there are finitely many items. -/
theorem Document.Guarded.wellFounded (hd : d.Guarded) :
    WellFounded fun y x : { x // x ∈ d.built } ↦ ShortStep d.built x y := by
  have hfinite : Finite { x // x ∈ d.built } := d.built.finite_toSet
  let below (y x : { x // x ∈ d.built }) : Prop := TransGen (ShortStep d.built) x.1 y.1
  have htrans : IsTrans _ below := ⟨fun _ _ _ hyx hzy ↦ hzy.trans hyx⟩
  have hirrefl : Std.Irrefl below := ⟨fun x ↦ hd.acyclic x.1 x.2⟩
  have hbelow : WellFounded below := Finite.wellFounded_of_trans_of_irrefl below
  exact Subrelation.wf (fun hstep ↦ TransGen.single hstep) hbelow

/-- Validation of data against the shape of an item ends if validation of smaller data against the
parts does, and of the same data against the items one short step away. -/
theorem terminates_item_of_parts (hids : (d.built.map Item.id).Nodup) (hx : x ∈ d.built)
    (hstep : ∀ y ∈ d.built, ShortStep d.built x y →
      Terminates (d.registry anonymous) (y.shape anonymous, v))
    (hinside : ∀ y ∈ d.built, ∀ w, w.depth < v.depth →
      Terminates (d.registry anonymous) (y.shape anonymous, w)) :
    Terminates (d.registry anonymous) (x.shape anonymous, v) := by
  have hpart {y : Item} (hy : y ∈ x.parts) : y ∈ d.built := Document.mem_built_of_mem_parts hx hy
  cases x.role with
  | reference ht =>
    rw [Item.shape_of_target ht]
    refine terminates_of_calls fun callee hcall ↦ ?_
    cases hcall with
    | reference hs =>
      obtain ⟨y, hy, rfl⟩ := (Document.lookup_value_eq_some_iff hids).mp hs
      exact hstep y hy.2.1 (.reference ht hy)
  | object ht hk =>
    rw [Item.shape_of_object ht hk]
    rw [Item.parts_of_object ht hk] at hpart
    exact terminates_record fun y hy w hw ↦ hinside y (hpart hy) w hw
  | union ht hk =>
    rw [Item.shape_of_union ht hk]
    rw [Item.parts_of_union ht hk] at hpart
    refine terminates_describedBy ?_
    rw [Shape.ofOptions, Item.optionListShapes_eq]
    split
    · exact terminates_of_calls fun callee hcall ↦ by cases hcall
    · refine terminates_of_calls fun callee hcall ↦ ?_
      cases hcall with
      | option hs =>
        obtain ⟨y, hy, rfl⟩ := List.mem_map.mp hs
        -- an option sees the data of the union, unless it is an array
        refine terminates_asOption (fun ha ↦ hstep y (hpart hy) (.option ht hk hy ha)) ?_
        rintro elements rfl e he
        exact hinside y (hpart hy) e (depth_lt_of_mem he)
  | leaf ht ho hu =>
    rw [Item.shape_of_leaf ht ho hu]
    exact terminates_describedBy (terminates_leafShape _)

/-- **Validation against the shape of an item ends**, by the depth of the data and then by the short
steps. -/
theorem terminates_item (hd : d.Guarded) (hx : x ∈ d.built) :
    Terminates (d.registry anonymous) (x.shape anonymous, v) := by
  induction hn : v.depth using Nat.strongRecOn generalizing x v with
  | ind n ihdepth =>
    suffices h : ∀ x : { x // x ∈ d.built },
        Terminates (d.registry anonymous) (x.1.shape anonymous, v) from h ⟨x, hx⟩
    intro x
    induction x using hd.wellFounded.induction with
    | h x ihstep =>
      refine terminates_item_of_parts hd.nodup_built x.2 ?_ ?_
      · intro y hy hstep
        exact ihstep ⟨y, hy⟩ hstep
      · intro y hy w hw
        exact ihdepth w.depth (hn ▸ hw) hy rfl

/-- Validation against the model of a guarded document ends. -/
theorem terminates_model (hd : d.Guarded) (root : String) :
    Terminates (d.registry anonymous) ((d.model root anonymous).shape, v) :=
  terminates_record fun _ hy _ _ ↦ terminates_item hd (Document.mem_built_of_mem_fields hy)

end Guarded

/-! ## Greater bounds -/

section Bounds

variable {α β : Type}

/-- If the first validation ends, the second one is the same; the first may stop early. -/
def Validating.Approximates (c c' : Validating α) : Prop := c.run.value.isSome → c' = c

namespace Validating.Approximates

protected theorem refl (c : Validating α) : Approximates c c := fun _ ↦ rfl

protected theorem bind {c c' : Validating α} {f f' : α → Validating β} (hc : Approximates c c')
    (hf : ∀ a, Approximates (f a) (f' a)) : Approximates (c >>= f) (c' >>= f') := by
  intro h
  rw [OptionT.run_bind, Option.elimM, Logged.value_bind] at h
  cases hvalue : c.run.value with
  | none =>
    rw [hvalue] at h
    cases h
  | some a =>
    rw [hvalue] at h
    have hcc : c' = c := hc (by rw [hvalue]; rfl)
    have hff : f' a = f a := hf a h
    -- behind a validation that ends with `a`, the two go on with `a` only
    have hrun : (c >>= f').run = (c >>= f).run := by
      rw [OptionT.run_bind, OptionT.run_bind, Option.elimM, Option.elimM]
      refine Logged.ext ?_ ?_
      · rw [Logged.value_bind, Logged.value_bind, hvalue, Option.elim, Option.elim, hff]
      · rw [Logged.events_bind, Logged.events_bind, hvalue, Option.elim, Option.elim, hff]
    rw [hcc]
    exact OptionT.ext hrun

theorem simulation : Simulation fun α ↦ @Approximates α := ⟨fun _ ↦ .refl _, .bind⟩

end Validating.Approximates

open Validating

/-- What is looked up better is validated better. -/
theorem validate_approximates {look look' : String → Json → Validating Verdict}
    (h : ∀ id v, Approximates (look id v) (look' id v)) (s : Shape) (v : Json) :
    Approximates (s.validate look v) (s.validate look' v) :=
  Approximates.simulation.validate h s v

/-- **A greater bound changes nothing** about a validation that ends: following one more reference
approximates better, and what ends is exact. -/
theorem Registry.follow_approximates (registry : Registry Shape) {bound bound' : Nat}
    (hbound : bound ≤ bound') (id : String) (v : Json) :
    Approximates (registry.follow bound id v) (registry.follow bound' id v) := by
  induction bound generalizing bound' id v with
  | zero =>
    intro h
    cases h
  | succ bound ih =>
    obtain ⟨bound', rfl⟩ := Nat.exists_eq_add_of_le' (Nat.one_le_of_lt hbound)
    rw [Registry.follow, Registry.follow]
    refine .bind (.refl _) fun target ↦ ?_
    cases target with
    | none => exact .refl _
    | some s =>
      have hlook (id : String) (v : Json) :
          Approximates (registry.follow bound id v) (registry.follow bound' id v) :=
        ih (Nat.le_of_succ_le_succ hbound) id v
      exact (validate_approximates hlook s v).bind fun _ ↦ .refl _

end Bounds

/-! ## Models -/

/-- Validation against a model ends within every bound from that of the model on. -/
theorem ends_model {d : Document} {anonymous : String} (hd : d.Guarded) (root : String) {v : Json}
    {bound : Nat} (hbound : (d.registry anonymous).bound v ≤ bound) :
    ∃ r, ((d.model root anonymous).shape.validate
      ((d.registry anonymous).follow bound) v).Ends r := by
  have hdecides : Decides ((d.model root anonymous).shape.validate
      ((d.registry anonymous).follow bound) v) (d.Accepts v) := by
    refine decides_fields fun f hf w hw ↦ ?_
    have haffords : Affords d.built ((d.registry anonymous).bound v) [] w :=
      affords_bound hd.nodup_built hw
    exact decides_item hd (Document.mem_built_of_mem_fields hf) (Trail.nil f)
      (haffords.trans (Nat.add_le_add_right hbound _))
  obtain ⟨r, hr, -⟩ := hdecides
  exact ⟨r, hr⟩

/-- **Validation terminates.** In a guarded document references may lead back to themselves and
chains of them may go round in circles, and still no validation against the model calls itself for
ever: it comes to a verdict, and does so in the same way whatever greater bound is put on it. -/
theorem validation_terminates {d : Document} {settings : BuilderSettings} {root anonymous : String}
    (hs : settings.NameModels root anonymous) (hd : d.Guarded) :
    ∃ m, (d.build settings).value = .ok m ∧ ∀ v, Terminates m.registry (m.shape, v) ∧
      ∃ verdict, (m.validate v).value = some verdict ∧
        ∀ bound, m.registry.bound v ≤ bound →
          m.shape.validate (m.registry.follow bound) v =
            m.shape.validate (m.registry.follow (m.registry.bound v)) v := by
  refine ⟨d.model root anonymous, Document.build_value hs d, fun v ↦ ⟨terminates_model hd root, ?_⟩⟩
  obtain ⟨r, hr⟩ := ends_model hd root (v := v) (Nat.le_refl ((d.registry anonymous).bound v))
  refine ⟨r.map Accepted.datum, ?_, fun bound hbound ↦ ?_⟩
  · have hvalue : ((d.model root anonymous).validate v).value =
        ((d.model root anonymous).shape.validate
          ((d.registry anonymous).follow ((d.registry anonymous).bound v)) v).run.value.map
            (·.map Accepted.datum) := rfl
    rw [hvalue, hr]
    rfl
  · refine validate_approximates (Registry.follow_approximates _ hbound) _ v ?_
    exact Option.isSome_of_eq_some hr

/-- A reference from one object to another and back, a reference within a union to the object that
the union is in, and a cycle of references that is entered from outside. -/
def Document.entangled : Document where
  fields := [
    .mk (Item.new "folder" .object "folder").attributes (some [.referring "owner" "person"]) none,
    .mk (Item.new "person" .object "person").attributes (some [
      .referring "home" "folder",
      .mk (Item.new "contact" .union "contact").attributes none
        (some [.referring "friend" "person", Item.new "address" .string "address"])]) none,
    .referring "outside" "left", .referring "left" "right", .referring "right" "left"]

/-- How many short steps there are at most from an item of the entangled document. -/
def Item.entangledRank (x : Item) : Nat :=
  if x.target?.isSome then 1 else if x.kind = .union then 2 else 0

/-- A reference of the entangled document leads to an object, if it leads anywhere. -/
theorem Document.kind_of_leadsTo_entangled {x y : Item} {id : String}
    (hx : x ∈ Document.entangled.built) (ht : x.target? = some id)
    (hy : LeadsTo Document.entangled.built id y) : y.target? = none ∧ y.kind = .object := by
  have hids : (Document.entangled.built.map Item.id).Nodup := by decide
  have hreferences : ∀ x ∈ Document.entangled.built, x.target? = none ∨
      x.target? = some "person" ∨ x.target? = some "folder" ∨
        x.target? = some "left" ∨ x.target? = some "right" := by decide
  have hobject {id : String} (hfind : ∃ z ∈ Document.entangled.built,
      z.id = id ∧ z.target? = none ∧ z.kind = .object)
      (hy : LeadsTo Document.entangled.built id y) :
      y.target? = none ∧ y.kind = .object := by
    obtain ⟨z, hz, rfl, htz, hkz⟩ := hfind
    obtain rfl := LeadsTo.unique hids hy (leadsTo_self hz htz)
    exact ⟨htz, hkz⟩
  have hcycle {id : String}
      (h : ((Document.entangled.registry "").lookup id).value.isNone) :
      ¬ LeadsTo Document.entangled.built id y := fun hy ↦
    (Document.lookup_value_eq_none_iff hids).mp (Option.isNone_iff_eq_none.mp h) ⟨y, hy⟩
  rcases hreferences x hx with h | h | h | h | h
  · rw [h] at ht
    cases ht
  all_goals obtain rfl := Option.some_inj.mp (h.symm.trans ht)
  · exact hobject (by decide) hy
  · exact hobject (by decide) hy
  · exact absurd hy (hcycle (by decide))
  · exact absurd hy (hcycle (by decide))

theorem Document.guarded_entangled : Document.entangled.Guarded where
  ids := by decide
  acyclic := by
    refine acyclic_of_rank Item.entangledRank fun x hx y hstep ↦ ?_
    cases hstep with
    | option _ hk hy _ =>
      have hoptions : ∀ x ∈ entangled.built, x.kind = .union → ∀ y ∈ x.options.getD [],
          y.entangledRank < x.entangledRank := by decide
      exact hoptions x hx hk y hy
    | reference ht hy =>
      obtain ⟨hty, hky⟩ := kind_of_leadsTo_entangled hx ht hy
      simp [Item.entangledRank, ht, hty, hky]

/-- A folder whose owner has a folder without an owner for a home. -/
def folderData : Json :=
  .obj [("folder", .obj [("owner", .obj [("home", .obj []), ("contact", .str "here")])])]

theorem validation_terminates_entangled :
    BuilderSettings.NameModels {} "Schema" "Object" ∧ Document.entangled.Guarded ∧
      ∃ m, (Document.entangled.build {}).value = .ok m ∧
        Terminates m.registry (m.shape, folderData) ∧
          ∃ verdict, (m.validate folderData).value = some verdict := by
  have hs := BuilderSettings.nameModels_default
  obtain ⟨m, hm, h⟩ := validation_terminates hs Document.guarded_entangled
  obtain ⟨hterminates, verdict, hverdict, -⟩ := h folderData
  exact ⟨hs, Document.guarded_entangled, m, hm, hterminates, verdict, hverdict⟩

end SchemaTree
