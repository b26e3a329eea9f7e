import SchemaTree.Moment.Basic
import SchemaTree.Proofs.References

/-!
# Which data a document accepts

`Document.Accepts d v` says that the data `v` is in order by the document `d`, without any mention
of shapes, registries or bounds. The rules of `Accepts` go by value and tree at once: an object asks
each of its fields about a member, a union asks one of its options about the same data, and a
reference asks the item at the end of its chain. Of several fields with one name only the last one
is asked.

Two kinds of steps lead from an item to another one without leading deeper into the data: from a
union to an option that is no array, and from a reference to the item it leads to. A document is
*guarded* if no item comes back to itself by such steps; then a rule can only be applied to an item
again once the data has become smaller.
-/

namespace SchemaTree

open Relation Json

/-! ## Data without parts -/

/-- The values of a scalar type. -/
inductive ScalarType.Admits : ScalarType → Json → Prop where
  | text (s : String) : Admits .text (.str s)
  | flag (b : Bool) : Admits .flag (.bool b)
  /-- A whole number that a finite binary64 is nearest to. -/
  | whole {n : Int} (h : n.natAbs + 2 ^ 970 < 2 ^ 1024) : Admits .number (.int n)
  | real {x : Float} (hnan : x.isNaN = false) (hinf : x.isInf = false) : Admits .number (.float x)
  | moment {s : String} {form : MomentForm} {m : Moment}
      (hform : MomentForm.ofText? s.toList = some form) (hm : Moment.ofForm form = .ok m) :
      Admits .moment (.str s)

/-! ## Acceptance -/

/-- No later item of a list has the name of this one. -/
def Item.LastIn (x : Item) (xs : List Item) : Prop :=
  ∃ before after, xs = before ++ x :: after ∧ ∀ y ∈ after, y.name ≠ x.name

/-- A list has at most one last item of a name. -/
theorem Item.LastIn.unique {x y : Item} {xs : List Item} (hx : x.LastIn xs) (hy : y.LastIn xs)
    (hname : x.name = y.name) : x = y := by
  have hfind {z : Item} (hz : z.LastIn xs) : xs.reverse.find? (·.name = z.name) = some z := by
    obtain ⟨before, after, rfl, hafter⟩ := hz
    rw [List.find?_eq_some_iff_append]
    exact ⟨by simp, after.reverse, before.reverse, by simp, by simpa using hafter⟩
  have hxy := hfind hx
  rw [hname, hfind hy] at hxy
  exact (Option.some_inj.mp hxy).symm

theorem Item.LastIn.mem {x : Item} {xs : List Item} (h : x.LastIn xs) : x ∈ xs := by
  obtain ⟨before, after, rfl, -⟩ := h
  exact List.mem_append_right _ List.mem_cons_self

mutual

/-- An item accepts data, apart from what its position adds; `items` are those that references can
lead to. -/
inductive Accepts (items : List Item) : Item → Json → Prop where
  | scalar {x : Item} {type : ScalarType} {v : Json} (ht : x.target? = none)
      (hk : x.kind.scalarType? = some type) (hv : type.Admits v) : Accepts items x v
  | literal {x : Item} {v : Json} (ht : x.target? = none) (hk : x.kind = .literal)
      (hv : x.attributes.scalar.admits v) : Accepts items x v
  | object {x : Item} {members : List (String × Json)} (ht : x.target? = none)
      (hk : x.kind = .object) (hf : ∀ f : Item, f.LastIn (x.fields.getD []) →
        AcceptsMember items f (Members.find? f.name members)) : Accepts items x (.obj members)
  | union {x y : Item} {v : Json} (ht : x.target? = none) (hk : x.kind = .union)
      (hlen : 2 ≤ (x.options.getD []).length) (hy : y ∈ x.options.getD [])
      (hv : AcceptsHere items y v) : Accepts items x v
  /-- A union with fewer than two options accepts anything. -/
  | smallUnion {x : Item} {v : Json} (ht : x.target? = none) (hk : x.kind = .union)
      (hlen : (x.options.getD []).length < 2) : Accepts items x v
  | unknown {x : Item} {v : Json} (ht : x.target? = none) (hk : x.kind.isKnown = false) :
      Accepts items x v
  | reference {x y : Item} {id : String} {v : Json} (ht : x.target? = some id)
      (hy : LeadsTo items id y) (hv : Accepts items y v) : Accepts items x v
  /-- A reference that leads nowhere accepts anything. -/
  | astray {x : Item} {id : String} {v : Json} (ht : x.target? = some id)
      (hid : Astray items id) : Accepts items x v

/-- A field or an option accepts data where it stands: an array asks for a list. -/
inductive AcceptsHere (items : List Item) : Item → Json → Prop where
  | single {x : Item} {v : Json} (ha : x.attributes.isArray = false) (hv : Accepts items x v) :
      AcceptsHere items x v
  | array {x : Item} {elements : List Json} (ha : x.attributes.isArray = true)
      (hv : ∀ e ∈ elements, Accepts items x e) : AcceptsHere items x (.arr elements)

/-- A field accepts the member of an object, if there is one. -/
inductive AcceptsMember (items : List Item) : Item → Option Json → Prop where
  | absent {f : Item} (h : f.attributes.required = false ∨ f.attributes.hasDefault = true) :
      AcceptsMember items f none
  | null {f : Item} (hr : f.attributes.required = false) : AcceptsMember items f (some .null)
  | value {f : Item} {v : Json} (hv : AcceptsHere items f v) : AcceptsMember items f (some v)

end

/-! ### The rules read backwards -/

section Rules

variable {items : List Item} {x : Item} {v : Json}

theorem accepts_iff_of_target {id : String} (ht : x.target? = some id) :
    Accepts items x v ↔ (∃ y, LeadsTo items id y ∧ Accepts items y v) ∨ Astray items id := by
  constructor
  · intro h
    cases h with
    | reference ht' hy hv =>
      obtain rfl := Option.some_inj.mp (ht.symm.trans ht')
      exact .inl ⟨_, hy, hv⟩
    | astray ht' hid =>
      obtain rfl := Option.some_inj.mp (ht.symm.trans ht')
      exact .inr hid
    | _ => simp_all
  · rintro (⟨y, hy, hv⟩ | hid)
    · exact .reference ht hy hv
    · exact .astray ht hid

variable (ht : x.target? = none)
include ht

theorem accepts_iff_of_scalarType {type : ScalarType} (hk : x.kind.scalarType? = some type) :
    Accepts items x v ↔ type.Admits v := by
  refine ⟨fun h ↦ ?_, .scalar ht hk⟩
  cases h with
  | scalar _ hk' hv => exact Option.some_inj.mp (hk.symm.trans hk') ▸ hv
  | unknown _ hk' => cases hkind : x.kind <;> simp_all [Kind.scalarType?, Kind.isKnown]
  | _ => simp_all [Kind.scalarType?]

theorem accepts_iff_of_literal (hk : x.kind = .literal) :
    Accepts items x v ↔ x.attributes.scalar.admits v := by
  refine ⟨fun h ↦ ?_, .literal ht hk⟩
  cases h <;> simp_all [Kind.scalarType?, Kind.isKnown]

theorem accepts_iff_of_object (hk : x.kind = .object) :
    Accepts items x v ↔ ∃ members, v = .obj members ∧ ∀ f : Item, f.LastIn (x.fields.getD []) →
      AcceptsMember items f (Members.find? f.name members) := by
  constructor
  · intro h
    cases h with
    | object _ _ hf => exact ⟨_, rfl, hf⟩
    | _ => simp_all [Kind.scalarType?, Kind.isKnown]
  · rintro ⟨members, rfl, hf⟩
    exact .object ht hk hf

theorem accepts_iff_of_union (hk : x.kind = .union) :
    Accepts items x v ↔
      (x.options.getD []).length < 2 ∨ ∃ y ∈ x.options.getD [], AcceptsHere items y v := by
  constructor
  · intro h
    cases h with
    | union _ _ _ hy hv => exact .inr ⟨_, hy, hv⟩
    | smallUnion _ _ hlen => exact .inl hlen
    | _ => simp_all [Kind.scalarType?, Kind.isKnown]
  · intro h
    rcases Nat.lt_or_ge (x.options.getD []).length 2 with hlen | hlen
    · exact .smallUnion ht hk hlen
    · obtain ⟨y, hy, hv⟩ := h.resolve_left (Nat.not_lt.mpr hlen)
      exact .union ht hk hlen hy hv

end Rules

/-- A document accepts data: an object with whose members all fields of the root agree. -/
def Document.Accepts (d : Document) (v : Json) : Prop :=
  ∃ members, v = .obj members ∧
    ∀ f : Item, f.LastIn d.fields → AcceptsMember d.built f (Members.find? f.name members)

/-! ## Guarded documents -/

/-- A step between items that does not lead deeper into the data. -/
inductive ShortStep (items : List Item) : Item → Item → Prop where
  | option {x y : Item} (ht : x.target? = none) (hk : x.kind = .union)
      (hy : y ∈ x.options.getD []) (ha : y.attributes.isArray = false) : ShortStep items x y
  | reference {x y : Item} {id : String} (ht : x.target? = some id) (hy : LeadsTo items id y) :
      ShortStep items x y

/-- No id is repeated, and no item comes back to itself without leading deeper into the data. -/
structure Document.Guarded (d : Document) : Prop where
  ids : (d.items.map Item.id).Nodup
  acyclic : ∀ x ∈ d.built, ¬ TransGen (ShortStep d.built) x x

namespace Document

variable {d : Document}

theorem mem_built_of_shortStep {x y : Item} (hx : x ∈ d.built) (h : ShortStep d.built x y) :
    y ∈ d.built := by
  cases h with
  | option ht hk hy _ => exact mem_built_of_mem_parts hx (Item.parts_of_union ht hk ▸ hy)
  | reference _ hy => exact hy.2.1

theorem nodup_built_of_nodup_items (h : (d.items.map Item.id).Nodup) :
    (d.built.map Item.id).Nodup := by
  obtain ⟨xs, hperm, hsub⟩ := d.built_subperm_items
  exact (hperm.map Item.id).nodup_iff.mp (h.sublist (hsub.map Item.id))

theorem Guarded.nodup_built (h : d.Guarded) : (d.built.map Item.id).Nodup :=
  nodup_built_of_nodup_items h.ids

/-- Items that are ranked so that steps lead down do not come back to themselves. -/
theorem acyclic_of_rank (rank : Item → Nat)
    (h : ∀ x ∈ d.built, ∀ y, ShortStep d.built x y → rank y < rank x) :
    ∀ x ∈ d.built, ¬ TransGen (ShortStep d.built) x x := by
  have hdown {x y : Item} (hx : x ∈ d.built) (hxy : TransGen (ShortStep d.built) x y) :
      y ∈ d.built ∧ rank y < rank x := by
    induction hxy with
    | single hstep => exact ⟨mem_built_of_shortStep hx hstep, h _ hx _ hstep⟩
    | tail _ hstep ih =>
      exact ⟨mem_built_of_shortStep ih.1 hstep, (h _ ih.1 _ hstep).trans ih.2⟩
  exact fun x hx hcycle ↦ lt_irrefl _ (hdown hx hcycle).2

/-- A document is guarded if no option of a union is a union, unless it is an array, and references
name items that are neither references nor unions. -/
theorem guarded_of_flat (ids : (d.items.map Item.id).Nodup)
    (hoptions : ∀ x ∈ d.built, x.kind = .union → ∀ y ∈ x.options.getD [],
      y.attributes.isArray = false → y.kind ≠ .union)
    (hreferences : ∀ x ∈ d.built, ∀ id ∈ x.target?,
      ∃ y ∈ d.built, y.id = id ∧ y.target? = none ∧ y.kind ≠ .union) : d.Guarded where
  ids := ids
  acyclic := by
    -- from a union a step leads to a reference or out of the unions, from a reference out of both
    let rank (x : Item) : Nat :=
      if x.target?.isSome then 1 else if x.kind = .union then 2 else 0
    refine acyclic_of_rank rank fun x hx y hstep ↦ ?_
    cases hstep with
    | option ht hk hy ha =>
      have hy' : y.kind ≠ .union := hoptions x hx hk y hy ha
      simp only [rank, ht, hk, hy', Option.isSome_none, Bool.false_eq_true, if_true, if_false]
      split <;> decide
    | reference ht hy =>
      obtain ⟨z, hz, rfl, htz, hkz⟩ := hreferences x hx _ ht
      obtain rfl := LeadsTo.unique (nodup_built_of_nodup_items ids) hy (leadsTo_self hz htz)
      simp [rank, ht, htz, hkz]

end Document

end SchemaTree
