import SchemaTree.Proofs.Building
import SchemaTree.Proofs.Chains

/-!
# What a registry knows

To those who look something up, a registry is a map from ids to what was built and the link made for
it, if there is one. A registration adds to this map an id that was unknown and changes nothing
otherwise (`Registry.known_register`); the registry of a document knows of every id the first built
item that has it (`Document.known_registry`).
-/

namespace SchemaTree

open Json

/-- The first of several items with an id. -/
def named (items : List Item) (id : String) : Option Item := items.find? (·.id = id)

theorem named_cons (x : Item) (items : List Item) (id : String) :
    named (x :: items) id = if x.id = id then some x else named items id := by
  rw [named, List.find?_cons]
  by_cases h : x.id = id <;> simp [h, named]

theorem mem_of_named {items : List Item} {id : String} {x : Item} (h : named items id = some x) :
    x ∈ items ∧ x.id = id :=
  ⟨List.mem_of_find?_eq_some h, by simpa using List.find?_some h⟩

theorem named_eq_none_iff {items : List Item} {id : String} :
    named items id = none ↔ ∀ x ∈ items, x.id ≠ id := by
  rw [named, List.find?_eq_none]
  simp

/-- Where no two items share an id, every item is the first with its id. -/
theorem named_eq_some_iff {items : List Item} (hids : (items.map Item.id).Nodup) {id : String}
    {x : Item} : named items id = some x ↔ x ∈ items ∧ x.id = id := by
  refine ⟨mem_of_named, ?_⟩
  rintro ⟨hx, rfl⟩
  induction items with
  | nil => simp at hx
  | cons y ys ih =>
    rw [List.map_cons, List.nodup_cons] at hids
    rw [named_cons]
    rcases List.mem_cons.mp hx with rfl | hx
    · rw [if_pos rfl]
    · have hne : y.id ≠ x.id := fun h ↦ hids.1 (h ▸ List.mem_map_of_mem hx)
      rw [if_neg hne]
      exact ih hids.2 hx

namespace Registry

variable {α : Type} {r : Registry α} {id : String}

/-- What is known of an id: its entry and its link. -/
def known (r : Registry α) (id : String) : Option (α × Option String) :=
  (Members.find? id r.entries).map fun entry ↦ (entry, link r.links id)

/-- Only ids with an entry have a link. -/
def WellLinked (r : Registry α) : Prop :=
  ∀ id, Members.find? id r.entries = none → link r.links id = none

theorem wellLinked_empty : ({} : Registry α).WellLinked := fun _ _ ↦ rfl

theorem known_empty : ({} : Registry α).known id = none := rfl

theorem entry_eq_known (r : Registry α) (id : String) :
    Members.find? id r.entries = (r.known id).map Prod.fst := by
  rw [known, Option.map_map]
  exact Option.map_id'.symm

theorem WellLinked.link_eq_known (h : r.WellLinked) (id : String) :
    link r.links id = (r.known id).bind Prod.snd := by
  rw [known]
  cases hid : Members.find? id r.entries with
  | none => rw [h id hid, Option.map_none, Option.bind_none]
  | some entry => rfl

/-- A registration of a known id changes nothing. -/
theorem register_of_known {entry : α} {reference : Option String}
    (h : (Members.find? id r.entries).isSome) : r.register id entry reference = r := by
  rw [register, if_pos h]

theorem entries_register {entry : α} {reference : Option String}
    (h : Members.find? id r.entries = none) :
    (r.register id entry reference).entries = r.entries ++ [(id, entry)] := by
  rw [register, if_neg (by simp [h])]

/-- A registration of an unknown id makes its link and no other. -/
theorem link_register {entry : α} {reference : Option String} (hr : r.WellLinked)
    (h : Members.find? id r.entries = none) (other : String) :
    link (r.register id entry reference).links other =
      if id = other then reference.filter (· ≠ "") else link r.links other := by
  rw [register, if_neg (by simp [h])]
  cases hfilter : reference.filter (· ≠ "") with
  | none =>
    dsimp only
    split
    · -- an id without an entry has no link from before either
      rename_i hother
      exact hr other (hother ▸ h)
    · rfl
  | some target =>
    dsimp only
    rw [link]
    split
    · rename_i hother
      subst hother
      exact Members.find?_insert_self id target r.links
    · rename_i hother
      exact Members.find?_insert_of_ne hother target r.links

theorem WellLinked.register (hr : r.WellLinked) (id : String) (entry : α)
    (reference : Option String) : (r.register id entry reference).WellLinked := by
  cases hid : Members.find? id r.entries with
  | some e =>
    rw [register_of_known (by rw [hid]; rfl)]
    exact hr
  | none =>
    intro other hother
    rw [entries_register hid, Members.find?_append, Option.or_eq_none_iff] at hother
    have hne : id ≠ other := by
      rintro rfl
      simp [Members.find?] at hother
    rw [link_register hr hid, if_neg hne]
    exact hr other hother.1

/-- **What a registration adds** to what is known. -/
theorem known_register (hr : r.WellLinked) (id : String) (entry : α) (reference : Option String)
    (other : String) :
    (r.register id entry reference).known other =
      (r.known other).or
        (if id = other then some (entry, reference.filter (· ≠ "")) else none) := by
  cases hid : Members.find? id r.entries with
  | some e =>
    rw [register_of_known (by rw [hid]; rfl)]
    split
    · rename_i hother
      subst hother
      rw [known, hid, Option.map_some, Option.some_or]
    · rw [Option.or_none]
  | none =>
    rw [known, known, entries_register hid, Members.find?_append, link_register hr hid]
    by_cases hother : id = other
    · subst hother
      rw [hid, if_pos rfl, if_pos rfl, Members.find?, if_pos rfl]
      rfl
    · rw [if_neg hother, if_neg hother, Members.find?, if_neg hother, Members.find?,
        Option.or_none, Option.or_none]

/-! ## Items registered in turn -/

variable {anonymous : String} {r : Registry Shape}

/-- What is known of an item once it is registered. -/
def factOf (anonymous : String) (x : Item) : Shape × Option String := (x.shape anonymous, x.target?)

theorem known_recordAll (hr : r.WellLinked) (xs : List Item) (id : String) :
    (r.recordAll anonymous xs).WellLinked ∧
      (r.recordAll anonymous xs).known id =
        (r.known id).or ((named xs id).map (factOf anonymous)) := by
  induction xs generalizing r with
  | nil => exact ⟨hr, (Option.or_none).symm⟩
  | cons x xs ih =>
    obtain ⟨hlinked, hknown⟩ := ih (hr.register x.id (x.shape anonymous) x.attributes.reference)
    refine ⟨hlinked, ?_⟩
    rw [recordAll, List.foldl_cons, record, ← recordAll, hknown, known_register hr, Option.or_assoc]
    rw [named_cons]
    by_cases hx : x.id = id
    · rw [if_pos hx, if_pos hx]
      rfl
    · rw [if_neg hx, if_neg hx, Option.none_or]

end Registry

/-! ## The registry of a document -/

namespace Document

variable {anonymous : String} (d : Document) (id : String)

theorem wellLinked_registry : (d.registry anonymous).WellLinked :=
  (Registry.known_recordAll Registry.wellLinked_empty d.built "").1

/-- **What the registry of a document knows**: of every id the first built item that has it. -/
theorem known_registry :
    (d.registry anonymous).known id = (named d.built id).map (Registry.factOf anonymous) := by
  rw [registry, (Registry.known_recordAll Registry.wellLinked_empty d.built id).2,
    Registry.known_empty, Option.none_or]

theorem entry_registry : Members.find? id (d.registry anonymous).entries =
    (named d.built id).map (Item.shape anonymous) := by
  rw [Registry.entry_eq_known, known_registry, Option.map_map]
  rfl

theorem link_registry :
    Registry.link (d.registry anonymous).links id = (named d.built id).bind Item.target? := by
  rw [(wellLinked_registry d).link_eq_known, known_registry, Option.bind_map]
  rfl

end Document

end SchemaTree
