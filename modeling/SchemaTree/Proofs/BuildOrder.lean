import SchemaTree.Proofs.References

/-!
# The order of building

Building goes from an item to its parts, from a reference to nothing, and registers an item after
its parts. So a registry gains the items that one reaches from the built one, each id once and with
the item that has it first in this order; what it held before stays (`build_registers`).

A search goes the other way round: it stops at an item before it comes to those below it. Where an
id is repeated by items of which none is below another the two take the same item, the first one.
Where it is repeated by an item and one below it they do not: the search takes the outer one, and
the registry what was registered below it (`registered_within_found`).
-/

namespace SchemaTree

open Relation Json

/-! ## What is reached from an item -/

namespace Item

/-- Building goes on from an item without a reference to its fields if it is an object, and to its
options if it is a union. -/
def GoesOnTo (x y : Item) : Prop :=
  x.target? = none ∧
    (x.kind = .object ∧ y ∈ x.fields.getD [] ∨ x.kind = .union ∧ y ∈ x.options.getD [])

theorem goesOnTo_iff {x y : Item} : x.GoesOnTo y ↔ y ∈ x.parts := by
  rw [GoesOnTo]
  cases x.role with
  | reference ht => simp [parts_of_target ht, ht]
  | object ht hk => simp [parts_of_object ht hk, ht, hk]
  | union ht hk => simp [parts_of_union ht hk, ht, hk]
  | leaf _ ho hu => simp [parts_of_leaf ho hu, ho, hu]

/-- The items that are built for an item are those that are reached from it. -/
theorem mem_built_iff {x y : Item} : y ∈ x.built ↔ ReflTransGen GoesOnTo x y := by
  constructor
  · intro hy
    induction x using partsInduction with
    | step x ih =>
      rw [built_eq, List.mem_append, List.mem_singleton] at hy
      rcases hy with hy | rfl
      · obtain ⟨z, hz, hyz⟩ := List.mem_flatMap.mp hy
        exact ReflTransGen.head (goesOnTo_iff.mpr hz) (ih z hz hyz)
      · exact ReflTransGen.refl
  · intro h
    induction h using ReflTransGen.head_induction_on with
    | refl => exact y.self_mem_built
    | head hstep _ ih => exact built_subset_of_mem_parts (goesOnTo_iff.mp hstep) ih

end Item

/-! ## What a registry gains -/

namespace Registry

/-- The links that several items make: from the ids of those that refer to something. -/
def linksOf (xs : List Item) : List (String × String) :=
  xs.filterMap fun x ↦ x.target?.map (x.id, ·)

/-- A registry gains the shapes of several items, under their ids and in their order, and links for
those of them that refer to something. The entries that it held before stay. -/
structure Gains (anonymous : String) (r r' : Registry Shape) (fresh : List Item) : Prop where
  entries : r'.entries = r.entries ++ fresh.map fun x ↦ (x.id, x.shape anonymous)
  links : r'.links = Members.insertAll (linksOf fresh) r.links
  found : r'.found = r.found

variable {anonymous : String} {r r' r'' : Registry Shape} {x : Item}

theorem Gains.nil (r : Registry Shape) : Gains anonymous r r [] where
  entries := (List.append_nil _).symm
  links := rfl
  found := rfl

theorem Gains.append {xs ys : List Item} (h : Gains anonymous r r' xs)
    (h' : Gains anonymous r' r'' ys) : Gains anonymous r r'' (xs ++ ys) where
  entries := by rw [h'.entries, h.entries, List.map_append, List.append_assoc]
  links := by
    rw [h'.links, h.links, linksOf, linksOf, linksOf, List.filterMap_append]
    exact List.foldl_append.symm
  found := h'.found.trans h.found

theorem record_of_mem (h : x.id ∈ Members.keys r.entries) : r.record anonymous x = r :=
  register_of_known (Members.isSome_find?_iff.mpr h)

theorem gains_record (h : x.id ∉ Members.keys r.entries) :
    Gains anonymous r (r.record anonymous x) [x] := by
  have hnone : Members.find? x.id r.entries = none := Members.find?_eq_none_iff.mpr h
  refine ⟨entries_register hnone, ?_, ?_⟩
  · rw [record, register, if_neg (by simp [hnone]), linksOf, List.filterMap_cons, Item.target?,
      Attributes.target?]
    cases x.attributes.reference.filter (· ≠ "") with
    | none => rfl
    | some target => rfl
  · rw [record, register, if_neg (by simp [hnone])]

/-- **What a registry gains** by items that are registered one after the other: those whose ids it
does not know, each id with the first item that has it. -/
theorem gains_recordAll (r : Registry Shape) (xs : List Item) :
    Gains anonymous r (r.recordAll anonymous xs)
      (newcomers Item.id (Members.keys r.entries) xs) := by
  induction xs generalizing r with
  | nil => exact Gains.nil r
  | cons x xs ih =>
    rw [recordAll, List.foldl_cons, ← recordAll]
    by_cases hx : x.id ∈ Members.keys r.entries
    · rw [record_of_mem hx, newcomers_cons_of_mem hx]
      exact ih r
    · have hrecord : Gains anonymous r (r.record anonymous x) [x] := gains_record hx
      have hkeys : Members.keys (r.record anonymous x).entries =
          Members.keys r.entries ++ [x.id] := by
        rw [hrecord.entries]
        exact List.map_append
      have hrest := ih (r.record anonymous x)
      rw [hkeys] at hrest
      rw [newcomers_cons_of_notMem hx]
      exact hrecord.append hrest

theorem keys_linksOf_sublist (xs : List Item) :
    (Members.keys (linksOf xs)).Sublist (xs.map Item.id) := by
  induction xs with
  | nil => exact List.Sublist.refl _
  | cons x xs ih =>
    rw [linksOf, List.filterMap_cons]
    cases x.target? with
    | none => exact ih.cons x.id
    | some target => exact ih.cons_cons x.id

/-- Where only ids with an entry have links, no link is replaced. -/
theorem links_recordAll (hr : r.WellLinked) (xs : List Item) :
    (r.recordAll anonymous xs).links =
      r.links ++ linksOf (newcomers Item.id (Members.keys r.entries) xs) := by
  have hkeys := keys_linksOf_sublist (newcomers Item.id (Members.keys r.entries) xs)
  have hnodup : ((newcomers Item.id (Members.keys r.entries) xs).map Item.id).Nodup :=
    (nodup_map_firsts Item.id xs).sublist (List.filter_sublist.map Item.id)
  rw [(r.gains_recordAll xs).links]
  refine Members.insertAll_of_nodup (hnodup.sublist hkeys) fun id hlinked hid ↦ ?_
  obtain ⟨x, hx, rfl⟩ := List.mem_map.mp (hkeys.subset hid)
  have hunknown : x.id ∉ Members.keys r.entries := of_decide_eq_true (List.mem_filter.mp hx).2
  have hunlinked : Members.find? x.id r.links = none :=
    hr x.id (Members.find?_eq_none_iff.mpr hunknown)
  exact Members.find?_eq_none_iff.mp hunlinked hlinked

end Registry

/-- **What building an item registers**, whatever the registry held before. The items built are
those reached from it, a whole after its fields or options, which come in their order. Of these the
registry gains the first ones of the ids that it does not know. Only those that refer to something
make links, and in a registry whose ids with links are known these links are added to the others:
no id has one before. -/
theorem Item.build_registers {settings : BuilderSettings} {anonymous : String}
    (hs : settings.anonymousModelName.Names anonymous) (x : Item) (r : Registry Shape) :
    (∀ y, y ∈ x.built ↔ ReflTransGen GoesOnTo x y) ∧
      (∀ y : Item, y.target? = none → y.kind = .object →
        y.built = (y.fields.getD []).flatMap built ++ [y]) ∧
      (∀ y : Item, y.target? = none → y.kind = .union →
        y.built = (y.options.getD []).flatMap built ++ [y]) ∧
      (∀ y : Item, (∀ z, ¬ y.GoesOnTo z) → y.built = [y]) ∧
      (newcomers Item.id (Members.keys r.entries) x.built).map id =
        (x.built.map id).eraseDups.filter (· ∉ Members.keys r.entries) ∧
      (∀ y, y ∈ newcomers Item.id (Members.keys r.entries) x.built ↔
        named x.built y.id = some y ∧ y.id ∉ Members.keys r.entries) ∧
      ∃ r', Yields (x.build settings) r (x.shape anonymous) r' ∧
        r.Gains anonymous r' (newcomers Item.id (Members.keys r.entries) x.built) ∧
        (r.WellLinked → r'.WellLinked ∧
          r'.links = r.links ++
            Registry.linksOf (newcomers Item.id (Members.keys r.entries) x.built) ∧
          ∀ y ∈ newcomers Item.id (Members.keys r.entries) x.built,
            Registry.link r.links y.id = none) := by
  have hfresh (y : Item) : y ∈ newcomers Item.id (Members.keys r.entries) x.built ↔
      named x.built y.id = some y ∧ y.id ∉ Members.keys r.entries := by
    rw [newcomers, List.mem_filter, mem_firsts_iff, decide_eq_true_iff]
  refine ⟨fun y ↦ mem_built_iff, fun y ht hk ↦ ?_, fun y ht hk ↦ ?_, fun y hy ↦ ?_,
    map_newcomers _ _ _, hfresh, r.recordAll anonymous x.built, x.buildsFaithfully hs r,
    r.gains_recordAll x.built, fun hr ↦ ⟨?_, Registry.links_recordAll hr x.built, fun y hy ↦ ?_⟩⟩
  · rw [built_eq, parts_of_object ht hk]
  · rw [built_eq, parts_of_union ht hk]
  · have hparts : y.parts = [] :=
      List.eq_nil_iff_forall_not_mem.mpr fun z hz ↦ hy z (goesOnTo_iff.mpr hz)
    rw [built_eq, hparts, List.flatMap_nil, List.nil_append]
  · exact (Registry.known_recordAll hr x.built "").1
  · exact hr y.id (Members.find?_eq_none_iff.mpr ((hfresh y).mp hy).2)

/-- An object with two fields of one name and one id, a union with a single option, and references,
of which one has the id of the object. -/
def Item.crowded : Item :=
  .mk (Item.new "whole" .object "whole").attributes
    (some [
      .new "twice" .string "name", .new "twice" .number "name",
      .mk (Item.new "choice" .union "choice").attributes none (some [.new "known" .string "only"]),
      .referring "link" "known", .referring "whole" "twice"])
    none

/-- A registry that knows an id. -/
def Registry.started : Registry Shape where
  entries := [("known", .anything)]

theorem Item.build_registers_crowded :
    ({} : BuilderSettings).anonymousModelName.Names "Object" ∧
      ∃ r', Yields (Item.crowded.build {}) Registry.started (Item.crowded.shape "Object") r' ∧
        Members.keys r'.entries = ["known", "twice", "choice", "link", "whole"] ∧
        Members.find? "known" r'.entries = some .anything ∧
        Members.find? "twice" r'.entries = some (.scalar .text) ∧
        Members.find? "whole" r'.entries = some (.reference "twice") ∧
        r'.links = [("link", "known"), ("whole", "twice")] := by
  have hs : ({} : BuilderSettings).anonymousModelName.Names "Object" := ⟨rfl, by decide⟩
  obtain ⟨-, -, -, -, -, -, r', hbuild, hgains, -⟩ :=
    Item.build_registers hs Item.crowded Registry.started
  refine ⟨hs, r', hbuild, ?_, ?_, ?_, ?_, ?_⟩
  · rw [hgains.entries]; rfl
  · rw [hgains.entries]; rfl
  · rw [hgains.entries]; rfl
  · rw [hgains.entries]; rfl
  · rw [hgains.links]; rfl

/-! ## Which item an id is registered for -/

namespace Item

variable {x y : Item} {id : String}

theorem mem_descendants_of_mem_children (h : y ∈ x.children) : y ∈ x.descendants := by
  rw [descendants_eq]
  exact List.mem_flatMap.mpr ⟨y, h, List.mem_cons_self⟩

theorem length_descendants_lt (h : y ∈ x.descendants) :
    y.descendants.length < x.descendants.length := by
  induction x using childrenInduction with
  | step x ih =>
    rw [descendants_eq] at h
    obtain ⟨z, hz, hyz⟩ := List.mem_flatMap.mp h
    have hsub : (z :: z.descendants).Sublist x.descendants := by
      rw [descendants_eq x, List.flatMap_def]
      exact List.sublist_flatten_of_mem (List.mem_map_of_mem hz)
    have hle := hsub.length_le
    rw [List.length_cons] at hle
    rcases List.mem_cons.mp hyz with rfl | hyz
    · exact hle
    · exact (ih z hz hyz).trans hle

/-- No item is below itself. -/
theorem notMem_descendants (x : Item) : x ∉ x.descendants :=
  fun h ↦ Nat.lt_irrefl _ (length_descendants_lt h)

theorem named_append (xs ys : List Item) (id : String) :
    named (xs ++ ys) id = (named xs id).or (named ys id) :=
  List.find?_append

theorem isSome_named_built (x : Item) : (named x.built x.id).isSome := by
  rw [Option.isSome_iff_ne_none, ne_eq, named_eq_none_iff]
  exact fun h ↦ h x x.self_mem_built rfl

theorem named_flatMap_built {xs : List Item}
    (h : ∀ x ∈ xs, named x.built id =
      (named (x :: x.descendants) id).bind fun y ↦ named y.built id) :
    named (xs.flatMap built) id =
      (named (xs.flatMap fun x ↦ x :: x.descendants) id).bind fun y ↦ named y.built id := by
  induction xs with
  | nil => rfl
  | cons x xs ih =>
    obtain ⟨hx, hxs⟩ := List.forall_mem_cons.mp h
    rw [List.flatMap_cons, List.flatMap_cons, named_append, named_append, hx, ih hxs]
    cases hy : named (x :: x.descendants) id with
    | none => rw [Option.bind_none, Option.none_or, Option.none_or]
    | some y =>
      obtain ⟨w, hw⟩ := Option.isSome_iff_exists.mp y.isSome_named_built
      rw [(mem_of_named hy).2] at hw
      rw [Option.bind_some, hw, Option.some_or, Option.some_or, Option.bind_some, hw]

/-- **The first built item with an id** is the first one built for the item that a search stops
at. -/
theorem named_built (h : ∀ y ∈ x :: x.descendants, y.InPlace) :
    named x.built id = (named (x :: x.descendants) id).bind fun y ↦ named y.built id := by
  induction x using childrenInduction with
  | step x ih =>
    rw [named_cons]
    by_cases hx : x.id = id
    · rw [if_pos hx, Option.bind_some]
    · have hlast : named [x] id = none := by rw [named_cons, if_neg hx]; rfl
      rw [if_neg hx, built_eq, (h x List.mem_cons_self).parts_eq_children, named_append, hlast,
        Option.or_none, descendants_eq]
      refine named_flatMap_built fun y hy ↦ ih y hy fun z hz ↦ h z ?_
      have hyx := mem_descendants_of_mem_children hy
      rcases List.mem_cons.mp hz with rfl | hz
      · exact List.mem_cons_of_mem x hyx
      · exact List.mem_cons_of_mem x (descendants_subset (List.mem_cons_of_mem x hyx) hz)

/-- An item is the first one with its id to be built for it exactly if none below it has that id. -/
theorem named_built_eq_self_iff (h : ∀ y ∈ x :: x.descendants, y.InPlace) :
    named x.built x.id = some x ↔ ∀ y ∈ x.descendants, y.id ≠ x.id := by
  have hbelow : (x.parts.flatMap built).Perm x.descendants := by
    have hbuilt := built_perm h
    rw [built_eq] at hbuilt
    exact ((List.perm_append_singleton x _).symm.trans hbuilt).cons_inv
  have hlast : named [x] x.id = some x := by rw [named_cons, if_pos rfl]
  rw [built_eq, named_append, hlast]
  cases hfirst : named (x.parts.flatMap built) x.id with
  | none =>
    have hnone := named_eq_none_iff.mp hfirst
    rw [Option.none_or]
    exact iff_of_true rfl fun y hy ↦ hnone y (hbelow.mem_iff.mpr hy)
  | some y =>
    obtain ⟨hmem, hid⟩ := mem_of_named hfirst
    have hy : y ∈ x.descendants := hbelow.mem_iff.mp hmem
    have hne : y ≠ x := fun heq ↦ x.notMem_descendants (heq ▸ hy)
    rw [Option.some_or, Option.some_inj]
    exact iff_of_false hne fun hnone ↦ hnone y hy hid

end Item

namespace Document

theorem named_built {d : Document} (h : ∀ x ∈ d.items, x.InPlace) (id : String) :
    named d.built id = (named d.items id).bind fun x ↦ named x.built id := by
  rw [built_eq, items_eq]
  refine Item.named_flatMap_built fun x hx ↦ Item.named_built fun y hy ↦ h y ?_
  rw [items_eq]
  exact List.mem_flatMap.mpr ⟨x, hx, hy⟩

end Document

/-- **What a registry has for an id**, ids repeated or not: the table finds what a search finds, and
the registry has the first item with the id that is built for the found one. That is the found item
itself exactly if none below it has its id. -/
theorem registered_within_found {settings : BuilderSettings} {root anonymous : String}
    (hs : settings.NameModels root anonymous) {d : Document}
    (hplace : ∀ x ∈ d.items, x.InPlace) :
    ∃ m, (d.build settings).value = .ok m ∧ ∀ id, id ≠ rootId →
      d.index.find? id = d.find? id ∧
      (d.find? id = none → Members.find? id m.registry.entries = none) ∧
      ∀ x, d.find? id = some x →
        ∃ y, named x.built id = some y ∧
          Members.find? id m.registry.entries = some (y.shape anonymous) ∧
          (y.target? = none → (m.registry.lookup id).value = some (y.shape anonymous)) ∧
          (y = x ↔ ∀ z ∈ x.descendants, z.id ≠ id) := by
  refine ⟨d.model root anonymous, d.build_value hs, fun id hid ↦ ?_⟩
  refine ⟨?_, fun hnone ↦ ?_, fun x hx ↦ ?_⟩
  · rw [d.find?_of_ne hid, d.find?_index]
  · rw [d.find?_of_ne hid] at hnone
    rw [Document.model, Document.entry_registry, Document.named_built hplace, hnone]
    rfl
  · rw [d.find?_of_ne hid] at hx
    obtain ⟨hmem, rfl⟩ := mem_of_named hx
    have hbelow : ∀ y ∈ x :: x.descendants, y.InPlace := fun y hy ↦
      hplace y ((List.mem_cons.mp hy).elim (· ▸ hmem) fun hy ↦ d.descendants_subset_items hmem hy)
    obtain ⟨y, hy⟩ := Option.isSome_iff_exists.mp x.isSome_named_built
    have hbuilt : named d.built x.id = some y := by
      rw [Document.named_built hplace, hx, Option.bind_some, hy]
    have hentry : Members.find? x.id (d.registry anonymous).entries = some (y.shape anonymous) := by
      rw [Document.entry_registry, hbuilt, Option.map_some]
    refine ⟨y, hy, hentry, fun ht ↦ ?_, ?_⟩
    · -- no link leads away from the id
      have htarget : (d.registry anonymous).target? x.id = some x.id := by
        rw [Document.target?_registry_eq_some_iff, StateTransition.mem_eval]
        exact ⟨ReflTransGen.refl, (linkOf_of_named hbuilt).trans ht⟩
      rw [Document.model, Registry.lookup, htarget]
      exact hentry
    · rw [← Item.named_built_eq_self_iff hbelow, hy, Option.some_inj]

/-- An object with two fields of one id, and an object with the id of its only field. Each of the
ids is referred to. -/
def Document.doubled : Document where
  fields := [
    .mk (Item.new "pair" .object "pair").attributes
      (some [.new "twin" .string "left", .new "twin" .number "right"]) none,
    .mk (Item.new "nest" .object "outer").attributes (some [.new "nest" .string "inner"]) none,
    .referring "to a twin" "twin", .referring "to a nest" "nest"]

theorem registered_within_found_doubled :
    BuilderSettings.NameModels {} "Schema" "Object" ∧ (∀ x ∈ Document.doubled.items, x.InPlace) ∧
      ∃ m, (Document.doubled.build {}).value = .ok m ∧
        Document.doubled.find? "twin" = some (.new "twin" .string "left") ∧
        (m.registry.lookup "twin").value = some (.scalar .text) := by
  have hplace : ∀ x ∈ Document.doubled.items, x.InPlace := by decide
  refine ⟨BuilderSettings.nameModels_default, hplace, ?_⟩
  obtain ⟨m, hm, hids⟩ := registered_within_found BuilderSettings.nameModels_default hplace
  obtain ⟨-, -, hfound⟩ := hids "twin" (by decide)
  obtain ⟨y, hy, -, hlookup, -⟩ := hfound (.new "twin" .string "left") rfl
  obtain rfl : Item.new "twin" .string "left" = y := Option.some_inj.mp hy
  exact ⟨m, hm, rfl, hlookup rfl⟩

/-- **A search and a registry need not mean the same item** by an id: of an object and its field
with the id of the object, one finds the object and the other the field. -/
theorem exists_divided_id :
    ∃ d : Document, (∀ x ∈ d.items, x.InPlace) ∧
      ∃ m, (d.build {}).value = .ok m ∧
        ∃ x, d.find? "nest" = some x ∧ d.index.find? "nest" = some x ∧
          Members.find? "nest" m.registry.entries ≠ some (x.shape "Object") := by
  refine ⟨.doubled, by decide, _, Document.build_value BuilderSettings.nameModels_default _, _, rfl,
    rfl, ?_⟩
  have hentry : Members.find? "nest" (Document.doubled.registry "Object").entries =
      some (.scalar .text) := by
    rw [Document.entry_registry]
    rfl
  rw [Document.model, hentry]
  intro h
  cases h

end SchemaTree
