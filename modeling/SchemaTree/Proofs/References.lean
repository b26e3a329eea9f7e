import SchemaTree.Proofs.FirstItems
import SchemaTree.Tree.Edit
import SchemaTree.Tree.Reference

/-!
# Where references lead

`LeadsTo items id x` says that the chain of references from `id` ends at the item `x`, and
`Astray items id` that it reaches an id that no item has or runs into a cycle. Where no id is
repeated exactly one of the two is the case (`astray_iff`), and there is at most one such item.

Two walkers follow chains: the registry of a built document by its links, and the table of items by
the references in the items. The registry leads to what was built for the end of a chain
(`Document.lookup_value_eq_some_iff`), and the table to the item at its end
(`Document.resolve_eq_some_iff`); over a tree whose items are all in place the two agree.
-/

namespace SchemaTree

open Relation StateTransition Json

/-! ## Chains of references -/

section Chains

variable {items : List Item} {id a b : String} {x y : Item}

/-- An item with the id `a` refers to `b`. -/
def LinksTo (items : List Item) (a b : String) : Prop :=
  ∃ x ∈ items, x.id = a ∧ x.target? = some b

/-- The chain of references from an id ends at an item. -/
def LeadsTo (items : List Item) (id : String) (x : Item) : Prop :=
  ReflTransGen (LinksTo items) id x.id ∧ x ∈ items ∧ x.target? = none

/-- The chain of references from an id reaches an id that no item has, or runs into a cycle. -/
def Astray (items : List Item) (id : String) : Prop :=
  ∃ t, ReflTransGen (LinksTo items) id t ∧
    ((∀ x ∈ items, x.id ≠ t) ∨ TransGen (LinksTo items) t t)

theorem leadsTo_self (hx : x ∈ items) (ht : x.target? = none) : LeadsTo items x.id x :=
  ⟨ReflTransGen.refl, hx, ht⟩

theorem LeadsTo.head (hab : LinksTo items a b) (h : LeadsTo items b x) : LeadsTo items a x :=
  ⟨h.1.head hab, h.2⟩

theorem Astray.head (hab : LinksTo items a b) (h : Astray items b) : Astray items a := by
  obtain ⟨t, hbt, ht⟩ := h
  exact ⟨t, hbt.head hab, ht⟩

theorem mem_ids_of_linksTo (h : LinksTo items a b) : a ∈ items.map Item.id := by
  obtain ⟨x, hx, rfl, -⟩ := h
  exact List.mem_map_of_mem hx

/-- The order of the items and repetitions have no bearing on chains. -/
theorem linksTo_congr {items' : List Item} (h : ∀ x, x ∈ items ↔ x ∈ items') :
    LinksTo items = LinksTo items' := by
  funext a b
  simp only [LinksTo, h]

theorem leadsTo_congr {items' : List Item} (h : ∀ x, x ∈ items ↔ x ∈ items') :
    LeadsTo items = LeadsTo items' := by
  funext id x
  simp only [LeadsTo, linksTo_congr h, h]

/-! ### Chains as walks -/

/-- The id that the first item with an id refers to. -/
def linkOf (items : List Item) (id : String) : Option String := (named items id).bind Item.target?

theorem linkOf_of_named (h : named items id = some x) : linkOf items id = x.target? := by
  rw [linkOf, h, Option.bind_some]

theorem mem_ids_of_linkOf (h : b ∈ linkOf items a) : a ∈ items.map Item.id := by
  obtain ⟨x, hx, -⟩ := Option.bind_eq_some_iff.mp h
  obtain ⟨hmem, rfl⟩ := mem_of_named hx
  exact List.mem_map_of_mem hmem

variable (hids : (items.map Item.id).Nodup)
include hids

theorem linksTo_eq : LinksTo items = fun a b ↦ b ∈ linkOf items a := by
  funext a b
  rw [linkOf, Option.mem_def, Option.bind_eq_some_iff, eq_iff_iff]
  simp only [LinksTo, named_eq_some_iff hids, and_assoc]

theorem leadsTo_iff :
    LeadsTo items id x ↔ x.id ∈ eval (linkOf items) id ∧ x ∈ items := by
  rw [LeadsTo, mem_eval, linksTo_eq hids, Reaches]
  constructor
  · rintro ⟨hr, hx, ht⟩
    have hnamed := (named_eq_some_iff hids).mpr ⟨hx, rfl⟩
    exact ⟨⟨hr, (linkOf_of_named hnamed).trans ht⟩, hx⟩
  · rintro ⟨⟨hr, ht⟩, hx⟩
    have hnamed := (named_eq_some_iff hids).mpr ⟨hx, rfl⟩
    exact ⟨hr, hx, (linkOf_of_named hnamed).symm.trans ht⟩

/-- A chain ends at one item at most. -/
theorem LeadsTo.unique (hx : LeadsTo items id x) (hy : LeadsTo items id y) : x = y := by
  obtain ⟨hxe, hxm⟩ := (leadsTo_iff hids).mp hx
  obtain ⟨hye, hym⟩ := (leadsTo_iff hids).mp hy
  have hid : x.id = y.id := Part.mem_unique hxe hye
  exact List.inj_on_of_nodup_map hids hxm hym hid

/-- A chain goes where its next link goes. -/
theorem leadsTo_iff_of_linksTo (hab : LinksTo items a b) :
    LeadsTo items a x ↔ LeadsTo items b x := by
  refine ⟨fun h ↦ ?_, LeadsTo.head hab⟩
  rw [linksTo_eq hids] at hab
  rw [leadsTo_iff hids, reaches_eval (ReflTransGen.single hab)] at h
  exact (leadsTo_iff hids).mpr h

/-- **A chain goes astray exactly if it leads to no item.** -/
theorem astray_iff : Astray items id ↔ ¬ ∃ x, LeadsTo items id x := by
  rw [Astray, linksTo_eq hids]
  constructor
  · rintro ⟨t, hr, ht⟩ ⟨x, hx⟩
    obtain ⟨hxe, hxm⟩ := (leadsTo_iff hids).mp hx
    rcases ht with ht | ht
    · -- an id that no item has is an end, so it would be the id of `x`
      have hend : linkOf items t = none := by
        rw [linkOf, named_eq_none_iff.mpr ht, Option.bind_none]
      exact ht x hxm (Part.mem_unique hxe (mem_eval.mpr ⟨hr, hend⟩))
    · exact not_entersCycle_of_mem_eval hxe ⟨t, hr, ht⟩
  · intro hnone
    rcases exists_mem_eval_or_entersCycle (fun _ _ ↦ mem_ids_of_linkOf) id with ⟨t, ht⟩ | ⟨t, ht⟩
    · refine ⟨t, (mem_eval.mp ht).1, Or.inl fun x hx hxt ↦ hnone ⟨x, ?_⟩⟩
      exact (leadsTo_iff hids).mpr ⟨hxt ▸ ht, hx⟩
    · exact ⟨t, ht.1, Or.inr ht.2⟩

end Chains

/-! ## The walk of a registry -/

namespace Document

variable {d : Document} {anonymous id : String}

theorem link_registry_eq : Registry.link (d.registry anonymous).links = linkOf d.built :=
  funext fun _ ↦ d.link_registry _

/-- The registry of a document finds the id at the end of a chain of built items. -/
theorem target?_registry_eq_some_iff {t : String} :
    (d.registry anonymous).target? id = some t ↔ t ∈ eval (linkOf d.built) id := by
  rw [Registry.target?_eq_some_iff, link_registry_eq]

/-- **What the registry of a document leads to**: what was built for the item at the end. -/
theorem lookup_value_eq_some_iff (hids : (d.built.map Item.id).Nodup) {shape : Shape} :
    ((d.registry anonymous).lookup id).value = some shape ↔
      ∃ x, LeadsTo d.built id x ∧ x.shape anonymous = shape := by
  simp only [leadsTo_iff hids]
  rw [Registry.lookup]
  cases ht : (d.registry anonymous).target? id with
  | none =>
    constructor
    · intro h
      cases h
    · rintro ⟨x, ⟨hxe, -⟩, -⟩
      rw [target?_registry_eq_some_iff.mpr hxe] at ht
      cases ht
  | some t =>
    have hte := target?_registry_eq_some_iff.mp ht
    rw [Logged.value_pure, entry_registry, Option.map_eq_some_iff]
    constructor
    · rintro ⟨x, hx, hshape⟩
      obtain ⟨hmem, rfl⟩ := mem_of_named hx
      exact ⟨x, ⟨hte, hmem⟩, hshape⟩
    · rintro ⟨x, ⟨hxe, hmem⟩, hshape⟩
      have hid : x.id = t := Part.mem_unique hxe hte
      exact ⟨x, (named_eq_some_iff hids).mpr ⟨hmem, hid⟩, hshape⟩

/-- A reference that leads to no built item is looked up in vain. -/
theorem lookup_value_eq_none_iff (hids : (d.built.map Item.id).Nodup) :
    ((d.registry anonymous).lookup id).value = none ↔ ¬ ∃ x, LeadsTo d.built id x := by
  rw [Option.eq_none_iff_forall_ne_some]
  constructor
  · rintro h ⟨x, hx⟩
    exact h _ ((lookup_value_eq_some_iff hids).mpr ⟨x, hx, rfl⟩)
  · intro h shape hshape
    obtain ⟨x, hx, -⟩ := (lookup_value_eq_some_iff hids).mp hshape
    exact h ⟨x, hx⟩

end Document

/-! ## The walk of a table -/

namespace Document

variable {d : Document}

theorem length_index (hids : (d.items.map Item.id).Nodup) : d.index.length = d.items.length := by
  rw [index, ItemTable.foldl_add_nil, firsts_of_nodup hids, List.length_map]

theorem find?_index (d : Document) (id : String) : d.index.find? id = named d.items id :=
  ItemTable.find?_foldl_add d.items id

end Document

section Table

variable {items : List Item} {table : ItemTable} (htable : ∀ id, table.find? id = named items id)
  {bound : Nat} {seen : List String} {id : String} {x : Item}
include htable

/-- A walk over a table finds nothing at an id that no item has. -/
theorem follow_of_named_eq_none (hx : named items id = none) :
    table.follow bound seen id = none := by
  rw [ItemTable.follow, htable, hx]

/-- A walk over a table stops at an item without a reference. -/
theorem follow_of_target_eq_none (hx : named items id = some x) (ht : x.target? = none) :
    table.follow bound seen id = some x := by
  rw [Item.target?] at ht
  rw [ItemTable.follow, htable, hx]
  dsimp only
  rw [ht]

theorem follow_zero_of_target {next : String} (hx : named items id = some x)
    (ht : x.target? = some next) : table.follow 0 seen id = none := by
  rw [Item.target?] at ht
  rw [ItemTable.follow, htable, hx]
  dsimp only
  rw [ht]

/-- A walk over a table goes on to the id that an item refers to, unless the item was met before. -/
theorem follow_succ_of_target {next : String} (hx : named items id = some x)
    (ht : x.target? = some next) :
    table.follow (bound + 1) seen id =
      if id ∈ seen then none else table.follow bound (id :: seen) next := by
  obtain rfl : x.id = id := (mem_of_named hx).2
  rw [Item.target?] at ht
  rw [ItemTable.follow, htable, hx]
  dsimp only
  rw [ht]

/-- A walk over a table comes to its end by finding an item without a reference, or by going on to
the id that the item refers to. -/
theorem follow_eq_some_cases (h : table.follow bound seen id = some x) :
    x ∈ items ∧ x.id = id ∧ x.target? = none ∨
      ∃ next k, LinksTo items id next ∧ bound = k + 1 ∧
        table.follow k (id :: seen) next = some x := by
  cases hy : named items id with
  | none =>
    rw [follow_of_named_eq_none htable hy] at h
    cases h
  | some y =>
    obtain ⟨hmem, hid⟩ := mem_of_named hy
    cases ht : y.target? with
    | none =>
      rw [follow_of_target_eq_none htable hy ht, Option.some_inj] at h
      exact .inl (h ▸ ⟨hmem, hid, ht⟩)
    | some next =>
      cases bound with
      | zero =>
        rw [follow_zero_of_target htable hy ht] at h
        cases h
      | succ k =>
        rw [follow_succ_of_target htable hy ht] at h
        split at h
        · cases h
        · exact .inr ⟨next, k, ⟨y, hmem, hid, ht⟩, rfl, h⟩

/-- A walk over a table that does not come to an end has found no item, met an id again, used up its
bound or goes on. -/
theorem follow_eq_none_cases (h : table.follow bound seen id = none) :
    (∀ y ∈ items, y.id ≠ id) ∨ ∃ next, LinksTo items id next ∧
      (id ∈ seen ∨ bound = 0 ∨
        ∃ k, bound = k + 1 ∧ id ∉ seen ∧ table.follow k (id :: seen) next = none) := by
  cases hy : named items id with
  | none => exact .inl (named_eq_none_iff.mp hy)
  | some y =>
    obtain ⟨hmem, hid⟩ := mem_of_named hy
    cases ht : y.target? with
    | none =>
      rw [follow_of_target_eq_none htable hy ht] at h
      cases h
    | some next =>
      refine .inr ⟨next, ⟨y, hmem, hid, ht⟩, ?_⟩
      cases bound with
      | zero => exact .inr (.inl rfl)
      | succ k =>
        rw [follow_succ_of_target htable hy ht] at h
        split at h
        · rename_i hseen
          exact .inl hseen
        · rename_i hseen
          exact .inr (.inr ⟨k, rfl, hseen, h⟩)

/-- A walk over a table only stops at the end of a chain. -/
theorem leadsTo_of_follow (h : table.follow bound seen id = some x) : LeadsTo items id x := by
  induction bound using Nat.strongRecOn generalizing seen id with
  | ind bound ih =>
    rcases follow_eq_some_cases htable h with ⟨hx, rfl, ht⟩ | ⟨next, k, hlink, rfl, hfollow⟩
    · exact leadsTo_self hx ht
    · exact LeadsTo.head hlink (ih k k.lt_succ_self hfollow)

/-- A walk over a table that does not end has gone astray. The ids it has seen are its trail. -/
theorem astray_of_follow (htrail : Trail (LinksTo items) (items.map Item.id) seen id)
    (hbound : items.length < bound + seen.length) (h : table.follow bound seen id = none) :
    Astray items id := by
  induction bound using Nat.strongRecOn generalizing seen id with
  | ind bound ih =>
    rcases follow_eq_none_cases htable h with
      hnone | ⟨next, hlink, hseen | rfl | ⟨k, rfl, hseen, hfollow⟩⟩
    · exact ⟨id, ReflTransGen.refl, .inl hnone⟩
    · exact ⟨id, ReflTransGen.refl, .inr (htrail.cycle hseen)⟩
    · -- the bound is only used up by a trail longer than the list of ids
      have hle := htrail.length_le
      rw [List.length_map] at hle
      omega
    · have htrail' := htrail.cons (mem_ids_of_linksTo hlink) hseen (TransGen.single hlink)
      refine Astray.head hlink (ih k k.lt_succ_self htrail' ?_ hfollow)
      rw [List.length_cons]
      omega

/-- **A walk over a table finds the item at the end of the chain.** -/
theorem follow_eq_some_iff (hids : (items.map Item.id).Nodup)
    (htrail : Trail (LinksTo items) (items.map Item.id) seen id)
    (hbound : items.length < bound + seen.length) :
    table.follow bound seen id = some x ↔ LeadsTo items id x := by
  refine ⟨leadsTo_of_follow htable, fun h ↦ ?_⟩
  -- the walk stops, since one that does not has gone astray
  cases hf : table.follow bound seen id with
  | none =>
    have hastray := astray_of_follow htable htrail hbound hf
    exact absurd ⟨x, h⟩ ((astray_iff hids).mp hastray)
  | some y => rw [LeadsTo.unique hids h (leadsTo_of_follow htable hf)]

end Table

namespace Document

variable {d : Document} {n x : Item} {ref : String}

theorem resolve_eq (href : n.target? = some ref) :
    d.index.resolve n.attributes = d.index.follow (d.index.length + 1) [n.id] ref := by
  rw [Item.target?] at href
  rw [ItemTable.resolve, href]
  rfl

/-- **What the table of a document leads to**: the item at the end of the chain. -/
theorem resolve_eq_some_iff (hids : (d.items.map Item.id).Nodup) (hn : n ∈ d.items)
    (href : n.target? = some ref) :
    d.index.resolve n.attributes = some x ↔ LeadsTo d.items n.id x := by
  have hlink : LinksTo d.items n.id ref := ⟨n, hn, rfl, href⟩
  have htrail : Trail (LinksTo d.items) (d.items.map Item.id) [n.id] ref :=
    (Trail.nil n.id).cons (List.mem_map_of_mem hn) (by simp) (TransGen.single hlink)
  have hbound : d.items.length < d.index.length + 1 + [n.id].length := by
    rw [length_index hids, List.length_singleton]
    omega
  rw [resolve_eq href, leadsTo_iff_of_linksTo hids hlink]
  exact follow_eq_some_iff d.find?_index hids htrail hbound

end Document

/-! ## Agreement of the two walks -/

/-- In a tree whose items are all in place, chains of built items are chains of all items. -/
theorem Document.leadsTo_built {d : Document} (hplace : ∀ x ∈ d.items, x.InPlace) :
    LeadsTo d.built = LeadsTo d.items :=
  leadsTo_congr fun _ ↦ (built_perm_items hplace).mem_iff

/-- **A registry and a table mean the same by a reference.** Where no id is repeated and all items
are in place, the registry of a built document leads an item `n` with a reference to an id it has an
entry for exactly if the table of items leads `n` to an item, and then the id is that of the item,
which has no reference itself. Both lead nowhere exactly if the chain from `n` goes astray. -/
theorem registry_agrees_with_table {d : Document} {settings : BuilderSettings}
    {root anonymous : String} (hs : settings.NameModels root anonymous)
    (hids : (d.items.map Item.id).Nodup) (hplace : ∀ x ∈ d.items, x.InPlace) {n : Item}
    {ref : String} (hn : n ∈ d.items) (href : n.target? = some ref) :
    ∃ m, (d.build settings).value = .ok m ∧
      (∀ id, m.registry.target? ref = some id ∧ id ∈ Members.keys m.registry.entries ↔
        ∃ x, d.index.resolve n.attributes = some x ∧ x.id = id) ∧
      (∀ x, d.index.resolve n.attributes = some x → x ∈ d.items ∧ x.target? = none) ∧
      (Astray d.items n.id ↔
        ¬ ∃ id, m.registry.target? ref = some id ∧ id ∈ Members.keys m.registry.entries) ∧
      (Astray d.items n.id ↔ d.index.resolve n.attributes = none) := by
  have hlink : LinksTo d.items n.id ref := ⟨n, hn, rfl, href⟩
  have hbuilt : (d.built.map Item.id).Nodup :=
    ((Document.built_perm_items hplace).map Item.id).nodup_iff.mpr hids
  have hresolve (x : Item) : d.index.resolve n.attributes = some x ↔ LeadsTo d.items n.id x :=
    Document.resolve_eq_some_iff hids hn href
  -- the registry has an entry for exactly those ends of chains that are items
  have htarget (id : String) : (d.registry anonymous).target? ref = some id ∧
      id ∈ Members.keys (d.registry anonymous).entries ↔
        ∃ x, LeadsTo d.items n.id x ∧ x.id = id := by
    simp only [leadsTo_iff_of_linksTo hids hlink, ← Document.leadsTo_built hplace,
      leadsTo_iff hbuilt]
    rw [Document.target?_registry_eq_some_iff, ← Members.isSome_find?_iff, Document.entry_registry,
      Option.isSome_map, Option.isSome_iff_exists]
    constructor
    · rintro ⟨ht, x, hx⟩
      obtain ⟨hmem, rfl⟩ := mem_of_named hx
      exact ⟨x, ⟨ht, hmem⟩, rfl⟩
    · rintro ⟨x, ⟨ht, hmem⟩, rfl⟩
      exact ⟨ht, x, (named_eq_some_iff hbuilt).mpr ⟨hmem, rfl⟩⟩
  refine ⟨d.model root anonymous, Document.build_value hs d, ?_, ?_, ?_, ?_⟩
  · intro id
    simp only [hresolve]
    exact htarget id
  · intro x hx
    exact ((hresolve x).mp hx).2
  · rw [astray_iff hids]
    refine not_congr ⟨?_, ?_⟩
    · rintro ⟨x, hx⟩
      exact ⟨x.id, (htarget x.id).mpr ⟨x, hx, rfl⟩⟩
    · rintro ⟨id, hid⟩
      obtain ⟨x, hx, -⟩ := (htarget id).mp hid
      exact ⟨x, hx⟩
  · rw [astray_iff hids, Option.eq_none_iff_forall_ne_some]
    simp only [ne_eq, hresolve, not_exists]

/-- An item that refers to another one. -/
def Item.referring (id target : String) : Item :=
  .mk { (Item.new id .string id).attributes with reference := some target } none none

/-- A reference to a reference to an object, which holds a reference to itself; a cycle of
references that is entered from outside; and a reference to nothing. -/
def Document.tangled : Document where
  fields := [
    .referring "first" "second", .referring "second" "list",
    .mk (Item.new "list" .object "list").attributes (some [.referring "rest" "list"]) none,
    .referring "outside" "left", .referring "left" "right", .referring "right" "left",
    .referring "dangling" "nothing"]

theorem registry_agrees_with_table_tangled :
    (Document.tangled.items.map Item.id).Nodup ∧ (∀ x ∈ Document.tangled.items, x.InPlace) ∧
      (Item.referring "first" "second" ∈ Document.tangled.items ∧
        ∃ m, (Document.tangled.build {}).value = .ok m ∧
          m.registry.target? "second" = some "list" ∧
          "list" ∈ Members.keys m.registry.entries) ∧
      Item.referring "outside" "left" ∈ Document.tangled.items ∧
        ∃ m, (Document.tangled.build {}).value = .ok m ∧
          ¬ ∃ id, m.registry.target? "left" = some id ∧
            id ∈ Members.keys m.registry.entries := by
  have hids : (Document.tangled.items.map Item.id).Nodup := by decide
  have hplace : ∀ x ∈ Document.tangled.items, x.InPlace := by decide
  have hfirst : Item.referring "first" "second" ∈ Document.tangled.items := by
    simp [Document.items, Document.tangled, Item.descendantsList]
  have houtside : Item.referring "outside" "left" ∈ Document.tangled.items := by
    simp [Document.items, Document.tangled, Item.descendantsList]
  refine ⟨hids, hplace, ⟨hfirst, ?_⟩, houtside, ?_⟩
  · have href : (Item.referring "first" "second").target? = some "second" := rfl
    obtain ⟨m, hm, htarget, -⟩ := registry_agrees_with_table
      BuilderSettings.nameModels_default hids hplace hfirst href
    exact ⟨m, hm, (htarget "list").mpr ⟨_, rfl, rfl⟩⟩
  · have href : (Item.referring "outside" "left").target? = some "left" := rfl
    obtain ⟨m, hm, -, -, hregistry, htable⟩ := registry_agrees_with_table
      BuilderSettings.nameModels_default hids hplace houtside href
    exact ⟨m, hm, hregistry.mp (htable.mpr rfl)⟩

end SchemaTree
