import SchemaTree.Proofs.References

/-!
# Searches along chains

A chain of references is followed in turns: leave the point where the search stands along its link,
unless there is no link or the point was left before. Nothing bounds such a search (`turn`,
`search`), and the walks of `Registry.target?` and `ItemTable.resolve`, which are bounded, come to
what it comes to.

That a search ends is a matter of counting: every turn lengthens the trail behind it by one of
finitely many points. What it comes to is exact because of the same trail: a point that is met again
leads to itself, so the chain goes round in a circle, also if it was entered from outside.
-/

namespace SchemaTree

open Relation StateTransition Json

/-! ## Turns -/

section Turns

variable {α : Type _} [DecidableEq α] {next : α → Option α} {R : α → α → Prop}
  {points seen : List α} {a b : α}

/-- One turn of a search that stands at a point and has left others: the point is left along its
link unless it was left before. -/
def turn (next : α → Option α) : List α × α → Option (List α × α)
  | (seen, a) => (next a).bind fun b ↦ if a ∈ seen then none else some (a :: seen, b)

/-- What a search has found where it stops: a point without a link. -/
def found? (next : α → Option α) (s : List α × α) : Option α :=
  if next s.2 = none then some s.2 else none

/-- What a search finds that starts at a point and has left others, if it ends. -/
noncomputable def search (next : α → Option α) (seen : List α) (a : α) : Part (Option α) :=
  (eval (turn next) (seen, a)).map (found? next)

theorem turn_eq_some_iff {s : List α × α} :
    turn next (seen, a) = some s ↔ a ∉ seen ∧ ∃ b ∈ next a, s = (a :: seen, b) := by
  rw [turn, Option.bind_eq_some_iff]
  constructor
  · rintro ⟨b, hab, hs⟩
    split at hs
    · cases hs
    · next hseen => exact ⟨hseen, b, hab, (Option.some_inj.mp hs).symm⟩
  · rintro ⟨hseen, b, hab, rfl⟩
    exact ⟨b, hab, if_neg hseen⟩

theorem turn_eq_none_iff : turn next (seen, a) = none ↔ next a = none ∨ a ∈ seen := by
  rw [Option.eq_none_iff_forall_ne_some]
  simp only [ne_eq, turn_eq_some_iff]
  cases hnext : next a with
  | none => simp
  | some b => simp

/-- **A turn** goes along a link and lengthens the trail by the point that it leaves. -/
theorem Trail.turn (hpoints : ∀ a b, b ∈ next a → a ∈ points) (hR : ∀ a b, b ∈ next a → R a b)
    (htrail : Trail R points seen a) {s : List α × α}
    (h : SchemaTree.turn next (seen, a) = some s) :
    Trail R points s.1 s.2 ∧ s.2 ∈ next a ∧ s.1.length = seen.length + 1 := by
  obtain ⟨hseen, b, hab, rfl⟩ := turn_eq_some_iff.mp h
  have hlink : TransGen R a b := .single (hR a b hab)
  exact ⟨htrail.cons (hpoints a b hab) hseen hlink, hab, rfl⟩

/-- **A run of turns** goes along the chain, and all that it has left is its trail. -/
theorem Trail.turns (hpoints : ∀ a b, b ∈ next a → a ∈ points) (hR : ∀ a b, b ∈ next a → R a b)
    (htrail : Trail R points seen a) {s : List α × α}
    (h : Reaches (SchemaTree.turn next) (seen, a) s) :
    Trail R points s.1 s.2 ∧ Reaches next a s.2 := by
  induction h with
  | refl => exact ⟨htrail, ReflTransGen.refl⟩
  | tail _ hturn ih =>
    obtain ⟨hbefore, hreach⟩ := ih
    obtain ⟨hafter, hlink, -⟩ := hbefore.turn hpoints hR hturn
    exact ⟨hafter, hreach.tail hlink⟩

/-- **Every search ends.** A trail is never longer than the list of points. -/
theorem exists_mem_eval_turn (hpoints : ∀ a b, b ∈ next a → a ∈ points)
    (hR : ∀ a b, b ∈ next a → R a b) (htrail : Trail R points seen a) :
    ∃ s, s ∈ eval (turn next) (seen, a) := by
  induction hn : points.length - seen.length generalizing seen a with
  | zero =>
    refine ⟨(seen, a), mem_eval.mpr ⟨ReflTransGen.refl, turn_eq_none_iff.mpr ?_⟩⟩
    by_contra hgoes
    obtain ⟨hlink, hseen⟩ := not_or.mp hgoes
    obtain ⟨b, hab⟩ := Option.ne_none_iff_exists'.mp hlink
    have hlt := htrail.length_lt (hpoints a b hab) hseen
    omega
  | succ n ih =>
    cases hturn : turn next (seen, a) with
    | none => exact ⟨(seen, a), mem_eval.mpr ⟨ReflTransGen.refl, hturn⟩⟩
    | some s =>
      obtain ⟨htrail', -, hlength⟩ := htrail.turn hpoints hR hturn
      obtain ⟨t, ht⟩ := ih htrail' (by omega)
      rw [reaches_eval (ReflTransGen.single hturn)]
      exact ⟨t, ht⟩

/-- A search that ends at a point without a link has found the end of the chain, and any other has
met a point again. -/
theorem found?_cases (hpoints : ∀ a b, b ∈ next a → a ∈ points) {s : List α × α}
    (h : s ∈ eval (turn next) ([], a)) :
    (∃ t ∈ eval next a, found? next s = some t) ∨ EntersCycle next a ∧ found? next s = none := by
  obtain ⟨hturns, hstop⟩ := mem_eval.mp h
  obtain ⟨htrail, hreach⟩ := (Trail.nil a).turns hpoints (fun _ _ ↦ id) hturns
  rw [found?]
  by_cases hend : next s.2 = none
  · exact .inl ⟨s.2, mem_eval.mpr ⟨hreach, hend⟩, if_pos hend⟩
  · have hseen : s.2 ∈ s.1 := (turn_eq_none_iff.mp hstop).resolve_left hend
    exact .inr ⟨⟨s.2, hreach, htrail.cycle hseen⟩, if_neg hend⟩

end Turns

/-! ## Points of a chain -/

section Points

variable {α : Type _} {next : α → Option α} {a b t : α} {k : Nat}

/-- The point of a chain after a number of links. -/
def pointAt (next : α → Option α) (a : α) : Nat → Option α
  | 0 => some a
  | k + 1 => (pointAt next a k).bind next

theorem reaches_iff_pointAt : Reaches next a b ↔ ∃ k, pointAt next a k = some b := by
  constructor
  · intro h
    induction h with
    | refl => exact ⟨0, rfl⟩
    | tail _ hlink ih =>
      obtain ⟨k, hk⟩ := ih
      exact ⟨k + 1, by rw [pointAt, hk]; exact hlink⟩
  · rintro ⟨k, hk⟩
    induction k generalizing b with
    | zero => exact Option.some_inj.mp hk ▸ ReflTransGen.refl
    | succ k ih =>
      obtain ⟨c, hc, hlink⟩ := Option.bind_eq_some_iff.mp hk
      exact (ih hc).tail hlink

/-- Before a point of a chain there are only points with links. -/
theorem exists_link_of_lt (h : pointAt next a k = some b) {j : Nat} (hj : j < k) :
    ∃ c, pointAt next a j = some c ∧ next c ≠ none := by
  induction k generalizing b with
  | zero => exact absurd hj (Nat.not_lt_zero j)
  | succ k ih =>
    obtain ⟨c, hc, hlink⟩ := Option.bind_eq_some_iff.mp h
    rcases Nat.lt_succ_iff_lt_or_eq.mp hj with hj | rfl
    · exact ih hc hj
    · exact ⟨c, hc, by rw [hlink]; exact Option.some_ne_none b⟩

/-- The end of a chain is its first point without a link. -/
theorem mem_eval_iff_pointAt :
    t ∈ eval next a ↔ next t = none ∧ ∃ k, pointAt next a k = some t ∧
      ∀ j < k, ∃ c, pointAt next a j = some c ∧ next c ≠ none := by
  rw [mem_eval, reaches_iff_pointAt, and_comm]
  refine and_congr_right fun _ ↦ exists_congr fun k ↦ ?_
  exact ⟨fun hk ↦ ⟨hk, fun j hj ↦ exists_link_of_lt hk hj⟩, And.left⟩

/-- A chain has no end exactly if it only has points with links. -/
theorem not_exists_mem_eval_iff_pointAt :
    (¬ ∃ t, t ∈ eval next a) ↔ ∀ k, ∃ c, pointAt next a k = some c ∧ next c ≠ none := by
  constructor
  · intro hnone k
    have hlink {k : Nat} {c : α} (hc : pointAt next a k = some c) : next c ≠ none := by
      intro hend
      exact hnone ⟨c, mem_eval.mpr ⟨reaches_iff_pointAt.mpr ⟨k, hc⟩, hend⟩⟩
    induction k with
    | zero => exact ⟨a, rfl, hlink (k := 0) rfl⟩
    | succ k ih =>
      obtain ⟨c, hc, hgoes⟩ := ih
      obtain ⟨b, hb⟩ := Option.ne_none_iff_exists'.mp hgoes
      have hpoint : pointAt next a (k + 1) = some b := by rw [pointAt, hc, Option.bind_some, hb]
      exact ⟨b, hpoint, hlink hpoint⟩
  · rintro hall ⟨t, ht⟩
    obtain ⟨hend, k, hk, -⟩ := mem_eval_iff_pointAt.mp ht
    obtain ⟨c, hc, hgoes⟩ := hall k
    obtain rfl := Option.some_inj.mp (hk.symm.trans hc)
    exact hgoes hend

end Points

/-! ## The search of a registry -/

namespace Registry

variable {α : Type} {r : Registry α} {links : List (String × String)} {id : String}

/-- A registry finds what a search finds that nothing bounds. -/
theorem search_link_eq (r : Registry α) (id : String) :
    search (link r.links) [] id = Part.some (r.target? id) := by
  have hpoints : ∀ a b, b ∈ link r.links a → a ∈ Members.keys r.links := fun _ _ ↦ mem_keys_of_link
  obtain ⟨s, hs⟩ := exists_mem_eval_turn hpoints (fun _ _ h ↦ h) (Trail.nil id)
  rw [search, Part.eq_some_iff]
  have hfound : found? (link r.links) s = r.target? id := by
    rcases found?_cases hpoints hs with ⟨t, ht, hfound⟩ | ⟨hcycle, hfound⟩
    · rw [hfound, target?_eq_some_iff.mpr ht]
    · rw [hfound, target?_eq_none_iff.mpr hcycle]
  exact hfound ▸ Part.mem_map _ hs

theorem link_eq_none_iff : link links id = none ↔ id ∉ Members.keys links :=
  Members.find?_eq_none_iff

/-- An id has no end exactly if its chain never leaves the ids with links. -/
theorem target?_eq_none_iff_pointAt :
    r.target? id = none ↔
      ∀ k, ∃ a ∈ Members.keys r.links, pointAt (link r.links) id k = some a := by
  have hnone : r.target? id = none ↔ ¬ ∃ t, t ∈ eval (link r.links) id := by
    rw [Option.eq_none_iff_forall_ne_some, not_exists]
    simp only [ne_eq, target?_eq_some_iff]
  rw [hnone, not_exists_mem_eval_iff_pointAt]
  simp only [ne_eq, link_eq_none_iff, not_not, and_comm]

/-- The end of an id is the first id on its chain without a link. -/
theorem target?_eq_some_iff_pointAt {t : String} :
    r.target? id = some t ↔ t ∉ Members.keys r.links ∧
      ∃ k, pointAt (link r.links) id k = some t ∧
        ∀ j < k, ∃ a ∈ Members.keys r.links, pointAt (link r.links) id j = some a := by
  rw [target?_eq_some_iff, mem_eval_iff_pointAt]
  simp only [ne_eq, link_eq_none_iff, not_not, and_comm]

end Registry

/-! ## The search of a table -/

section Table

variable {items : List Item} {table : ItemTable} (htable : ∀ id, table.find? id = named items id)
  {R : String → String → Prop} {points seen : List String} {bound : Nat} {id k : String}
include htable

theorem mem_keys_of_linkOf {b : String} (h : b ∈ linkOf items id) : id ∈ Members.keys table := by
  obtain ⟨x, hx, -⟩ := Option.bind_eq_some_iff.mp h
  rw [← htable] at hx
  exact Members.mem_keys_of_mem (Members.mem_of_find?_eq_some hx)

/-- The bound of a walk over a table has no bearing while it exceeds the points that are left. -/
theorem follow_mem_search (hpoints : ∀ a b, b ∈ linkOf items a → a ∈ points)
    (hR : ∀ a b, b ∈ linkOf items a → R a b) (htrail : Trail R points seen id)
    (hbound : points.length < bound + seen.length) :
    table.follow bound seen id ∈
      (search (linkOf items) seen id).map fun t ↦ t.bind table.find? := by
  -- a search that stops at once has found what stands there, if it is an end
  have hstop (seen : List String) {id : String} (h : turn (linkOf items) (seen, id) = none) :
      (found? (linkOf items) (seen, id)).bind table.find? ∈
        (search (linkOf items) seen id).map fun t ↦ t.bind table.find? :=
    Part.mem_map _ (Part.mem_map _ (mem_eval.mpr ⟨ReflTransGen.refl, h⟩))
  induction bound using Nat.strongRecOn generalizing seen id with
  | ind bound ih =>
    cases hx : named items id with
    | none =>
      have hend : linkOf items id = none := by rw [linkOf, hx, Option.bind_none]
      have hhere := hstop seen (turn_eq_none_iff.mpr (.inl hend))
      rw [found?, if_pos hend, Option.bind_some, htable, hx] at hhere
      rw [follow_of_named_eq_none htable hx]
      exact hhere
    | some x =>
      have hlink : linkOf items id = x.target? := linkOf_of_named hx
      cases ht : x.target? with
      | none =>
        have hend : linkOf items id = none := hlink.trans ht
        have hhere := hstop seen (turn_eq_none_iff.mpr (.inl hend))
        rw [found?, if_pos hend, Option.bind_some, htable, hx] at hhere
        rw [follow_of_target_eq_none htable hx ht]
        exact hhere
      | some next =>
        have hnext : next ∈ linkOf items id := hlink.trans ht
        cases bound with
        | zero =>
          have hle := htrail.length_le
          omega
        | succ bound =>
          rw [follow_succ_of_target htable hx ht]
          split
          · next hseen =>
            have hhere := hstop _ (turn_eq_none_iff.mpr (.inr hseen))
            rw [found?, if_neg (by rw [hnext]; exact Option.some_ne_none next)] at hhere
            exact hhere
          · next hseen =>
            have hturn := turn_eq_some_iff.mpr ⟨hseen, next, hnext, rfl⟩
            obtain ⟨htrail', -, -⟩ := htrail.turn hpoints hR hturn
            have hrest := ih bound bound.lt_succ_self htrail' (by rw [List.length_cons]; omega)
            rw [search, reaches_eval (ReflTransGen.single hturn)]
            exact hrest

/-- An id that no item has may be left out of those that were met. -/
theorem follow_append_of_forall_ne (hk : ∀ x ∈ items, x.id ≠ k) :
    table.follow bound (seen ++ [k]) id = table.follow bound seen id := by
  induction bound using Nat.strongRecOn generalizing seen id with
  | ind bound ih =>
    cases hx : named items id with
    | none => rw [follow_of_named_eq_none htable hx, follow_of_named_eq_none htable hx]
    | some x =>
      obtain ⟨hx', hid⟩ := mem_of_named hx
      have hne : id ≠ k := hid ▸ hk x hx'
      have hmem : id ∈ seen ++ [k] ↔ id ∈ seen := by simp [hne]
      cases ht : x.target? with
      | none => rw [follow_of_target_eq_none htable hx ht, follow_of_target_eq_none htable hx ht]
      | some next =>
        cases bound with
        | zero => rw [follow_zero_of_target htable hx ht, follow_zero_of_target htable hx ht]
        | succ bound =>
          rw [follow_succ_of_target htable hx ht, follow_succ_of_target htable hx ht,
            ← List.cons_append, ih bound bound.lt_succ_self]
          simp only [hmem]

end Table

namespace Document

variable {d : Document} {n x : Item} {ref : String}

/-- A table finds what a search finds that nothing bounds. -/
theorem search_linkOf_eq (href : n.target? = some ref) :
    (search (linkOf d.items) [n.id] ref).map (fun t ↦ t.bind d.index.find?) =
      Part.some (d.index.resolve n.attributes) := by
  rw [Part.eq_some_iff, resolve_eq href]
  have htrail : Trail (fun _ _ ↦ True) (n.id :: Members.keys d.index) [n.id] ref :=
    (Trail.nil n.id).cons List.mem_cons_self (by simp) (TransGen.single trivial)
  refine follow_mem_search d.find?_index ?_ (fun _ _ _ ↦ trivial) htrail ?_
  · intro a b hab
    exact List.mem_cons_of_mem _ (mem_keys_of_linkOf d.find?_index hab)
  · rw [List.length_cons, Members.keys, List.length_map, List.length_singleton]
    omega

/-- What a table leads an item to is the item at the end of its chain, whether the item is one of
the document or one whose id no item of the document has. -/
theorem resolve_eq_some_iff_leadsTo (hids : (d.items.map Item.id).Nodup)
    (hn : n ∈ d.items ∨ n.id ∉ d.items.map Item.id) (href : n.target? = some ref) :
    d.index.resolve n.attributes = some x ↔ LeadsTo d.items ref x := by
  rcases hn with hn | hn
  · rw [resolve_eq_some_iff hids hn href]
    exact leadsTo_iff_of_linksTo hids ⟨n, hn, rfl, href⟩
  · have hne : ∀ y ∈ d.items, y.id ≠ n.id := fun y hy h ↦ hn (h ▸ List.mem_map_of_mem hy)
    have hbound : d.items.length < d.index.length + 1 + ([] : List String).length := by
      rw [length_index hids, List.length_nil]
      omega
    rw [resolve_eq href, ← List.nil_append [n.id], follow_append_of_forall_ne d.find?_index hne]
    exact follow_eq_some_iff d.find?_index hids (Trail.nil ref) hbound

end Document

/-! ## Both searches -/

/-- **Chains are followed to their end.** The search of a registry ends. It finds nothing exactly if
the chain never leaves the ids with links, and otherwise the first id on the chain without one. The
search of a table from an item with a reference ends, whether ids are repeated or not, and finds
nothing or an item of the document without a reference. Where no id is repeated it finds nothing
exactly if the chain reaches an id that no item has or runs into a cycle, and otherwise the one item
at its end. -/
theorem chains_followed {α : Type} (r : Registry α) (d : Document) :
    (∀ id, search (Registry.link r.links) [] id = Part.some (r.target? id) ∧
      (r.target? id = none ↔
        ∀ k, ∃ a ∈ Members.keys r.links, pointAt (Registry.link r.links) id k = some a) ∧
      ∀ t, r.target? id = some t ↔ t ∉ Members.keys r.links ∧
        ∃ k, pointAt (Registry.link r.links) id k = some t ∧
          ∀ j < k, ∃ a ∈ Members.keys r.links, pointAt (Registry.link r.links) id j = some a) ∧
    ∀ n : Item, ∀ ref, n.target? = some ref →
      (search (linkOf d.items) [n.id] ref).map (fun t ↦ t.bind d.index.find?) =
        Part.some (d.index.resolve n.attributes) ∧
      (∀ x, d.index.resolve n.attributes = some x → x ∈ d.items ∧ x.target? = none) ∧
      ((d.items.map Item.id).Nodup → n ∈ d.items ∨ n.id ∉ d.items.map Item.id →
        (d.index.resolve n.attributes = none ↔ Astray d.items ref) ∧
        ∀ x, d.index.resolve n.attributes = some x ↔ LeadsTo d.items ref x) := by
  refine ⟨fun id ↦ ⟨r.search_link_eq id, Registry.target?_eq_none_iff_pointAt,
    fun t ↦ Registry.target?_eq_some_iff_pointAt⟩, fun n ref href ↦ ⟨?_, ?_, ?_⟩⟩
  · exact Document.search_linkOf_eq href
  · intro x hx
    rw [Document.resolve_eq href] at hx
    exact (leadsTo_of_follow d.find?_index hx).2
  · intro hids hn
    have hresolve (x : Item) : d.index.resolve n.attributes = some x ↔ LeadsTo d.items ref x :=
      Document.resolve_eq_some_iff_leadsTo hids hn href
    refine ⟨?_, hresolve⟩
    rw [astray_iff hids, Option.eq_none_iff_forall_ne_some]
    simp only [ne_eq, hresolve, not_exists]

/-- A chain that is entered from outside a circle, one that ends at an object, and what the table
says about both. -/
theorem chains_followed_tangled :
    let r := Document.tangled.registry "Object"
    let outside := Item.referring "outside" "left"
    let first := Item.referring "first" "second"
    (Document.tangled.items.map Item.id).Nodup ∧
      (∀ k, ∃ a ∈ Members.keys r.links, pointAt (Registry.link r.links) "outside" k = some a) ∧
      (∃ k, pointAt (Registry.link r.links) "first" k = some "list" ∧
        ∀ j < k, ∃ a ∈ Members.keys r.links, pointAt (Registry.link r.links) "first" j = some a) ∧
      (outside ∈ Document.tangled.items ∧ outside.target? = some "left" ∧
        Astray Document.tangled.items "left") ∧
      first ∈ Document.tangled.items ∧ first.target? = some "second" ∧
        ∃ x, LeadsTo Document.tangled.items "second" x ∧ x.id = "list" := by
  intro r outside first
  have hids : (Document.tangled.items.map Item.id).Nodup := by decide
  have houtside : outside ∈ Document.tangled.items := by
    simp [outside, Document.items, Document.tangled, Item.descendantsList]
  have hfirst : first ∈ Document.tangled.items := by
    simp [first, Document.items, Document.tangled, Item.descendantsList]
  obtain ⟨hregistry, htable⟩ := chains_followed r Document.tangled
  have hcircle : r.target? "outside" = none := by decide
  have hend : r.target? "first" = some "list" := by decide
  obtain ⟨-, -, hastray⟩ := htable outside "left" rfl
  obtain ⟨-, -, hleads⟩ := htable first "second" rfl
  refine ⟨hids, (hregistry "outside").2.1.mp hcircle, (((hregistry "first").2.2 "list").mp hend).2,
    ⟨houtside, rfl, (hastray hids (.inl houtside)).1.mp rfl⟩, hfirst, rfl, ?_⟩
  exact ⟨_, ((hleads hids (.inl hfirst)).2 _).mp rfl, rfl⟩

end SchemaTree
