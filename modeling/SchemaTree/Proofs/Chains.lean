import SchemaTree.Registry
import SchemaTree.Proofs.Members
import Mathlib.Computability.StateTransition
import Mathlib.Data.List.Perm.Subperm

/-!
# Chains of links

Every id has at most one link, so from an id there is a single chain. It either comes to an end,
which `StateTransition.eval` describes, or never does; over finitely many links the second means
that it enters a cycle. The bound of `Registry.target?` is the number of links, and
`Registry.target?_eq_some_iff` says that it suffices: the walk finds the end of every chain that has
one.

The argument is the same for all bounded walks of the library. A *trail* is a list of points that
all lead to the point where the walk stands, none of them twice; the walk can only go on for as long
as there are points outside its trail.
-/

namespace SchemaTree

open Relation StateTransition

/-! ## Trails -/

section Trails

variable {α : Type _} {R : α → α → Prop} {within seen : List α} {a b : α}

/-- The points `seen` are different points of `within`, and all of them lead to `a`. -/
structure Trail (R : α → α → Prop) (within seen : List α) (a : α) : Prop where
  nodup : seen.Nodup
  subset : seen ⊆ within
  leads : ∀ s ∈ seen, TransGen R s a

namespace Trail

theorem nil (a : α) : Trail R within [] a where
  nodup := List.nodup_nil
  subset := List.nil_subset _
  leads := by simp

/-- A trail goes on from a point that is not on it yet. -/
theorem cons (h : Trail R within seen a) (ha : a ∈ within) (hseen : a ∉ seen)
    (hab : TransGen R a b) : Trail R within (a :: seen) b where
  nodup := List.nodup_cons.mpr ⟨hseen, h.nodup⟩
  subset := List.cons_subset.mpr ⟨ha, h.subset⟩
  leads := by
    intro s hs
    rcases List.mem_cons.mp hs with rfl | hs
    · exact hab
    · exact (h.leads s hs).trans hab

/-- A trail to a point is one to every point behind it. -/
theorem step (h : Trail R within seen a) (hab : R a b) : Trail R within seen b where
  nodup := h.nodup
  subset := h.subset
  leads := fun s hs ↦ (h.leads s hs).tail hab

theorem length_le (h : Trail R within seen a) : seen.length ≤ within.length :=
  (List.subperm_of_subset h.nodup h.subset).length_le

/-- While a point is left outside the trail, the trail is shorter than the list of points. -/
theorem length_lt (h : Trail R within seen a) (ha : a ∈ within) (hseen : a ∉ seen) :
    seen.length < within.length := by
  have hnd : (a :: seen).Nodup := List.nodup_cons.mpr ⟨hseen, h.nodup⟩
  exact (List.subperm_of_subset hnd (List.cons_subset.mpr ⟨ha, h.subset⟩)).length_le

/-- A point on its own trail lies on a cycle. -/
theorem cycle (h : Trail R within seen a) (hseen : a ∈ seen) : TransGen R a a := h.leads a hseen

end Trail

end Trails

/-! ## Ends and cycles -/

section Cycles

variable {α : Type _} {next : α → Option α} {a b : α}

/-- The chain from a point runs into a cycle. -/
def EntersCycle (next : α → Option α) (a : α) : Prop := ∃ c, Reaches next a c ∧ Reaches₁ next c c

/-- A chain that runs into a cycle after a step does so. -/
theorem EntersCycle.of_reaches (h : EntersCycle next b) (hab : Reaches next a b) :
    EntersCycle next a := by
  obtain ⟨c, hbc, hcc⟩ := h
  exact ⟨c, hab.trans hbc, hcc⟩

/-- What lies behind a point on a cycle leads back to it. -/
theorem reaches_back_of_cycle {c t : α} (hc : Reaches₁ next c c) (hct : Reaches next c t) :
    Reaches₁ next t t := by
  induction hct with
  | refl => exact hc
  | tail _ hts ih =>
    rename_i t s _
    have hst : Reaches next s t := reaches₁_fwd ih hts
    exact TransGen.tail' hst hts

/-- A chain that comes to an end enters no cycle. -/
theorem not_entersCycle_of_mem_eval (h : b ∈ eval next a) : ¬ EntersCycle next a := by
  rintro ⟨c, hac, hcc⟩
  rw [reaches_eval hac] at h
  -- the end lies behind a point on the cycle, hence on the cycle, and is no end
  exact eval_maximal₁ h b (reaches_back_of_cycle hcc (mem_eval.mp h).1)

/-! ## Walks -/

/-- Walks along a chain for at most a number of links; `none` if that is not the end. -/
def walk (next : α → Option α) : Nat → α → Option α
  | bound, a =>
    match next a with
    | none => some a
    | some b =>
      match bound with
      | 0 => none
      | bound + 1 => walk next bound b

variable {bound : Nat}

/-- A walk comes to its end by standing there or by going on along a link. -/
theorem walk_eq_some_cases {t : α} (h : walk next bound a = some t) :
    next a = none ∧ a = t ∨
      ∃ b k, b ∈ next a ∧ bound = k + 1 ∧ walk next k b = some t := by
  rw [walk] at h
  cases hnext : next a with
  | none => exact .inl ⟨rfl, by simpa [hnext] using h⟩
  | some b =>
    cases bound with
    | zero => simp [hnext] at h
    | succ k => exact .inr ⟨b, k, rfl, rfl, by simpa [hnext] using h⟩

/-- A walk that does not come to an end has used up its bound or goes on along a link. -/
theorem walk_eq_none_cases (h : walk next bound a = none) :
    ∃ b, b ∈ next a ∧ (bound = 0 ∨ ∃ k, bound = k + 1 ∧ walk next k b = none) := by
  rw [walk] at h
  cases hnext : next a with
  | none => simp [hnext] at h
  | some b =>
    cases bound with
    | zero => exact ⟨b, rfl, .inl rfl⟩
    | succ k => exact ⟨b, rfl, .inr ⟨k, rfl, by simpa [hnext] using h⟩⟩

/-- A walk only stops at the end of a chain. -/
theorem mem_eval_of_walk {t : α} (h : walk next bound a = some t) : t ∈ eval next a := by
  induction bound using Nat.strongRecOn generalizing a with
  | ind bound ih =>
    rcases walk_eq_some_cases h with ⟨hend, rfl⟩ | ⟨b, k, hab, rfl, hwalk⟩
    · exact mem_eval.mpr ⟨ReflTransGen.refl, hend⟩
    · rw [reaches_eval (ReflTransGen.single hab)]
      exact ih k k.lt_succ_self hwalk

variable {points seen : List α}

/-- A walk that uses up its bound is on a cycle. The invariant is the trail: the points that the
walk has left, which are all that have a link once the bound is used up. -/
theorem entersCycle_of_walk_trail (hpoints : ∀ a b, b ∈ next a → a ∈ points)
    (htrail : Trail (fun a b ↦ b ∈ next a) points seen a)
    (hbound : points.length ≤ bound + seen.length) (h : walk next bound a = none) :
    EntersCycle next a := by
  induction bound using Nat.strongRecOn generalizing a seen with
  | ind bound ih =>
    obtain ⟨b, hab, hrest⟩ := walk_eq_none_cases h
    by_cases hseen : a ∈ seen
    · exact ⟨a, ReflTransGen.refl, htrail.cycle hseen⟩
    · have hlt := htrail.length_lt (hpoints a b hab) hseen
      rcases hrest with rfl | ⟨k, rfl, hwalk⟩
      · -- once the bound is used up, all points are on the trail
        omega
      · have htrail' := htrail.cons (hpoints a b hab) hseen (TransGen.single hab)
        refine EntersCycle.of_reaches (ih k k.lt_succ_self htrail' ?_ hwalk)
          (ReflTransGen.single hab)
        rw [List.length_cons]
        omega

theorem entersCycle_of_walk (hpoints : ∀ a b, b ∈ next a → a ∈ points)
    (h : walk next points.length a = none) : EntersCycle next a :=
  entersCycle_of_walk_trail hpoints (Trail.nil a) (Nat.le_add_right _ _) h

/-- Over finitely many links a chain either comes to an end or enters a cycle. -/
theorem exists_mem_eval_or_entersCycle (hpoints : ∀ a b, b ∈ next a → a ∈ points) (a : α) :
    (∃ t, t ∈ eval next a) ∨ EntersCycle next a := by
  cases h : walk next points.length a with
  | none => exact Or.inr (entersCycle_of_walk hpoints h)
  | some t => exact Or.inl ⟨t, mem_eval_of_walk h⟩

end Cycles

/-! ## The chains of a registry -/

namespace Registry

open Json

/-- The link of an id. -/
def link (links : List (String × String)) (id : String) : Option String := Members.find? id links

variable {α : Type} {r : Registry α} {links : List (String × String)} {id b : String}

theorem mem_keys_of_link (h : b ∈ link links id) : id ∈ Members.keys links :=
  Members.mem_keys_of_mem (Members.mem_of_find?_eq_some h)

theorem chase_eq_walk (links : List (String × String)) (bound : Nat) (id : String) :
    chase links bound id = walk (link links) bound id := by
  induction bound generalizing id with
  | zero =>
    rw [chase, walk, link]
    cases Members.find? id links <;> rfl
  | succ bound ih =>
    rw [chase, walk, link]
    cases Members.find? id links with
    | none => rfl
    | some b => exact ih b

theorem target?_eq_walk (r : Registry α) (id : String) :
    r.target? id = walk (link r.links) (Members.keys r.links).length id := by
  rw [target?, chase_eq_walk, Members.keys, List.length_map]

/-- **The end of a chain.** The walk finds it if there is one. -/
theorem target?_eq_some_iff {t : String} :
    r.target? id = some t ↔ t ∈ eval (link r.links) id := by
  rw [target?_eq_walk]
  refine ⟨mem_eval_of_walk, fun h ↦ ?_⟩
  cases hw : walk (link r.links) (Members.keys r.links).length id with
  | none =>
    exact absurd (entersCycle_of_walk (fun _ _ ↦ mem_keys_of_link) hw)
      (not_entersCycle_of_mem_eval h)
  | some t' => rw [Part.mem_unique (mem_eval_of_walk hw) h]

/-- There is no end exactly if the chain enters a cycle. -/
theorem target?_eq_none_iff : r.target? id = none ↔ EntersCycle (link r.links) id := by
  refine ⟨fun h ↦ ?_, fun h ↦ ?_⟩
  · rw [target?_eq_walk] at h
    exact entersCycle_of_walk (fun _ _ ↦ mem_keys_of_link) h
  · cases ht : r.target? id with
    | none => rfl
    | some t => exact absurd h (not_entersCycle_of_mem_eval (target?_eq_some_iff.mp ht))

end Registry

end SchemaTree
