import SchemaTree.Proofs.Termination
import Mathlib.Data.Finset.Card
import Mathlib.Data.List.Dedup

/-!
# When validation never ends

Validation is bounded by the number of references that it follows one inside the other, and yields
no verdict where the bound is used up. The bound of a model is never used up by chance: it is used
up exactly if every bound would be (`Model.value_validate_eq_none_iff`). This holds of every model,
also of one in which ids repeat or options lead back to their union.

Some data is settled by a bound if every reference that can be followed to an end on that data is
followed to an end within the bound (`Registry.Settles`). The bound of a model settles the data, by
induction on its depth. If a bound settles whatever is in the data, the registered shapes against
which the data itself is validated to an end grow with the bound, and where they do not grow for one
reference more, they have stopped growing (`stops_growing`). There are no more of them than entries.
-/

namespace SchemaTree

open Json Validating

/-! ## What stops growing -/

section Growing

variable {α : Type} {xs : List α} {p : Nat → α → Prop}

/-- A property of the members of a list that is kept by each step spreads to no other member in one
of the first steps, since every step before has spread it to one member at least. -/
theorem exists_stops_growing (hkeeps : ∀ k, ∀ x ∈ xs, p k x → p (k + 1) x) :
    ∃ j ≤ xs.length, ∀ x ∈ xs, p (j + 1) x → p j x := by
  classical
  by_contra hgrows
  push Not at hgrows
  let spread (k : Nat) : Finset α := {x ∈ xs.toFinset | p k x}
  have hcount (k : Nat) (hk : k ≤ xs.length + 1) : k ≤ (spread k).card := by
    induction k with
    | zero => exact Nat.zero_le _
    | succ k ih =>
      obtain ⟨y, hy, hnew, hold⟩ := hgrows k (Nat.le_of_succ_le_succ hk)
      have hsubset : spread k ⊆ spread (k + 1) := by
        intro z hz
        obtain ⟨hmem, hz⟩ := Finset.mem_filter.mp hz
        exact Finset.mem_filter.mpr ⟨hmem, hkeeps k z (List.mem_toFinset.mp hmem) hz⟩
      have hmore : y ∈ spread (k + 1) := Finset.mem_filter.mpr ⟨List.mem_toFinset.mpr hy, hnew⟩
      have hstrict : spread k ⊂ spread (k + 1) :=
        Finset.ssubset_iff_subset_ne.mpr ⟨hsubset, fun heq ↦
          hold (Finset.mem_filter.mp (heq ▸ hmore)).2⟩
      exact (ih (Nat.le_of_succ_le hk)).trans_lt (Finset.card_lt_card hstrict)
  have hle : (spread (xs.length + 1)).card ≤ xs.length :=
    (Finset.card_le_card (Finset.filter_subset _ _)).trans xs.toFinset_card_le
  exact absurd ((hcount _ le_rfl).trans hle) (Nat.not_succ_le_self _)

/-- A property that spreads to no other member in a step if it did not in the step before has spread
as far as it ever will once there was such a step. -/
theorem of_stopped_growing
    (hstays : ∀ k, (∀ x ∈ xs, p (k + 1) x → p k x) → ∀ x ∈ xs, p (k + 2) x → p (k + 1) x)
    {j : Nat} (hstop : ∀ x ∈ xs, p (j + 1) x → p j x) {x : α} (hx : x ∈ xs) {n : Nat}
    (h : p (j + n) x) : p j x := by
  have hstopped (n : Nat) : ∀ x ∈ xs, p (j + n + 1) x → p (j + n) x := by
    induction n with
    | zero => exact hstop
    | succ n ih => exact hstays (j + n) ih
  induction n with
  | zero => exact h
  | succ n ih => exact ih (hstopped n x hx h)

/-- A property of both kinds has spread as far as it ever will after as many steps as there are
members. -/
theorem stops_growing (xs : List α) (hkeeps : ∀ k, ∀ x ∈ xs, p k x → p (k + 1) x)
    (hstays : ∀ k, (∀ x ∈ xs, p (k + 1) x → p k x) → ∀ x ∈ xs, p (k + 2) x → p (k + 1) x)
    {x : α} (hx : x ∈ xs) {k : Nat} (h : p (xs.length + k) x) : p xs.length x := by
  obtain ⟨j, hj, hstop⟩ := exists_stops_growing hkeeps
  obtain ⟨n, hn⟩ := Nat.exists_eq_add_of_le hj
  have hforth (n : Nat) (h : p j x) : p (j + n) x := by
    induction n with
    | zero => exact h
    | succ n ih => exact hkeeps _ x hx ih
  rw [hn, Nat.add_assoc] at h
  rw [hn]
  exact hforth n (of_stopped_growing hstays hstop hx h)

end Growing

namespace Registry

variable {registry : Registry Shape} {bound bound' : Nat} {id : String} {s : Shape} {v w : Json}

/-! ## References that are followed to an end -/

/-- Following a reference ends within a bound. -/
def FollowsWithin (registry : Registry Shape) (bound : Nat) (id : String) (v : Json) : Prop :=
  (registry.follow bound id v).run.value.isSome

/-- Validation against a shape ends if no more references than the bound are followed one inside the
other. -/
def EndsWithin (registry : Registry Shape) (bound : Nat) (s : Shape) (v : Json) : Prop :=
  (s.validate (registry.follow bound) v).run.value.isSome

theorem FollowsWithin.mono (h : registry.FollowsWithin bound id v) (hbound : bound ≤ bound') :
    registry.FollowsWithin bound' id v := by
  rw [FollowsWithin, registry.follow_approximates hbound id v h]
  exact h

theorem EndsWithin.mono (h : registry.EndsWithin bound s v) (hbound : bound ≤ bound') :
    registry.EndsWithin bound' s v := by
  rw [EndsWithin, validate_approximates (registry.follow_approximates hbound) s v h]
  exact h

theorem not_followsWithin_zero : ¬ registry.FollowsWithin 0 id v := Bool.false_ne_true

/-- A reference is followed to an end if what it leads to is validated to an end with one reference
less. -/
theorem followsWithin_succ_iff :
    registry.FollowsWithin (bound + 1) id v ↔
      ∀ s, (registry.lookup id).value = some s → registry.EndsWithin bound s v := by
  rw [FollowsWithin, follow, OptionT.run_bind, Option.elimM, Logged.value_bind]
  change (Option.elim (some (registry.lookup id).value) _ _ :
    Logged (Option Verdict)).value.isSome ↔ _
  cases (registry.lookup id).value with
  | none =>
    refine ⟨fun _ s h ↦ ?_, fun _ ↦ rfl⟩
    cases h
  | some s =>
    have hend : (s.validate (registry.follow bound) v >>= fun verdict ↦
        (pure (verdict.map fun a ↦ { a with fit := .perfect }) :
          Validating Verdict)).run.value.isSome ↔
          registry.EndsWithin bound s v := by
      rw [EndsWithin, OptionT.run_bind, Option.elimM, Logged.value_bind]
      cases (s.validate (registry.follow bound) v).run.value with
      | none => exact Iff.rfl
      | some verdict => exact ⟨fun _ ↦ rfl, fun _ ↦ rfl⟩
    refine hend.trans ⟨?_, fun h ↦ h s rfl⟩
    intro h s' hs'
    exact Option.some.inj hs' ▸ h

/-- What a reference leads to is registered. -/
theorem mem_entries_of_lookup (h : (registry.lookup id).value = some s) :
    s ∈ registry.entries.map (·.2) := by
  rw [lookup] at h
  split at h
  · cases h
  · exact List.mem_map_of_mem (Members.mem_of_find?_eq_some h)

/-! ## Data that is settled -/

/-- What validation of some data looks up: the data itself and smaller data. -/
def Within (v w : Json) : Prop := w = v ∨ w.depth < v.depth

theorem hereditary_within (v : Json) : Hereditary (Within v) where
  element h he := by
    obtain rfl | h := h
    · exact .inr (depth_lt_of_mem he)
    · exact .inr ((depth_lt_of_mem he).trans h)
  member h hw := by
    have hmem := Members.mem_of_find?_eq_some hw
    obtain rfl | h := h
    · exact .inr (depth_lt_of_mem_members hmem)
    · exact .inr ((depth_lt_of_mem_members hmem).trans h)

/-- A bound will do for a validation if it does for the references that are followed in it. -/
theorem EndsWithin.of_follows (h : registry.EndsWithin bound s v)
    (hfollows : ∀ id w, Within v w → registry.FollowsWithin bound id w →
      registry.FollowsWithin bound' id w) : registry.EndsWithin bound' s v := by
  have hlook (id : String) (w : Json) (hw : Within v w) :
      Approximates (registry.follow bound id w) (registry.follow bound' id w) := by
    intro hend
    rcases Nat.le_total bound bound' with hle | hle
    · exact registry.follow_approximates hle id w hend
    · exact (registry.follow_approximates hle id w (hfollows id w hw hend)).symm
  rw [EndsWithin, Approximates.simulation.validate_of_hereditary (hereditary_within v) hlook s v
    (.inl rfl) h]
  exact h

/-- Every reference that can be followed to an end on the data is, within the bound. -/
def Settles (registry : Registry Shape) (bound : Nat) (v : Json) : Prop :=
  ∀ id n, registry.FollowsWithin n id v → registry.FollowsWithin bound id v

theorem Settles.mono (h : registry.Settles bound v) (hbound : bound ≤ bound') :
    registry.Settles bound' v := fun id n hn ↦ (h id n hn).mono hbound

/-- If what is in the data is settled, the data is settled with as many references more as there are
entries, and one. -/
theorem settles_of_smaller (h : ∀ w, w.depth < v.depth → registry.Settles bound w) :
    registry.Settles (bound + registry.entries.length + 1) v := by
  have hstays (k : Nat) (hstop : ∀ s ∈ registry.entries.map (·.2),
      registry.EndsWithin (bound + (k + 1)) s v → registry.EndsWithin (bound + k) s v) :
      ∀ s ∈ registry.entries.map (·.2), registry.EndsWithin (bound + (k + 2)) s v →
        registry.EndsWithin (bound + (k + 1)) s v := by
    intro s _ hend
    refine hend.of_follows fun id w hw hfollows ↦ ?_
    obtain rfl | hdepth := hw
    · refine followsWithin_succ_iff.mpr fun s' hs' ↦ ?_
      exact hstop s' (mem_entries_of_lookup hs') (followsWithin_succ_iff.mp hfollows s' hs')
    · exact (h w hdepth id _ hfollows).mono (Nat.le_add_right _ _)
  intro id n hn
  cases n with
  | zero => exact absurd hn not_followsWithin_zero
  | succ n =>
    refine followsWithin_succ_iff.mpr fun s hs ↦ ?_
    have hend : registry.EndsWithin (bound + ((registry.entries.map (·.2)).length + n)) s v :=
      (followsWithin_succ_iff.mp hn s hs).mono (by omega)
    have hsettled := stops_growing (registry.entries.map (·.2))
      (p := fun k s ↦ registry.EndsWithin (bound + k) s v)
      (fun k s _ hs ↦ hs.mono (Nat.le_succ _)) hstays (mem_entries_of_lookup hs) hend
    rwa [List.length_map] at hsettled

/-- **The bound of the data settles it.** -/
theorem settles_bound (registry : Registry Shape) (v : Json) :
    registry.Settles (registry.bound v) v := by
  induction hn : v.depth using Nat.strongRecOn generalizing v with
  | ind n ih =>
    have hsmaller (w : Json) (hw : w.depth < v.depth) :
        registry.Settles (v.depth * (registry.entries.length + 1)) w :=
      (ih w.depth (hn ▸ hw) w rfl).mono (Nat.mul_le_mul_right _ hw)
    have hsettles := settles_of_smaller hsmaller
    rwa [Nat.add_assoc, ← Nat.succ_mul] at hsettles

/-- The bound of the data will do for every validation of it that ends at all. -/
theorem endsWithin_bound (h : registry.EndsWithin bound s v) :
    registry.EndsWithin (registry.bound v) s v := by
  refine h.of_follows fun id w hw hfollows ↦ (registry.settles_bound w id bound hfollows).mono ?_
  obtain rfl | hdepth := hw
  · exact le_rfl
  · exact Nat.mul_le_mul_right _ (Nat.succ_le_succ hdepth.le)

end Registry

/-- **Validation yields no verdict exactly if it never ends**, whatever the bound. -/
theorem Model.value_validate_eq_none_iff (m : Model) (v : Json) :
    (m.validate v).value = none ↔
      ∀ bound, (m.shape.validate (m.registry.follow bound) v).run.value = none := by
  rw [Model.value_validate, Option.map_eq_none_iff]
  constructor
  · intro h bound
    by_contra hne
    have hend : m.registry.EndsWithin bound m.shape v := Option.isSome_iff_ne_none.mpr hne
    exact Option.isSome_iff_ne_none.mp (Registry.endsWithin_bound hend) h
  · intro h
    exact h _

end SchemaTree
