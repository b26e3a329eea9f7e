import SchemaTree.Event

/-!
# What a step yields

Reading, building and importing are steps of one kind: they draw on a state, report events and may
fail. `Yields step s a s'` says what a step comes to when it does not fail, its reports apart, and
the lemmas take a step apart from the outside in, in both directions. `Fails step s e` says with
which error a step ends when it does fail, and `Requires step p Q` what it takes not to fail, where
the state has no say in that. `Keeps P step Q` says what a step leaves as it was, also when it
fails. -/

namespace SchemaTree

variable {ε σ α β : Type}

@[ext] theorem Logged.ext {x y : Logged α} (hv : x.value = y.value) (he : x.events = y.events) :
    x = y := by
  cases x
  cases y
  rw [Logged.mk.injEq]
  exact ⟨hv, he⟩

instance : LawfulMonad Logged :=
  LawfulMonad.mk' Logged
    (fun _ ↦ Logged.ext rfl (List.append_nil _))
    (fun _ _ ↦ Logged.ext rfl (List.nil_append _))
    (fun _ _ _ ↦ Logged.ext rfl (List.append_assoc _ _ _))

theorem exists_of_bind_eq_ok {x : Except ε α} {g : α → Except ε β} {b : β}
    (h : x >>= g = .ok b) : ∃ a, x = .ok a ∧ g a = .ok b := by
  match x with
  | .error _ => exact absurd h nofun
  | .ok a => exact ⟨a, rfl, h⟩

theorem exists_of_map_eq_ok {g : α → β} {x : Except ε α} {b : β} (h : x.map g = .ok b) :
    ∃ a, x = .ok a ∧ g a = b := by
  match x with
  | .error _ => exact absurd h nofun
  | .ok a => exact ⟨a, rfl, Except.ok.inj h⟩

theorem eq_ok_of_mapError_eq_ok {ε' : Type} {g : ε → ε'} {x : Except ε α} {a : α}
    (h : x.mapError g = .ok a) : x = .ok a := by
  match x with
  | .error _ => exact absurd h nofun
  | .ok b => exact congrArg Except.ok (Except.ok.inj h)

theorem not_exists_ok_eq_error {a : α} : ¬ ∃ e, (.ok a : Except ε α) = .error e := by
  rintro ⟨e, h⟩
  cases h

theorem exists_error_or_ok (x : Except ε α) : (∃ e, x = .error e) ∨ ∃ a, x = .ok a := by
  cases x with
  | error e => exact .inl ⟨e, rfl⟩
  | ok a => exact .inr ⟨a, rfl⟩

/-- A step that draws on a state, reports events and may fail. -/
abbrev Stateful (ε σ α : Type) := ExceptT ε (StateT σ Logged) α

/-- Started in `s`, the step yields `a` and leaves `s'` behind. -/
def Yields (step : Stateful ε σ α) (s : σ) (a : α) (s' : σ) : Prop :=
  (StateT.run (ExceptT.run step) s).value = (.ok a, s')

theorem yields_pure_iff {a b : α} {s s' : σ} :
    Yields (pure a : Stateful ε σ α) s b s' ↔ a = b ∧ s = s' := by
  change (Except.ok a, s) = (Except.ok b, s') ↔ _
  rw [Prod.mk.injEq, Except.ok.injEq]

theorem yields_bind_iff {x : Stateful ε σ α} {f : α → Stateful ε σ β} {s s' : σ} {b : β} :
    Yields (x >>= f) s b s' ↔ ∃ a t, Yields x s a t ∧ Yields (f a) t b s' := by
  unfold Yields
  rw [ExceptT.run_bind, StateT.run_bind, Logged.value_bind]
  cases h : (StateT.run (ExceptT.run x) s).value with
  | mk result t =>
    cases result with
    | error e =>
      constructor
      · intro hb
        exact absurd (Prod.mk.inj hb).1 (by simp)
      · rintro ⟨a, t', ha, -⟩
        exact absurd (Prod.mk.inj ha).1 (by simp)
    | ok a =>
      constructor
      · intro hb
        exact ⟨a, t, rfl, hb⟩
      · rintro ⟨a', t', ha, hb⟩
        obtain ⟨h₁, rfl⟩ := Prod.mk.inj ha
        obtain rfl := Except.ok.inj h₁
        exact hb

theorem yields_map_iff {x : Stateful ε σ α} {f : α → β} {s s' : σ} {b : β} :
    Yields (f <$> x) s b s' ↔ ∃ a, Yields x s a s' ∧ f a = b := by
  rw [map_eq_pure_bind, yields_bind_iff]
  simp only [yields_pure_iff]
  constructor
  · rintro ⟨a, t, ha, rfl, rfl⟩
    exact ⟨a, ha, rfl⟩
  · rintro ⟨a, ha, rfl⟩
    exact ⟨a, s', ha, rfl, rfl⟩

theorem not_yields_throw {e : ε} {s s' : σ} {a : α} :
    ¬ Yields (throw e : Stateful ε σ α) s a s' := fun h ↦ by
  change (Except.error e, s) = (Except.ok a, s') at h
  exact absurd (Prod.mk.inj h).1 (by simp)

theorem yields_modifyGet_iff {f : σ → α × σ} {s s' : σ} {a : α} :
    Yields (modifyGet f : Stateful ε σ α) s a s' ↔ f s = (a, s') := by
  change (Except.ok (f s).1, (f s).2) = (Except.ok a, s') ↔ _
  rw [Prod.mk.injEq, Except.ok.injEq, Prod.ext_iff]

theorem yields_get_iff {s a s' : σ} :
    Yields (get : Stateful ε σ σ) s a s' ↔ s = a ∧ s = s' := by
  change (Except.ok s, s) = (Except.ok a, s') ↔ _
  rw [Prod.mk.injEq, Except.ok.injEq]

theorem yields_set_iff {s t s' : σ} {u : PUnit} :
    Yields (set t : Stateful ε σ PUnit) s u s' ↔ t = s' := by
  change (Except.ok PUnit.unit, t) = (Except.ok u, s') ↔ _
  simp

/-- A report leaves the state alone. -/
theorem yields_report_iff {event : Event} {s s' : σ} {u : Unit} :
    Yields (monadLift (Logged.report event) : Stateful ε σ Unit) s u s' ↔ s = s' := by
  change (Except.ok (), s) = (Except.ok u, s') ↔ _
  simp

namespace Yields

protected theorem pure (a : α) (s : σ) : Yields (pure a : Stateful ε σ α) s a s :=
  yields_pure_iff.mpr ⟨rfl, rfl⟩

protected theorem bind {x : Stateful ε σ α} {f : α → Stateful ε σ β} {s t s' : σ} {a : α} {b : β}
    (hx : Yields x s a t) (hf : Yields (f a) t b s') : Yields (x >>= f) s b s' :=
  yields_bind_iff.mpr ⟨a, t, hx, hf⟩

protected theorem map {x : Stateful ε σ α} (f : α → β) {s s' : σ} {a : α} (hx : Yields x s a s') :
    Yields (f <$> x) s (f a) s' :=
  yields_map_iff.mpr ⟨a, hx, rfl⟩

protected theorem report (event : Event) (s : σ) :
    Yields (monadLift (Logged.report event) : Stateful ε σ Unit) s () s :=
  yields_report_iff.mpr rfl

end Yields

/-! ## How a step fails -/

/-- Started in `s`, the step fails with `e`. -/
def Fails (step : Stateful ε σ α) (s : σ) (e : ε) : Prop :=
  (StateT.run (ExceptT.run step) s).value.1 = .error e

theorem not_fails_pure {a : α} {s : σ} {e : ε} : ¬ Fails (pure a : Stateful ε σ α) s e := by
  intro h
  cases h

theorem not_fails_report {event : Event} {s : σ} {e : ε} :
    ¬ Fails (monadLift (Logged.report event) : Stateful ε σ Unit) s e := by
  intro h
  cases h

theorem fails_throw_iff {e e' : ε} {s : σ} : Fails (throw e : Stateful ε σ α) s e' ↔ e = e' :=
  Except.error.injEq e e' ▸ Iff.rfl

/-- A sequence fails in its first step, or in what follows where that ends. -/
theorem fails_bind_iff {x : Stateful ε σ α} {f : α → Stateful ε σ β} {s : σ} {e : ε} :
    Fails (x >>= f) s e ↔ Fails x s e ∨ ∃ a t, Yields x s a t ∧ Fails (f a) t e := by
  unfold Fails Yields
  rw [ExceptT.run_bind, StateT.run_bind, Logged.value_bind]
  cases (StateT.run (ExceptT.run x) s).value with
  | mk result t =>
    cases result with
    | error e' =>
      refine ⟨fun h ↦ .inl (congrArg Except.error (Except.error.inj h)), ?_⟩
      rintro (h | ⟨a, t', ha, -⟩)
      · exact congrArg Except.error (Except.error.inj h)
      · exact absurd (Prod.mk.inj ha).1 nofun
    | ok a =>
      refine ⟨fun h ↦ .inr ⟨a, t, rfl, h⟩, ?_⟩
      rintro (h | ⟨a', t', ha, h⟩)
      · exact absurd h nofun
      · obtain ⟨hresult, rfl⟩ := Prod.mk.inj ha
        obtain rfl := Except.ok.inj hresult
        exact h

/-! ## What a step requires -/

/-- Whatever the state, the step does not fail exactly if `p`, and what it returns satisfies `Q`. -/
def Requires (step : Stateful ε σ α) (p : Prop) (Q : α → Prop) : Prop :=
  ∀ s, ((∃ a s', Yields step s a s') ↔ p) ∧ ∀ a s', Yields step s a s' → Q a

namespace Requires

variable {p q : Prop} {Q : α → Prop} {R : β → Prop}

theorem of_iff {step : Stateful ε σ α} (h : Requires step p Q) (hpq : p ↔ q) :
    Requires step q Q := fun s ↦ ⟨(h s).1.trans hpq, (h s).2⟩

theorem mono {Q' : α → Prop} {step : Stateful ε σ α} (h : Requires step p Q)
    (hQ : ∀ a, Q a → Q' a) : Requires step p Q' :=
  fun s ↦ ⟨(h s).1, fun a s' ha ↦ hQ a ((h s).2 a s' ha)⟩

protected theorem pure {a : α} (h : Q a) : Requires (pure a : Stateful ε σ α) True Q := by
  intro s
  refine ⟨iff_of_true ⟨a, s, .pure a s⟩ trivial, ?_⟩
  intro b s' hb
  exact (yields_pure_iff.mp hb).1 ▸ h

protected theorem throw (e : ε) : Requires (throw e : Stateful ε σ α) False Q :=
  fun _ ↦ ⟨⟨fun ⟨_, _, h⟩ ↦ not_yields_throw h, False.elim⟩, fun _ _ h ↦ (not_yields_throw h).elim⟩

protected theorem modifyGet (f : σ → α × σ) :
    Requires (modifyGet f : Stateful ε σ α) True fun _ ↦ True :=
  fun _ ↦ ⟨iff_of_true ⟨_, _, yields_modifyGet_iff.mpr rfl⟩ trivial, fun _ _ _ ↦ trivial⟩

protected theorem report (event : Event) :
    Requires (monadLift (Logged.report event) : Stateful ε σ Unit) True fun _ ↦ True :=
  fun s ↦ ⟨iff_of_true ⟨_, s, .report event s⟩ trivial, fun _ _ _ ↦ trivial⟩

/-- A sequence requires what its first step does, and what the rest does after it. -/
protected theorem bind {x : Stateful ε σ α} {f : α → Stateful ε σ β} (hx : Requires x p Q)
    (hf : ∀ a, Q a → Requires (f a) q R) : Requires (x >>= f) (p ∧ q) R := by
  intro s
  refine ⟨⟨?_, ?_⟩, ?_⟩
  · rintro ⟨b, s', hb⟩
    obtain ⟨a, t, ha, hb⟩ := yields_bind_iff.mp hb
    exact ⟨(hx s).1.mp ⟨a, t, ha⟩, (hf a ((hx s).2 a t ha) t).1.mp ⟨b, s', hb⟩⟩
  · rintro ⟨hp, hq⟩
    obtain ⟨a, t, ha⟩ := (hx s).1.mpr hp
    obtain ⟨b, s', hb⟩ := (hf a ((hx s).2 a t ha) t).1.mpr hq
    exact ⟨b, s', ha.bind hb⟩
  · intro b s' hb
    obtain ⟨a, t, ha, hb⟩ := yields_bind_iff.mp hb
    exact (hf a ((hx s).2 a t ha) t).2 b s' hb

/-- A sequence that does not fail in its second step requires what its first step does. -/
theorem bind_of_succeeds {x : Stateful ε σ α} {f : α → Stateful ε σ β} (hx : Requires x p Q)
    (hf : ∀ a, Q a → Requires (f a) True R) : Requires (x >>= f) p R :=
  (hx.bind hf).of_iff (and_iff_left trivial)

/-- A sequence fails if its first step does. -/
theorem bind_of_fails {x : Stateful ε σ α} (hx : Requires x False Q)
    (f : α → Stateful ε σ β) : Requires (x >>= f) False R := by
  have hnone (s : σ) (b : β) (s' : σ) : ¬ Yields (x >>= f) s b s' := by
    intro hb
    obtain ⟨a, t, ha, -⟩ := yields_bind_iff.mp hb
    exact (hx s).1.mp ⟨a, t, ha⟩
  exact fun s ↦ ⟨iff_of_false (fun ⟨b, s', hb⟩ ↦ hnone s b s' hb) id,
    fun b s' hb ↦ (hnone s b s' hb).elim⟩

protected theorem map {x : Stateful ε σ α} {f : α → β} (hx : Requires x p Q)
    (hf : ∀ a, Q a → R (f a)) : Requires (f <$> x) p R := by
  rw [map_eq_pure_bind]
  exact hx.bind_of_succeeds fun a ha ↦ .pure (hf a ha)

/-- A step fails where what it requires does not hold. -/
theorem exists_error_iff {step : Stateful ε σ α} (h : Requires step p Q) (s : σ) :
    (∃ e, (StateT.run (ExceptT.run step) s).value.1 = .error e) ↔ ¬ p := by
  rw [← (h s).1]
  unfold Yields
  cases (StateT.run (ExceptT.run step) s).value with
  | mk result t =>
    cases result with
    | error e =>
      refine iff_of_true ⟨e, rfl⟩ ?_
      rintro ⟨a, s', ha⟩
      exact absurd (Prod.mk.inj ha).1 nofun
    | ok a =>
      refine iff_of_false ?_ fun hfails ↦ hfails ⟨a, t, rfl⟩
      rintro ⟨e, he⟩
      exact absurd he nofun

end Requires

/-! ## What a step keeps -/

/-- Started where `P` holds the step ends where `P` holds, whether it fails or not, and what it
returns satisfies `Q`. -/
def Keeps (P : σ → Prop) (step : Stateful ε σ α) (Q : α → Prop) : Prop :=
  ∀ s, P s → P (StateT.run (ExceptT.run step) s).value.2 ∧
    ∀ a, (StateT.run (ExceptT.run step) s).value.1 = .ok a → Q a

namespace Keeps

variable {P : σ → Prop} {Q : α → Prop} {R : β → Prop}

theorem mono {Q' : α → Prop} {step : Stateful ε σ α} (h : Keeps P step Q) (hQ : ∀ a, Q a → Q' a) :
    Keeps P step Q' :=
  fun s hs ↦ ⟨(h s hs).1, fun a ha ↦ hQ a ((h s hs).2 a ha)⟩

protected theorem pure {a : α} (h : Q a) : Keeps P (pure a : Stateful ε σ α) Q := by
  intro s hs
  refine ⟨hs, ?_⟩
  rintro b hb
  obtain rfl : a = b := Except.ok.inj hb
  exact h

protected theorem throw (e : ε) : Keeps P (throw e : Stateful ε σ α) Q := by
  intro s hs
  refine ⟨hs, ?_⟩
  intro a ha
  exact absurd ha nofun

protected theorem bind {x : Stateful ε σ α} {f : α → Stateful ε σ β} (hx : Keeps P x Q)
    (hf : ∀ a, Q a → Keeps P (f a) R) : Keeps P (x >>= f) R := by
  intro s hs
  obtain ⟨hP, hQ⟩ := hx s hs
  rw [ExceptT.run_bind, StateT.run_bind, Logged.value_bind]
  generalize (StateT.run (ExceptT.run x) s).value = ended at hP hQ
  obtain ⟨result, t⟩ := ended
  match result with
  | .error e => exact ⟨hP, fun b hb ↦ absurd hb nofun⟩
  | .ok a => exact hf a (hQ a rfl) t hP

protected theorem get : Keeps P (get : Stateful ε σ σ) P := by
  intro s hs
  refine ⟨hs, ?_⟩
  rintro t ht
  obtain rfl : s = t := Except.ok.inj ht
  exact hs

protected theorem set {s : σ} (h : P s) : Keeps P (set s : Stateful ε σ PUnit) fun _ ↦ True :=
  fun _ _ ↦ ⟨h, fun _ _ ↦ trivial⟩

end Keeps

end SchemaTree
