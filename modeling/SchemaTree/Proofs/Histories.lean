import SchemaTree.Shape.Consult
import SchemaTree.Proofs.Parametricity
import SchemaTree.Proofs.Registrations

/-!
# What is kept in a registry stays right

A registry keeps the entry that was found for an id, and uses it whenever the id is looked up again,
although registrations come in between and what an id leads to depends on all of them. It is right
all the same. The invariant is that everything kept is at the end of its chain (`Registry.Sound`).
A chain that has come to an end at an entry has only known ids on it, links of known ids never
change, and the end, being known, can no longer get one. So the chain stays as it is
(`Registry.Grows.target?_eq`).

A chain that ends at an unknown id or not at all can still change its end, and of such an id nothing
is kept.
-/

namespace SchemaTree

open Relation StateTransition Json

/-! ## Growth -/

namespace Registry

variable {α : Type} {r s t : Registry α} {id : String} {e : α}

/-- What one registry has is the same in another one. -/
structure Grows (r s : Registry α) : Prop where
  entry : ∀ {id e}, Members.find? id r.entries = some e → Members.find? id s.entries = some e
  link : ∀ {id e}, Members.find? id r.entries = some e → link s.links id = link r.links id
  found : ∀ {id e}, Members.find? id r.found = some e → Members.find? id s.found = some e

namespace Grows

protected theorem refl (r : Registry α) : r.Grows r := ⟨fun h ↦ h, fun _ ↦ rfl, fun h ↦ h⟩

protected theorem trans (hrs : r.Grows s) (hst : s.Grows t) : r.Grows t where
  entry := fun h ↦ hst.entry (hrs.entry h)
  link := fun h ↦ (hst.link (hrs.entry h)).trans (hrs.link h)
  found := fun h ↦ hst.found (hrs.found h)

/-- **A chain that has come to an end does not grow.** All ids on it are known, its end too. -/
theorem target?_eq (h : r.Grows s) (hr : r.WellLinked) {target : String}
    (htarget : r.target? id = some target) (he : Members.find? target r.entries = some e) :
    s.target? id = some target := by
  rw [target?_eq_some_iff, mem_eval] at htarget ⊢
  obtain ⟨hreaches, hend⟩ := htarget
  refine ⟨ReflTransGen.mono ?_ _ _ hreaches, (h.link he).trans hend⟩
  intro a b hab
  -- an id with a link has an entry, and so its link is the same in both
  match ha : Members.find? a r.entries with
  | none => exact absurd ((hr a ha).symm.trans hab) nofun
  | some _ => exact (h.link ha).trans hab

end Grows

theorem grows_register (hr : r.WellLinked) (id : String) (e : α) (reference : Option String) :
    r.Grows (r.register id e reference) := by
  match hid : Members.find? id r.entries with
  | some known =>
    rw [register_of_known (by rw [hid]; rfl)]
    exact .refl r
  | none =>
    refine ⟨?_, ?_, ?_⟩
    · intro other known hother
      rw [entries_register hid, Members.find?_append, hother, Option.some_or]
    · intro other known hother
      rw [link_register hr hid, if_neg]
      rintro rfl
      exact absurd (hid.symm.trans hother) nofun
    · intro other kept hother
      rw [register, if_neg (by simp [hid])]
      exact hother

/-! ## Soundness of what is kept -/

/-- Only known ids have links, and what is kept for an id is the entry at the end of its chain. -/
structure Sound (r : Registry α) : Prop where
  linked : r.WellLinked
  found : ∀ {id e}, Members.find? id r.found = some e →
    ∃ target, r.target? id = some target ∧ Members.find? target r.entries = some e

theorem sound_empty : ({} : Registry α).Sound := ⟨wellLinked_empty, fun h ↦ absurd h nofun⟩

/-- The value of a look-up. -/
theorem value_lookup (r : Registry α) (id : String) :
    (r.lookup id).value = (r.target? id).bind fun target ↦ Members.find? target r.entries := by
  rw [lookup]
  match r.target? id with
  | none => rfl
  | some target => rfl

theorem value_lookup_eq_some_iff :
    (r.lookup id).value = some e ↔
      ∃ target, r.target? id = some target ∧ Members.find? target r.entries = some e := by
  rw [value_lookup, Option.bind_eq_some_iff]

/-- A look-up that finds something reports nothing. -/
theorem events_lookup (h : (r.lookup id).value = some e) : (r.lookup id).events = [] := by
  obtain ⟨target, htarget, -⟩ := value_lookup_eq_some_iff.mp h
  rw [lookup, htarget]
  rfl

/-- A registry with the entries and links of another one, in which more may be kept. -/
structure Consulted (r s : Registry α) : Prop where
  entries : s.entries = r.entries
  links : s.links = r.links
  sound : s.Sound
  grows : r.Grows s

theorem Sound.consulted (hr : r.Sound) : r.Consulted r :=
  ⟨rfl, rfl, hr, .refl r⟩

theorem Sound.keep (hr : r.Sound) (hvalue : (r.lookup id).value = some e) :
    r.Consulted { r with found := r.found ++ [(id, e)] } := by
  refine ⟨rfl, rfl, ⟨hr.linked, ?_⟩, fun h ↦ h, fun _ ↦ rfl, ?_⟩
  · intro other kept hkept
    rw [Members.find?_append, Option.or_eq_some_iff] at hkept
    obtain hkept | ⟨-, hkept⟩ := hkept
    · exact hr.found hkept
    · rw [Members.find?] at hkept
      split at hkept
      · next hid =>
        obtain rfl := Option.some.inj hkept
        exact hid ▸ value_lookup_eq_some_iff.mp hvalue
      · cases hkept
  · intro other kept hkept
    rw [Members.find?_append, hkept, Option.some_or]

/-- **Using what is kept** gives the same answer and the same reports as looking an id up. -/
theorem Sound.resolve_eq (hr : r.Sound) (id : String) :
    ∃ s, r.Consulted s ∧
      r.resolve id = ⟨((r.lookup id).value, s), (r.lookup id).events⟩ := by
  rw [resolve]
  match hfound : Members.find? id r.found with
  | some e =>
    have hvalue := value_lookup_eq_some_iff.mpr (hr.found hfound)
    refine ⟨r, hr.consulted, ?_⟩
    rw [hvalue, events_lookup hvalue]
    rfl
  | none =>
    match hvalue : (r.lookup id).value with
    | none =>
      refine ⟨r, hr.consulted, Logged.ext ?_ ?_⟩
      · rw [Logged.value_bind, hvalue]
        rfl
      · rw [Logged.events_bind, hvalue]
        exact List.append_nil _
    | some e =>
      refine ⟨_, hr.keep hvalue, Logged.ext ?_ ?_⟩
      · rw [Logged.value_bind, hvalue]
        rfl
      · rw [Logged.events_bind, hvalue]
        exact List.append_nil _

/-- Of an id that leads nowhere nothing is kept. -/
theorem Sound.resolve_eq_of_none (hr : r.Sound) (h : (r.resolve id).value.1 = none) :
    Members.find? id r.found = none ∧ (r.resolve id).value.2 = r := by
  obtain ⟨s, -, hs⟩ := hr.resolve_eq id
  have hvalue : (r.lookup id).value = none := by
    rw [hs] at h
    exact h
  have hfound : Members.find? id r.found = none := by
    by_contra hfound
    obtain ⟨e, he⟩ := Option.ne_none_iff_exists'.mp hfound
    exact absurd (hvalue.symm.trans (value_lookup_eq_some_iff.mpr (hr.found he))) nofun
  refine ⟨hfound, ?_⟩
  rw [resolve, hfound, Logged.value_bind, hvalue]
  rfl

theorem Sound.register (hr : r.Sound) (id : String) (e : α) (reference : Option String) :
    (r.register id e reference).Sound := by
  have hgrows := grows_register hr.linked id e reference
  refine ⟨hr.linked.register id e reference, ?_⟩
  intro other kept hkept
  have hfound : Members.find? other r.found = some kept := by
    rw [Registry.register] at hkept
    split at hkept <;> exact hkept
  obtain ⟨target, htarget, hentry⟩ := hr.found hfound
  exact ⟨target, hgrows.target?_eq hr.linked htarget hentry, hgrows.entry hentry⟩

/-! ## Validations on a registry -/

/-- A validation and one that keeps what it finds come to the same, as long as the second one starts
in a registry in which no more than what is right has been kept. -/
def Agrees (r : Registry Shape) (α : Type) (x : Validating α) (y : Consulting α) : Prop :=
  ∀ s, r.Consulted s → ∃ s', r.Consulted s' ∧ y.run s = ⟨(x.run.value, s'), x.run.events⟩

theorem simulation_agrees (r : Registry Shape) : Simulation (Agrees r) where
  pure a := fun s hs ↦ ⟨s, hs, rfl⟩
  bind := by
    intro α β x y f g hxy hfg s hs
    obtain ⟨t, ht, hy⟩ := hxy s hs
    have hrun : Consulting.run (y >>= g) s = y.run s >>= fun reached ↦
        reached.1.elim (pure (none, reached.2)) fun a ↦ (g a).run reached.2 := by
      change StateT.run (OptionT.run (y >>= g)) s = _
      rw [OptionT.run_bind, Option.elimM, StateT.run_bind]
      refine congrArg (y.run s >>= ·) (funext fun reached ↦ ?_)
      obtain ⟨_ | a, t⟩ := reached
      · rfl
      · rfl
    have hx : (x >>= f).run = x.run >>= fun result ↦
        result.elim (pure none) fun a ↦ (f a).run := OptionT.run_bind f
    rw [hrun, hy, hx]
    cases hvalue : x.run.value with
    | none =>
      refine ⟨t, ht, Logged.ext ?_ ?_⟩
      · rw [Logged.value_bind, Logged.value_bind, hvalue]
        rfl
      · rw [Logged.events_bind, Logged.events_bind, hvalue]
        rfl
    | some a =>
      obtain ⟨u, hu, hg⟩ := hfg a t ht
      refine ⟨u, hu, Logged.ext ?_ ?_⟩
      · rw [Logged.value_bind, Logged.value_bind, hvalue]
        change ((g a).run t).value = ((f a).run.value, u)
        rw [hg]
      · rw [Logged.events_bind, Logged.events_bind, hvalue]
        change x.run.events ++ ((g a).run t).events = x.run.events ++ (f a).run.events
        rw [hg]

theorem agrees_failure (r : Registry Shape) (α : Type) : Agrees r α failure failure :=
  fun s hs ↦ ⟨s, hs, rfl⟩

theorem agrees_report (r : Registry Shape) (event : Event) :
    Agrees r Unit (Validating.report event) (Consulting.report event) :=
  fun s hs ↦ ⟨s, hs, rfl⟩

/-- Resolving an id comes to the same as looking it up. -/
theorem agrees_resolve (r : Registry Shape) (id : String) :
    Agrees r (Option Shape) (OptionT.lift (r.lookup id)) (Consulting.resolve id) := by
  intro s hs
  have hlookup : s.lookup id = r.lookup id := by
    rw [lookup, lookup, target?, target?, hs.links, hs.entries]
  obtain ⟨s', hs', hresolve⟩ := hs.sound.resolve_eq id
  rw [hlookup] at hresolve
  refine ⟨s', ⟨hs'.entries.trans hs.entries, hs'.links.trans hs.links, hs'.sound,
    hs.grows.trans hs'.grows⟩, ?_⟩
  change Logged.mk (some (s.resolve id).value.1, (s.resolve id).value.2)
    ((s.resolve id).events ++ []) = _
  rw [hresolve, List.append_nil]
  exact Logged.ext rfl (List.append_nil _).symm

/-- **Keeping what is found changes no verdict.** -/
theorem agrees_follow (r : Registry Shape) (bound : Nat) (id : String) (v : Json) :
    Agrees r Verdict (r.follow bound id v) (Consulting.follow bound id v) := by
  induction bound generalizing id v with
  | zero => exact agrees_failure r Verdict
  | succ bound ih =>
    have hsim := simulation_agrees r
    rw [Registry.follow, Consulting.follow]
    refine hsim.bind (agrees_resolve r id) fun target ↦ ?_
    match target with
    | none => exact hsim.bind (agrees_report r _) fun _ ↦ hsim.pure _
    | some shape => exact hsim.bind (hsim.validate ih shape v) fun _ ↦ hsim.pure _

theorem Sound.value_follow {r : Registry Shape} (hr : r.Sound) (bound : Nat) (id : String)
    (v : Json) :
    ((Consulting.follow bound id v).run r).value.1 = (r.follow bound id v).run.value := by
  obtain ⟨s, -, hs⟩ := agrees_follow r bound id v r hr.consulted
  rw [hs]

/-! ## Histories -/

/-- What is asked of a registry. -/
inductive Call where
  | register (id : String) (entry : Shape) (reference : Option String)
  /-- The id at the end of a chain is asked for. -/
  | target (id : String)
  | resolve (id : String)
  /-- Data is validated against what an id leads to. -/
  | validate (bound : Nat) (id : String) (value : Json)

/-- What a call leaves. -/
def Call.after : Call → Registry Shape → Registry Shape
  | .register id entry reference, r => r.register id entry reference
  | .target _, r => r
  | .resolve id, r => (r.resolve id).value.2
  | .validate bound id value, r => ((Consulting.follow bound id value).run r).value.2

/-- What calls leave, one after the other. -/
def after (calls : List Call) (r : Registry Shape) : Registry Shape :=
  calls.foldl (fun r call ↦ call.after r) r

/-- **One call** keeps a registry sound and takes nothing from it. -/
theorem Sound.call {r : Registry Shape} (hr : r.Sound) (call : Call) :
    (call.after r).Sound ∧ r.Grows (call.after r) := by
  match call with
  | .register id entry reference =>
    exact ⟨hr.register id entry reference, grows_register hr.linked id entry reference⟩
  | .target _ => exact ⟨hr, .refl r⟩
  | .resolve id =>
    obtain ⟨s, hconsulted, hs⟩ := hr.resolve_eq id
    rw [Call.after, hs]
    exact ⟨hconsulted.sound, hconsulted.grows⟩
  | .validate bound id value =>
    obtain ⟨s, hconsulted, hs⟩ := agrees_follow r bound id value r hr.consulted
    rw [Call.after, hs]
    exact ⟨hconsulted.sound, hconsulted.grows⟩

/-- **A whole history** does so too. -/
theorem Sound.calls {r : Registry Shape} (hr : r.Sound) (calls : List Call) :
    (after calls r).Sound ∧ r.Grows (after calls r) := by
  induction calls generalizing r with
  | nil => exact ⟨hr, .refl r⟩
  | cons call calls ih =>
    obtain ⟨hsound, hgrows⟩ := hr.call call
    obtain ⟨hsound', hgrows'⟩ := ih hsound
    exact ⟨hsound', hgrows.trans hgrows'⟩

/-- **What is kept is never stale.** Take any history of a registry and any continuation of it. What
is registered stays as it is, and only registered ids have links. What is kept for an id is the
entry at the end of its chain, so that resolving an id, and validating against it, is the same as
looking it up. An id that leads somewhere goes on to lead there; of one that leads nowhere nothing
is kept. -/
theorem kept_never_stale (history later : List Call) :
    let r := after history {}
    let s := after later r
    (∀ id e, Members.find? id r.entries = some e →
        Members.find? id s.entries = some e ∧ link s.links id = link r.links id) ∧
      Members.keys r.links ⊆ Members.keys r.entries ∧
      (∀ id e, Members.find? id r.found = some e → ∃ target, r.target? id = some target ∧
        link r.links target = none ∧ Members.find? target r.entries = some e) ∧
      (∀ id, (r.resolve id).value.1 = (r.lookup id).value ∧
        (r.resolve id).events = (r.lookup id).events) ∧
      (∀ bound id v, ((Consulting.follow bound id v).run r).value.1 =
        (r.follow bound id v).run.value) ∧
      (∀ id e, (r.resolve id).value.1 = some e → (s.resolve id).value.1 = some e) ∧
      ∀ id, (r.resolve id).value.1 = none →
        Members.find? id r.found = none ∧ (r.resolve id).value.2 = r := by
  intro r s
  obtain ⟨hr, -⟩ : r.Sound ∧ _ := sound_empty.calls history
  obtain ⟨hs, hgrows⟩ : s.Sound ∧ r.Grows s := hr.calls later
  have hresolve {q : Registry Shape} (hq : q.Sound) (id : String) :
      (q.resolve id).value.1 = (q.lookup id).value ∧
        (q.resolve id).events = (q.lookup id).events := by
    obtain ⟨q', -, hq'⟩ := hq.resolve_eq id
    rw [hq']
    exact ⟨rfl, rfl⟩
  refine ⟨fun id e he ↦ ⟨hgrows.entry he, hgrows.link he⟩, ?_, ?_, fun id ↦ hresolve hr id,
    fun bound id v ↦ hr.value_follow bound id v, ?_, fun id h ↦ hr.resolve_eq_of_none h⟩
  · intro id hid
    by_contra hentry
    have hlink := hr.linked id (Members.find?_eq_none_iff.mpr hentry)
    exact Members.find?_eq_none_iff.mp hlink hid
  · intro id e he
    obtain ⟨target, htarget, hentry⟩ := hr.found he
    exact ⟨target, htarget, (mem_eval.mp (target?_eq_some_iff.mp htarget)).2, hentry⟩
  · intro id e he
    rw [(hresolve hr id).1, value_lookup_eq_some_iff] at he
    obtain ⟨target, htarget, hentry⟩ := he
    rw [(hresolve hs id).1, value_lookup_eq_some_iff]
    exact ⟨target, hgrows.target?_eq hr.linked htarget hentry, hgrows.entry hentry⟩

/-- The first registration of an id counts. -/
example : (after [.register "x" (.scalar .text) none, .resolve "x",
    .register "x" (.scalar .number) none] {}).found = [("x", .scalar .text)] := rfl

end Registry

end SchemaTree
