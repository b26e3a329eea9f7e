import SchemaTree.Files.Write
import SchemaTree.Proofs.Steps
import Mathlib.Algebra.Order.BigOperators.Group.List
import Mathlib.Algebra.Order.Group.Nat

/-!
# What writing a file changes

A write makes the folders that it needs, puts the content into a temporary file, and moves that to
its place. Whatever fails, the only trace is folders (`FileTree.AddsFolders`): the name of the
temporary file is longer than all names there are, so nothing is lost when it is made and nothing is
left when it is erased. If nothing fails, the path leads to the content and no other file has
changed (`FileTree.Stores`).

Steps on files keep what they did before they failed, so what is proved of a step is where it ends
after an error and where it ends with a result (`Lands`).
-/

namespace SchemaTree

variable {ε σ α β : Type}

/-! ## Where a step ends -/

/-- A step that ended with an error left a state with `E`, and one that ended with a result left a
state that satisfies `Q` with it. -/
def Lands (E : σ → Prop) (Q : α → σ → Prop) : Except ε α × σ → Prop
  | (.error _, s) => E s
  | (.ok a, s) => Q a s

theorem Lands.mono {E E' : σ → Prop} {Q Q' : α → σ → Prop} {ended : Except ε α × σ}
    (h : Lands E Q ended) (hE : ∀ s, E s → E' s) (hQ : ∀ a s, Q a s → Q' a s) :
    Lands E' Q' ended := by
  match ended with
  | (.error _, s) => exact hE s h
  | (.ok a, s) => exact hQ a s h

/-! ## Changes of files -/

namespace FileTree

variable {t t' t'' : FileTree} {l : Location} {p : Path} {content : String}

/-- The files are the same, and the only other entries that are new are folders. -/
structure AddsFolders (t t' : FileTree) : Prop where
  working : t'.working = t.working
  entry (l : Location) :
    t'.entryAt? l = t.entryAt? l ∨ t.entryAt? l = none ∧ t'.entryAt? l = some .folder

theorem AddsFolders.refl (t : FileTree) : t.AddsFolders t := ⟨rfl, fun _ ↦ .inl rfl⟩

theorem AddsFolders.trans (h : t.AddsFolders t') (h' : t'.AddsFolders t'') : t.AddsFolders t'' := by
  refine ⟨h'.working.trans h.working, fun l ↦ ?_⟩
  rcases h.entry l with hl | ⟨hnone, hfolder⟩
  · rcases h'.entry l with hl' | ⟨hnone, hfolder⟩
    · exact .inl (hl'.trans hl)
    · exact .inr ⟨hl ▸ hnone, hfolder⟩
  · rcases h'.entry l with hl' | ⟨hnone', -⟩
    · exact .inr ⟨hnone, hl'.trans hfolder⟩
    · exact absurd (hfolder.symm.trans hnone') nofun

theorem addsFolders_put (h : t.entryAt? l = none) :
    t.AddsFolders (t.put l .folder) := by
  have hroot : l ≠ [] := by
    rintro rfl
    exact absurd (t.entryAt?_root.symm.trans h) nofun
  refine ⟨rfl, fun k ↦ ?_⟩
  rw [t.entryAt?_put hroot]
  split
  · next hk => exact .inr ⟨hk ▸ h, rfl⟩
  · exact .inl rfl

/-- The files are the same but for new folders, and each of these is on the way to the path or where
it leads. -/
structure Paves (t t' : FileTree) (p : Path) : Prop extends AddsFolders t t' where
  onTheWay (l : Location) (h : t'.entryAt? l ≠ t.entryAt? l) :
    ∃ q : Path, q.absolute = p.absolute ∧ q.steps <+: p.steps ∧ t'.locate q = .ok l

/-- A file with the content takes its place where the path leads, which is not at a folder, and
nothing else changes. -/
structure Puts (t t' : FileTree) (p : Path) (content : String) (l : Location) : Prop where
  working : t'.working = t.working
  locate : t.locate p = .ok l
  notFolder : t.entryAt? l ≠ some .folder
  entry (k : Location) : t'.entryAt? k = if k = l then some (.file content) else t.entryAt? k

/-- Folders are made on the way to the path, and then a file with the content takes its place where
the path leads. -/
def Receives (t t' : FileTree) (p : Path) (content : String) : Prop :=
  ∃ t₁ l, t.Paves t₁ p.parent ∧ t₁.Puts t' p content l

/-- The path leads to a file with the content, where no folder was, and apart from that the only
entries that are new are folders. -/
structure StoresAt (t t' : FileTree) (p : Path) (content : String) (l : Location) : Prop where
  working : t'.working = t.working
  locate : t'.locate p = .ok l
  notFolder : t.entryAt? l ≠ some .folder
  stored : t'.entryAt? l = some (.file content)
  entry (k : Location) (hk : k ≠ l) :
    t'.entryAt? k = t.entryAt? k ∨ t.entryAt? k = none ∧ t'.entryAt? k = some .folder

/-- All that has changed is that the path leads to a file with the content, and that there may be
new folders. -/
def Stores (t t' : FileTree) (p : Path) (content : String) : Prop := ∃ l, t.StoresAt t' p content l

theorem AddsFolders.stores (h : t.AddsFolders t') (h' : t'.Stores t'' p content) :
    t.Stores t'' p content := by
  obtain ⟨l, h'⟩ := h'
  refine ⟨l, h'.working.trans h.working, h'.locate, ?_, h'.stored, fun k hk ↦ ?_⟩
  · intro hfolder
    rcases h.entry l with hl | ⟨hnone, -⟩
    · exact h'.notFolder (hl.trans hfolder)
    · exact absurd (hfolder.symm.trans hnone) nofun
  · rcases h.entry k with hk' | ⟨hnone, hfolder⟩
    · rcases h'.entry k hk with hk'' | ⟨hnone, hfolder⟩
      · exact .inl (hk''.trans hk')
      · exact .inr ⟨hk' ▸ hnone, hfolder⟩
    · rcases h'.entry k hk with hk'' | ⟨hnone', -⟩
      · exact .inr ⟨hnone, hk''.trans hfolder⟩
      · exact absurd (hfolder.symm.trans hnone') nofun

theorem Stores.read (h : t.Stores t' p content) : t'.read p = .ok content := by
  obtain ⟨l, h⟩ := h
  rw [FileTree.read, h.locate]
  dsimp only
  rw [h.stored]

/-- Where there are the same folders and more, a path that leads somewhere leads to the same place.
-/
theorem locate_of_folders (hworking : t'.working = t.working)
    (h : ∀ k, t.entryAt? k = some .folder → t'.entryAt? k = some .folder)
    (hl : t.locate p = .ok l) : t'.locate p = .ok l := by
  have hfollow (steps : List String) (here : Location) (hl : t.follow here steps = .ok l) :
      t'.follow here steps = .ok l := by
    induction steps generalizing here with
    | nil => exact hl
    | cons step rest ih =>
      rw [follow] at hl ⊢
      split at hl
      · next hfolder =>
        rw [h here hfolder]
        dsimp only
        split at hl
        · exact absurd hl nofun
        · next hlength =>
          rw [if_neg hlength]
          exact ih _ hl
      · exact absurd hl nofun
      · exact absurd hl nofun
  rw [FileTree.locate] at hl ⊢
  split at hl
  · exact absurd hl nofun
  · next hnull =>
    rw [if_neg hnull, hworking]
    exact hfollow _ _ hl

/-- No entry has the name of a temporary file. -/
theorem entryAt?_freshName (t : FileTree) (folder : Location) (name : String) :
    t.entryAt? (folder ++ [t.freshName name]) = none := by
  rw [entryAt?, if_neg (by simp), Option.map_eq_none_iff, List.find?_eq_none]
  rintro ⟨l, e⟩ hmem hl
  obtain rfl : l = folder ++ [t.freshName name] := by simpa using hl
  have hname : t.freshName name ∈ t.entries.flatMap fun e ↦ e.1 :=
    List.mem_flatMap.mpr ⟨_, hmem, by simp⟩
  have hle : (t.freshName name).length ≤ (String.join (t.entries.flatMap fun e ↦ e.1)).length := by
    rw [String.length_join]
    exact List.le_sum_of_mem (List.mem_map_of_mem hname)
  have hlt : (String.join (t.entries.flatMap fun e ↦ e.1)).length < (t.freshName name).length := by
    rw [freshName]
    simp only [String.length_append, String.length_ofList, List.length_replicate]
    have hdot : ".".length = 1 := rfl
    omega
  exact absurd hle (Nat.not_le_of_lt hlt)

/-- Where folders are added, a path that leads somewhere leads to the same place. -/
theorem AddsFolders.locate (h : t.AddsFolders t') (hl : t.locate p = .ok l) : t'.locate p = .ok l :=
  locate_of_folders h.working
    (fun k hk ↦ (h.entry k).elim (fun hk' ↦ hk'.trans hk) fun hk' ↦
      absurd (hk.symm.trans hk'.1) nofun)
    hl

/-- Where a file is put, a path that leads somewhere leads to the same place. -/
theorem Puts.locate_of {q : Path} {k : Location} (h : t.Puts t' p content l)
    (hk : t.locate q = .ok k) : t'.locate q = .ok k := by
  refine locate_of_folders h.working (fun k hfolder ↦ ?_) hk
  have hne : k ≠ l := by
    rintro rfl
    exact h.notFolder hfolder
  rw [h.entry, if_neg hne, hfolder]

theorem Puts.stores (h : t.Puts t' p content l) : t.Stores t' p content :=
  ⟨l, h.working, h.locate_of h.locate, h.notFolder, by rw [h.entry, if_pos rfl],
    fun k hk ↦ .inl (by rw [h.entry, if_neg hk])⟩

theorem Receives.stores (h : t.Receives t' p content) : t.Stores t' p content := by
  obtain ⟨t₁, l, hpaves, hputs⟩ := h
  exact hpaves.toAddsFolders.stores hputs.stores

theorem Paves.of_entries (h : ∀ k, t'.entryAt? k = t.entryAt? k)
    (hworking : t'.working = t.working) (p : Path) : t.Paves t' p :=
  ⟨⟨hworking, fun k ↦ .inl (h k)⟩, fun k hk ↦ absurd (h k) hk⟩

theorem Paves.refl (t : FileTree) (p : Path) : t.Paves t p := .of_entries (fun _ ↦ rfl) rfl p

theorem Paves.trans (h : t.Paves t' p) (h' : t'.Paves t'' p) : t.Paves t'' p := by
  refine ⟨h.toAddsFolders.trans h'.toAddsFolders, fun k hk ↦ ?_⟩
  by_cases hne : t''.entryAt? k = t'.entryAt? k
  · obtain ⟨q, habsolute, hsteps, hlocate⟩ := h.onTheWay k (hne ▸ hk)
    exact ⟨q, habsolute, hsteps, h'.toAddsFolders.locate hlocate⟩
  · exact h'.onTheWay k hne

/-- What is on the way to a parent is on the way. -/
theorem Paves.of_parent (h : t.Paves t' p.parent) : t.Paves t' p := by
  refine ⟨h.toAddsFolders, fun k hk ↦ ?_⟩
  obtain ⟨q, habsolute, hsteps, hlocate⟩ := h.onTheWay k hk
  exact ⟨q, habsolute, hsteps.trans (List.dropLast_prefix _), hlocate⟩

/-- A folder is made where a path leads. -/
theorem paves_put (hl : t.locate p = .ok l) (h : t.entryAt? l = none) :
    t.Paves (t.put l .folder) p := by
  have hadds := addsFolders_put h
  have hroot : l ≠ [] := by
    rintro rfl
    exact absurd (t.entryAt?_root.symm.trans h) nofun
  refine ⟨hadds, fun k hk ↦ ?_⟩
  have hkl : k = l := by
    by_contra hne
    rw [t.entryAt?_put hroot, if_neg hne] at hk
    exact hk rfl
  exact ⟨p, rfl, List.prefix_rfl, hkl ▸ hadds.locate hl⟩

theorem ne_nil_of_entryAt?_ne (h : t.entryAt? l ≠ some .folder) : l ≠ [] := by
  rintro rfl
  exact h t.entryAt?_root

/-- A new file does not change where there are folders. -/
theorem entryAt?_put_file_eq_folder_iff (h : t.entryAt? l = none) (content : String)
    (k : Location) :
    (t.put l (.file content)).entryAt? k = some .folder ↔ t.entryAt? k = some .folder := by
  rw [entryAt?_put _ (ne_nil_of_entryAt?_ne (by rw [h]; exact nofun))]
  split
  · next hk =>
    rw [hk, h]
    exact ⟨nofun, nofun⟩
  · rfl

/-- A temporary file that is erased leaves no trace. -/
theorem entryAt?_erase_put (h : t.entryAt? l = none) (e : Entry) (k : Location) :
    ((t.put l e).erase l).entryAt? k = t.entryAt? k := by
  have hroot : l ≠ [] := ne_nil_of_entryAt?_ne (by rw [h]; exact nofun)
  rw [entryAt?_erase _ hroot]
  split
  · next hk => rw [hk, h]
  · next hk => rw [entryAt?_put _ hroot, if_neg hk]

end FileTree

/-! ## Steps on files -/

namespace Filing

variable {t : FileTree} {E : FileTree → Prop} {Q : α → FileTree → Prop} {R : β → FileTree → Prop}
  {p : Path} {content : String}

theorem run_bind (x : Filing α) (f : α → Filing β) (t : FileTree) :
    (x >>= f).run t = match x.run t with
      | (.error e, t') => (.error e, t')
      | (.ok a, t') => (f a).run t' := by
  change (ExceptT.bindCont f (x.run t).1).run (x.run t).2 = _
  obtain ⟨result, t'⟩ := x.run t
  cases result <;> rfl

theorem lands_bind {x : Filing α} {f : α → Filing β} (hx : Lands E Q (x.run t))
    (hf : ∀ a t', Q a t' → Lands E R ((f a).run t')) : Lands E R ((x >>= f).run t) := by
  rw [run_bind]
  generalize x.run t = ended at hx
  obtain ⟨result, t'⟩ := ended
  match result with
  | .error e => exact hx
  | .ok a => exact hf a t' hx

theorem lands_get : Lands E (fun t₁ t₂ ↦ t₁ = t ∧ t₂ = t) ((get : Filing FileTree).run t) :=
  ⟨rfl, rfl⟩

theorem lands_locate (p : Path) :
    Lands (· = t) (fun l t' ↦ t' = t ∧ t.locate p = .ok l) ((locate p).run t) := by
  rw [locate]
  refine lands_bind lands_get ?_
  rintro _ t ⟨rfl, rfl⟩
  split
  · next l hl => exact ⟨rfl, hl⟩
  · exact (rfl : t = t)

theorem lands_makeFolder (p : Path) :
    Lands (· = t) (fun _ t' ↦ t.Paves t' p) ((makeFolder p).run t) := by
  refine lands_bind (lands_locate p) ?_
  rintro l t ⟨rfl, hl⟩
  refine lands_bind lands_get ?_
  rintro _ t ⟨rfl, rfl⟩
  split
  · exact (rfl : t = t)
  · next h => exact FileTree.paves_put hl h

theorem lands_acceptFolder (mayExist : Bool) (p : Path) (e : FileError) :
    Lands (· = t) (fun _ t' ↦ t' = t) ((acceptFolder mayExist p e).run t) := by
  change Lands _ _ ((if mayExist && t.hasFolder p then pure () else throw e : Filing Unit).run t)
  split
  · exact (rfl : t = t)
  · exact (rfl : t = t)

/-- Making folders adds folders on the way, also where it fails half way. -/
theorem lands_makeFolders (mayExist : Bool) (p : Path) :
    Lands (t.Paves · p) (fun _ t' ↦ t.Paves t' p) ((makeFolders mayExist p).run t) := by
  induction hn : p.steps.length using Nat.strong_induction_on generalizing mayExist p t with
  | _ n ih =>
    have haccept {t t' : FileTree} (h : t.Paves t' p) (mayExist : Bool) (e : FileError) :
        Lands (t.Paves · p) (fun _ t' ↦ t.Paves t' p) ((acceptFolder mayExist p e).run t') :=
      (lands_acceptFolder mayExist p e).mono (fun _ hs ↦ hs ▸ h) fun _ _ hs ↦ hs ▸ h
    rw [makeFolders]
    refine lands_bind lands_get ?_
    rintro _ t ⟨rfl, rfl⟩
    have hmade := lands_makeFolder (t := t) p
    split
    · next made =>
      rw [made] at hmade
      exact hmade
    · next t₀ made =>
      rw [made] at hmade
      obtain rfl : t₀ = t := hmade
      refine lands_bind (Q := fun _ ↦ (· = t₀)) rfl ?_
      rintro _ t rfl
      split
      · exact .refl t p
      · next hsteps =>
        refine lands_bind ((ih _ (hn ▸ Path.length_steps_parent_lt hsteps) true p.parent rfl).mono
          (fun _ h ↦ h.of_parent) fun _ _ h ↦ h.of_parent) ?_
        intro _ t₁ hparent
        refine lands_bind lands_get ?_
        rintro _ t₂ ⟨rfl, rfl⟩
        have hmade := lands_makeFolder (t := t₂) p
        split
        · next made =>
          rw [made] at hmade
          exact hparent.trans hmade
        · exact hparent
        · exact haccept hparent mayExist _
    · exact haccept (.refl t p) mayExist _

theorem lands_tryCatch (E' : FileTree → Prop) {x : Filing α} {handler : FileError → Filing α}
    (hx : Lands E' Q (x.run t)) (hhandler : ∀ e t', E' t' → Lands E Q ((handler e).run t')) :
    Lands E Q ((tryCatch x handler).run t) := by
  have hrun : (tryCatch x handler).run t = match x.run t with
      | (.error e, t') => (handler e).run t'
      | (.ok a, t') => (.ok a, t') := by
    rw [run, run]
    simp only [tryCatch, tryCatchThe, MonadExceptOf.tryCatch, ExceptT.tryCatch, ExceptT.mk]
    change StateT.bind (m := Id) x _ t = _
    rw [StateT.bind]
    obtain ⟨result, t'⟩ := x t
    cases result <;> rfl
  rw [hrun]
  generalize x.run t = ended at hx
  obtain ⟨result, t'⟩ := ended
  match result with
  | .error e => exact hhandler e t' hx
  | .ok a => exact hx

theorem lands_checkName (name : String) :
    Lands (· = t) (fun _ ↦ (· = t)) ((checkName name).run t) := by
  rw [checkName]
  split
  · exact (rfl : t = t)
  · split
    · exact (rfl : t = t)
    · exact (rfl : t = t)

theorem lands_moveTo (source : Location) (content : String) (p : Path) :
    Lands (· = t) (fun _ t' ↦ ∃ l, t.locate p = .ok l ∧ t.entryAt? l ≠ some .folder ∧
      t' = (t.erase source).put l (.file content)) ((moveTo source content p).run t) := by
  rw [moveTo]
  split
  · exact (rfl : t = t)
  refine lands_bind (lands_locate p) ?_
  rintro l t ⟨rfl, hl⟩
  refine lands_bind lands_get ?_
  rintro _ t ⟨rfl, rfl⟩
  split
  · exact (rfl : t = t)
  · next hfolder => exact ⟨l, hl, hfolder, rfl⟩

/-- **Writing through a temporary file.** -/
theorem lands_writeThrough (p : Path) (content : String) :
    Lands (t.Paves · p.parent) (fun _ t' ↦ t.Receives t' p content)
      ((writeThrough p content).run t) := by
  rw [writeThrough]
  refine lands_bind (lands_makeFolders true p.parent) ?_
  intro _ t₁ hfolders
  refine lands_bind ((lands_locate p.parent).mono (fun _ hs ↦ hs ▸ hfolders) fun _ _ hs ↦ hs) ?_
  rintro folder t₁ ⟨rfl, -⟩
  refine lands_bind ((lands_checkName _).mono (fun _ hs ↦ hs ▸ hfolders) fun _ _ hs ↦ hs) ?_
  rintro _ t₁ rfl
  refine lands_bind lands_get ?_
  rintro _ t₁ ⟨rfl, rfl⟩
  generalize htemporary : folder ++ [t₁.freshName (p.name?.getD "")] = temporary
  have hnone : t₁.entryAt? temporary = none := htemporary ▸ t₁.entryAt?_freshName folder _
  refine lands_bind (Q := fun _ ↦ (· = t₁.put temporary (.file content))) rfl ?_
  rintro _ t₂ rfl
  have hentry (k : Location) := FileTree.entryAt?_erase_put hnone (.file content) k
  have herased : t₁.Paves ((t₁.put temporary (.file content)).erase temporary) p.parent :=
    .of_entries hentry rfl _
  refine lands_tryCatch (· = t₁.put temporary (.file content))
    ((lands_moveTo temporary content p).mono (fun _ hs ↦ hs) ?_) ?_
  · rintro _ _ ⟨l, hl, hfolder, rfl⟩
    have hsame := FileTree.entryAt?_put_file_eq_folder_iff hnone content
    refine ⟨t₁, l, hfolders, rfl, ?_, ?_, fun k ↦ ?_⟩
    · exact FileTree.locate_of_folders (t := t₁.put temporary (.file content)) rfl
        (fun k ↦ (hsame k).mp) hl
    · exact fun h ↦ hfolder ((hsame l).mpr h)
    · rw [FileTree.entryAt?_put _ (FileTree.ne_nil_of_entryAt?_ne hfolder), hentry]
  · rintro e _ rfl
    exact hfolders.trans herased

/-- **Writing in place.** -/
theorem lands_writeInPlace (p : Path) (content : String) :
    Lands (t.Paves · p.parent) (fun _ t' ↦ t.Receives t' p content)
      ((writeInPlace p content).run t) := by
  rw [writeInPlace]
  refine lands_bind (lands_makeFolders true p.parent) ?_
  intro _ t₁ hfolders
  refine lands_bind ((lands_locate p).mono (fun _ hs ↦ hs ▸ hfolders) fun _ _ hs ↦ hs) ?_
  rintro l t₁ ⟨rfl, hl⟩
  refine lands_bind lands_get ?_
  rintro _ t₁ ⟨rfl, rfl⟩
  split
  · exact hfolders
  · next hfolder =>
    exact ⟨t₁, l, hfolders, rfl, hl, hfolder,
      FileTree.entryAt?_put _ (FileTree.ne_nil_of_entryAt?_ne hfolder) _⟩

end Filing

/-! ## Steps that report -/

section Reporting

variable {s : σ} {E : σ → Prop} {Q : α → σ → Prop} {R : β → σ → Prop}

/-- Started in `s`, the step leaves a state with `E` if it fails, and a result and a state with `Q`
if it does not. -/
def Ends (s : σ) (step : Stateful ε σ α) (E : σ → Prop) (Q : α → σ → Prop) : Prop :=
  Lands E Q (StateT.run (ExceptT.run step) s).value

namespace Ends

theorem mono {E' : σ → Prop} {Q' : α → σ → Prop} {step : Stateful ε σ α} (h : Ends s step E Q)
    (hE : ∀ s, E s → E' s) (hQ : ∀ a s, Q a s → Q' a s) : Ends s step E' Q' :=
  Lands.mono h hE hQ

protected theorem bind {x : Stateful ε σ α} {f : α → Stateful ε σ β} (hx : Ends s x E Q)
    (hf : ∀ a s', Q a s' → Ends s' (f a) E R) : Ends s (x >>= f) E R := by
  unfold Ends at hx ⊢
  rw [ExceptT.run_bind, StateT.run_bind, Logged.value_bind]
  generalize (StateT.run (ExceptT.run x) s).value = ended at hx
  obtain ⟨result, s'⟩ := ended
  match result with
  | .error e => exact hx
  | .ok a => exact hf a s' hx

protected theorem get : Ends s (get : Stateful ε σ σ) E fun a s' ↦ a = s ∧ s' = s := ⟨rfl, rfl⟩

protected theorem set (s' : σ) : Ends s (set s' : Stateful ε σ PUnit) E fun _ s'' ↦ s'' = s' := rfl

theorem of_yields {step : Stateful ε σ α} {a : α} {s' : σ} (h : Ends s step E Q)
    (hyields : Yields step s a s') : Q a s' := by
  rw [Ends, hyields] at h
  exact h

/-- What a step keeps, it also keeps when it fails. -/
theorem of_keeps {P : σ → Prop} {Q : α → Prop} {step : Stateful ε σ α} (h : Keeps P step Q)
    (hs : P s) : Ends s step P fun a s' ↦ P s' ∧ Q a := by
  obtain ⟨hP, hQ⟩ := h s hs
  unfold Ends
  generalize (StateT.run (ExceptT.run step) s).value = ended at hP hQ
  obtain ⟨result, s'⟩ := ended
  match result with
  | .error e => exact hP
  | .ok a => exact ⟨hP, hQ a rfl⟩

end Ends

end Reporting

/-! ## Output -/

namespace Writing

variable {t : FileTree} {E : FileTree → Prop} {Q : α → FileTree → Prop}

theorem ends_ofFiling {step : Filing α} (h : Lands E Q (step.run t)) :
    Ends t (ofFiling step) E Q := by
  refine Ends.bind Ends.get ?_
  rintro _ t ⟨rfl, rfl⟩
  generalize step.run t = ended at h ⊢
  obtain ⟨result, t'⟩ := ended
  refine Ends.bind (Ends.set t') ?_
  rintro _ t' rfl
  match result with
  | .ok a => exact h
  | .error e => exact h

end Writing

variable {t : FileTree} (p : Path) (content : String)

theorem Path.ends_refuseExisting :
    Ends t p.refuseExisting (· = t) fun _ t' ↦ t' = t ∧ ¬ t.has p := by
  refine Ends.bind Ends.get ?_
  rintro _ t ⟨rfl, rfl⟩
  split
  · exact (rfl : t = t)
  · next hhas =>
    unfold FileTree.has? at hhas
    split at hhas
    · exact absurd hhas nofun
    · exact ⟨rfl, Bool.not_eq_true _ ▸ Except.ok.inj hhas⟩
  · exact (rfl : t = t)

theorem Path.ends_write :
    Ends t (p.write content) (t.Paves · p.parent) fun _ t' ↦ t.Receives t' p content := by
  refine Ends.bind (Writing.ends_ofFiling (Filing.lands_writeThrough p content)) ?_
  intro _ t' h
  exact h

/-- Output that is protected is only written where the path led nowhere. -/
theorem OutputSettings.ends_write_of_mode (settings : OutputSettings) :
    Ends t (settings.write p content) (t.Paves · p.parent) fun _ t' ↦
      (settings.mode.protects → ¬ t.has p) ∧ t.Receives t' p content := by
  have hwrite : Ends t (if settings.atomicWrite.truthy then p.write content
      else Writing.ofFiling (.writeInPlace p content)) (t.Paves · p.parent)
        fun _ t' ↦ t.Receives t' p content := by
    split
    · exact p.ends_write content
    · exact Writing.ends_ofFiling (Filing.lands_writeInPlace p content)
  rw [OutputSettings.write]
  split
  · refine Ends.bind (p.ends_refuseExisting.mono (fun _ hs ↦ hs ▸ .refl t _) fun _ _ hs ↦ hs) ?_
    rintro _ t ⟨rfl, hhas⟩
    exact hwrite.mono (fun _ hs ↦ hs) fun _ _ hs ↦ ⟨fun _ ↦ hhas, hs⟩
  · next hmode => exact hwrite.mono (fun _ hs ↦ hs) fun _ _ hs ↦ ⟨fun h ↦ absurd h hmode, hs⟩

/-- **What writing output changes.** -/
theorem OutputSettings.ends_write (settings : OutputSettings) (t : FileTree) (p : Path)
    (content : String) :
    Ends t (settings.write p content) t.AddsFolders fun _ t' ↦ t.Stores t' p content :=
  (settings.ends_write_of_mode p content).mono (fun _ h ↦ h.toAddsFolders) fun _ _ h ↦ h.2.stores

end SchemaTree
