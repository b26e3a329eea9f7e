import SchemaTree.Proofs.Overwriting

/-!
# When output cannot be written

A file can be written where nothing but folders stand on the way and no folder stands in its place;
folders that are missing on the way are made. One thing can still go wrong there. Output is written
through a temporary file whose name is a little longer than that of the output, so a name that is
itself short enough for a file can be too long for this (`OutputSettings.fails_write_iff`).
-/

namespace SchemaTree

/-! ## Where a file can be written -/

/-- A path from the root to an entry, without steps up, all of whose names are those of entries. -/
structure Path.Proper (p : Path) : Prop where
  absolute : p.absolute
  direct : Path.up ∉ p.steps
  plain : ¬ p.holdsNull
  short : ∀ step ∈ p.steps, step.utf8ByteSize ≤ FileTree.maxNameBytes

/-- The name of the temporary file for the file at the path is too long. -/
def Path.TooLongToReplace (p : Path) : Prop :=
  FileTree.maxNameBytes < (p.name?.getD "").utf8ByteSize + FileTree.extraNameBytes

instance (p : Path) : Decidable p.TooLongToReplace := by
  unfold Path.TooLongToReplace
  infer_instance

namespace FileTree

variable {t t' : FileTree} {here l k : Location} {p : Path} {content : String}

/-- No file stands at the location or on the way to it. -/
def Passable (t : FileTree) (l : Location) : Prop :=
  ∀ k, k <+: l → ∀ content, t.entryAt? k ≠ some (.file content)

/-- A file can be written under the path: there are no files on the way, and no folder in its place.
-/
structure Writable (t : FileTree) (p : Path) : Prop extends p.Proper where
  way : t.Passable p.parent.steps
  place : t.entryAt? p.steps ≠ some .folder

/-- At the location and all the way to it there are folders. -/
def Paved (t : FileTree) (l : Location) : Prop := ∀ k, k <+: l → t.entryAt? k = some .folder

theorem Paved.foldersAbove (h : t.Paved l) : t.FoldersAbove l := fun k hk _ ↦ h k hk

theorem FoldersAbove.paved (h : t.FoldersAbove l) (hl : t.entryAt? l = some .folder) :
    t.Paved l := by
  intro k hk
  by_cases heq : k = l
  · exact heq ▸ hl
  · exact h k hk heq

/-- Folders down to the parent are folders above. -/
theorem Paved.foldersAbove_of_dropLast (h : t.Paved l.dropLast) : t.FoldersAbove l := by
  intro k hk hne
  obtain ⟨rest, rfl⟩ := hk
  refine h k ?_
  rw [List.dropLast_append_of_ne_nil fun hrest ↦ hne (by rw [hrest, List.append_nil])]
  exact List.prefix_append _ _

/-- Folders are added at the location and on the way to it until it is paved. -/
structure PavesTo (t t' : FileTree) (l : Location) : Prop extends AddsFolders t t' where
  paved : t'.Paved l
  elsewhere (k : Location) (hk : ¬ k <+: l) : t'.entryAt? k = t.entryAt? k

theorem PavesTo.refl (h : t.Paved l) : t.PavesTo t l := ⟨.refl t, h, fun _ _ ↦ rfl⟩

/-- First the parent is paved, and then the location. -/
theorem PavesTo.of_dropLast {t₁ : FileTree} (h : t.PavesTo t₁ l.dropLast) (h' : t₁.PavesTo t' l) :
    t.PavesTo t' l where
  toAddsFolders := h.toAddsFolders.trans h'.toAddsFolders
  paved := h'.paved
  elsewhere k hk :=
    (h'.elsewhere k hk).trans (h.elsewhere k fun hk' ↦ hk (hk'.trans (List.dropLast_prefix _)))

theorem AddsFolders.passable (h : t.AddsFolders t') (hl : t.Passable l) : t'.Passable l := by
  intro k hk content hfile
  obtain hk' | ⟨-, hk'⟩ := h.entry k
  · exact hl k hk content (hk'.symm.trans hfile)
  · exact absurd (hk'.symm.trans hfile) nofun

/-! ## Where a proper path leads -/

/-- Steps that lead through folders lead to their end. -/
theorem follow_of_folders {steps : List String} (hdirect : Path.up ∉ steps)
    (hshort : ∀ step ∈ steps, step.utf8ByteSize ≤ maxNameBytes)
    (h : t.FoldersAbove (here ++ steps)) : t.follow here steps = .ok (here ++ steps) := by
  induction steps generalizing here with
  | nil => rw [follow, List.append_nil]
  | cons step rest ih =>
    obtain ⟨hstep, hrest⟩ := List.forall_mem_cons.mp hshort
    obtain ⟨hne, hdirect⟩ := not_or.mp (List.mem_cons.not.mp hdirect)
    have hhere : t.entryAt? here = some .folder := h here (List.prefix_append _ _) (by simp)
    rw [List.append_cons] at h ⊢
    rw [follow, hhere]
    dsimp only
    rw [if_neg (Nat.not_lt_of_le hstep), if_neg (Ne.symm hne)]
    exact ih hdirect hrest h

/-- Steps that lead through no file lead nowhere if a folder is missing. -/
theorem follow_of_missing {steps : List String} (hdirect : Path.up ∉ steps)
    (hshort : ∀ step ∈ steps, step.utf8ByteSize ≤ maxNameBytes)
    (hpassable : t.Passable (here ++ steps).dropLast) (habove : t.FoldersAbove here)
    (h : ¬ t.FoldersAbove (here ++ steps)) : t.follow here steps = .error .notFound := by
  induction steps generalizing here with
  | nil => exact absurd (by rwa [List.append_nil]) h
  | cons step rest ih =>
    obtain ⟨hstep, hrest⟩ := List.forall_mem_cons.mp hshort
    obtain ⟨hne, hdirect⟩ := not_or.mp (List.mem_cons.not.mp hdirect)
    have hprefix : here <+: (here ++ step :: rest).dropLast := by
      rw [List.dropLast_append_of_ne_nil (List.cons_ne_nil _ _)]
      exact List.prefix_append _ _
    rw [follow]
    cases hhere : t.entryAt? here with
    | none => rfl
    | some entry =>
      cases entry with
      | file content => exact absurd hhere (hpassable here hprefix content)
      | folder =>
        dsimp only
        rw [if_neg (Nat.not_lt_of_le hstep), if_neg (Ne.symm hne)]
        rw [List.append_cons] at hpassable h
        exact ih hdirect hrest hpassable (habove.append hhere step) h

theorem locate_of_foldersAbove_proper (hp : p.Proper) (h : t.FoldersAbove p.steps) :
    t.locate p = .ok p.steps := by
  rw [locate, if_neg hp.plain, if_pos hp.absolute]
  exact follow_of_folders hp.direct hp.short h

theorem locate_of_missing (hp : p.Proper) (hway : t.Passable p.parent.steps)
    (h : ¬ t.FoldersAbove p.steps) : t.locate p = .error .notFound := by
  rw [locate, if_neg hp.plain, if_pos hp.absolute]
  refine follow_of_missing hp.direct hp.short hway (fun k hk hne ↦ ?_) h
  exact absurd (List.prefix_nil.mp hk) hne

end FileTree

theorem Path.Proper.parent {p : Path} (h : p.Proper) : p.parent.Proper where
  absolute := h.absolute
  direct hmem := h.direct ((List.dropLast_prefix _).mem hmem)
  plain hnull := by
    obtain ⟨step, hmem, hstep⟩ := List.any_eq_true.mp hnull
    exact h.plain (List.any_eq_true.mpr ⟨step, (List.dropLast_prefix _).mem hmem, hstep⟩)
  short step hmem := h.short step ((List.dropLast_prefix _).mem hmem)

/-! ## Steps on files that succeed -/

namespace Filing

variable {t : FileTree} {p : Path} {content : String}

theorem run_get (t : FileTree) : (get : Filing FileTree).run t = (.ok t, t) := rfl

theorem run_locate (p : Path) (t : FileTree) : (locate p).run t = (t.locate p, t) := by
  rw [locate, run_bind, run_get]
  dsimp only
  cases t.locate p <;> rfl

theorem run_makeFolder (p : Path) (t : FileTree) :
    (makeFolder p).run t = match t.locate p with
      | .error e => (.error e, t)
      | .ok l => match t.entryAt? l with
        | some _ => (.error .alreadyThere, t)
        | none => (.ok (), t.put l .folder) := by
  rw [makeFolder, run_bind, run_locate]
  cases t.locate p with
  | error e => rfl
  | ok l =>
    dsimp only
    change (match t.entryAt? l with
      | some _ => throw .alreadyThere
      | none => set (t.put l .folder) : Filing Unit).run t = _
    cases t.entryAt? l <;> rfl

theorem run_acceptFolder (h : t.hasFolder p) (e : FileError) :
    (acceptFolder true p e).run t = (.ok (), t) := by
  change (if true && t.hasFolder p then pure () else throw e : Filing Unit).run t = _
  rw [h]
  rfl

/-- Where the folders above it exist, a folder is made unless it exists, too. -/
theorem makeFolder_cases (hp : p.Proper) (habove : t.FoldersAbove p.steps)
    (hpassable : t.Passable p.steps) :
    (∃ t', (makeFolder p).run t = (.ok (), t') ∧ t.PavesTo t' p.steps) ∨
      (makeFolder p).run t = (.error .alreadyThere, t) ∧ t.hasFolder p ∧ t.PavesTo t p.steps := by
  have hlocate := FileTree.locate_of_foldersAbove_proper hp habove
  rw [run_makeFolder, hlocate]
  dsimp only
  cases hentry : t.entryAt? p.steps with
  | none =>
    have hadds := FileTree.addsFolders_put hentry
    have hroot : p.steps ≠ [] := FileTree.ne_nil_of_entryAt?_ne (by rw [hentry]; exact nofun)
    have hput (k : Location) := t.entryAt?_put hroot .folder k
    refine .inl ⟨_, rfl, hadds, (hadds.foldersAbove habove).paved ?_, fun k hk ↦ ?_⟩
    · rw [hput, if_pos rfl]
    · rw [hput, if_neg fun heq : k = p.steps ↦ hk (heq ▸ List.prefix_rfl)]
  | some entry =>
    cases entry with
    | file content => exact absurd hentry (hpassable _ List.prefix_rfl content)
    | folder =>
      refine .inr ⟨rfl, ?_, .refl (habove.paved hentry)⟩
      rw [FileTree.hasFolder, FileTree.find?, hlocate]
      exact decide_eq_true hentry

/-- **Folders can be made** where no file is in the way. -/
theorem lands_makeFolders_of_passable (hp : p.Proper) (hpassable : t.Passable p.steps) :
    Lands (fun _ ↦ False) (fun _ t' ↦ t.PavesTo t' p.steps) ((makeFolders true p).run t) := by
  induction hn : p.steps.length using Nat.strong_induction_on generalizing p with
  | _ n ih =>
    rw [makeFolders]
    refine lands_bind lands_get ?_
    rintro _ t' ⟨rfl, rfl⟩
    by_cases habove : t'.FoldersAbove p.steps
    · obtain ⟨made, hrun, hpaves⟩ | ⟨hrun, hhas, hpaves⟩ := makeFolder_cases hp habove hpassable
      · rw [hrun]
        exact hpaves
      · rw [hrun]
        dsimp only
        rw [run_acceptFolder hhas]
        exact hpaves
    · have hway : t'.Passable p.parent.steps := fun k hk ↦
        hpassable k (hk.trans (List.dropLast_prefix _))
      have hrun : (makeFolder p).run t' = (.error .notFound, t') := by
        rw [run_makeFolder, FileTree.locate_of_missing hp hway habove]
      have hsteps : p.steps ≠ [] := by
        intro hnil
        refine habove fun k hk hne ↦ absurd (List.prefix_nil.mp (hnil ▸ hk)) (hnil ▸ hne)
      have hlength : p.parent.steps.length < n := hn ▸ Path.length_steps_parent_lt hsteps
      rw [hrun]
      dsimp only
      refine lands_bind (Q := fun _ ↦ (· = t')) rfl ?_
      rintro _ t rfl
      rw [dif_neg hsteps]
      refine lands_bind (ih _ hlength hp.parent hway rfl) ?_
      intro _ t₁ hparent
      refine lands_bind lands_get ?_
      rintro _ t₁ ⟨rfl, rfl⟩
      -- now the parent is there
      obtain ⟨made, hrun, hpaves⟩ | ⟨hrun, hhas, hpaves⟩ :=
        makeFolder_cases hp hparent.paved.foldersAbove_of_dropLast
          (hparent.toAddsFolders.passable hpassable)
      · rw [hrun]
        exact hparent.of_dropLast hpaves
      · rw [hrun]
        dsimp only
        rw [run_acceptFolder hhas]
        exact hparent.of_dropLast hpaves

end Filing

/-! ## Writing where it is possible -/

section Possible

variable {t t' : FileTree} {p : Path} {content : String}

namespace FileTree.Writable

/-- The path ends in the name of the file. -/
theorem exists_name (h : t.Writable p) : ∃ name ∈ p.steps, p.name? = some name := by
  have hsteps : p.steps ≠ [] := ne_nil_of_entryAt?_ne h.place
  have hmem := List.getLast_mem hsteps
  refine ⟨_, hmem, ?_⟩
  rw [Path.name?, List.getLast?_eq_some_getLast hsteps]
  dsimp only
  exact if_neg fun hup : p.steps.getLast hsteps = Path.up ↦ h.direct (hup ▸ hmem)

/-- Once the folders are made, the path leads to where the file goes. -/
theorem locate_of_pavesTo (h : t.Writable p) (hpaves : t.PavesTo t' p.parent.steps) :
    t'.locate p = .ok p.steps :=
  locate_of_foldersAbove_proper h.toProper hpaves.paved.foldersAbove_of_dropLast

/-- The folders are not made in the place of the file. -/
theorem place_of_pavesTo (h : t.Writable p) (hpaves : t.PavesTo t' p.parent.steps) :
    t'.entryAt? p.steps ≠ some .folder := by
  rw [hpaves.elsewhere]
  · exact h.place
  · intro hprefix
    have hlength := hprefix.length_le
    have hsteps : 0 < p.steps.length := List.length_pos_iff.mpr (ne_nil_of_entryAt?_ne h.place)
    rw [Path.parent, List.length_dropLast] at hlength
    omega

end FileTree.Writable

namespace Filing

/-- The name of a file is refused exactly if it is too long. -/
theorem run_checkName (h : t.Writable p) (t' : FileTree) :
    (checkName (p.name?.getD "")).run t' =
      (if p.TooLongToReplace then .error .nameTooLong else .ok (), t') := by
  obtain ⟨name, hmem, hname⟩ := h.exists_name
  have hnull : (p.name?.getD "").toList.contains '\x00' = false := by
    rw [hname, Option.getD_some]
    by_contra hnull
    exact h.plain (List.any_eq_true.mpr ⟨name, hmem, by simpa using hnull⟩)
  rw [checkName, hnull, if_neg Bool.false_ne_true]
  by_cases hlong : p.TooLongToReplace
  · have hlt : FileTree.maxNameBytes < (p.name?.getD "").utf8ByteSize + FileTree.extraNameBytes :=
      hlong
    rw [if_pos hlong, if_pos hlt]
    rfl
  · have hle : ¬ FileTree.maxNameBytes < (p.name?.getD "").utf8ByteSize + FileTree.extraNameBytes :=
      hlong
    rw [if_neg hlong, if_neg hle]
    rfl

/-- A file is moved to where a path leads, if that is to no folder. -/
theorem lands_moveTo_of_locate {l : Location} (hname : p.name?.isSome) (hl : t.locate p = .ok l)
    (hplace : t.entryAt? l ≠ some .folder) (source : Location) (content : String) :
    Lands (fun _ ↦ False) (fun _ _ ↦ True) ((moveTo source content p).run t) := by
  have hnamed : ¬ p.name?.isNone := by simpa using Option.ne_none_iff_isSome.mpr hname
  rw [moveTo, if_neg hnamed]
  change Lands _ _ ((locate p >>= _).run t)
  rw [run_bind, run_locate, hl]
  dsimp only
  refine lands_bind lands_get ?_
  rintro _ t ⟨rfl, rfl⟩
  rw [if_neg hplace]
  trivial

/-- **A file can be written** through a temporary file unless its name is too long for that. -/
theorem lands_writeThrough_of_writable (h : t.Writable p) :
    Lands (fun _ ↦ p.TooLongToReplace) (fun _ _ ↦ ¬ p.TooLongToReplace)
      ((writeThrough p content).run t) := by
  rw [writeThrough]
  refine lands_bind ((lands_makeFolders_of_passable h.toProper.parent h.way).mono
    (fun _ ↦ False.elim) fun _ _ hs ↦ hs) ?_
  intro _ t₁ hpaves
  have hfolder : t₁.locate p.parent = .ok p.parent.steps :=
    FileTree.locate_of_foldersAbove_proper h.toProper.parent hpaves.paved.foldersAbove
  rw [run_bind, run_locate, hfolder]
  dsimp only
  rw [run_bind, run_checkName h]
  by_cases hlong : p.TooLongToReplace
  · rw [if_pos hlong]
    exact hlong
  · rw [if_neg hlong]
    dsimp only
    refine lands_bind lands_get ?_
    rintro _ t₁ ⟨rfl, rfl⟩
    generalize htemporary : p.parent.steps ++ [t₁.freshName (p.name?.getD "")] = temporary
    have hnone : t₁.entryAt? temporary = none := htemporary ▸ t₁.entryAt?_freshName _ _
    have hsame := FileTree.entryAt?_put_file_eq_folder_iff hnone content
    refine lands_bind (Q := fun _ ↦ (· = t₁.put temporary (.file content))) rfl ?_
    rintro _ t₂ rfl
    obtain ⟨name, -, hname⟩ := h.exists_name
    have hlocate : (t₁.put temporary (.file content)).locate p = .ok p.steps :=
      FileTree.locate_of_folders (t := t₁) rfl (fun k ↦ (hsame k).mpr) (h.locate_of_pavesTo hpaves)
    have hmoved := lands_moveTo_of_locate (Option.isSome_of_eq_some hname) hlocate
      (fun hplace ↦ h.place_of_pavesTo hpaves ((hsame _).mp hplace)) temporary content
    exact lands_tryCatch (fun _ ↦ False) (hmoved.mono (fun _ ↦ False.elim) fun _ _ _ ↦ hlong)
      fun _ _ ↦ False.elim

/-- A file can be written in place. -/
theorem lands_writeInPlace_of_writable (h : t.Writable p) :
    Lands (fun _ ↦ False) (fun _ _ ↦ True) ((writeInPlace p content).run t) := by
  rw [writeInPlace]
  refine lands_bind (lands_makeFolders_of_passable h.toProper.parent h.way) ?_
  intro _ t₁ hpaves
  rw [run_bind, run_locate, h.locate_of_pavesTo hpaves]
  dsimp only
  refine lands_bind lands_get ?_
  rintro _ t₁ ⟨rfl, rfl⟩
  rw [if_neg (h.place_of_pavesTo hpaves)]
  trivial

end Filing

end Possible

/-! ## Output -/

section Output

variable {t : FileTree} {p : Path}

theorem Writing.fails_ofFiling_iff {α : Type} {step : Filing α} {e : WriteError} :
    Fails (Writing.ofFiling step) t e ↔ ∃ e', (step.run t).1 = .error e' ∧ .file e' = e := by
  have hrun : ((Writing.ofFiling step).run t).value.1 = (step.run t).1.mapError .file := by
    rw [Writing.ofFiling, Writing.run_get_bind]
    generalize step.run t = ended
    obtain ⟨result, t'⟩ := ended
    cases result <;> rfl
  change ((Writing.ofFiling step).run t).value.1 = _ ↔ _
  rw [hrun]
  cases (step.run t).1 with
  | error e' =>
    refine ⟨fun h ↦ ⟨e', rfl, Except.error.inj h⟩, ?_⟩
    rintro ⟨e'', he, rfl⟩
    exact congrArg (Except.error ∘ WriteError.file) (Except.error.inj he)
  | ok a =>
    constructor
    · intro h
      cases h
    · rintro ⟨e', h, -⟩
      cases h

/-- Whether the path leads to something can be asked. -/
theorem Path.run_refuseExisting_of_writable (h : t.Writable p) :
    (p.refuseExisting.run t).value =
      (if t.has p then .error (.outputExists p) else .ok (), t) := by
  have hhas : t.has? p = .ok (t.has p) := by
    rw [FileTree.has?]
    by_cases habove : t.FoldersAbove p.steps
    · rw [FileTree.locate_of_foldersAbove_proper h.toProper habove]
    · rw [FileTree.locate_of_missing h.toProper h.way habove]
  rw [refuseExisting, Writing.run_get_bind, hhas]
  cases t.has p <;> rfl

theorem Path.fails_refuseExisting_iff (h : t.Writable p) {e : WriteError} :
    Fails p.refuseExisting t e ↔ t.has p ∧ .outputExists p = e := by
  change (p.refuseExisting.run t).value.1 = _ ↔ _
  rw [Path.run_refuseExisting_of_writable h]
  split
  · next hhas => rw [and_iff_right hhas, Except.error.injEq]
  · next hhas => exact iff_of_false nofun fun h ↦ hhas h.1

theorem Path.yields_refuseExisting_iff (h : t.Writable p) {u : Unit} {t' : FileTree} :
    Yields p.refuseExisting t u t' ↔ ¬ t.has p ∧ t = t' := by
  change (p.refuseExisting.run t).value = _ ↔ _
  rw [Path.run_refuseExisting_of_writable h, Prod.mk.injEq]
  refine and_congr_left' ?_
  split
  · next hhas => exact iff_of_false nofun fun h ↦ h hhas
  · next hhas => exact iff_of_true rfl hhas

/-- A step on files that lands in one of two cases fails in the first. -/
theorem exists_error_iff_of_lands {α : Type} {E : Prop} {ended : Except FileError α × FileTree}
    (h : Lands (fun _ ↦ E) (fun _ _ ↦ ¬ E) ended) : (∃ e, ended.1 = .error e) ↔ E := by
  obtain ⟨result, t'⟩ := ended
  cases result with
  | error e => exact iff_of_true ⟨e, rfl⟩ h
  | ok a => exact iff_of_false not_exists_ok_eq_error h

theorem Path.fails_write_iff (h : t.Writable p) (content : String) :
    (∃ e, Fails (p.write content) t e ∧ ∀ q, e ≠ .outputExists q) ↔ p.TooLongToReplace := by
  rw [← exists_error_iff_of_lands (Filing.lands_writeThrough_of_writable h)]
  constructor
  · rintro ⟨e, hfails, -⟩
    obtain hfails | ⟨_, _, -, hfails⟩ := fails_bind_iff.mp hfails
    · obtain ⟨e', he', -⟩ := Writing.fails_ofFiling_iff.mp hfails
      exact ⟨e', he'⟩
    · exact absurd hfails not_fails_report
  · rintro ⟨e', he'⟩
    have hfiling := Writing.fails_ofFiling_iff.mpr ⟨e', he', rfl⟩
    exact ⟨.file e', fails_bind_iff.mpr (.inl hfiling), fun _ ↦ nofun⟩

/-- **When output is not written** although that is possible, and not for the sake of what exists:
if it is written through a temporary file and the name is too long for that. -/
theorem OutputSettings.fails_write_iff (settings : OutputSettings) (h : t.Writable p)
    (content : String) :
    (∃ e, Fails (settings.write p content) t e ∧ ∀ q, e ≠ .outputExists q) ↔
      settings.atomicWrite.truthy ∧ p.TooLongToReplace ∧ (settings.mode.protects → ¬ t.has p) := by
  have hwrite : (∃ e, Fails (if settings.atomicWrite.truthy then p.write content
      else Writing.ofFiling (.writeInPlace p content)) t e ∧ ∀ q, e ≠ .outputExists q) ↔
        settings.atomicWrite.truthy ∧ p.TooLongToReplace := by
    split
    · next hatomic => rw [Path.fails_write_iff h, and_iff_right hatomic]
    · next hatomic =>
      refine iff_of_false ?_ fun h ↦ hatomic h.1
      rintro ⟨e, hfails, -⟩
      obtain ⟨e', he', -⟩ := Writing.fails_ofFiling_iff.mp hfails
      exact (exists_error_iff_of_lands ((Filing.lands_writeInPlace_of_writable h).mono
        (fun _ ↦ id) fun _ _ _ ↦ not_false)).mp ⟨e', he'⟩
  rw [OutputSettings.write]
  split
  · next hmode =>
    rw [forall_prop_of_true hmode, ← and_assoc, ← hwrite]
    constructor
    · rintro ⟨e, hfails, hne⟩
      obtain hfails | ⟨_, _, hyields, hfails⟩ := fails_bind_iff.mp hfails
      · exact absurd ((Path.fails_refuseExisting_iff h).mp hfails).2.symm (hne p)
      · obtain ⟨hmissing, rfl⟩ := (Path.yields_refuseExisting_iff h).mp hyields
        exact ⟨⟨e, hfails, hne⟩, hmissing⟩
    · rintro ⟨⟨e, hfails, hne⟩, hmissing⟩
      have hyields := (Path.yields_refuseExisting_iff h (u := ())).mpr ⟨hmissing, rfl⟩
      exact ⟨e, fails_bind_iff.mpr (.inr ⟨(), t, hyields, hfails⟩), hne⟩
  · next hmode => rw [hwrite, forall_prop_of_false hmode, and_iff_left trivial]

end Output

end SchemaTree
