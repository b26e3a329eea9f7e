import SchemaTree.Proofs.Writing

/-!
# Which files writing replaces

A request to write is all or nothing. If it fails, there may be new folders on the way to its path;
if it succeeds, there is also a file with the content where the path leads; and a request that
protects what exists does nothing at all where something exists (`WriteRequest.all_or_nothing`).

Protection asks whether the path leads somewhere, before any folder is made. A step up undoes the
step before it only where that leads to a folder, so a path such as `a/../b` may lead nowhere when
it is asked and to a file that is long there once `a` is made. Such a request strays, and a file
that was written under protection is lost (`exists_protected_file_lost`). This is the only way: over
any run of requests, a file is only replaced by one that asked for it or one that strayed, and a
path without a step up never strays. -/

namespace SchemaTree

/-! ## Sound trees -/

namespace FileTree

variable {t t' t₁ : FileTree} {here l k : Location} {p : Path} {content : String}

/-- What stands above a location are folders. -/
def FoldersAbove (t : FileTree) (l : Location) : Prop :=
  ∀ k, k <+: l → k ≠ l → t.entryAt? k = some .folder

/-- The working folder exists, and every entry stands in a folder. -/
structure Sound (t : FileTree) : Prop where
  working : t.entryAt? t.working = some .folder
  above (l : Location) (h : t.entryAt? l ≠ none) : t.FoldersAbove l

theorem FoldersAbove.append (h : t.FoldersAbove here) (hfolder : t.entryAt? here = some .folder)
    (name : String) : t.FoldersAbove (here ++ [name]) := by
  intro k hk hne
  rcases List.prefix_concat_iff.mp hk with rfl | hk
  · exact absurd rfl hne
  · by_cases heq : k = here
    · exact heq ▸ hfolder
    · exact h k hk heq

theorem FoldersAbove.dropLast (h : t.FoldersAbove here) : t.FoldersAbove here.dropLast := by
  intro k hk hne
  refine h k (hk.trans here.dropLast_prefix) ?_
  rintro rfl
  have hlength := hk.length_le
  rw [List.length_dropLast] at hlength
  have hempty : k = [] := List.length_eq_zero_iff.mp (by omega)
  exact hne (hempty ▸ rfl)

/-- Every step of a path leads on from a folder. -/
theorem FoldersAbove.follow {steps : List String} (h : t.FoldersAbove here)
    (hl : t.follow here steps = .ok l) : t.FoldersAbove l := by
  induction steps generalizing here with
  | nil => exact Except.ok.inj hl ▸ h
  | cons step rest ih =>
    rw [FileTree.follow] at hl
    split at hl
    · next hfolder =>
      split at hl
      · cases hl
      · refine ih ?_ hl
        split
        · exact h.dropLast
        · exact h.append hfolder step
    · cases hl
    · cases hl

/-- What stands above the location that a path leads to are folders. -/
theorem foldersAbove_locate (h : t.FoldersAbove t.working) (hl : t.locate p = .ok l) :
    t.FoldersAbove l := by
  rw [locate] at hl
  split at hl
  · cases hl
  · refine FoldersAbove.follow ?_ hl
    split
    · exact fun k hk hne ↦ absurd (List.prefix_nil.mp hk) hne
    · exact h

theorem AddsFolders.foldersAbove (h : t.AddsFolders t') (hl : t.FoldersAbove l) :
    t'.FoldersAbove l :=
  fun k hk hne ↦ (h.entry k).elim (fun hk' ↦ hk'.trans (hl k hk hne)) And.right

theorem Paves.sound (h : t.Paves t' p) (hs : t.Sound) : t'.Sound := by
  have hworking : t'.FoldersAbove t'.working :=
    h.working ▸ h.toAddsFolders.foldersAbove (hs.above _ (by rw [hs.working]; exact nofun))
  refine ⟨?_, fun l hl ↦ ?_⟩
  · rw [h.working]
    exact (h.entry t.working).elim (fun hk ↦ hk.trans hs.working) And.right
  · by_cases hsame : t'.entryAt? l = t.entryAt? l
    · exact h.toAddsFolders.foldersAbove (hs.above l (hsame ▸ hl))
    · obtain ⟨q, -, -, hlocate⟩ := h.onTheWay l hsame
      exact foldersAbove_locate hworking hlocate

theorem Puts.sound (h : t.Puts t' p content l) (hs : t.Sound) : t'.Sound := by
  have hfolder {k : Location} (hk : t.entryAt? k = some .folder) :
      t'.entryAt? k = some .folder := by
    have hne : k ≠ l := by
      rintro rfl
      exact h.notFolder hk
    rw [h.entry, if_neg hne, hk]
  refine ⟨h.working ▸ hfolder hs.working, fun k hk k' hpre hne ↦ hfolder ?_⟩
  by_cases hkl : k = l
  · have hworking : t.FoldersAbove t.working := hs.above _ (by rw [hs.working]; exact nofun)
    exact foldersAbove_locate hworking h.locate k' (hkl ▸ hpre) (hkl ▸ hne)
  · rw [h.entry, if_neg hkl] at hk
    exact hs.above k hk k' hpre hne

theorem Receives.sound (h : t.Receives t' p content) (hs : t.Sound) : t'.Sound := by
  obtain ⟨t₁, l, hpaves, hputs⟩ := h
  exact hputs.sound (hpaves.sound hs)

/-! ## Where paths lead -/

/-- A path that leads somewhere leads to where its steps alone say. -/
theorem eq_resolve_of_locate (h : t.locate p = .ok l) : l = p.resolve t.working := by
  have hfollow (steps : List String) (here : Location) (hl : t.follow here steps = .ok l) :
      l = steps.foldl (fun here step ↦ if step = Path.up then here.dropLast else here ++ [step])
        here := by
    induction steps generalizing here with
    | nil => exact (Except.ok.inj hl).symm
    | cons step rest ih =>
      rw [follow] at hl
      split at hl
      · split at hl
        · cases hl
        · exact ih _ hl
      · cases hl
      · cases hl
  rw [locate] at h
  split at h
  · cases h
  · exact hfollow _ _ h

/-- A path without a step up leads to the same place in all trees that have the folders above it. -/
theorem locate_of_foldersAbove (hup : Path.up ∉ p.steps) (hworking : t'.working = t.working)
    (h : t'.locate p = .ok l) (habove : t.FoldersAbove l) : t.locate p = .ok l := by
  have hfollows (steps : List String) (here : Location) (hup : Path.up ∉ steps)
      (hl : t'.follow here steps = .ok l) : here <+: l ∧ t.follow here steps = .ok l := by
    induction steps generalizing here with
    | nil => exact ⟨Except.ok.inj hl ▸ List.prefix_rfl, hl⟩
    | cons step rest ih =>
      obtain ⟨hstep, hrest⟩ := not_or.mp (List.mem_cons.not.mp hup)
      rw [follow] at hl ⊢
      split at hl
      · split at hl
        · cases hl
        · next hlength =>
          rw [if_neg (Ne.symm hstep)] at hl ⊢
          obtain ⟨hpre, hfollow⟩ := ih _ hrest hl
          have hhere : here <+: l := (List.prefix_append here [step]).trans hpre
          have hne : here ≠ l := by
            rintro rfl
            simpa using hpre.length_le
          rw [habove here hhere hne]
          dsimp only
          rw [if_neg hlength]
          exact ⟨hhere, hfollow⟩
      · cases hl
      · cases hl
  rw [locate] at h ⊢
  split at h
  · cases h
  · next hnull =>
    rw [if_neg hnull]
    exact (hfollows _ _ hup (hworking ▸ h)).2

theorem has_of_entryAt? (hl : t.locate p = .ok l) (h : t.entryAt? l ≠ none) : t.has p := by
  rw [has, find?, hl]
  exact Option.isSome_iff_ne_none.mpr h

end FileTree

/-! ## Refusals -/

section Refusals

variable {t : FileTree} {p : Path} {α β : Type}

theorem Writing.run_bind_of_error {x : Writing α} {e : WriteError}
    (h : (x.run t).value = (.error e, t)) (f : α → Writing β) :
    ((x >>= f).run t).value = (.error e, t) := by
  change (StateT.run (ExceptT.run x) t).value = _ at h
  change (StateT.run (ExceptT.run (x >>= f)) t).value = _
  rw [ExceptT.run_bind, StateT.run_bind, Logged.value_bind, h]
  rfl

theorem Writing.run_get_bind (f : FileTree → Writing β) : (get >>= f).run t = (f t).run t := rfl

theorem Path.run_refuseExisting (h : t.has p) :
    (p.refuseExisting.run t).value = (.error (.outputExists p), t) := by
  have hhas : t.has? p = .ok true := by
    rw [FileTree.has?, h]
    split
    · next herror =>
      rw [FileTree.has, FileTree.find?, herror] at h
      cases h
    · rfl
  rw [refuseExisting, Writing.run_get_bind, hhas]
  rfl

end Refusals

/-! ## Requests -/

/-- How a file is to be written. -/
inductive WriteMode where
  /-- Whatever is there. -/
  | always
  /-- Only where nothing exists. -/
  | onlyNew
  /-- As the settings of the output have it. -/
  | output (settings : OutputSettings)

/-- A request to write a file. -/
structure WriteRequest where
  mode : WriteMode
  path : Path
  content : String

namespace WriteRequest

/-- Does what is requested. -/
def write (r : WriteRequest) : Writing Unit :=
  match r.mode with
  | .always => r.path.write r.content
  | .onlyNew => r.path.writeNew r.content
  | .output settings => settings.write r.path r.content

/-- Whether what exists is to be kept. -/
def protects (r : WriteRequest) : Bool :=
  match r.mode with
  | .always => false
  | .onlyNew => true
  | .output settings => settings.mode.protects

/-- How a request ends, and the files that it leaves. -/
def ended (r : WriteRequest) (t : FileTree) : Except WriteError Unit × FileTree :=
  (r.write.run t).value

/-- The files after requests, one after another. -/
def files (t : FileTree) (requests : List WriteRequest) : FileTree :=
  requests.foldl (fun t r ↦ (r.ended t).2) t

/-- The request takes the place of what is at a location. -/
structure Takes (r : WriteRequest) (t : FileTree) (l : Location) : Prop where
  succeeds : (r.ended t).1 = .ok ()
  leads : r.path.resolve t.working = l

/-- The request protects what exists, but its path leads nowhere before the folders on the way are
made, and to something that exists afterwards. -/
structure Strays (r : WriteRequest) (t : FileTree) (l : Location) : Prop extends r.Takes t l where
  protects : r.protects
  missing : ¬ t.has r.path
  exists_entry : t.entryAt? l ≠ none

variable {r : WriteRequest} {t : FileTree} {requests : List WriteRequest} {l : Location}
  {content : String}

theorem ends_write (r : WriteRequest) (t : FileTree) :
    Ends t r.write (t.Paves · r.path.parent) fun _ t' ↦
      (r.protects → ¬ t.has r.path) ∧ t.Receives t' r.path r.content := by
  obtain ⟨mode, p, content⟩ := r
  cases mode with
  | always => exact (p.ends_write content).mono (fun _ h ↦ h) fun _ _ h ↦ ⟨nofun, h⟩
  | onlyNew =>
    refine Ends.bind (p.ends_refuseExisting.mono (fun _ hs ↦ hs ▸ .refl t _) fun _ _ hs ↦ hs) ?_
    rintro _ t ⟨rfl, hhas⟩
    exact (p.ends_write content).mono (fun _ h ↦ h) fun _ _ h ↦ ⟨fun _ ↦ hhas, h⟩
  | output settings => exact settings.ends_write_of_mode p content

/-- How a request ends, by its two outcomes. -/
theorem ended_cases (r : WriteRequest) (t : FileTree) :
    (∃ e t', r.ended t = (.error e, t') ∧ t.Paves t' r.path.parent) ∨
      ∃ t', r.ended t = (.ok (), t') ∧ (r.protects → ¬ t.has r.path) ∧
        t.Receives t' r.path r.content := by
  have hends : Lands _ _ (r.ended t) := r.ends_write t
  generalize r.ended t = ended at hends ⊢
  obtain ⟨result, t'⟩ := ended
  match result with
  | .error e => exact .inl ⟨e, t', rfl, hends⟩
  | .ok () => exact .inr ⟨t', rfl, hends⟩

/-- Where something exists, a request that protects it does nothing. -/
theorem ended_of_has (hprotects : r.protects) (h : t.has r.path) :
    r.ended t = (.error (.outputExists r.path), t) := by
  obtain ⟨mode, p, content⟩ := r
  cases mode with
  | always => cases hprotects
  | onlyNew => exact Writing.run_bind_of_error (p.run_refuseExisting h) _
  | output settings =>
    change settings.mode.protects at hprotects
    change ((settings.write p content).run t).value = _
    rw [OutputSettings.write, if_pos hprotects]
    exact Writing.run_bind_of_error (p.run_refuseExisting h) _

/-- **What a request does to a file.** It is replaced by a request that succeeds and leads to it,
and otherwise kept. -/
theorem entryAt?_ended (r : WriteRequest) (h : t.entryAt? l = some (.file content)) :
    r.Takes t l ∧ (r.protects → r.Strays t l) ∧
        (r.ended t).2.entryAt? l = some (.file r.content) ∨
      ¬ r.Takes t l ∧ (r.ended t).2.entryAt? l = some (.file content) := by
  have hkept {t₁ : FileTree} (hpaves : t.Paves t₁ r.path.parent) :
      t₁.entryAt? l = some (.file content) :=
    (hpaves.entry l).elim (·.trans h) fun hnone ↦ absurd (h.symm.trans hnone.1) nofun
  obtain ⟨e, t', hended, hpaves⟩ | ⟨t', hended, hmissing, t₁, k, hpaves, hputs⟩ := r.ended_cases t
  · refine .inr ⟨fun htakes ↦ ?_, hended ▸ hkept hpaves⟩
    exact absurd (hended ▸ htakes.succeeds) nofun
  · have hresolve : r.path.resolve t.working = k :=
      hpaves.working ▸ (FileTree.eq_resolve_of_locate hputs.locate).symm
    by_cases hkl : l = k
    · have htakes : r.Takes t l := ⟨by rw [hended], hresolve.trans hkl.symm⟩
      refine .inl ⟨htakes, fun hprotects ↦ ⟨htakes, hprotects, hmissing hprotects, ?_⟩, ?_⟩
      · rw [h]
        exact nofun
      · rw [hended, hputs.entry, if_pos hkl]
    · refine .inr ⟨fun htakes ↦ hkl (htakes.leads.symm.trans hresolve), ?_⟩
      rw [hended, hputs.entry, if_neg hkl]
      exact hkept hpaves

theorem working_ended (r : WriteRequest) (t : FileTree) : (r.ended t).2.working = t.working := by
  obtain ⟨e, t', hended, hpaves⟩ | ⟨t', hended, -, t₁, k, hpaves, hputs⟩ := r.ended_cases t
  · rw [hended, hpaves.working]
  · rw [hended, hputs.working, hpaves.working]

theorem sound_ended (r : WriteRequest) (h : t.Sound) : (r.ended t).2.Sound := by
  obtain ⟨e, t', hended, hpaves⟩ | ⟨t', hended, -, hreceives⟩ := r.ended_cases t
  · rw [hended]
    exact hpaves.sound h
  · rw [hended]
    exact hreceives.sound h

/-- **A path without a step up never strays**, as it led to what it leads to from the start. -/
theorem not_strays (h : t.Sound) (hup : Path.up ∉ r.path.steps) : ¬ r.Strays t l := by
  rintro ⟨⟨hsucceeds, hleads⟩, hprotects, hmissing, hentry⟩
  obtain ⟨e, t', hended, -⟩ | ⟨t', hended, -, t₁, k, hpaves, hputs⟩ := r.ended_cases t
  · exact absurd (hended ▸ hsucceeds) nofun
  · have hresolve : r.path.resolve t.working = k :=
      hpaves.working ▸ (FileTree.eq_resolve_of_locate hputs.locate).symm
    obtain rfl : l = k := hleads.symm.trans hresolve
    have hlocate := FileTree.locate_of_foldersAbove hup hpaves.working hputs.locate
      (h.above l hentry)
    exact hmissing (FileTree.has_of_entryAt? hlocate hentry)

/-! ## Runs -/

@[simp] theorem files_nil (t : FileTree) : files t [] = t := rfl

@[simp] theorem files_cons (t : FileTree) (r : WriteRequest) (requests : List WriteRequest) :
    files t (r :: requests) = files (r.ended t).2 requests := rfl

/-- A file that a run does not keep was taken by one of its requests, which asked for it or
strayed. -/
theorem exists_takes_of_lost (h : t.entryAt? l = some (.file content))
    (hlost : (files t requests).entryAt? l ≠ some (.file content)) :
    ∃ before r after, requests = before ++ r :: after ∧ r.Takes (files t before) l ∧
      (r.protects → r.Strays (files t before) l) := by
  induction requests generalizing t with
  | nil => exact absurd h hlost
  | cons r requests ih =>
    obtain ⟨htakes, hstrays, -⟩ | ⟨-, hkept⟩ := r.entryAt?_ended h
    · exact ⟨[], r, requests, rfl, htakes, hstrays⟩
    · obtain ⟨before, r', after, rfl, htakes⟩ := ih hkept hlost
      exact ⟨r :: before, r', after, rfl, htakes⟩

theorem working_files (t : FileTree) (requests : List WriteRequest) :
    (files t requests).working = t.working := by
  induction requests generalizing t with
  | nil => rfl
  | cons r requests ih => rw [files_cons, ih, working_ended]

theorem sound_files (h : t.Sound) (requests : List WriteRequest) : (files t requests).Sound := by
  induction requests generalizing t with
  | nil => exact h
  | cons r requests ih => exact ih (r.sound_ended h)

/-- **Writing is all or nothing.** Where something exists, a request that protects it fails and does
nothing. Any request that fails leaves at most new folders on the way, and one that succeeds also
leaves its content where the path leads, and no other trace. A file is replaced exactly by a request
that succeeds and leads to it, and if that protects what exists, it has strayed. So a run keeps
every file that no request takes at its turn, where in a sound tree no request takes a file unasked
unless there is a step up in its path. -/
theorem all_or_nothing (t : FileTree) :
    (∀ r : WriteRequest,
      (r.protects → t.has r.path → r.ended t = (.error (.outputExists r.path), t)) ∧
      ((∃ e t', r.ended t = (.error e, t') ∧ t.Paves t' r.path.parent) ∨
        ∃ t', r.ended t = (.ok (), t') ∧ t.Receives t' r.path r.content ∧
          t'.read r.path = .ok r.content) ∧
      ∀ l content, t.entryAt? l = some (.file content) →
        ((r.ended t).2.entryAt? l ≠ some (.file content) ↔
          r.Takes t l ∧ (r.protects → r.Strays t l) ∧ r.content ≠ content)) ∧
    ∀ requests l content, t.entryAt? l = some (.file content) →
      ((files t requests).entryAt? l ≠ some (.file content) →
        ∃ before r after, requests = before ++ r :: after ∧ r.Takes (files t before) l ∧
          (r.protects → r.Strays (files t before) l)) ∧
      (t.Sound → (∀ r ∈ requests, r.path.resolve t.working = l →
          r.protects ∧ Path.up ∉ r.path.steps) →
        (files t requests).entryAt? l = some (.file content)) := by
  refine ⟨fun r ↦ ⟨ended_of_has, ?_, fun l content h ↦ ?_⟩,
    fun requests l content h ↦ ⟨exists_takes_of_lost h, fun hs hunasked ↦ ?_⟩⟩
  · obtain hfailed | ⟨t', hended, -, hreceives⟩ := r.ended_cases t
    · exact .inl hfailed
    · exact .inr ⟨t', hended, hreceives, hreceives.stores.read⟩
  · obtain ⟨htakes, hstrays, hentry⟩ | ⟨htakes, hentry⟩ := r.entryAt?_ended h
    · rw [hentry]
      exact ⟨fun hne ↦ ⟨htakes, hstrays, fun heq ↦ hne (heq ▸ rfl)⟩,
        fun hne heq ↦ hne.2.2 (Entry.file.inj (Option.some.inj heq))⟩
    · exact iff_of_false (fun hne ↦ hne hentry) fun hne ↦ htakes hne.1
  · by_contra hlost
    obtain ⟨before, r, after, rfl, htakes, hstrays⟩ := exists_takes_of_lost h hlost
    have hleads : r.path.resolve t.working = l := working_files t before ▸ htakes.leads
    obtain ⟨hprotects, hup⟩ := hunasked r (by simp) hleads
    exact not_strays (sound_files hs before) hup (hstrays hprotects)

/-- An empty working folder. -/
def workspace : FileTree := ⟨["work"], [(["work"], .folder)]⟩

theorem sound_workspace : workspace.Sound := by
  refine ⟨rfl, fun l hl k hk hne ↦ ?_⟩
  have hmem : l = [] ∨ l = ["work"] := by
    by_contra! hother
    refine hl ?_
    rw [FileTree.entryAt?, if_neg hother.1]
    simp [workspace, Ne.symm hother.2]
  obtain rfl | rfl := hmem
  · exact absurd (List.prefix_nil.mp hk) hne
  · have hlast : k <+: [] ++ ["work"] := hk
    obtain rfl | hk := List.prefix_concat_iff.mp hlast
    · exact absurd rfl hne
    · rw [List.prefix_nil.mp hk]
      rfl

/-- A new file. -/
def note : WriteRequest := ⟨.onlyNew, ⟨false, ["note"]⟩, "kept"⟩

/-- Requests that go on from a new file: one for the same path, one that asks for another file, and
one below the file. -/
def laterRequests : List WriteRequest :=
  [⟨.output {}, ⟨false, ["note"]⟩, "lost"⟩, ⟨.always, ⟨false, ["other", "..", "log"]⟩, "lost"⟩,
    ⟨.onlyNew, ⟨false, ["note", "part"]⟩, "lost"⟩]

theorem all_or_nothing_workspace :
    (files workspace [note]).entryAt? ["work", "note"] = some (.file "kept") ∧
      (files workspace [note]).Sound ∧
      (files workspace (note :: laterRequests)).entryAt? ["work", "note"] =
        some (.file "kept") := by
  have hnote : (files workspace [note]).entryAt? ["work", "note"] = some (.file "kept") := by
    decide +kernel
  have hsound : (files workspace [note]).Sound := sound_files sound_workspace _
  have hlater : ∀ r ∈ laterRequests,
      r.path.resolve (files workspace [note]).working = ["work", "note"] →
        r.protects ∧ Path.up ∉ r.path.steps := by
    rw [working_files]
    decide +kernel
  refine ⟨hnote, hsound, ?_⟩
  exact ((all_or_nothing (files workspace [note])).2 laterRequests _ _ hnote).2 hsound hlater

/-- The note again, by way of a folder that does not exist. -/
def detour : WriteRequest := ⟨.onlyNew, ⟨false, ["folder", "..", "note"]⟩, "lost"⟩

/-- **A protected file is lost.** Both requests protect what exists, and the path of the second one
leads nowhere when it is asked. -/
theorem exists_protected_file_lost :
    note.protects ∧ detour.protects ∧
      (files workspace [note]).read note.path = .ok "kept" ∧
      (files workspace [note]).has detour.path = false ∧
      (detour.ended (files workspace [note])).1.isOk ∧
      (files workspace [note, detour]).read note.path = .ok "lost" := by
  decide +kernel

end WriteRequest

end SchemaTree
