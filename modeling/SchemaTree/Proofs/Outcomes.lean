import SchemaTree.Proofs.Protection
import SchemaTree.Proofs.Writing

/-!
# What a run leaves behind

A run that fails changes no file, and a run that succeeds changes one at most: the output of an
emission or of an import, which then holds what was emitted or imported (`runCommandLine_files`).
Everything that can fail comes before the one write, and a write that fails leaves nothing but
folders.
-/

namespace SchemaTree

open Json

/-! ## What is written -/

/-- The settings that an emission reads: the default ones without a file. -/
def EmitterSettings.ReadFrom (t : FileTree) (file : Option Path)
    (settings : EmitterSettings) : Prop :=
  file = none ∧ settings = {} ∨ ∃ p ∈ file, ∃ content value,
    t.read p = .ok content ∧ parseFile content = .ok value ∧
      EmitterSettings.ofJson value = .ok settings

/-- Settings with the language and the mode that the options of an emission ask for. -/
def EmitterSettings.withOptions (settings : EmitterSettings) (language : Option Language)
    (force : Bool) : Except WriteError EmitterSettings :=
  let settings := match language with
    | some language => settings.set "language" (.value (.str language.name))
    | none => settings
  if force then settings.forcing else .ok settings

/-- The code that an emission makes of its document, in a world as it is. -/
inductive Emits (surroundings : Surroundings) (w : World) (file : Option Path)
    (language : Option Language) (force : Bool) (document : Path) (code : String) : Prop where
  | mk {found settings : EmitterSettings} {content : String} {d : Document}
    (hfound : found.ReadFrom w.files file)
    (hsettings : found.withOptions language force = .ok settings)
    (hcontent : w.files.read document = .ok content)
    (hdocument : (loadDocument document.text content w.ids).value.1 = .ok d)
    (hcode : (settings.emit surroundings.tools d).value = .ok code)

/-- The document that an import makes of what its reference names. -/
inductive Imports (surroundings : Surroundings) (w : World) (reference : String)
    (d : ImportedDocument) : Prop where
  | mk {found : Definition} (hfound : lookUp surroundings.modules reference = .ok found)
    (hdocument : (found.type.view.toDocument.run w.ids).value.1 = .ok d)

/-- The text of an emission ends in a line feed. -/
theorem endsWith_endLine (code : String) : (endLine code).endsWith "\n" := by
  rw [endLine]
  split
  · assumption
  · rw [← String.endsWith_toSlice, String.Slice.endsWith_string_iff, String.copy_toSlice,
      String.toList_append]
    exact List.suffix_append _ _

namespace Running

variable {α ε : Type} {w : World} {E : World → Prop}

/-! ## Steps of a run -/

theorem ends_ofExcept (ending : ε → Ending) (result : Except ε α) (hE : E w) :
    Ends w (ofExcept ending result) E fun a w' ↦ result = .ok a ∧ w' = w := by
  match result with
  | .ok a => exact ⟨rfl, rfl⟩
  | .error e => exact hE

theorem ends_ofLogged (step : Logged α) :
    Ends w (ofLogged step) E fun a w' ↦ a = step.value ∧ w' = w := ⟨rfl, rfl⟩

/-- A step that keeps the world as it is does so also when it fails. -/
theorem ends_of_keeps {step : Running α} {Q : α → Prop} (h : Keeps (· = w) step Q) (hE : E w) :
    Ends w step E fun a w' ↦ w' = w ∧ Q a :=
  (Ends.of_keeps h rfl).mono (fun _ hw ↦ hw ▸ hE) fun _ _ hw ↦ hw

theorem keeps_readFile_self (p : Path) :
    Keeps (· = w) (readFile p) fun content ↦ w.files.read p = .ok content :=
  keeps_readFile (fun _ hw ↦ congrArg World.files hw) p

theorem ends_load (p : Path) (hE : ∀ w', w'.files = w.files → E w') :
    Ends w (load p) E fun d w' ↦ w'.files = w.files ∧
      ∃ content, w.files.read p = .ok content ∧ (loadDocument p.text content w.ids).value.1 =
        .ok d := by
  refine Ends.bind (ends_of_keeps (keeps_readFile_self p) (hE w rfl)) ?_
  rintro content w ⟨rfl, hcontent⟩
  refine Ends.bind Ends.get ?_
  rintro _ w ⟨rfl, rfl⟩
  refine Ends.bind (ends_ofLogged _) ?_
  rintro ⟨result, ids⟩ w ⟨hresult, rfl⟩
  refine Ends.bind (Ends.set _) ?_
  rintro _ _ rfl
  refine (ends_ofExcept (w := { w with ids }) _ result (hE _ rfl)).mono (fun _ hw ↦ hw) ?_
  rintro d _ ⟨rfl, rfl⟩
  exact ⟨rfl, content, hcontent, (congrArg Prod.fst hresult).symm⟩

/-- Writing output is the only step that changes files. -/
theorem ends_write (settings : OutputSettings) (p : Path) (content : String) :
    Ends w (write settings p content) (fun w' ↦ w.files.AddsFolders w'.files) fun _ w' ↦
      w.files.Stores w'.files p content := by
  refine Ends.bind Ends.get ?_
  rintro _ w ⟨rfl, rfl⟩
  have hwrite := settings.ends_write w.files p content
  refine Ends.bind (ends_ofLogged _) ?_
  rintro ⟨result, files⟩ w ⟨hresult, rfl⟩
  refine Ends.bind (Ends.set _) ?_
  rintro _ _ rfl
  have hended : Lands w.files.AddsFolders (fun _ t' ↦ w.files.Stores t' p content)
      (result, files) := by
    rw [hresult]
    exact hwrite
  match result with
  | .ok _ => exact hended
  | .error _ => exact hended

/-! ## The commands -/

theorem ends_emit (surroundings : Surroundings) (settings : Option Path)
    (language : Option Language) (force : Bool) (document output : Path) :
    Ends w (emit surroundings settings language force document output)
      (fun w' ↦ w.files.AddsFolders w'.files) fun _ w' ↦
        ∃ code, Emits surroundings w settings language force document code ∧
          w.files.Stores w'.files output (endLine code) := by
  have hrefl : w.files.AddsFolders w.files := .refl w.files
  refine Ends.bind (ends_of_keeps (keeps_loadSettings (fun _ hw ↦ congrArg World.files hw) _ _ _ _)
    hrefl) ?_
  rintro found w ⟨rfl, hfound⟩
  refine Ends.bind (ends_ofExcept _ (found.withOptions language force) hrefl) ?_
  rintro settings w ⟨hsettings, rfl⟩
  refine Ends.bind (ends_load document fun _ hw ↦ hw ▸ hrefl) ?_
  rintro d w' ⟨hfiles, content, hcontent, hdocument⟩
  have hkept : w.files.AddsFolders w'.files := hfiles ▸ hrefl
  refine Ends.bind (ends_ofLogged _) ?_
  rintro result w' ⟨hresult, rfl⟩
  refine Ends.bind (ends_ofExcept _ result hkept) ?_
  rintro code w' ⟨rfl, rfl⟩
  refine Ends.bind (ends_ofExcept _ _ hkept) ?_
  rintro outputSettings w' ⟨-, rfl⟩
  refine (ends_write outputSettings output (endLine code)).mono (fun _ hw ↦ hfiles ▸ hw) ?_
  intro _ w'' hstores
  exact ⟨code, .mk hfound hsettings hcontent hdocument hresult.symm, hfiles ▸ hstores⟩

theorem ends_importSchema (surroundings : Surroundings) (force : Bool) (reference : String)
    (output : Path) :
    Ends w (importSchema surroundings force reference output)
      (fun w' ↦ w.files.AddsFolders w'.files) fun _ w' ↦
        ∃ d text, Imports surroundings w reference d ∧ d.dump (some 2) = .ok text ∧
          w.files.Stores w'.files output (text ++ "\n") := by
  have hrefl : w.files.AddsFolders w.files := .refl w.files
  refine Ends.bind (ends_ofExcept _ _ hrefl) ?_
  rintro found w ⟨hfound, rfl⟩
  refine Ends.bind Ends.get ?_
  rintro _ w ⟨rfl, rfl⟩
  refine Ends.bind (ends_ofLogged _) ?_
  rintro ⟨result, ids⟩ w ⟨hresult, rfl⟩
  refine Ends.bind (Ends.set _) ?_
  rintro _ _ rfl
  refine Ends.bind (ends_ofExcept _ result hrefl) ?_
  rintro d _ ⟨rfl, rfl⟩
  refine Ends.bind (ends_ofExcept _ _ hrefl) ?_
  rintro text _ ⟨htext, rfl⟩
  refine (ends_write _ output _).mono (fun _ hw ↦ hw) ?_
  intro _ w' hstores
  exact ⟨d, text, .mk hfound (congrArg Prod.fst hresult).symm, htext, hstores⟩

theorem keeps_loadData (t : FileTree) (p : Path) :
    Keeps (fun w ↦ w.files = t) (loadData p) fun _ ↦ True := by
  refine (keeps_readFile (fun _ hw ↦ hw) p).bind fun content _ ↦ ?_
  exact (keeps_ofExcept _ _).mono fun _ _ ↦ trivial

theorem keeps_check (t : FileTree) (settings : Option Path) (document data : Path) :
    Keeps (fun w ↦ w.files = t) (check settings document data) fun _ ↦ True := by
  refine (keeps_loadSettings (fun _ hw ↦ hw) _ _ _ settings).bind fun found _ ↦ ?_
  refine (keeps_load document).bind fun d _ ↦ ?_
  refine (keeps_ofLogged _).bind fun result _ ↦ ?_
  refine (keeps_ofExcept _ _).bind fun m _ ↦ ?_
  refine (keeps_loadData t data).bind fun value _ ↦ ?_
  refine (keeps_ofLogged _).bind fun verdict _ ↦ ?_
  match verdict with
  | none => exact .throw _
  | some (.error failures) => exact .throw _
  | some (.ok datum) => exact .pure trivial

end Running

/-! ## Command lines -/

/-- The files that a request leaves behind which is done in a world: an emission and an import have
stored their output, and nothing else changes files. -/
def Completes (surroundings : Surroundings) (w : World) (t : FileTree) : Request → Prop
  | .help _ | .version | .run _ (.check ..) => t = w.files
  | .run _ (.emit settings language force document output) =>
    ∃ code, Emits surroundings w settings language force document code ∧
      (endLine code).endsWith "\n" ∧ w.files.Stores t output (endLine code)
  | .run _ (.importSchema _ reference output) =>
    ∃ d text, Imports surroundings w reference d ∧ d.dump (some 2) = .ok text ∧
      w.files.Stores t output (text ++ "\n")

theorem Running.ends_invoke (surroundings : Surroundings) (log : LogSettings)
    (invocation : Invocation)
    (w : World) :
    Ends w (invoke surroundings invocation) (fun w' ↦ w.files.AddsFolders w'.files) fun _ w' ↦
      Completes surroundings w w'.files (.run log invocation) := by
  match invocation with
  | .check settings document data =>
    refine (Ends.of_keeps (keeps_check w.files settings document data) rfl).mono ?_ ?_
    · intro w' hw
      exact hw ▸ .refl w.files
    · rintro _ w' ⟨hw, -⟩
      exact hw
  | .emit settings language force document output =>
    refine (ends_emit surroundings settings language force document output).bind ?_
    rintro _ w' ⟨code, hcode, hstores⟩
    exact ⟨code, hcode, endsWith_endLine code, hstores⟩
  | .importSchema force reference output =>
    exact (ends_importSchema surroundings force reference output).bind fun _ _ hw ↦ hw

theorem Outcome.status_ofEnding_ne_zero (ending : Ending) :
    (Outcome.ofEnding ending).status ≠ 0 := by
  cases ending <;> exact Nat.noConfusion

/-- **A failed run changes no file.** If the status is not zero, all that is new are folders. If it
is zero, the command line has a meaning, and the files are changed as that asks for: the output of
an emission or an import holds the text, which ends in a line feed, and nothing else is changed. -/
theorem runCommandLine_files (surroundings : Surroundings) (arguments : List String) (w : World) :
    ((runCommandLine surroundings arguments w).1.status ≠ 0 →
        w.files.AddsFolders (runCommandLine surroundings arguments w).2.files) ∧
      ((runCommandLine surroundings arguments w).1.status = 0 →
        ∃ request, readCommandLine w.files arguments = .ok request ∧
          Completes surroundings w (runCommandLine surroundings arguments w).2.files request) := by
  rw [runCommandLine]
  cases hread : readCommandLine w.files arguments with
  | error misuse => exact ⟨fun _ ↦ .refl w.files, fun h ↦ absurd h Nat.noConfusion⟩
  | ok request =>
    cases request with
    | help text => exact ⟨fun h ↦ absurd rfl h, fun _ ↦ ⟨_, rfl, rfl⟩⟩
    | version => exact ⟨fun h ↦ absurd rfl h, fun _ ↦ ⟨_, rfl, rfl⟩⟩
    | run log invocation =>
      have hends := Running.ends_invoke surroundings log invocation w
      change Lands _ _ ((Running.invoke surroundings invocation).run w).value at hends
      dsimp only
      generalize (Running.invoke surroundings invocation).run w = ended at hends ⊢
      obtain ⟨⟨result, w'⟩, events⟩ := ended
      cases result with
      | error ending =>
        exact ⟨fun _ ↦ hends, fun h ↦ absurd h (Outcome.status_ofEnding_ne_zero ending)⟩
      | ok output => exact ⟨fun h ↦ absurd rfl h, fun _ ↦ ⟨_, rfl, hends⟩⟩

end SchemaTree
