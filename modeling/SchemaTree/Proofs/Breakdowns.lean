import SchemaTree.Proofs.Endless
import SchemaTree.Proofs.ModelNames
import SchemaTree.Proofs.RunSteps
import SchemaTree.Proofs.Unemittable
import SchemaTree.Proofs.Unimportable

/-!
# Which runs break off

A run that can read its files and write its output should end well or with a message. Bad command
lines, settings that are no settings, malformed documents and data, bad references and output that
exists all lead to a message. But settings keep values of any type, and what cannot be used is only
found out where it is used, after the place where bad settings are refused. Nor is there a message
for whole numbers with too many digits, wherever they are read or written, for references that are
followed without end, for what tools and imported modules fail at, for modules whose name starts
with a dot, for documentation that is no text, for values in a model that JSON does not have, and
for output with a name too long for the temporary file.

For each command there is a list of what breaks it off (`CheckBreaksOff`, `EmissionBreaksOff`,
`ImportBreaksOff`). The lists are complete: a run breaks off exactly in these cases, and in all
others it ends as it should (`runCommandLine_breakdown_iff`). The shortest case is settings with a
language that does not exist (`exists_unreported_language`). Files with a surrogate that has no
partner are left out, since such surrogates are no characters (`FileTree.Readable`).
-/

namespace SchemaTree

open Json Relation

/-! ## Access to files -/

/-- The files that are read for an invocation. -/
def Invocation.inputs : Invocation → List Path
  | .check settings document data => settings.toList ++ [document, data]
  | .emit settings _ _ document _ => settings.toList ++ [document]
  | .importSchema .. => []

/-- The file that is written for an invocation. -/
def Invocation.output? : Invocation → Option Path
  | .check .. => none
  | .emit _ _ _ _ output | .importSchema _ _ output => some output

/-- The files that an invocation reads can be read, and the one that it writes can be written. -/
structure Invocation.HasAccess (invocation : Invocation) (t : FileTree) : Prop where
  inputs (p : Path) (hp : p ∈ invocation.inputs) : t.Readable p
  output (p : Path) (hp : p ∈ invocation.output?) : t.Writable p

/-! ## What breaks a run off -/

/-- What breaks a check off. -/
inductive CheckBreaksOff (w : World) (file : Option Path) (document data : Path) : Prop where
  /-- The document has a whole number with too many digits. -/
  | documentNumber {settings : BuilderSettings} (hsettings : settings.ReadFrom w.files file)
    (h : w.files.HoldsLongNumber document)
  /-- The root cannot be named by a value that is no text, nor by a text with the character zero. -/
  | rootName {settings : BuilderSettings} {d : Document}
    (hsettings : settings.ReadFrom w.files file) (hdocument : w.Loads document d)
    (h : ¬ settings.rootModelName.CanName)
  /-- Nor can an object without a name. -/
  | anonymousName {settings : BuilderSettings} {d : Document} {x : Item}
    (hsettings : settings.ReadFrom w.files file) (hdocument : w.Loads document d)
    (hx : x ∈ d.built) (hnameless : x.Nameless) (h : ¬ settings.anonymousModelName.CanName)
  /-- The data have a whole number with too many digits. -/
  | dataNumber {settings : BuilderSettings} {d : Document}
    (hsettings : settings.ReadFrom w.files file) (hdocument : w.Loads document d)
    (h : w.files.HoldsLongNumber data)
  /-- However many references may be followed one inside the other, validation of the data follows
  more. -/
  | endless {settings : BuilderSettings} {d : Document} {m : Model} {value : Json}
    (hsettings : settings.ReadFrom w.files file) (hdocument : w.Loads document d)
    (hm : (d.build settings).value = .ok m) (hdata : w.files.Holds data value)
    (h : ∀ bound, (m.shape.validate (m.registry.follow bound) value).run.value = none)

/-- What breaks an emission off. -/
inductive EmissionBreaksOff (surroundings : Surroundings) (w : World) (file : Option Path)
    (language : Option Language) (force : Bool) (document output : Path) : Prop where
  /-- Output settings that were replaced by a value or lost cannot be told to write over what
  exists. -/
  | forcing {found : EmitterSettings} (hfound : found.ReadFrom w.files file) (hforce : force = true)
    (h : ∀ settings, found.output ≠ .record settings)
  /-- The document has a whole number with too many digits. -/
  | documentNumber {found : EmitterSettings} (hfound : found.ReadFrom w.files file)
    (h : w.files.HoldsLongNumber document)
  /-- The document cannot be emitted under the settings. -/
  | emission {found settings : EmitterSettings} {d : Document}
    (hfound : found.ReadFrom w.files file)
    (hsettings : found.withOptions language force = .ok settings) (hdocument : w.Loads document d)
    (h : settings.Unemittable surroundings.tools d)
  /-- The output settings were lost, or replaced by a value that does not count as false. -/
  | outputSettings {found settings : EmitterSettings} {d : Document}
    (hfound : found.ReadFrom w.files file)
    (hsettings : found.withOptions language force = .ok settings) (hdocument : w.Loads document d)
    (h : settings.output = .missing ∨ ∃ value, settings.output = .replaced value ∧ value.truthy)
  /-- The temporary file for the output cannot be named. -/
  | outputName {found settings : EmitterSettings} {outputSettings : OutputSettings} {d : Document}
    (hfound : found.ReadFrom w.files file)
    (hsettings : found.withOptions language force = .ok settings) (hdocument : w.Loads document d)
    (houtput : settings.outputSettings? = .ok outputSettings)
    (hatomic : outputSettings.atomicWrite.truthy) (hlong : output.TooLongToReplace)
    (hmissing : outputSettings.mode.protects → ¬ w.files.has output)

/-- What breaks an import off. -/
inductive ImportBreaksOff (surroundings : Surroundings) (w : World) (force : Bool)
    (reference : String) (output : Path) : Prop where
  /-- The name of the module starts with a dot. -/
  | relativeModule {r : SchemaReference} (hreference : SchemaReference.ofText? reference = some r)
    (h : r.moduleName.startsWith ".")
  /-- A module, or a member that the reference leads through, fails when it is asked for. -/
  | reference {problem : String}
    (h : lookUp surroundings.modules reference = .error (.failed problem))
  /-- What the reference leads to cannot be seen as a schema. -/
  | root {found : Definition} (hfound : lookUp surroundings.modules reference = .ok found)
    (h : found.type.view.form.Unseen)
  /-- Something below the root cannot: documentation that is no text, a default that cannot be made,
  a schema that cannot be seen. -/
  | part {found : Definition} {properties : List (String × SchemaView)} {part : SchemaView}
    (hfound : lookUp surroundings.modules reference = .ok found)
    (hform : found.type.view.form = .object properties)
    (hpart : TransGen SchemaView.HasPart found.type.view part) (h : part.Fails)
  /-- The document would have a value that JSON does not have. -/
  | foreign {d : ImportedDocument} (hdocument : Imports surroundings w reference d)
    (h : d.foreign ≠ [])
  /-- The document would have a whole number with too many digits. -/
  | number {d : ImportedDocument} (hdocument : Imports surroundings w reference d)
    (h : d.document.toJson.excess?.isSome)
  /-- The temporary file for the output cannot be named. -/
  | outputName {d : ImportedDocument} (hdocument : Imports surroundings w reference d)
    (hlong : output.TooLongToReplace) (hmissing : force = false → ¬ w.files.has output)

/-- What breaks an invocation off that has access to its files. -/
def Invocation.BreaksOff (surroundings : Surroundings) (w : World) : Invocation → Prop
  | .check settings document data => CheckBreaksOff w settings document data
  | .emit settings language force document output =>
    EmissionBreaksOff surroundings w settings language force document output
  | .importSchema force reference output => ImportBreaksOff surroundings w force reference output

/-! ## Settings that cannot be used -/

section Settings

variable {settings : EmitterSettings} {language : Option Language} {force : Bool}

/-- The language is no part of the output settings. -/
theorem EmitterSettings.output_set_language (settings : EmitterSettings)
    (setting : EmitterSetting) :
    (settings.set "language" setting).output = settings.output := by
  rw [output, set, Members.find?_insert_of_ne (by decide), output]

theorem EmitterSettings.forcing_eq_error_iff :
    (∃ e, settings.forcing = .error e) ↔ ∀ output, settings.output ≠ .record output := by
  rw [forcing]
  cases settings.output with
  | record output => exact iff_of_false not_exists_ok_eq_error fun h ↦ h output rfl
  | replaced value => exact iff_of_true ⟨_, rfl⟩ fun _ ↦ nofun
  | missing => exact iff_of_true ⟨_, rfl⟩ fun _ ↦ nofun

theorem EmitterSettings.withOptions_eq_error_iff :
    (∃ e, settings.withOptions language force = .error e) ↔
      force = true ∧ ∀ output, settings.output ≠ .record output := by
  cases force with
  | false => exact iff_of_false not_exists_ok_eq_error fun h ↦ nomatch h.1
  | true =>
    rw [and_iff_right rfl]
    cases language with
    | none => exact forcing_eq_error_iff
    | some language =>
      rw [← settings.output_set_language (.value (.str language.name))]
      exact forcing_eq_error_iff

theorem EmitterSettings.outputSettings?_eq_error_iff :
    (∃ e, settings.outputSettings? = .error e) ↔
      settings.output = .missing ∨ ∃ value, settings.output = .replaced value ∧ value.truthy := by
  rw [outputSettings?]
  cases settings.output with
  | record output =>
    refine iff_of_false not_exists_ok_eq_error ?_
    rintro (h | ⟨value, h, -⟩) <;> cases h
  | replaced value =>
    dsimp only
    split
    · next htruthy => exact iff_of_true ⟨_, rfl⟩ (.inr ⟨value, rfl, htruthy⟩)
    · next htruthy =>
      refine iff_of_false not_exists_ok_eq_error ?_
      rintro (h | ⟨_, h, hvalue⟩)
      · cases h
      · exact htruthy (Group.replaced.inj h ▸ hvalue)
  | missing => exact iff_of_true ⟨_, rfl⟩ (.inl rfl)

end Settings

/-! ## Documents and references -/

theorem Document.dump_eq_error_iff {d : Document} {indent : Option Nat} :
    (∃ e, d.dump indent = .error e) ↔ d.toJson.excess?.isSome := by
  rw [dump]
  split
  · next hexcess => exact iff_of_true ⟨_, rfl⟩ hexcess
  · next hexcess => exact iff_of_false not_exists_ok_eq_error hexcess

/-- A foreign value keeps an imported document from being written, and so does a long number. -/
theorem ImportedDocument.dump_eq_error_iff {d : ImportedDocument} {indent : Option Nat} :
    (∃ e, d.dump indent = .error e) ↔ d.foreign ≠ [] ∨ d.document.toJson.excess?.isSome := by
  rw [dump]
  split
  · next hnone =>
    rw [Document.dump_eq_error_iff, hnone]
    exact (or_iff_right (not_not_intro rfl)).symm
  · next value rest hsome =>
    exact iff_of_true ⟨_, rfl⟩ (.inl (hsome ▸ List.cons_ne_nil _ _))

section Lookup

variable {modules : List Module} {moduleName other reference : String}

theorem findModule_ne_relative {found : Option Module} {steps : List String} :
    SchemaReference.findModule moduleName modules found steps ≠ .error (.relativeModule other) := by
  intro h
  fun_induction SchemaReference.findModule moduleName modules found steps with
  | case7 _ _ _ _ _ _ _ _ ih => exact ih h
  | _ => cases h

theorem findMember_ne_relative {r : SchemaReference}
    {members : List (String × Except String Definition)} {found : Option Definition}
    {steps : List String} :
    SchemaReference.findMember r members found steps ≠ .error (.relativeModule other) := by
  intro h
  fun_induction SchemaReference.findMember r members found steps with
  | case5 _ _ _ _ _ _ _ ih => exact ih h
  | _ => cases h

theorem lookUp_eq_relative_iff :
    (∃ moduleName, lookUp modules reference = .error (.relativeModule moduleName)) ↔
      ∃ r, SchemaReference.ofText? reference = some r ∧ r.moduleName.startsWith "." := by
  rw [lookUp]
  cases SchemaReference.ofText? reference with
  | none =>
    constructor
    · rintro ⟨moduleName, h⟩
      cases h
    · rintro ⟨r, h, -⟩
      cases h
  | some r =>
    dsimp only
    rw [SchemaReference.find]
    split
    · next hdot => exact iff_of_true ⟨_, rfl⟩ ⟨r, rfl, hdot⟩
    · next hdot =>
      constructor
      · rintro ⟨moduleName, h⟩
        match hmodule : SchemaReference.findModule r.moduleName modules none
            (Text.parts '.' r.moduleName) with
        | .error e =>
          rw [hmodule] at h
          obtain rfl := Except.error.inj h
          exact absurd hmodule findModule_ne_relative
        | .ok m =>
          rw [hmodule] at h
          exact absurd h findMember_ne_relative
      · rintro ⟨r', hr, h⟩
        exact absurd (Option.some.inj hr ▸ h) hdot

end Lookup

namespace Running

variable {w w' : World} {surroundings : Surroundings}

/-! ## The commands -/

/-- A check breaks off in one of its steps. -/
theorem breaks_check_iff_exists {file : Option Path} {document data : Path}
    (h : (Invocation.check file document data).HasAccess w.files) :
    Breaks (check file document data) w ↔
      ∃ settings : BuilderSettings, settings.ReadFrom w.files file ∧
        (w.files.HoldsLongNumber document ∨ ∃ d, w.Loads document d ∧
          ((∃ e, (d.build settings).value = .error e) ∨ ∃ m, (d.build settings).value = .ok m ∧
            (w.files.HoldsLongNumber data ∨ ∃ value, w.files.Holds data value ∧
              (m.validate value).value = none))) := by
  have hsettings : ∀ p ∈ file, w.files.Readable p := fun p hp ↦
    h.inputs p (List.mem_append_left _ (Option.mem_toList.mpr hp))
  have hdocument : w.files.Readable document := h.inputs document (by simp [Invocation.inputs])
  have hdata : w.files.Readable data := h.inputs data (by simp [Invocation.inputs])
  refine (breaks_loadSettings_bind_iff hsettings).trans ?_
  refine exists_congr fun settings ↦ and_congr_right' ?_
  refine breaks_load_bind_iff hdocument fun d w' hfiles ↦ ?_
  -- from here on the run is in another world, with the same files
  rw [← hfiles]
  refine breaks_ofLogged_bind_iff.trans ?_
  refine (breaks_ofExcept_bind_iff _).trans (or_congr breaks_ofExcept_broken_iff ?_)
  refine exists_congr fun m ↦ and_congr_right' ?_
  refine (breaks_loadData_bind_iff (hfiles ▸ hdata)).trans (or_congr_right ?_)
  refine exists_congr fun value ↦ and_congr_right' ?_
  refine breaks_ofLogged_bind_iff.trans ?_
  cases (m.validate value).value with
  | none => exact iff_of_true ⟨_, fails_throw_iff.mpr rfl⟩ rfl
  | some verdict =>
    refine iff_of_false ?_ nofun
    cases verdict with
    | error failures =>
      rintro ⟨breakdown, h⟩
      cases fails_throw_iff.mp h
    | ok datum => exact not_breaks_pure

theorem breaks_check_iff {file : Option Path} {document data : Path}
    (h : (Invocation.check file document data).HasAccess w.files) :
    Breaks (check file document data) w ↔ CheckBreaksOff w file document data := by
  rw [breaks_check_iff_exists h]
  constructor
  · rintro ⟨settings, hfound, hnumber | ⟨d, hd, hfails | ⟨m, hm, hnumber | ⟨value, hvalue, hnone⟩⟩⟩⟩
    · exact .documentNumber hfound hnumber
    · obtain hroot | ⟨⟨x, hx, hnameless⟩, hname⟩ := (d.build_eq_error_iff settings).mp hfails
      · exact .rootName hfound hd hroot
      · exact .anonymousName hfound hd hx hnameless hname
    · exact .dataNumber hfound hd hnumber
    · exact .endless hfound hd hm hvalue ((m.value_validate_eq_none_iff value).mp hnone)
  · intro hbreaks
    cases hbreaks with
    | documentNumber hfound hnumber => exact ⟨_, hfound, .inl hnumber⟩
    | rootName hfound hd hroot =>
      exact ⟨_, hfound, .inr ⟨_, hd, .inl ((Document.build_eq_error_iff _ _).mpr (.inl hroot))⟩⟩
    | anonymousName hfound hd hx hnameless hname =>
      exact ⟨_, hfound, .inr ⟨_, hd, .inl ((Document.build_eq_error_iff _ _).mpr
        (.inr ⟨⟨_, hx, hnameless⟩, hname⟩))⟩⟩
    | @dataNumber settings d hfound hd hnumber =>
      have hbuilt := exists_error_or_ok (d.build settings).value
      exact ⟨_, hfound, .inr ⟨_, hd, hbuilt.imp_right (Exists.imp fun m hm ↦ ⟨hm, .inl hnumber⟩)⟩⟩
    | endless hfound hd hm hvalue hnone =>
      exact ⟨_, hfound, .inr ⟨_, hd, .inr ⟨_, hm, .inr ⟨_, hvalue,
        (Model.value_validate_eq_none_iff _ _).mpr hnone⟩⟩⟩⟩

/-- An emission breaks off in one of its steps. -/
theorem breaks_emit_iff_exists {file : Option Path} {language : Option Language} {force : Bool}
    {document output : Path}
    (h : (Invocation.emit file language force document output).HasAccess w.files) :
    Breaks (emit surroundings file language force document output) w ↔
      ∃ found : EmitterSettings, found.ReadFrom w.files file ∧
        ((∃ e, found.withOptions language force = .error e) ∨
          ∃ settings, found.withOptions language force = .ok settings ∧
            (w.files.HoldsLongNumber document ∨ ∃ d, w.Loads document d ∧
              ((∃ e, (settings.emit surroundings.tools d).value = .error e) ∨
                ∃ code, (settings.emit surroundings.tools d).value = .ok code ∧
                  ((∃ e, settings.outputSettings? = .error e) ∨
                    ∃ outputSettings, settings.outputSettings? = .ok outputSettings ∧
                      outputSettings.atomicWrite.truthy ∧ output.TooLongToReplace ∧
                        (outputSettings.mode.protects → ¬ w.files.has output))))) := by
  have hsettings : ∀ p ∈ file, w.files.Readable p := fun p hp ↦
    h.inputs p (List.mem_append_left _ (Option.mem_toList.mpr hp))
  have hdocument : w.files.Readable document := h.inputs document (by simp [Invocation.inputs])
  have houtput : w.files.Writable output := h.output output rfl
  refine (breaks_loadSettings_bind_iff hsettings).trans ?_
  refine exists_congr fun found ↦ and_congr_right' ?_
  refine (breaks_ofExcept_bind_iff (found.withOptions language force)).trans
    (or_congr breaks_ofExcept_broken_iff ?_)
  refine exists_congr fun settings ↦ and_congr_right' ?_
  refine breaks_load_bind_iff hdocument fun d w' hfiles ↦ ?_
  -- from here on the run is in another world, with the same files
  rw [← hfiles]
  refine breaks_ofLogged_bind_iff.trans ?_
  refine (breaks_ofExcept_bind_iff _).trans (or_congr breaks_ofExcept_broken_iff ?_)
  refine exists_congr fun code ↦ and_congr_right' ?_
  refine (breaks_ofExcept_bind_iff _).trans (or_congr breaks_ofExcept_broken_iff ?_)
  refine exists_congr fun outputSettings ↦ and_congr_right' ?_
  exact breaks_write_iff (hfiles ▸ houtput)

theorem breaks_emit_iff {file : Option Path} {language : Option Language} {force : Bool}
    {document output : Path}
    (h : (Invocation.emit file language force document output).HasAccess w.files) :
    Breaks (emit surroundings file language force document output) w ↔
      EmissionBreaksOff surroundings w file language force document output := by
  rw [breaks_emit_iff_exists h]
  simp only [EmitterSettings.withOptions_eq_error_iff, EmitterSettings.emit_eq_error_iff,
    EmitterSettings.outputSettings?_eq_error_iff]
  constructor
  · rintro ⟨found, hfound, ⟨hforce, h⟩ | ⟨settings, hoptions, hnumber | ⟨d, hd, h |
      ⟨code, -, h | ⟨outputSettings, houtput, hatomic, hlong, hmissing⟩⟩⟩⟩⟩
    · exact .forcing hfound hforce h
    · exact .documentNumber hfound hnumber
    · exact .emission hfound hoptions hd h
    · exact .outputSettings hfound hoptions hd h
    · exact .outputName hfound hoptions hd houtput hatomic hlong hmissing
  · -- a step that fails before the one in question breaks the run off as well
    have hoptioned (found : EmitterSettings) :=
      (exists_error_or_ok (found.withOptions language force)).imp_left
        EmitterSettings.withOptions_eq_error_iff.mp
    have hemitted (settings : EmitterSettings) (d : Document) :=
      (exists_error_or_ok (settings.emit surroundings.tools d).value).imp_left
        (settings.emit_eq_error_iff surroundings.tools d).mp
    intro hbreaks
    cases hbreaks with
    | forcing hfound hforce h => exact ⟨_, hfound, .inl ⟨hforce, h⟩⟩
    | documentNumber hfound hnumber =>
      exact ⟨_, hfound, (hoptioned _).imp_right
        (Exists.imp fun _ hoptions ↦ ⟨hoptions, .inl hnumber⟩)⟩
    | emission hfound hoptions hd h => exact ⟨_, hfound, .inr ⟨_, hoptions, .inr ⟨_, hd, .inl h⟩⟩⟩
    | outputSettings hfound hoptions hd h =>
      refine ⟨_, hfound, .inr ⟨_, hoptions, .inr ⟨_, hd, ?_⟩⟩⟩
      exact (hemitted _ _).imp_right (Exists.imp fun _ hcode ↦ ⟨hcode, .inl h⟩)
    | outputName hfound hoptions hd houtput hatomic hlong hmissing =>
      refine ⟨_, hfound, .inr ⟨_, hoptions, .inr ⟨_, hd, ?_⟩⟩⟩
      refine (hemitted _ _).imp_right (Exists.imp fun _ hcode ↦ ⟨hcode, .inr ?_⟩)
      exact ⟨_, houtput, hatomic, hlong, hmissing⟩

/-- An import breaks off in one of its steps. -/
theorem breaks_importSchema_iff_exists {force : Bool} {reference : String} {output : Path}
    (h : (Invocation.importSchema force reference output).HasAccess w.files) :
    Breaks (importSchema surroundings force reference output) w ↔
      ((∃ moduleName,
          lookUp surroundings.modules reference = .error (.relativeModule moduleName)) ∨
        ∃ problem, lookUp surroundings.modules reference = .error (.failed problem)) ∨
        ∃ found, lookUp surroundings.modules reference = .ok found ∧
          ((∃ e, (found.type.view.toDocument.run w.ids).value.1 = .error e) ∨
            ∃ d, (found.type.view.toDocument.run w.ids).value.1 = .ok d ∧
              ((∃ e, d.dump (some 2) = .error e) ∨ ∃ text, d.dump (some 2) = .ok text ∧
                output.TooLongToReplace ∧ (force = false → ¬ w.files.has output))) := by
  have houtput : w.files.Writable output := h.output output rfl
  refine (breaks_ofExcept_bind_iff _).trans (or_congr ?_ ?_)
  · -- the other faults of a reference have a message
    rw [breaks_ofExcept_iff]
    constructor
    · rintro ⟨e, he, breakdown, h⟩
      cases e with
      | relativeModule moduleName => exact .inl ⟨moduleName, he⟩
      | failed problem => exact .inr ⟨problem, he⟩
      | malformed _ | noModule _ _ _ | notImportable _ _ | noMember _ _ => cases h
    · rintro (⟨moduleName, h⟩ | ⟨problem, h⟩)
      · exact ⟨_, h, _, rfl⟩
      · exact ⟨_, h, _, rfl⟩
  refine exists_congr fun found ↦ and_congr_right' ?_
  refine breaks_get_bind_iff.trans (breaks_ofLogged_bind_iff.trans ?_)
  refine breaks_set_bind_iff.trans ?_
  refine (breaks_ofExcept_bind_iff _).trans (or_congr breaks_ofExcept_broken_iff ?_)
  refine exists_congr fun d ↦ and_congr_right' ?_
  refine (breaks_ofExcept_bind_iff _).trans (or_congr breaks_ofExcept_broken_iff ?_)
  refine exists_congr fun text ↦ and_congr_right' ?_
  let w' : World := { w with ids := (found.type.view.toDocument.run w.ids).value.2 }
  refine (breaks_write_iff (w := w') houtput).trans ?_
  cases force <;> simp [OutputMode.protects, truthy, w']

theorem breaks_importSchema_iff {force : Bool} {reference : String} {output : Path}
    (h : (Invocation.importSchema force reference output).HasAccess w.files) :
    Breaks (importSchema surroundings force reference output) w ↔
      ImportBreaksOff surroundings w force reference output := by
  rw [breaks_importSchema_iff_exists h, lookUp_eq_relative_iff]
  have hviews (found : Definition) :=
    SchemaView.toDocument_eq_error_iff found.type.regular_view w.ids
  constructor
  · rintro ((⟨r, hr, hdot⟩ | ⟨problem, h⟩) |
      ⟨found, hfound, h | ⟨d, hd, h | ⟨text, -, hlong, hmissing⟩⟩⟩)
    · exact .relativeModule hr hdot
    · exact .reference h
    · obtain h | ⟨⟨properties, hform⟩, part, hpart, h⟩ := (hviews found).mp h
      · exact .root hfound h
      · exact .part hfound hform hpart h
    · obtain h | h := ImportedDocument.dump_eq_error_iff.mp h
      · exact .foreign (.mk hfound hd) h
      · exact .number (.mk hfound hd) h
    · exact .outputName (.mk hfound hd) hlong hmissing
  · intro hbreaks
    cases hbreaks with
    | relativeModule hr hdot => exact .inl (.inl ⟨_, hr, hdot⟩)
    | reference h => exact .inl (.inr ⟨_, h⟩)
    | root hfound h => exact .inr ⟨_, hfound, .inl ((hviews _).mpr (.inl h))⟩
    | part hfound hform hpart h =>
      exact .inr ⟨_, hfound, .inl ((hviews _).mpr (.inr ⟨⟨_, hform⟩, _, hpart, h⟩))⟩
    | foreign hdocument h =>
      obtain ⟨hfound, hd⟩ := hdocument
      exact .inr ⟨_, hfound, .inr ⟨_, hd, .inl (ImportedDocument.dump_eq_error_iff.mpr (.inl h))⟩⟩
    | number hdocument h =>
      obtain ⟨hfound, hd⟩ := hdocument
      exact .inr ⟨_, hfound, .inr ⟨_, hd, .inl (ImportedDocument.dump_eq_error_iff.mpr (.inr h))⟩⟩
    | @outputName d hdocument hlong hmissing =>
      obtain ⟨hfound, hd⟩ := hdocument
      have hdumped := exists_error_or_ok (d.dump (some 2))
      exact .inr ⟨_, hfound, .inr ⟨_, hd,
        hdumped.imp_right (Exists.imp fun _ htext ↦ ⟨htext, hlong, hmissing⟩)⟩⟩

/-- What comes after a command does not break off. -/
theorem breaks_invoke_iff {invocation : Invocation} (h : invocation.HasAccess w.files) :
    Breaks (invoke surroundings invocation) w ↔ invocation.BreaksOff surroundings w := by
  have hlast (step : Running Unit) : Breaks (do step; return "") w ↔ Breaks step w := by
    rw [breaks_bind_iff]
    exact or_iff_left fun ⟨_, _, _, h⟩ ↦ not_breaks_pure h
  cases invocation with
  | check file document data => exact breaks_check_iff h
  | emit file language force document output => exact (hlast _).trans (breaks_emit_iff h)
  | importSchema force reference output => exact (hlast _).trans (breaks_importSchema_iff h)

end Running

/-! ## Endings with a message -/

/-- Only a check can end with a report of invalid data, and the report is one of failures. -/
def Ending.Suits (invocation : Invocation) : Ending → Prop
  | .invalid report => (∃ file document data, invocation = .check file document data) ∧
    ∃ label failures, report = failureReport label failures
  | .misused .. | .refused _ | .broken _ => True

namespace Running

variable {α : Type} {surroundings : Surroundings} {invocation : Invocation}

theorem stops_readFile (p : Path) : Stops (readFile p) (Ending.Suits invocation) :=
  .bind .get fun _ ↦ .ofExcept (fun _ ↦ trivial) _

theorem stops_load (p : Path) : Stops (load p) (Ending.Suits invocation) := by
  refine (stops_readFile p).bind fun content ↦ .bind .get fun w ↦ .bind (.ofLogged _) fun ended ↦ ?_
  refine .bind (.set _) fun _ ↦ .ofExcept (fun e ↦ ?_) _
  split <;> trivial

theorem stops_loadData (p : Path) : Stops (loadData p) (Ending.Suits invocation) := by
  refine (stops_readFile p).bind fun content ↦ .ofExcept (fun e ↦ ?_) _
  cases e <;> trivial

theorem stops_loadSettings (command : Command) (read : Json → Except SettingsError α) (defaults : α)
    (file : Option Path) :
    Stops (loadSettings command read defaults file) (Ending.Suits invocation) := by
  match file with
  | none => exact .pure _
  | some p =>
    refine (stops_readFile p).bind fun content ↦ ?_
    refine .bind (.ofExcept (fun e ↦ ?_) _) fun value ↦ .ofExcept (fun _ ↦ trivial) _
    cases e <;> trivial

theorem stops_write (settings : OutputSettings) (p : Path) (content : String) :
    Stops (write settings p content) (Ending.Suits invocation) := by
  refine .bind .get fun w ↦ .bind (.ofLogged _) fun ended ↦ .bind (.set _) fun _ ↦ ?_
  refine .ofExcept (fun e ↦ ?_) _
  cases e <;> trivial

theorem stops_check (file : Option Path) (document data : Path) :
    Stops (check file document data) (Ending.Suits (.check file document data)) := by
  refine (stops_loadSettings _ _ _ file).bind fun settings ↦ (stops_load document).bind fun d ↦ ?_
  refine .bind (.ofLogged _) fun result ↦ .bind (.ofExcept (fun _ ↦ trivial) _) fun m ↦ ?_
  refine (stops_loadData data).bind fun value ↦ .bind (.ofLogged _) fun verdict ↦ ?_
  match verdict with
  | none => exact .throw trivial
  | some (.error failures) =>
    exact .throw ⟨⟨file, document, data, rfl⟩, m.shape.label, failures, rfl⟩
  | some (.ok datum) => exact .pure _

theorem stops_emit (file : Option Path) (language : Option Language) (force : Bool)
    (document output : Path) :
    Stops (emit surroundings file language force document output) (Ending.Suits invocation) := by
  refine (stops_loadSettings _ _ _ file).bind fun found ↦ ?_
  refine .bind (.ofExcept (fun _ ↦ trivial) _) fun settings ↦ (stops_load document).bind fun d ↦ ?_
  refine .bind (.ofLogged _) fun result ↦ .bind (.ofExcept (fun _ ↦ trivial) _) fun code ↦ ?_
  exact .bind (.ofExcept (fun _ ↦ trivial) _) fun outputSettings ↦ stops_write _ _ _

theorem stops_importSchema (force : Bool) (reference : String) (output : Path) :
    Stops (importSchema surroundings force reference output) (Ending.Suits invocation) := by
  refine .bind (.ofExcept (fun e ↦ ?_) _) fun found ↦ ?_
  · cases e <;> trivial
  refine .bind .get fun w ↦ .bind (.ofLogged _) fun ended ↦ .bind (.set _) fun _ ↦ ?_
  refine .bind (.ofExcept (fun _ ↦ trivial) _) fun d ↦ ?_
  exact .bind (.ofExcept (fun _ ↦ trivial) _) fun text ↦ stops_write _ _ _

theorem stops_invoke (surroundings : Surroundings) (invocation : Invocation) :
    Stops (invoke surroundings invocation) (Ending.Suits invocation) := by
  match invocation with
  | .check file document data => exact stops_check file document data
  | .emit file language force document output =>
    exact (stops_emit file language force document output).bind fun _ ↦ .pure _
  | .importSchema force reference output =>
    exact (stops_importSchema force reference output).bind fun _ ↦ .pure _

end Running

/-- A run of a command line that reads so ends well, or with a message that says why it does not. -/
inductive Outcome.Reported (read : Except Misuse Request) (outcome : Outcome) : Prop where
  | done (hstatus : outcome.status = 0)
  /-- Without arguments the help is shown. -/
  | helped (hread : read = .error .empty) (hstatus : outcome.status = 2)
    (herrors : outcome.errors = programHelp)
  | misused {log : String} {form : CommandForm} {error : UsageError} (hstatus : outcome.status = 2)
    (herrors : outcome.errors = log ++ error.report form)
  | refused {log message : String} (hstatus : outcome.status = 1)
    (herrors : outcome.errors = log ++ ("Error: " ++ message ++ "\n"))
  /-- A check reports what is wrong with its data. -/
  | invalid {settings : LogSettings} {file : Option Path} {document data : Path}
    (hread : read = .ok (.run settings (.check file document data))) {log label : String}
    {failures : List Failure} (hstatus : outcome.status = 1)
    (herrors : outcome.errors = log ++ (failureReport label failures ++ "\n"))

namespace Outcome

variable {result : Except Ending String}

theorem isSome_breakdown_ofResult :
    (ofResult result).breakdown.isSome ↔ ∃ breakdown, result = .error (.broken breakdown) := by
  cases result with
  | ok output =>
    refine iff_of_false Bool.false_ne_true ?_
    rintro ⟨breakdown, h⟩
    cases h
  | error ending =>
    cases ending with
    | broken breakdown => exact iff_of_true rfl ⟨breakdown, rfl⟩
    | misused _ _ | refused _ | invalid _ =>
      refine iff_of_false Bool.false_ne_true ?_
      rintro ⟨breakdown, h⟩
      cases h

/-- A result whose ending suits the command is reported unless it breaks the run off. -/
theorem reported_ofResult {settings : LogSettings} {invocation : Invocation}
    (hsuits : ∀ e, result = .error e → e.Suits invocation) (h : (ofResult result).breakdown = none)
    (log : String) :
    ({ ofResult result with errors := log ++ (ofResult result).errors } : Outcome).Reported
      (.ok (.run settings invocation)) := by
  cases result with
  | ok output => exact .done rfl
  | error ending =>
    cases ending with
    | misused form error => exact .misused rfl rfl
    | refused message => exact .refused rfl rfl
    | invalid report =>
      obtain ⟨⟨file, document, data, rfl⟩, label, failures, rfl⟩ := hsuits _ rfl
      exact .invalid rfl rfl rfl
    | broken breakdown => cases h

end Outcome

/-! ## Runs -/

/-- The output of an emission in an occupied folder can be written. -/
theorem writable_occupied (settings : String) :
    (occupied settings).files.Writable ⟨true, ["work", "out.ts"]⟩ where
  absolute := rfl
  direct := by decide
  plain := by decide +kernel
  short := by decide +kernel
  way := by
    intro k hk content
    obtain rfl | rfl : k = [] ∨ k = ["work"] := by
      simpa [List.inits] using (List.mem_inits k ["work"]).mpr hk
    · exact nofun
    · exact nofun
  place := nofun

/-- The document of an occupied folder has no fields. -/
theorem parseFile_occupied :
    parseFile "\x7b\"fields\":[]\x7d" = .ok (.obj [("fields", .arr [])]) := by
  rw [parseFile_eq]
  simp only [String.reduceToList]
  rfl

theorem hasAccess_occupied {settings : String} {value : Json}
    (hparse : parseFile settings = .ok value) :
    (Invocation.emit (some ⟨true, ["work", "config.json"]⟩) none false
        ⟨true, ["work", "doc.json"]⟩ ⟨true, ["work", "out.ts"]⟩).HasAccess
      (occupied settings).files where
  inputs := by
    rintro p (_ | ⟨_, _ | ⟨_, ⟨⟩⟩⟩)
    · refine ⟨rfl, fun content hread ↦ ?_⟩
      obtain rfl : settings = content := Except.ok.inj hread
      rw [hparse]
      rintro ⟨⟩
    · refine ⟨rfl, fun content hread ↦ ?_⟩
      obtain rfl := Except.ok.inj hread
      rw [parseFile_occupied]
      rintro ⟨⟩
  output := by
    rintro p hp
    obtain rfl := Option.some.inj hp
    exact writable_occupied settings

/-- **Which runs break off.** A run that has access to its files breaks off exactly in the cases
that are listed for its command. Otherwise it ends well or with a message. -/
theorem runCommandLine_breakdown_iff (surroundings : Surroundings) (arguments : List String)
    (w : World) (haccess : ∀ log invocation,
      readCommandLine w.files arguments = .ok (.run log invocation) →
        invocation.HasAccess w.files) :
    ((runCommandLine surroundings arguments w).1.breakdown.isSome ↔
        ∃ log invocation, readCommandLine w.files arguments = .ok (.run log invocation) ∧
          invocation.BreaksOff surroundings w) ∧
      ((runCommandLine surroundings arguments w).1.breakdown = none →
        (runCommandLine surroundings arguments w).1.Reported
          (readCommandLine w.files arguments)) := by
  rw [runCommandLine]
  cases hread : readCommandLine w.files arguments with
  | error misuse =>
    constructor
    · refine iff_of_false Bool.false_ne_true ?_
      rintro ⟨log, invocation, h, -⟩
      cases h
    · intro _
      cases misuse with
      | empty => exact .helped rfl rfl rfl
      | wrong form error => exact .misused rfl String.empty_append.symm
  | ok request =>
    cases request with
    | help _ | version =>
      refine ⟨iff_of_false Bool.false_ne_true ?_, fun _ ↦ .done rfl⟩
      rintro ⟨log, invocation, h, -⟩
      cases h
    | run log invocation =>
      have hbreaks : Running.Breaks (Running.invoke surroundings invocation) w ↔
          invocation.BreaksOff surroundings w :=
        Running.breaks_invoke_iff (haccess log invocation hread)
      -- the invocation is the one that the command line asks for
      have hrequest : (∃ log' invocation',
          (Except.ok (.run log invocation) : Except Misuse Request) =
          .ok (.run log' invocation') ∧ invocation'.BreaksOff surroundings w) ↔
            invocation.BreaksOff surroundings w := by
        constructor
        · rintro ⟨log', invocation', h, hbreaks⟩
          cases h
          exact hbreaks
        · exact fun h ↦ ⟨log, invocation, rfl, h⟩
      constructor
      · rw [hrequest, ← hbreaks]
        exact Outcome.isSome_breakdown_ofResult
      · intro h
        exact Outcome.reported_ofResult (Running.stops_invoke surroundings invocation w) h _

theorem runCommandLine_breakdown_iff_occupied :
    let w := occupied errorSettings
    let outcome := (runCommandLine ⟨{}, []⟩ occupiedArguments w).1
    (∀ log invocation, readCommandLine w.files occupiedArguments = .ok (.run log invocation) →
        invocation.HasAccess w.files) ∧
      (¬ ∃ log invocation, readCommandLine w.files occupiedArguments = .ok (.run log invocation) ∧
        invocation.BreaksOff ⟨{}, []⟩ w) ∧
      outcome.Reported (readCommandLine w.files occupiedArguments) := by
  intro w outcome
  have haccess : ∀ log invocation,
      readCommandLine w.files occupiedArguments = .ok (.run log invocation) →
        invocation.HasAccess w.files := by
    intro log invocation hread
    have hrequest : readCommandLine w.files occupiedArguments = .ok occupiedRequest := by
      decide +kernel
    obtain ⟨-, rfl⟩ := Request.run.inj (Except.ok.inj (hrequest.symm.trans hread))
    exact hasAccess_occupied parseFile_errorSettings
  obtain ⟨hiff, hreported⟩ := runCommandLine_breakdown_iff ⟨{}, []⟩ occupiedArguments w haccess
  have hnone : outcome.breakdown.isSome = false := by decide +kernel
  refine ⟨haccess, ?_, hreported ?_⟩
  · rw [← hiff]
    exact Bool.eq_false_iff.mp hnone
  · exact Option.isNone_iff_eq_none.mp (Option.isSome_eq_false_iff.mp hnone)

/-! ## An emission that breaks off -/

/-- Settings with a language that does not exist. -/
def cobolSettings : String := "\x7b\"language\":\"cobol\"\x7d"

theorem parseFile_cobolSettings :
    parseFile cobolSettings = .ok (.obj [("language", .str "cobol")]) := by
  rw [parseFile_eq, cobolSettings]
  simp only [String.reduceToList]
  rfl

/-- **An unknown language is not reported.** The settings are accepted, all files can be read and
the output can be written, and the run breaks off without a message. -/
theorem exists_unreported_language :
    let settings := Json.obj [("language", .str "cobol")]
    let w := occupied cobolSettings
    let outcome := (runCommandLine ⟨{}, []⟩ occupiedArguments w).1
    readCommandLine w.files occupiedArguments = .ok occupiedRequest ∧
      w.files.read ⟨true, ["work", "config.json"]⟩ = .ok cobolSettings ∧
      parseFile cobolSettings = .ok settings ∧ (EmitterSettings.ofJson settings).isOk ∧
      w.files.Writable ⟨true, ["work", "out.ts"]⟩ ∧
      outcome.breakdown.isSome ∧
      ¬ outcome.Reported (readCommandLine w.files occupiedArguments) := by
  intro settings w outcome
  have hread : readCommandLine w.files occupiedArguments = .ok occupiedRequest := by decide +kernel
  have hstatus : outcome.status = 1 := by decide +kernel
  have herrors : outcome.errors = "" := by decide +kernel
  refine ⟨hread, by decide +kernel, parseFile_cobolSettings, rfl, writable_occupied cobolSettings,
    by decide +kernel, ?_⟩
  intro hreported
  cases hreported with
  | done h => exact absurd (hstatus.symm.trans h) (by decide)
  | helped _ h | misused h => exact absurd (hstatus.symm.trans h) (by decide)
  | refused _ h =>
    have hempty := h.symm.trans herrors
    simp at hempty
  | invalid h => exact absurd (hread.symm.trans h) nofun

end SchemaTree
