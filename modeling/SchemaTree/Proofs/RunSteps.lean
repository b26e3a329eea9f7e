import SchemaTree.Proofs.NumberBounds
import SchemaTree.Proofs.Outcomes
import SchemaTree.Proofs.Writability

/-!
# How the steps of a run end

A step of a run breaks off if it ends without a message (`Running.Breaks`). For each step that is
used by the commands there is what it yields and when it breaks off, both as equivalences, given
that the files that it reads can be read as texts (`FileTree.Readable`) and the file that it writes
can be written. A whole number with too many digits then is all that is wrong with what is read,
since everything else that can be wrong has a message, and the name of a temporary file is all that
is wrong with what is written. Such a number is found where the JSON is read, so that there is none
left when the document is (`loadDocument_ne_undecodable_tooLong`). -/

namespace SchemaTree

open Json

/-! ## What files hold -/

/-- A file can be read, and every surrogate that is escaped in it has its partner. -/
structure FileTree.Readable (t : FileTree) (p : Path) : Prop where
  isOk : (t.read p).isOk
  paired (content : String) (hread : t.read p = .ok content) :
    parseFile content ≠ .error .loneSurrogate

/-- A file holds a JSON value. -/
def FileTree.Holds (t : FileTree) (p : Path) (value : Json) : Prop :=
  ∃ content, t.read p = .ok content ∧ parseFile content = .ok value

/-- Reading a file as JSON stops at a whole number with too many digits. -/
def FileTree.HoldsLongNumber (t : FileTree) (p : Path) : Prop :=
  ∃ content digits, t.read p = .ok content ∧ parseFile content = .error (.tooLong digits)

/-- A file is loaded as a document. -/
def World.Loads (w : World) (p : Path) (d : Document) : Prop :=
  ∃ content, w.files.read p = .ok content ∧ (loadDocument p.text content w.ids).value.1 = .ok d

/-- The settings that a check reads: the default ones without a file. -/
def BuilderSettings.ReadFrom (t : FileTree) (file : Option Path)
    (settings : BuilderSettings) : Prop :=
  file = none ∧ settings = {} ∨ ∃ p ∈ file, ∃ content value,
    t.read p = .ok content ∧ parseFile content = .ok value ∧
      BuilderSettings.ofJson value = .ok settings

section Loading

variable {path content : String} {ids : IdSupply}

/-- A document is not loaded if its text cannot be read, or if what the text holds cannot be
decoded. -/
theorem loadDocument_eq_error_iff {e : LoadError} :
    (loadDocument path content ids).value.1 = .error e ↔
      (∃ fault, parseFile content = .error fault ∧ LoadError.ofParse path fault = e) ∨
        ∃ value, parseFile content = .ok value ∧ ∃ e',
          ((readDocument value).run ids).value.1 = .error e' ∧ LoadError.undecodable e' = e := by
  rw [loadDocument]
  match parseFile content with
  | .error fault => simp
  | .ok value =>
    rw [Logged.value_bind, Logged.value_pure]
    match hread : ((readDocument value).run ids).value.1 with
    | .error e' => simp [hread, Except.mapError]
    | .ok d => simp [hread, Except.mapError]

/-- A document is not loaded for a number exactly if its text is not read for it. -/
theorem loadDocument_eq_tooLong_iff {digits : Nat} :
    (loadDocument path content ids).value.1 = .error (.tooLong digits) ↔
      parseFile content = .error (.tooLong digits) := by
  rw [loadDocument_eq_error_iff]
  constructor
  · rintro (⟨fault, hparse, h⟩ | ⟨value, -, e, -, h⟩)
    · cases fault <;> cases h
      exact hparse
    · cases h
  · exact fun h ↦ .inl ⟨_, h, rfl⟩

/-- Surrogates are looked at where the text is read. -/
theorem parseFile_eq_of_loadDocument_eq_loneSurrogate
    (h : (loadDocument path content ids).value.1 = .error .loneSurrogate) :
    parseFile content = .error .loneSurrogate := by
  obtain ⟨fault, hparse, h⟩ | ⟨value, -, e, -, h⟩ := loadDocument_eq_error_iff.mp h
  · cases fault <;> cases h
    exact hparse
  · cases h

/-- What was read from a text has no number that is too long to be coerced. -/
theorem loadDocument_ne_undecodable_tooLong (itemPath : String) :
    (loadDocument path content ids).value.1 ≠ .error (.undecodable ⟨itemPath, .tooLong⟩) := by
  intro h
  obtain ⟨fault, -, h⟩ | ⟨value, hparse, e, hread, h⟩ := loadDocument_eq_error_iff.mp h
  · cases fault <;> cases h
  · obtain rfl := LoadError.undecodable.inj h
    exact fault_ne_tooLong (excess?_of_parse hparse) ids itemPath hread

end Loading

namespace Running

variable {α β ε : Type} {w w' : World} {p : Path} {content : String}

/-! ## Steps that break off -/

/-- Started in a world, the step breaks off. -/
def Breaks (step : Running α) (w : World) : Prop := ∃ breakdown, Fails step w (.broken breakdown)

theorem breaks_bind_iff {x : Running α} {f : α → Running β} :
    Breaks (x >>= f) w ↔ Breaks x w ∨ ∃ a w', Yields x w a w' ∧ Breaks (f a) w' := by
  unfold Breaks
  simp only [fails_bind_iff, exists_or]
  refine or_congr_right ⟨?_, ?_⟩
  · rintro ⟨breakdown, a, w', ha, h⟩
    exact ⟨a, w', ha, breakdown, h⟩
  · rintro ⟨a, w', ha, breakdown, h⟩
    exact ⟨breakdown, a, w', ha, h⟩

theorem not_breaks_pure {a : α} : ¬ Breaks (pure a : Running α) w := fun ⟨_, h⟩ ↦ not_fails_pure h

theorem yields_ofExcept_iff {ending : ε → Ending} {result : Except ε α} {a : α} :
    Yields (ofExcept ending result) w a w' ↔ result = .ok a ∧ w' = w := by
  cases result with
  | error e => exact iff_of_false not_yields_throw fun h ↦ nomatch h.1
  | ok b => exact yields_pure_iff.trans (and_congr (by rw [Except.ok.injEq]) eq_comm)

theorem breaks_ofExcept_iff {ending : ε → Ending} {result : Except ε α} :
    Breaks (ofExcept ending result) w ↔
      ∃ e, result = .error e ∧ ∃ breakdown, ending e = .broken breakdown := by
  cases result with
  | error e =>
    constructor
    · rintro ⟨breakdown, h⟩
      exact ⟨e, rfl, breakdown, fails_throw_iff.mp h⟩
    · rintro ⟨e', he, breakdown, h⟩
      obtain rfl := Except.error.inj he
      exact ⟨breakdown, fails_throw_iff.mpr h⟩
  | ok a => exact iff_of_false not_breaks_pure fun ⟨_, h, _⟩ ↦ nomatch h

/-- A step that always breaks off when it fails. -/
theorem breaks_ofExcept_broken_iff {breakdown : ε → Breakdown} {result : Except ε α} :
    Breaks (ofExcept (fun e ↦ .broken (breakdown e)) result) w ↔ ∃ e, result = .error e :=
  breaks_ofExcept_iff.trans (exists_congr fun e ↦ and_iff_left ⟨breakdown e, rfl⟩)

theorem yields_ofLogged_iff {step : Logged α} {a : α} :
    Yields (ofLogged step) w a w' ↔ step.value = a ∧ w = w' := by
  change (Except.ok step.value, w) = (Except.ok a, w') ↔ _
  rw [Prod.mk.injEq, Except.ok.injEq]

/-- What comes after a step that cannot fail. -/
theorem breaks_ofLogged_bind_iff {step : Logged α} {f : α → Running β} :
    Breaks (ofLogged step >>= f) w ↔ Breaks (f step.value) w := by
  rw [breaks_bind_iff]
  constructor
  · rintro (⟨_, h⟩ | ⟨a, w', ha, h⟩)
    · cases h
    · obtain ⟨rfl, rfl⟩ := yields_ofLogged_iff.mp ha
      exact h
  · exact fun h ↦ .inr ⟨_, w, yields_ofLogged_iff.mpr ⟨rfl, rfl⟩, h⟩

theorem breaks_get_bind_iff {f : World → Running β} : Breaks (get >>= f) w ↔ Breaks (f w) w := by
  rw [breaks_bind_iff]
  constructor
  · rintro (⟨_, h⟩ | ⟨a, w', ha, h⟩)
    · cases h
    · obtain ⟨rfl, rfl⟩ := yields_get_iff.mp ha
      exact h
  · exact fun h ↦ .inr ⟨w, w, yields_get_iff.mpr ⟨rfl, rfl⟩, h⟩

theorem breaks_set_bind_iff {f : PUnit → Running β} :
    Breaks (set w' >>= f) w ↔ Breaks (f ⟨⟩) w' := by
  rw [breaks_bind_iff]
  constructor
  · rintro (⟨_, h⟩ | ⟨a, w'', ha, h⟩)
    · cases h
    · obtain rfl := yields_set_iff.mp ha
      exact h
  · exact fun h ↦ .inr ⟨⟨⟩, w', yields_set_iff.mpr rfl, h⟩

/-- What comes after a step that keeps the world. -/
theorem breaks_bind_iff_of_keeps {x : Running α} {f : α → Running β} {P : α → Prop}
    (hyields : ∀ a w', Yields x w a w' ↔ P a ∧ w' = w) :
    Breaks (x >>= f) w ↔ Breaks x w ∨ ∃ a, P a ∧ Breaks (f a) w := by
  rw [breaks_bind_iff]
  refine or_congr_right ⟨?_, ?_⟩
  · rintro ⟨a, w', ha, h⟩
    obtain ⟨hP, rfl⟩ := (hyields a w').mp ha
    exact ⟨a, hP, h⟩
  · rintro ⟨a, hP, h⟩
    exact ⟨a, w, (hyields a w).mpr ⟨hP, rfl⟩, h⟩

theorem breaks_ofExcept_bind_iff {ending : ε → Ending} {f : α → Running β} (result : Except ε α) :
    Breaks (ofExcept ending result >>= f) w ↔
      Breaks (ofExcept ending result) w ∨ ∃ a, result = .ok a ∧ Breaks (f a) w :=
  breaks_bind_iff_of_keeps fun _ _ ↦ yields_ofExcept_iff

/-! ## Reading files -/

theorem yields_readFile_iff :
    Yields (readFile p) w content w' ↔ w.files.read p = .ok content ∧ w' = w := by
  rw [readFile, yields_bind_iff]
  constructor
  · rintro ⟨_, _, hget, h⟩
    obtain ⟨rfl, rfl⟩ := yields_get_iff.mp hget
    exact yields_ofExcept_iff.mp h
  · exact fun h ↦ ⟨w, w, yields_get_iff.mpr ⟨rfl, rfl⟩, yields_ofExcept_iff.mpr h⟩

/-- A file that can be read is no reason to break off. -/
theorem breaks_readFile_bind_iff {f : String → Running β} (hread : w.files.Readable p) :
    Breaks (readFile p >>= f) w ↔
      ∃ content, w.files.read p = .ok content ∧ Breaks (f content) w := by
  refine (breaks_bind_iff_of_keeps fun _ _ ↦ yields_readFile_iff).trans (or_iff_right ?_)
  rw [readFile, breaks_get_bind_iff, breaks_ofExcept_broken_iff]
  rintro ⟨e, he⟩
  have hok := hread.isOk
  rw [he] at hok
  cases hok

theorem yields_loadData_iff {value : Json} :
    Yields (loadData p) w value w' ↔ w.files.Holds p value ∧ w' = w := by
  rw [loadData, yields_bind_iff]
  constructor
  · rintro ⟨content, _, hread, h⟩
    obtain ⟨hread, rfl⟩ := yields_readFile_iff.mp hread
    obtain ⟨hparse, rfl⟩ := yields_ofExcept_iff.mp h
    exact ⟨⟨content, hread, hparse⟩, rfl⟩
  · rintro ⟨⟨content, hread, hparse⟩, rfl⟩
    exact ⟨content, w', yields_readFile_iff.mpr ⟨hread, rfl⟩, yields_ofExcept_iff.mpr ⟨hparse, rfl⟩⟩

theorem breaks_loadData_iff (hread : w.files.Readable p) :
    Breaks (loadData p) w ↔ w.files.HoldsLongNumber p := by
  rw [loadData, breaks_readFile_bind_iff hread]
  refine exists_congr fun content ↦ ?_
  rw [breaks_ofExcept_iff, exists_and_left]
  refine and_congr_right fun hcontent ↦ ⟨?_, ?_⟩
  · rintro ⟨e, he, breakdown, h⟩
    cases e with
    | malformed fault => cases h
    | tooLong digits => exact ⟨digits, he⟩
    | loneSurrogate => exact absurd he (hread.paired content hcontent)
  · rintro ⟨digits, he⟩
    exact ⟨_, he, _, rfl⟩

theorem breaks_loadData_bind_iff {f : Json → Running β} (hread : w.files.Readable p) :
    Breaks (loadData p >>= f) w ↔
      w.files.HoldsLongNumber p ∨ ∃ value, w.files.Holds p value ∧ Breaks (f value) w := by
  rw [← breaks_loadData_iff hread]
  exact breaks_bind_iff_of_keeps fun _ _ ↦ yields_loadData_iff

/-! ## Loading documents -/

theorem yields_load_iff {d : Document} :
    (∃ w', Yields (load p) w d w' ∧ w'.files = w.files) ↔ w.Loads p d := by
  constructor
  · rintro ⟨w', h, -⟩
    exact ((ends_load p (E := fun _ ↦ True) fun _ _ ↦ trivial).of_yields h).2
  · rintro ⟨content, hread, hload⟩
    refine ⟨{ w with ids := (loadDocument p.text content w.ids).value.2 }, ?_, rfl⟩
    refine (yields_readFile_iff.mpr ⟨hread, rfl⟩).bind ?_
    refine (yields_get_iff.mpr ⟨rfl, rfl⟩).bind ?_
    refine (yields_ofLogged_iff.mpr ⟨rfl, rfl⟩).bind ?_
    refine ((yields_set_iff (u := ⟨⟩)).mpr rfl).bind ?_
    exact yields_ofExcept_iff.mpr ⟨hload, rfl⟩

theorem breaks_load_iff (hread : w.files.Readable p) :
    Breaks (load p) w ↔ w.files.HoldsLongNumber p := by
  rw [load, breaks_readFile_bind_iff hread]
  refine exists_congr fun content ↦ ?_
  rw [breaks_get_bind_iff, breaks_ofLogged_bind_iff, exists_and_left]
  refine and_congr_right fun hcontent ↦ ?_
  change Breaks (set _ >>= fun _ ↦ ofExcept _ (loadDocument p.text content w.ids).value.1) w ↔ _
  rw [breaks_set_bind_iff, breaks_ofExcept_iff]
  constructor
  · rintro ⟨e, he, breakdown, h⟩
    match e with
    | .tooLong digits => exact ⟨digits, loadDocument_eq_tooLong_iff.mp he⟩
    | .loneSurrogate =>
      exact absurd (parseFile_eq_of_loadDocument_eq_loneSurrogate he)
        (hread.paired content hcontent)
    | .undecodable ⟨itemPath, .tooLong⟩ =>
      exact absurd he (loadDocument_ne_undecodable_tooLong itemPath)
    | .invalidJson _ _ | .undecodable ⟨_, .itemNotObject _⟩ | .undecodable ⟨_, .rootNotObject _⟩
    | .undecodable ⟨_, .badReference⟩ | .undecodable ⟨_, .childrenNotList _ _⟩ => cases h
  · rintro ⟨digits, hdigits⟩
    exact ⟨_, loadDocument_eq_tooLong_iff.mpr hdigits, _, rfl⟩

/-- After a document is loaded only the supply of ids has changed. -/
theorem breaks_load_bind_iff {f : Document → Running β} {P : Document → Prop}
    (hread : w.files.Readable p) (hf : ∀ d w', w'.files = w.files → (Breaks (f d) w' ↔ P d)) :
    Breaks (load p >>= f) w ↔ w.files.HoldsLongNumber p ∨ ∃ d, w.Loads p d ∧ P d := by
  rw [breaks_bind_iff, breaks_load_iff hread]
  refine or_congr_right (exists_congr fun d ↦ ⟨?_, ?_⟩)
  · rintro ⟨w', hload, h⟩
    obtain ⟨hfiles, hloads⟩ := (ends_load p (E := fun _ ↦ True) fun _ _ ↦ trivial).of_yields hload
    exact ⟨hloads, (hf d w' hfiles).mp h⟩
  · rintro ⟨hloads, hP⟩
    obtain ⟨w', hload, hfiles⟩ := yields_load_iff.mpr hloads
    exact ⟨w', hload, (hf d w' hfiles).mpr hP⟩

/-! ## Reading settings -/

section Settings

variable {command : Command} {read : Json → Except SettingsError α} {defaults : α}
  {file : Option Path}

theorem yields_loadSettings_iff {a : α} :
    Yields (loadSettings command read defaults file) w a w' ↔
      (file = none ∧ a = defaults ∨ ∃ p ∈ file, ∃ content value,
        w.files.read p = .ok content ∧ parseFile content = .ok value ∧ read value = .ok a) ∧
        w' = w := by
  constructor
  · intro h
    obtain ⟨rfl, ha⟩ := (ends_of_keeps (E := fun _ ↦ True) (keeps_loadSettings
      (fun _ hw ↦ congrArg World.files hw) command read defaults file) trivial).of_yields h
    exact ⟨ha, rfl⟩
  · rintro ⟨⟨rfl, rfl⟩ | ⟨p, rfl, content, value, hread, hparse, ha⟩, rfl⟩
    · exact yields_pure_iff.mpr ⟨rfl, rfl⟩
    · refine (yields_readFile_iff.mpr ⟨hread, rfl⟩).bind ?_
      refine (yields_ofExcept_iff.mpr ⟨hparse, rfl⟩).bind ?_
      exact yields_ofExcept_iff.mpr ⟨ha, rfl⟩

/-- Settings that are no settings are refused with a message, whatever is wrong with them. -/
theorem not_breaks_loadSettings (hread : ∀ p ∈ file, w.files.Readable p) :
    ¬ Breaks (loadSettings command read defaults file) w := by
  match file with
  | none => exact not_breaks_pure
  | some p =>
    rw [loadSettings, breaks_readFile_bind_iff (hread p rfl)]
    rintro ⟨content, hcontent, h⟩
    obtain h | ⟨value, w', -, h⟩ := breaks_bind_iff.mp h
    · obtain ⟨e, he, breakdown, h⟩ := breaks_ofExcept_iff.mp h
      cases e with
      | malformed _ | tooLong _ => cases h
      | loneSurrogate => exact (hread p rfl).paired content hcontent he
    · obtain ⟨e, -, breakdown, h⟩ := breaks_ofExcept_iff.mp h
      cases h

theorem breaks_loadSettings_bind_iff {f : α → Running β}
    (hread : ∀ p ∈ file, w.files.Readable p) :
    Breaks (loadSettings command read defaults file >>= f) w ↔
      ∃ a, (file = none ∧ a = defaults ∨ ∃ p ∈ file, ∃ content value,
        w.files.read p = .ok content ∧ parseFile content = .ok value ∧ read value = .ok a) ∧
        Breaks (f a) w :=
  (breaks_bind_iff_of_keeps fun _ _ ↦ yields_loadSettings_iff).trans
    (or_iff_right (not_breaks_loadSettings hread))

end Settings

/-! ## Writing output -/

theorem breaks_write_iff {settings : OutputSettings} (h : w.files.Writable p) :
    Breaks (write settings p content) w ↔
      settings.atomicWrite.truthy ∧ p.TooLongToReplace ∧
        (settings.mode.protects → ¬ w.files.has p) := by
  rw [write, breaks_get_bind_iff, breaks_ofLogged_bind_iff, ← settings.fails_write_iff h content]
  change Breaks (set _ >>= fun _ ↦
    ofExcept _ ((settings.write p content).run w.files).value.1) w ↔ _
  rw [breaks_set_bind_iff, breaks_ofExcept_iff]
  refine exists_congr fun e ↦ and_congr_right' ?_
  -- output that exists is the only fault with a message
  cases e with
  | outputExists q =>
    refine iff_of_false ?_ fun h ↦ h q rfl
    rintro ⟨breakdown, h⟩
    cases h
  | file e => exact iff_of_true ⟨_, rfl⟩ fun _ ↦ nofun
  | notSettings missing => exact iff_of_true ⟨_, rfl⟩ fun _ ↦ nofun

/-! ## Endings -/

/-- Wherever the step ends early, `E` holds of the ending. -/
def Stops (step : Running α) (E : Ending → Prop) : Prop := ∀ w e, Fails step w e → E e

namespace Stops

variable {E : Ending → Prop}

protected theorem pure (a : α) : Stops (pure a) E := fun _ _ h ↦ (not_fails_pure h).elim

protected theorem throw {e : Ending} (h : E e) : Stops (throw e : Running α) E :=
  fun _ _ he ↦ fails_throw_iff.mp he ▸ h

protected theorem get : Stops get E := fun _ _ h ↦ nomatch h

protected theorem set (w : World) : Stops (set w) E := fun _ _ h ↦ nomatch h

protected theorem ofLogged (step : Logged α) : Stops (ofLogged step) E := fun _ _ h ↦ nomatch h

protected theorem ofExcept {ending : ε → Ending} (h : ∀ e, E (ending e)) (result : Except ε α) :
    Stops (ofExcept ending result) E := by
  match result with
  | .ok a => exact .pure a
  | .error e => exact .throw (h e)

protected theorem bind {x : Running α} {f : α → Running β} (hx : Stops x E)
    (hf : ∀ a, Stops (f a) E) : Stops (x >>= f) E := by
  intro w e he
  obtain he | ⟨a, w', -, he⟩ := fails_bind_iff.mp he
  · exact hx w e he
  · exact hf a w' e he

end Stops

end Running

end SchemaTree
