import SchemaTree.Proofs.Emission
import SchemaTree.RuntimeType.Acceptance

/-!
# Settings that make emission fail

Settings of emission are kept as they are given, and most of them may have a value of any type.
Which values are unusable depends on the language, on what else is set, and on the document: an
indentation is only repeated inside a nested object, and a description is only written where an
object becomes a class. Formatting can also fail because of the tool. `Tools.Fails` lists the cases
of formatting and `EmitterSettings.Unemittable` those of emission, and emission fails in these cases
alone (`EmitterSettings.emit_eq_error_iff`). -/

namespace SchemaTree

/-! ## Cases -/

/-- The second tool cannot be told the settings. -/
inductive FormatterSettings.Unsayable (formatter : FormatterSettings) : Prop where
  /-- The length has no text. -/
  | lengthTooLong (htruthy : formatter.lineLength.truthy)
    (hlong : formatter.lineLength.excess?.isSome)
  | lengthWithZero (htruthy : formatter.lineLength.truthy)
    (hzero : '\x00' ∈ formatter.lineLength.plain.toList)
  | versionNotText (htruthy : formatter.targetVersion.truthy)
    (htext : ¬ formatter.targetVersion.isText)
  | versionWithZero (htruthy : formatter.targetVersion.truthy) {version : String}
    (hversion : formatter.targetVersion = .str version) (hzero : '\x00' ∈ version.toList)

/-- What makes a tool fail on code. -/
inductive Tools.RunFails (tools : Tools) (formatter : FormatterSettings) (code : String) :
    Tool → Prop where
  | blackSearch {problem : String} (h : tools.black = .failed problem) :
    RunFails tools formatter code .black
  /-- The version is no text. -/
  | blackVersion {black : Black} (h : tools.black = .found black)
    (htruthy : formatter.targetVersion.truthy) (htext : ¬ formatter.targetVersion.isText) :
    RunFails tools formatter code .black
  | blackAnswer {black : Black} {mode : BlackMode} {problem : String}
    (h : tools.black = .found black) (hmode : formatter.blackMode black.versions = .ok mode)
    (hanswer : black.format mode code = .failed problem) : RunFails tools formatter code .black
  | ruffSearch {problem : String} (h : tools.ruff = .failed problem) :
    RunFails tools formatter code .ruff
  | ruffArguments {ruff : Ruff} (h : tools.ruff = .found ruff) (harguments : formatter.Unsayable) :
    RunFails tools formatter code .ruff
  | ruffAnswer {ruff : Ruff} {arguments : List String} {problem : String}
    (h : tools.ruff = .found ruff) (harguments : formatter.ruffArguments = .ok arguments)
    (hanswer : ruff.format arguments code = .failed problem) : RunFails tools formatter code .ruff

/-- What makes formatting fail. -/
inductive Tools.Fails (tools : Tools) (group : Group FormatterSettings) (code : String) : Prop where
  /-- The settings of the formatter were replaced by a value or lost. -/
  | settings (h : ∀ formatter, group ≠ .record formatter)
  /-- There is no such tool. -/
  | tool {formatter : FormatterSettings} (hgroup : group = .record formatter)
    (henabled : formatter.enabled.truthy) (h : ∀ tool : Tool, formatter.tool ≠ .str tool.name)
  | run {formatter : FormatterSettings} {tool : Tool} (hgroup : group = .record formatter)
    (henabled : formatter.enabled.truthy) (htool : formatter.tool = .str tool.name)
    (h : tools.RunFails formatter code tool)

/-- What makes the emission of a document under settings fail. -/
inductive EmitterSettings.Unemittable (settings : EmitterSettings) (tools : Tools) (d : Document) :
    Prop where
  /-- There is no such language. -/
  | language (h : ∀ language : Language, settings.language ≠ .str language.name)
  /-- Something that is written of an item has a number that is too long, or the item is an object
  in which the indentation cannot be repeated. -/
  | item (hlanguage : settings.language = .str Language.zod.name) {position : ZodPosition}
    {depth : ℕ} {x : Item} {fault : WriteFault} (hx : d.Writes position depth x)
    (h : position.HasFault settings.indent depth x fault)
  /-- The indentation is written and has a number that is too long. -/
  | indent (hlanguage : settings.language = .str Language.zod.name) (hfields : d.fields ≠ [])
    (hlong : settings.indent.excess?.isSome)
  /-- A name that a zod module exports has a number that is too long. -/
  | exported (hlanguage : settings.language = .str Language.zod.name)
    (hlong : settings.exportName.excess?.isSome ∨ settings.typeName.excess?.isSome)
  /-- The class of the root cannot be named by a value that is no text. -/
  | typeName (hlanguage : settings.language = .str Language.pydantic.name)
    (htruthy : settings.typeName.truthy) (htext : ¬ settings.typeName.isText)
  /-- A class cannot be documented by a value that is no text, and numbers can be too long. -/
  | rendered (hlanguage : settings.language = .str Language.pydantic.name) {x : Item}
    (hx : x ∈ d.rendered) (h : ¬ d.renderContext.Writable x)
  | default (hlanguage : settings.language = .str Language.pydantic.name) {x : Item}
    (hx : x ∈ d.renderedFields) (h : ¬ x.DefaultWritable)
  | formatting (hlanguage : settings.language = .str Language.pydantic.name) {code : String}
    (hcode : settings.classCode d = .ok code) (h : tools.Fails settings.formatter code)

variable {settings : EmitterSettings} {formatter : FormatterSettings} {tools : Tools} {d : Document}

/-! ## Names of languages and tools -/

theorem Language.ofName?_eq_some_iff {name : String} {language : Language} :
    Language.ofName? name = some language ↔ name = language.name := by
  constructor
  · intro h
    unfold Language.ofName? at h
    split at h
    · exact Option.some.inj h ▸ rfl
    · exact Option.some.inj h ▸ rfl
    · exact absurd h nofun
  · rintro rfl
    cases language <;> rfl

theorem Tool.ofName?_eq_some_iff {name : String} {tool : Tool} :
    Tool.ofName? name = some tool ↔ name = tool.name := by
  constructor
  · intro h
    unfold Tool.ofName? at h
    split at h
    · exact Option.some.inj h ▸ rfl
    · exact Option.some.inj h ▸ rfl
    · exact absurd h nofun
  · rintro rfl
    cases tool <;> rfl

theorem EmitterSettings.language?_eq_ok_iff {language : Language} :
    settings.language? = .ok language ↔ settings.language = .str language.name := by
  rw [EmitterSettings.language?]
  cases hvalue : settings.language with
  | str name =>
    rw [Json.str.injEq, ← Language.ofName?_eq_some_iff]
    dsimp only
    cases Language.ofName? name with
    | none => exact ⟨nofun, nofun⟩
    | some found => rw [Except.ok.injEq, Option.some.injEq]
  | _ => exact ⟨nofun, nofun⟩

theorem FormatterSettings.tool?_eq_ok_iff {tool : Tool} :
    formatter.tool? = .ok tool ↔ formatter.tool = .str tool.name := by
  rw [FormatterSettings.tool?]
  cases hvalue : formatter.tool with
  | str name =>
    rw [Json.str.injEq, ← Tool.ofName?_eq_some_iff]
    dsimp only
    cases Tool.ofName? name with
    | none => exact ⟨nofun, nofun⟩
    | some found => rw [Except.ok.injEq, Option.some.injEq]
  | _ => exact ⟨nofun, nofun⟩

/-! ## Stages of emission -/

theorem EmitterSettings.typeNameText_eq_error_iff :
    (∃ e, settings.typeNameText = .error e) ↔
      settings.typeName.truthy ∧ ¬ settings.typeName.isText := by
  rw [EmitterSettings.typeNameText]
  split
  · next htruthy =>
    rw [and_iff_right htruthy]
    cases settings.typeName with
    | str name => exact iff_of_false not_exists_ok_eq_error fun h ↦ h rfl
    | _ => exact iff_of_true ⟨_, rfl⟩ Bool.false_ne_true
  · next htruthy => exact iff_of_false not_exists_ok_eq_error fun h ↦ htruthy h.1

theorem EmitterSettings.classCode_fails_iff :
    (∃ e, settings.classCode d = .error e) ↔
      (settings.typeName.truthy ∧ ¬ settings.typeName.isText) ∨
        (∃ x ∈ d.rendered, ¬ d.renderContext.Writable x) ∨
        ∃ x ∈ d.renderedFields, ¬ x.DefaultWritable := by
  rw [← EmitterSettings.typeNameText_eq_error_iff]
  cases hname : settings.typeNameText with
  | error e =>
    refine iff_of_true ⟨e, ?_⟩ (.inl ⟨e, rfl⟩)
    rw [EmitterSettings.classCode, hname]
    rfl
  | ok typeName =>
    have hfaults : (∃ e, settings.classCode d = .error e) ↔ d.classFaults ≠ [] := by
      simp only [Document.classCode_eq_error_iff hname]
      cases d.classFaults with
      | nil => exact iff_of_false (by rintro ⟨_, _, ⟨⟩, _⟩) fun h ↦ h rfl
      | cons fault rest => exact iff_of_true ⟨_, fault, rfl, rfl⟩ (List.cons_ne_nil _ _)
    rw [or_iff_right not_exists_ok_eq_error, hfaults, ne_eq, Document.classFaults_eq_nil_iff]
    simp only [not_and_or, not_forall, exists_prop]

/-! ## Formatting -/

theorem FormatterSettings.blackMode_eq_error_iff {versions : List String} :
    (∃ e, formatter.blackMode versions = .error e) ↔
      formatter.targetVersion.truthy ∧ ¬ formatter.targetVersion.isText := by
  rw [FormatterSettings.blackMode]
  split
  · next htruthy =>
    rw [and_iff_right htruthy]
    cases formatter.targetVersion with
    | str name => exact iff_of_false not_exists_ok_eq_error fun h ↦ h rfl
    | _ => exact iff_of_true ⟨_, rfl⟩ Bool.false_ne_true
  · next htruthy => exact iff_of_false not_exists_ok_eq_error fun h ↦ htruthy h.1

theorem ruffArgument_eq_error_iff {flag value : String} :
    (∃ e, ruffArgument flag value = .error e) ↔ '\x00' ∈ value.toList := by
  rw [ruffArgument]
  split
  · next hzero => exact iff_of_true ⟨_, rfl⟩ hzero
  · next hzero => exact iff_of_false not_exists_ok_eq_error hzero

theorem FormatterSettings.ruffLength_eq_error_iff :
    (∃ e, formatter.ruffLength = .error e) ↔ formatter.lineLength.truthy ∧
      (formatter.lineLength.excess?.isSome ∨ '\x00' ∈ formatter.lineLength.plain.toList) := by
  rw [FormatterSettings.ruffLength]
  split
  · next htruthy =>
    rw [and_iff_right htruthy]
    split
    · next hlong => exact iff_of_true ⟨_, rfl⟩ (.inl hlong)
    · next hlong => rw [ruffArgument_eq_error_iff, or_iff_right hlong]
  · next htruthy => exact iff_of_false not_exists_ok_eq_error fun h ↦ htruthy h.1

theorem FormatterSettings.ruffVersion_eq_error_iff :
    (∃ e, formatter.ruffVersion = .error e) ↔ formatter.targetVersion.truthy ∧
      (¬ formatter.targetVersion.isText ∨
        ∃ version, formatter.targetVersion = .str version ∧ '\x00' ∈ version.toList) := by
  rw [FormatterSettings.ruffVersion]
  split
  · next htruthy =>
    rw [and_iff_right htruthy]
    cases formatter.targetVersion with
    | str version =>
      have htext : ¬ ¬ (Json.str version).isText := not_not_intro rfl
      simp only [or_iff_right htext, Json.str.injEq, exists_eq_left']
      exact ruffArgument_eq_error_iff
    | _ => exact iff_of_true ⟨_, rfl⟩ (.inl Bool.false_ne_true)
  · next htruthy => exact iff_of_false not_exists_ok_eq_error fun h ↦ htruthy h.1

theorem FormatterSettings.ruffArguments_eq_error_iff :
    (∃ e, formatter.ruffArguments = .error e) ↔ formatter.Unsayable := by
  have hstages : (∃ e, formatter.ruffArguments = .error e) ↔
      (∃ e, formatter.ruffLength = .error e) ∨ ∃ e, formatter.ruffVersion = .error e := by
    rw [FormatterSettings.ruffArguments]
    dsimp only [bind, Except.bind]
    cases formatter.ruffLength with
    | error e => exact iff_of_true ⟨e, rfl⟩ (.inl ⟨e, rfl⟩)
    | ok length =>
      rw [or_iff_right not_exists_ok_eq_error]
      dsimp only
      cases formatter.ruffVersion with
      | error e => exact iff_of_true ⟨e, rfl⟩ ⟨e, rfl⟩
      | ok version => exact iff_of_false not_exists_ok_eq_error not_exists_ok_eq_error
  rw [hstages, FormatterSettings.ruffLength_eq_error_iff,
    FormatterSettings.ruffVersion_eq_error_iff]
  constructor
  · rintro (⟨htruthy, hlong | hzero⟩ | ⟨htruthy, htext | ⟨version, hversion, hzero⟩⟩)
    · exact .lengthTooLong htruthy hlong
    · exact .lengthWithZero htruthy hzero
    · exact .versionNotText htruthy htext
    · exact .versionWithZero htruthy hversion hzero
  · rintro (⟨htruthy, hlong⟩ | ⟨htruthy, hzero⟩ | ⟨htruthy, htext⟩ | ⟨htruthy, hversion, hzero⟩)
    · exact .inl ⟨htruthy, .inl hlong⟩
    · exact .inl ⟨htruthy, .inr hzero⟩
    · exact .inr ⟨htruthy, .inl htext⟩
    · exact .inr ⟨htruthy, .inr ⟨_, hversion, hzero⟩⟩

/-- Formatting with the first tool fails in the search for it, for its mode or in its answer. That it
is missing or rejects the code is no error. -/
theorem Tools.run_black_eq_error_iff {code : String} :
    (∃ e, (tools.run formatter .black code).value = .error e) ↔
      (∃ problem, tools.black = .failed problem) ∨ ∃ black, tools.black = .found black ∧
        ((∃ e, formatter.blackMode black.versions = .error e) ∨
          ∃ mode, formatter.blackMode black.versions = .ok mode ∧
            ∃ problem, black.format mode code = .failed problem) := by
  rw [Tools.run]
  cases tools.black with
  | failed problem => exact iff_of_true ⟨_, rfl⟩ (.inl ⟨problem, rfl⟩)
  | missing => exact iff_of_false not_exists_ok_eq_error (by simp)
  | found black =>
    dsimp only
    cases hmode : formatter.blackMode black.versions with
    | error e => exact iff_of_true ⟨e, rfl⟩ (.inr ⟨black, rfl, .inl ⟨e, hmode⟩⟩)
    | ok mode =>
      dsimp only
      cases hanswer : black.format mode code with
      | failed problem =>
        exact iff_of_true ⟨_, rfl⟩ (.inr ⟨black, rfl, .inr ⟨mode, hmode, problem, hanswer⟩⟩)
      | formatted | rejected =>
        exact iff_of_false not_exists_ok_eq_error (by simp [hmode, hanswer])

/-- So does formatting with the second tool, for its arguments in place of the mode. -/
theorem Tools.run_ruff_eq_error_iff {code : String} :
    (∃ e, (tools.run formatter .ruff code).value = .error e) ↔
      (∃ problem, tools.ruff = .failed problem) ∨ ∃ ruff, tools.ruff = .found ruff ∧
        ((∃ e, formatter.ruffArguments = .error e) ∨
          ∃ arguments, formatter.ruffArguments = .ok arguments ∧
            ∃ problem, ruff.format arguments code = .failed problem) := by
  rw [Tools.run]
  cases tools.ruff with
  | failed problem => exact iff_of_true ⟨_, rfl⟩ (.inl ⟨problem, rfl⟩)
  | missing => exact iff_of_false not_exists_ok_eq_error (by simp)
  | found ruff =>
    dsimp only
    cases formatter.ruffArguments with
    | error e => exact iff_of_true ⟨e, rfl⟩ (.inr ⟨ruff, rfl, .inl ⟨e, rfl⟩⟩)
    | ok arguments =>
      dsimp only
      cases hanswer : ruff.format arguments code with
      | failed problem =>
        exact iff_of_true ⟨_, rfl⟩ (.inr ⟨ruff, rfl, .inr ⟨arguments, rfl, problem, hanswer⟩⟩)
      | formatted | rejected => exact iff_of_false not_exists_ok_eq_error (by simp [hanswer])

/-- A tool fails in the cases listed. -/
theorem Tools.run_eq_error_iff {tool : Tool} {code : String} :
    (∃ e, (tools.run formatter tool code).value = .error e) ↔
      tools.RunFails formatter code tool := by
  cases tool with
  | black =>
    rw [Tools.run_black_eq_error_iff]
    simp only [FormatterSettings.blackMode_eq_error_iff]
    constructor
    · rintro (⟨problem, h⟩ | ⟨black, h, ⟨htruthy, htext⟩ | ⟨mode, hmode, problem, hanswer⟩⟩)
      · exact .blackSearch h
      · exact .blackVersion h htruthy htext
      · exact .blackAnswer h hmode hanswer
    · intro hfails
      cases hfails with
      | blackSearch h => exact .inl ⟨_, h⟩
      | blackVersion h htruthy htext => exact .inr ⟨_, h, .inl ⟨htruthy, htext⟩⟩
      | blackAnswer h hmode hanswer => exact .inr ⟨_, h, .inr ⟨_, hmode, _, hanswer⟩⟩
  | ruff =>
    rw [Tools.run_ruff_eq_error_iff]
    simp only [FormatterSettings.ruffArguments_eq_error_iff]
    constructor
    · rintro (⟨problem, h⟩ | ⟨ruff, h, hunsayable | ⟨arguments, harguments, problem, hanswer⟩⟩)
      · exact .ruffSearch h
      · exact .ruffArguments h hunsayable
      · exact .ruffAnswer h harguments hanswer
    · intro hfails
      cases hfails with
      | ruffSearch h => exact .inl ⟨_, h⟩
      | ruffArguments h hunsayable => exact .inr ⟨_, h, .inl hunsayable⟩
      | ruffAnswer h harguments hanswer => exact .inr ⟨_, h, .inr ⟨_, harguments, _, hanswer⟩⟩

theorem Tools.format_eq_error_iff {group : Group FormatterSettings} {code : String} :
    (∃ e, (tools.format group code).value = .error e) ↔ tools.Fails group code := by
  cases group with
  | replaced value => exact iff_of_true ⟨_, rfl⟩ (.settings nofun)
  | missing => exact iff_of_true ⟨_, rfl⟩ (.settings nofun)
  | record formatter =>
    rw [Tools.format]
    split
    · next henabled =>
      cases htool : formatter.tool? with
      | error e =>
        refine iff_of_true ⟨e, rfl⟩ (.tool rfl henabled fun tool h ↦ ?_)
        exact absurd (htool.symm.trans (FormatterSettings.tool?_eq_ok_iff.mpr h)) nofun
      | ok tool =>
        have hname := FormatterSettings.tool?_eq_ok_iff.mp htool
        refine Tools.run_eq_error_iff.trans ⟨.run rfl henabled hname, ?_⟩
        rintro (h | ⟨⟨⟩, -, h⟩ | @⟨_, tool', ⟨⟩, -, hname', h⟩)
        · exact absurd rfl (h formatter)
        · exact absurd hname (h tool)
        · have htool' := FormatterSettings.tool?_eq_ok_iff.mpr hname'
          exact Except.ok.inj (htool'.symm.trans htool) ▸ h
    · next henabled =>
      refine iff_of_false not_exists_ok_eq_error ?_
      rintro (h | ⟨⟨⟩, h, -⟩ | ⟨⟨⟩, h, -, -⟩)
      · exact h formatter rfl
      · exact henabled h
      · exact henabled h

/-! ## Emission -/

/-- The languages differ in what can be unusable. -/
theorem EmitterSettings.unemittable_zod_iff (hzod : settings.language = .str Language.zod.name) :
    settings.Unemittable tools d ↔ ∃ fault, fault ∈ settings.zodFaults d := by
  have hother : settings.language ≠ .str Language.pydantic.name := by
    rw [hzod]
    exact fun h ↦ absurd (Json.str.inj h) (by decide)
  simp only [EmitterSettings.mem_zodFaults_iff, WriteFault.mem_ofValue_iff]
  constructor
  · rintro (h | ⟨-, hx, h⟩ | ⟨-, hfields, hlong⟩ | ⟨-, hlong⟩ | ⟨h, -⟩ | ⟨h, -⟩ | ⟨h, -⟩ | ⟨h, -⟩)
    · exact absurd hzod (h .zod)
    · exact ⟨_, .inl (.inr ⟨_, _, _, hx, h⟩)⟩
    · exact ⟨.tooLong, .inl (.inl ⟨hfields, rfl, hlong⟩)⟩
    · exact ⟨.tooLong, .inr (hlong.imp (⟨rfl, ·⟩) (⟨rfl, ·⟩))⟩
    all_goals exact absurd h hother
  · rintro ⟨fault, (⟨hfields, -, hlong⟩ | ⟨position, depth, x, hx, h⟩) | ⟨-, hlong⟩ | ⟨-, hlong⟩⟩
    · exact .indent hzod hfields hlong
    · exact .item hzod hx h
    · exact .exported hzod (.inl hlong)
    · exact .exported hzod (.inr hlong)

theorem EmitterSettings.unemittable_pydantic_iff
    (hpydantic : settings.language = .str Language.pydantic.name) :
    settings.Unemittable tools d ↔
      (∃ e, settings.classCode d = .error e) ∨
        ∃ code, settings.classCode d = .ok code ∧ tools.Fails settings.formatter code := by
  have hother : settings.language ≠ .str Language.zod.name := by
    rw [hpydantic]
    exact fun h ↦ absurd (Json.str.inj h) (by decide)
  rw [EmitterSettings.classCode_fails_iff]
  constructor
  · rintro (h | ⟨h, -⟩ | ⟨h, -⟩ | ⟨h, -⟩ | ⟨-, htruthy, htext⟩ | ⟨-, hx, h⟩ | ⟨-, hx, h⟩ |
      ⟨-, hcode, h⟩)
    · exact absurd hpydantic (h .pydantic)
    · exact absurd h hother
    · exact absurd h hother
    · exact absurd h hother
    · exact .inl (.inl ⟨htruthy, htext⟩)
    · exact .inl (.inr (.inl ⟨_, hx, h⟩))
    · exact .inl (.inr (.inr ⟨_, hx, h⟩))
    · exact .inr ⟨_, hcode, h⟩
  · rintro ((⟨htruthy, htext⟩ | ⟨x, hx, h⟩ | ⟨x, hx, h⟩) | ⟨code, hcode, h⟩)
    · exact .typeName hpydantic htruthy htext
    · exact .rendered hpydantic hx h
    · exact .default hpydantic hx h
    · exact .formatting hpydantic hcode h

/-- **When emission fails**: in the cases listed, and in no other. -/
theorem EmitterSettings.emit_eq_error_iff (settings : EmitterSettings) (tools : Tools)
    (d : Document) :
    (∃ e, (settings.emit tools d).value = .error e) ↔ settings.Unemittable tools d := by
  rw [EmitterSettings.emit]
  cases hlanguage : settings.language? with
  | error e =>
    refine iff_of_true ⟨e, rfl⟩ (.language fun language h ↦ ?_)
    cases hlanguage.symm.trans (EmitterSettings.language?_eq_ok_iff.mpr h)
  | ok language =>
    have hname := EmitterSettings.language?_eq_ok_iff.mp hlanguage
    dsimp only
    rw [Document.value_emitIn]
    cases language with
    | zod =>
      rw [EmitterSettings.unemittable_zod_iff hname]
      change (∃ e, settings.zodCode d = .error e) ↔ _
      simp only [EmitterSettings.zodCode_eq_error_iff]
      cases settings.zodFaults d with
      | nil => exact iff_of_false (by rintro ⟨_, _, ⟨⟩, _⟩) (by rintro ⟨_, ⟨⟩⟩)
      | cons fault rest => exact iff_of_true ⟨_, fault, rfl, rfl⟩ ⟨fault, List.mem_cons_self⟩
    | pydantic =>
      rw [EmitterSettings.unemittable_pydantic_iff hname, EmitterSettings.codeIn]
      cases settings.classCode d with
      | error e => exact iff_of_true ⟨e, rfl⟩ (.inl ⟨e, rfl⟩)
      | ok code =>
        simp only [Except.ok.injEq, exists_eq_left', or_iff_right not_exists_ok_eq_error]
        rw [← Tools.format_eq_error_iff]
        change (∃ e, (tools.format settings.formatter code).value.mapError EmitError.format =
          .error e) ↔ _
        cases (tools.format settings.formatter code).value with
        | error e => exact iff_of_true ⟨_, rfl⟩ ⟨e, rfl⟩
        | ok code => exact iff_of_false not_exists_ok_eq_error not_exists_ok_eq_error

end SchemaTree
