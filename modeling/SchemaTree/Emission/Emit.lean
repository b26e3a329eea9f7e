import SchemaTree.Emission.ClassBlocks
import SchemaTree.Emission.ZodModule
import SchemaTree.Formatting

/-!
# Emitting a document

A document is emitted in one of two languages under settings that may hold values of any type. Those
that make emission impossible are the errors of this module, with the faults that keep a module from
being written. -/

namespace SchemaTree

/-! ## Languages -/

/-- The languages of emission. -/
inductive Language where
  | zod
  | pydantic
deriving DecidableEq, Repr

/-- The name of a language. -/
def Language.name : Language → String
  | .zod => "zod"
  | .pydantic => "pydantic"

/-- The language of a name. -/
def Language.ofName? : String → Option Language
  | "zod" => some .zod
  | "pydantic" => some .pydantic
  | _ => none

/-- The extension of files in a language. -/
def Language.extension : Language → String
  | .zod => "ts"
  | .pydantic => "py"

/-! ## Errors -/

/-- Why a document cannot be emitted. -/
inductive EmitError where
  /-- The language is a list or an object. -/
  | languageNotScalar (typeWord : String)
  | unknownLanguage (language : Json)
  | typeNameNotText (typeWord : String)
  | fault (fault : WriteFault)
  | format (error : FormatError)

/-- The wording of an error. -/
def EmitError.message : EmitError → String
  | .languageNotScalar typeWord => "unhashable type: '" ++ typeWord ++ "'"
  | .unknownLanguage language =>
    "Unsupported language: " ++ language.plain ++ ". Choose from: zod, pydantic"
  | .typeNameNotText typeWord => "'" ++ typeWord ++ "' object has no attribute 'replace'"
  | .fault e => e.message
  | .format e => e.message

/-- The error of a value that names no language. Its wording shows the value. -/
def EmitError.ofLanguage (language : Json) : EmitError :=
  if language.excess?.isSome then .fault .tooLong else .unknownLanguage language

/-- The language that the settings name. -/
def EmitterSettings.language? (settings : EmitterSettings) : Except EmitError Language :=
  match settings.language with
  | .arr _ | .obj _ => .error (.languageNotScalar settings.language.typeWord)
  | .str name =>
    match Language.ofName? name with
    | some language => .ok language
    | none => .error (.ofLanguage settings.language)
  | language => .error (.ofLanguage language)

/-! ## Zod -/

/-- Indentation by a setting: a text is repeated, a list is repeated as a list and a number is
multiplied, each before it is written. Null and objects can only serve where nothing is repeated. -/
def Indent.ofJson? : Json → Option Indent
  | .str unit => some (.ofText unit.toList)
  | .int n => some ⟨Json.displayChars (.int n), fun depth => Json.displayChars (.int (n * depth))⟩
  | .bool b =>
    some ⟨Json.displayChars (.bool b),
      fun depth => Json.displayChars (.int (if b then depth else 0))⟩
  | .float x =>
    some ⟨Json.displayChars (.float x),
      fun depth => Json.displayChars (.float (x * Float.ofNat depth))⟩
  | .arr elements =>
    some ⟨Json.displayChars (.arr elements),
      fun depth => Json.displayChars (.arr (List.replicate depth elements).flatten)⟩
  | .null | .obj _ => none

/-- The indentation that the settings lead to. What cannot be repeated is written, where that is all
that is done with it. -/
def EmitterSettings.zodIndent (settings : EmitterSettings) : Indent :=
  (Indent.ofJson? settings.indent).getD ⟨settings.indent.displayChars, fun _ => []⟩

/-- The zod module of a document under settings. -/
def EmitterSettings.zodModule (settings : EmitterSettings) (d : Document) : ZodModule :=
  d.zodModule settings.exportName.plain settings.typeName.plain

/-- What keeps the zod module of a document from being written: its properties, or the names that it
exports. -/
def EmitterSettings.zodFaults (settings : EmitterSettings) (d : Document) : List WriteFault :=
  (settings.zodModule d).faults settings.indent ++ WriteFault.ofValue settings.exportName ++
    WriteFault.ofValue settings.typeName

/-- The code of a zod module. -/
def EmitterSettings.zodCode (settings : EmitterSettings) (d : Document) : Except EmitError String :=
  match settings.zodFaults d with
  | [] => .ok (String.ofList ((settings.zodModule d).write settings.zodIndent))
  | fault :: _ => .error (.fault fault)

/-! ## Class modules -/

/-- The name that the class of the root is made from. A value that counts as false gives none. -/
def EmitterSettings.typeNameText (settings : EmitterSettings) : Except EmitError String :=
  if settings.typeName.truthy then
    match settings.typeName with
    | .str name => .ok name
    | value => .error (.typeNameNotText value.typeWord)
  else .ok ""

/-- The code of a class module before it is formatted. -/
def EmitterSettings.classCode (settings : EmitterSettings) (d : Document) :
    Except EmitError String := do
  let typeName ← settings.typeNameText
  match (d.classModule typeName).write with
  | .ok text => return String.ofList text
  | .error fault => throw (.fault fault)

/-! ## Emission -/

/-- The code of a document in a language. Only class modules are formatted. -/
def EmitterSettings.codeIn (settings : EmitterSettings) (tools : Tools) (language : Language)
    (d : Document) : Logged (Except EmitError String) :=
  match language with
  | .zod => pure (settings.zodCode d)
  | .pydantic =>
    match settings.classCode d with
    | .error e => pure (.error e)
    | .ok code => (·.mapError .format) <$> tools.format settings.formatter code

/-- Emits a document in a language. -/
def EmitterSettings.emitIn (settings : EmitterSettings) (tools : Tools) (language : Language)
    (d : Document) : Logged (Except EmitError String) := do
  let code ← settings.codeIn tools language d
  if code.isOk then
    Logged.report (.emitted language.name d.fields.length)
  return code

/-- Emits a document. -/
def EmitterSettings.emit (settings : EmitterSettings) (tools : Tools) (d : Document) :
    Logged (Except EmitError String) :=
  match settings.language? with
  | .error e => return .error e
  | .ok language => settings.emitIn tools language d

end SchemaTree
