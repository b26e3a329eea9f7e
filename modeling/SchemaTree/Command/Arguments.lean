import SchemaTree.Command.Form

/-!
# Reading arguments

The arguments of a command are split into options and operands before any of them is checked. Then
the options that were given are checked in the order in which they were first given, and the
operands after them; the first thing wrong is reported. Only then arguments that nothing asked for
are refused. -/

namespace SchemaTree

/-- What is wrong with a command line. -/
inductive UsageError where
  | unknownOption (name : String) (similar : List String)
  | valueMissing (option : String)
  | valueUnwanted (option : String)
  | operandMissing (name : String)
  | operandsUnwanted (operands : List String)
  | commandMissing
  | unknownCommand (name : String) (similar : List String)
  | pathMissing (hint path : String)
  | notAChoice (hint value : String) (names : List String)
  /-- The settings in a file cannot be used. -/
  | badSettings (path reason : String)
deriving DecidableEq, Repr

namespace UsageError

/-- The names that may be meant. -/
def suggestion : List String → String
  | [] => ""
  | [name] => " Did you mean " ++ Text.display name ++ "?"
  | names =>
    " (Did you mean one of: " ++ String.intercalate ", " (names.map Text.display) ++ "?)"

/-- The wording of an error. -/
def message : UsageError → String
  | unknownOption name similar =>
    "No such option " ++ Text.display name ++ "." ++ suggestion similar
  | valueMissing option => "Option " ++ Text.display option ++ " requires an argument."
  | valueUnwanted option => "Option " ++ Text.display option ++ " does not take a value."
  | operandMissing name => "Missing argument '" ++ name ++ "'."
  | operandsUnwanted operands =>
    "Got unexpected extra argument" ++ (if operands.length = 1 then "" else "s") ++ " (" ++
      String.intercalate " " operands ++ ")"
  | commandMissing => "Missing command."
  | unknownCommand name similar =>
    "No such command " ++ Text.display name ++ "." ++ suggestion similar
  | pathMissing hint path =>
    "Invalid value for " ++ hint ++ ": Path " ++ Text.display path ++ " does not exist."
  | notAChoice hint value names =>
    "Invalid value for " ++ hint ++ ": " ++ Text.display value ++ " is not one of " ++
      String.intercalate ", " (names.map Text.display) ++ "."
  | badSettings path reason =>
    "Invalid value for --config: Invalid config file " ++ path ++ ": " ++ reason

/-- Whether the usage of the command is shown with an error. -/
def showsUsage : UsageError → Bool
  | valueMissing _ | valueUnwanted _ => false
  | _ => true

/-- The report of an error in the use of a command. -/
def report (f : CommandForm) (e : UsageError) : String :=
  (if e.showsUsage then f.usage ++ "Try '" ++ f.words ++ " --help' for help.\n\n" else "") ++
    "Error: " ++ e.message ++ "\n"

end UsageError

/-- Arguments: the options in the order in which they are given, and the operands. -/
structure Arguments where
  options : List (OptionForm × String)
  operands : List String

namespace Arguments

/-- Whether an option is given. -/
def has (a : Arguments) (o : OptionForm) : Bool := a.options.any (·.1 = o)

/-- The value of an option that counts: the one that is given last. -/
def value? (a : Arguments) (o : OptionForm) : Option String :=
  (a.options.reverse.find? (·.1 = o)).map (·.2)

/-- Arguments with options before them. -/
def withOptions (options : List (OptionForm × String)) (a : Arguments) : Arguments :=
  { a with options := options ++ a.options }

/-- Arguments with an operand before them. -/
def withOperand (operand : String) (a : Arguments) : Arguments :=
  { a with operands := operand :: a.operands }

end Arguments

/-! ## Options -/

/-- The options in one argument. The value of the last one may be the next argument; then the option
is `pending`, with the name by which it was called. -/
structure OptionGroup where
  complete : List (OptionForm × String)
  pending : Option (OptionForm × String)

namespace CommandForm

/-- Reads a long option; its value follows an equals sign. -/
def readLong (f : CommandForm) (argument : String) : Except UsageError OptionGroup :=
  let name := String.ofList (argument.toList.takeWhile (· ≠ '='))
  let attached := argument.toList.dropWhile (· ≠ '=')
  match f.long? name with
  | none => .error (.unknownOption name (Text.closest name (f.options.map (·.long))))
  | some o =>
    match o.value, attached with
    | none, [] => .ok ⟨[(o, "")], none⟩
    | none, _ => .error (.valueUnwanted name)
    | some _, [] => .ok ⟨[], some (o, name)⟩
    | some _, _ :: value => .ok ⟨[(o, String.ofList value)], none⟩

/-- Reads short options that follow a dash; the rest after one with a value is its value. -/
def readShort (f : CommandForm) : List Char → Except UsageError OptionGroup
  | [] => .ok ⟨[], none⟩
  | c :: rest =>
    let name := "-" ++ c.toString
    match f.short? c with
    | none => .error (.unknownOption name [])
    | some o =>
      if o.value.isNone then
        match f.readShort rest with
        | .ok group => .ok { group with complete := (o, "") :: group.complete }
        | .error e => .error e
      else if rest.isEmpty then .ok ⟨[], some (o, name)⟩
      else .ok ⟨[(o, String.ofList rest)], none⟩

/-- Reads an argument that starts with a dash. -/
def readOptions (f : CommandForm) (argument : String) : Except UsageError OptionGroup :=
  match argument.toList with
  | '-' :: '-' :: _ => f.readLong argument
  | characters => f.readShort (characters.drop 1)

/-- Splits arguments. If `mixed`, options may follow operands; otherwise everything from the first
operand on is left as it is. -/
def split (f : CommandForm) (mixed : Bool) : List String → Except UsageError Arguments
  | [] => .ok ⟨[], []⟩
  | argument :: rest =>
    if argument = "--" then .ok ⟨[], rest⟩
    else if argument.startsWith "-" && argument ≠ "-" then
      match f.readOptions argument with
      | .error e => .error e
      | .ok ⟨complete, none⟩ => (Arguments.withOptions complete) <$> f.split mixed rest
      | .ok ⟨complete, some (o, name)⟩ =>
        match rest with
        | [] => .error (.valueMissing name)
        | value :: rest =>
          (Arguments.withOptions (complete ++ [(o, value)])) <$> f.split mixed rest
    else if mixed then (Arguments.withOperand argument) <$> f.split mixed rest
    else .ok ⟨[], argument :: rest⟩

end CommandForm

/-! ## Checks -/

/-- Checks a value; `leads` says whether a path leads to something. -/
def ValueForm.check (leads : String → Bool) (hint value : String) :
    ValueForm → Except UsageError Unit
  | .text | .path => .ok ()
  | .existingPath => if leads value then .ok () else .error (.pathMissing hint value)
  | .choice names => if value ∈ names then .ok () else .error (.notAChoice hint value names)

/-- Checks the operands of a command. Those left over are refused. -/
def checkOperands (leads : String → Bool) : List OperandForm → List String → Except UsageError Unit
  | [], [] => .ok ()
  | [], operands => .error (.operandsUnwanted operands)
  | o :: _, [] => .error (.operandMissing o.name)
  | o :: forms, operand :: operands => do
    o.value.check leads o.hint operand
    checkOperands leads forms operands

namespace CommandForm

/-- Checks arguments. -/
def check (f : CommandForm) (leads : String → Bool) (a : Arguments) : Except UsageError Unit := do
  for o in (a.options.map (·.1)).eraseDups do
    match o.value, a.value? o with
    | some form, some value => form.check leads o.hint value
    | _, _ => pure ()
  checkOperands leads f.operands a.operands

end CommandForm

end SchemaTree
