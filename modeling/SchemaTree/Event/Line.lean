import SchemaTree.Event

/-!
# Events as lines

A log has one line per event, in one of two forms: for people, with the members sorted by name and
texts quoted only where they would run into their neighbours, or as JSON in ASCII.
-/

namespace SchemaTree

/-- The name under which the program reports. -/
def programName : String := "schema_ir"

namespace Event

/-- Pads a text with blanks on the right. -/
def padded (width : Nat) (s : String) : String :=
  s ++ String.ofList (List.replicate (width - s.length) ' ')

/-- Whether a character keeps a text from standing unquoted in a line. -/
def needsQuoting (c : Char) : Bool :=
  c = ' ' || c = '\t' || c = '=' || c = '\r' || c = '\n' || c = '"' || c = '\''

/-- A value in a line for people. -/
def lineValue : Json → String
  | .str s => if s.toList.any needsQuoting then Text.display s else s
  | value => value.display

/-- The particulars of an event and who reports it. -/
def members (e : Event) : List (String × Json) := e.details ++ [("component", .str programName)]

/-- An event as a line for people. -/
def line (e : Event) : String :=
  let members := e.members.mergeSort fun a b => decide (a.1 ≤ b.1)
  "[" ++ padded 9 e.level.name ++ "] " ++ padded 30 e.title ++
    String.join (members.map fun (key, value) => " " ++ key ++ "=" ++ lineValue value)

/-- An event as a line of JSON. -/
def jsonLine (e : Event) : String :=
  (Json.obj (e.details ++ [("event", .str e.title), ("level", .str e.level.name),
    ("component", .str programName)])).print .logLine

end Event

/-- How a log is written. -/
structure LogSettings where
  /-- Whether events of the lowest level are shown. -/
  verbose : Bool
  json : Bool
deriving DecidableEq, Repr

namespace LogSettings

/-- Whether an event is shown. -/
def shows (settings : LogSettings) (e : Event) : Bool := settings.verbose || e.level = .warning

/-- A log of events. -/
def log (settings : LogSettings) (events : List Event) : String :=
  String.join ((events.filter settings.shows).map fun e =>
    (if settings.json then e.jsonLine else e.line) ++ "\n")

end LogSettings

end SchemaTree
