import SchemaTree.Json.Display

/-!
# Events

What the library reports besides its results: fallback decisions and unusual input. An event is
data, and every operation that can report returns its events in order beside its value (`Logged`),
so a statement about values never has to mention them. -/

namespace SchemaTree

/-- How important an event is. -/
inductive Level where
  | debug
  | warning
deriving DecidableEq, Repr

/-- The name of a level. -/
def Level.name : Level → String
  | .debug => "debug"
  | .warning => "warning"

/-- Everything that is reported. -/
inductive Event where
  /-- A document names a kind that does not exist. -/
  | unknownKind (kind : Json) (path : String)
  /-- A literal node has no scalar value. -/
  | unsupportedLiteral (itemId typeWord : String)
  /-- A union node has fewer than two options. -/
  | smallUnion (itemId : String) (options : Nat)
  /-- A node of an unknown kind accepts anything. -/
  | unrestrictedKind (itemId kind : String)
  /-- A chain of references never ends. -/
  | referenceCycle (referenceId : String)
  /-- A reference leads nowhere, so its value is accepted. -/
  | referenceUnresolved (referenceId : String)
  /-- A schema admits null alone. -/
  | nullOnly (name : String)
  /-- The schema to import as a root is no object. -/
  | rootNotObject
  /-- A schema has no counterpart and is read as a string. -/
  | unhandledTag (name tag : String)
  /-- An opaque schema was classified by the samples it accepts. -/
  | classifiedBySample (name kind : String)
  /-- A schema rejected a sample. -/
  | sampleRejected (sample errorWord : String)
  /-- A module was emitted. -/
  | emitted (language : String) (fields : Nat)
  /-- A formatting tool is missing. -/
  | formatterMissing (tool : String)
  /-- The first formatting tool rejected the code. -/
  | blackRejected (error : String)
  /-- The second formatting tool rejected the code. -/
  | ruffRejected (stderr : String)
  /-- A file was written. -/
  | wroteOutput (path : String) (size : Nat)

namespace Event

/-- The importance of an event. -/
def level : Event → Level
  | unknownKind .. | formatterMissing .. | blackRejected .. | ruffRejected .. => .warning
  | _ => .debug

/-- The wording of an event. -/
def title : Event → String
  | unknownKind .. => "unknown schema kind"
  | unsupportedLiteral .. => "unsupported literal value, using empty string"
  | smallUnion .. => "union needs at least two options, accepting anything"
  | unrestrictedKind .. => "unknown schema kind, accepting anything"
  | referenceCycle .. => "lazy reference cycle"
  | referenceUnresolved .. => "lazy reference unresolved, accepting value"
  | nullOnly .. => "null-only schema has no IR counterpart"
  | rootNotObject => "root schema is not an object, returning an empty root"
  | unhandledTag .. => "unhandled schema type, defaulting to string"
  | classifiedBySample .. => "classified opaque schema by sample"
  | sampleRejected .. => "schema rejected sample"
  | emitted .. => "emitted schema"
  | formatterMissing tool => tool ++ " is not installed, leaving code unformatted"
  | blackRejected .. => "black rejected generated code"
  | ruffRejected .. => "ruff rejected generated code"
  | wroteOutput .. => "wrote output"

/-- The particulars of an event, in order. -/
def details : Event → List (String × Json)
  | unknownKind kind path => [("kind", kind), ("path", .str path)]
  | unsupportedLiteral itemId typeWord => [("item_id", .str itemId), ("value_type", .str typeWord)]
  | smallUnion itemId options => [("item_id", .str itemId), ("options", .int options)]
  | unrestrictedKind itemId kind => [("item_id", .str itemId), ("kind", .str kind)]
  | referenceCycle referenceId => [("ref_id", .str referenceId)]
  | referenceUnresolved referenceId => [("ref_id", .str referenceId)]
  | nullOnly name => [("name", .str name)]
  | rootNotObject => []
  | unhandledTag name tag => [("name", .str name), ("tag", .str tag)]
  | classifiedBySample name kind => [("name", .str name), ("kind", .str kind)]
  | sampleRejected sample errorWord => [("sample", .str sample), ("error", .str errorWord)]
  | emitted language fields => [("language", .str language), ("fields", .int fields)]
  | formatterMissing _ => []
  | blackRejected error => [("error", .str error)]
  | ruffRejected stderr => [("stderr", .str stderr)]
  | wroteOutput path size => [("path", .str path), ("size", .int size)]

end Event

/-! ## Values with events -/

/-- A value and the events reported on the way to it, in order. -/
structure Logged (α : Type) where
  value : α
  events : List Event := []

namespace Logged

instance : Monad Logged where
  pure value := ⟨value, []⟩
  bind x f := ⟨(f x.value).value, x.events ++ (f x.value).events⟩

/-- Reports an event. -/
def report (event : Event) : Logged Unit := ⟨(), [event]⟩

@[simp] theorem value_pure (a : α) : (pure a : Logged α).value = a := rfl

@[simp] theorem events_pure (a : α) : (pure a : Logged α).events = [] := rfl

@[simp] theorem value_bind (x : Logged α) (f : α → Logged β) :
    (x >>= f).value = (f x.value).value := rfl

@[simp] theorem events_bind (x : Logged α) (f : α → Logged β) :
    (x >>= f).events = x.events ++ (f x.value).events := rfl

end Logged

end SchemaTree
