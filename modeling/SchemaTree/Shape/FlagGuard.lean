import SchemaTree.Json.Display

/-!
# Flag guards

Equality of numbers takes `true` for one and `false` for zero. A guard for an expected value comes
before the comparison and lets a flag pass only where a flag is expected, and any other value only
where none is.
-/

namespace SchemaTree

/-- Whether a value is a flag. -/
def Json.isFlag : Json → Bool
  | .bool _ => true
  | _ => false

/-- A guard for an expected value. -/
structure FlagGuard where
  expected : Json

namespace FlagGuard

/-- Whether a value may pass. -/
def admits (g : FlagGuard) (value : Json) : Bool := value.isFlag = g.expected.isFlag

/-- What is required of values. -/
def requirement (g : FlagGuard) : String := "Input should be " ++ g.expected.display

/-- The display notation of a guard. -/
def display (g : FlagGuard) : String := "ExactLiteral(" ++ g.expected.display ++ ")"

end FlagGuard

end SchemaTree
