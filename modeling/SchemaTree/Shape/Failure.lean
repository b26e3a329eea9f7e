import SchemaTree.Moment.Basic
import SchemaTree.Shape.Basic
import SchemaTree.Shape.FlagGuard

/-!
# Failures of validation

A failure says where in the data something is wrong, what is wrong and what stood there. Places lead
from the outside in: field names, indices of list elements, and labels of union options.
-/

namespace SchemaTree

/-- A step of a place within data. -/
inductive Step where
  | name (s : String)
  | index (n : Nat)
deriving DecidableEq, Repr

/-- The text of a step. -/
def Step.text : Step → String
  | .name s => s
  | .index n => toString n

/-- What is wrong. -/
inductive Fault where
  | notRecord (name : String)
  | missing
  | notText
  | notFlag
  | notNumber
  | notFinite
  | notList
  /-- Another value than that of a literal. -/
  | otherValue (expected : Scalar)
  /-- A whole number of more than 64 bits where a literal is one of at most 64. -/
  | wholeTooLong
  /-- A flag where a literal is a number, or a number where it is a flag. -/
  | flagMixedUp (expected : Scalar)
  | notMoment
  | badMoment (fault : MomentFault)

/-- The requirement of text that is to be a moment. -/
def momentRequirement : String := "Input should be an ISO 8601 date-time string"

/-- The guard for a literal. -/
def Scalar.guard (s : Scalar) : FlagGuard := ⟨s.toJson⟩

/-- The wording of what is wrong with a moment. -/
def MomentFault.reason : MomentFault → String
  | .badCharacter part => "invalid character in " ++ part
  | .badMonth => "month value is outside expected range of 1-12"
  | .badDay => "day value is outside expected range"
  | .badRest => "unexpected extra characters at the end of the input"
  | .yearZero => "year 0 is out of range"

namespace Fault

/-- The name of the sort of a fault. -/
def word : Fault → String
  | notRecord _ => "model_type"
  | missing => "missing"
  | notText => "string_type"
  | notFlag => "bool_type"
  | notNumber => "float_type"
  | notFinite => "finite_number"
  | notList => "list_type"
  | otherValue _ => "literal_error"
  | wholeTooLong => "int_parsing_size"
  | flagMixedUp _ | notMoment => "value_error"
  | badMoment .yearZero => "datetime_parsing"
  | badMoment _ => "datetime_from_date_parsing"

/-- The wording of a fault. -/
def message : Fault → String
  | notRecord name => "Input should be a valid dictionary or instance of " ++ name
  | missing => "Field required"
  | notText => "Input should be a valid string"
  | notFlag => "Input should be a valid boolean"
  | notNumber => "Input should be a valid number"
  | notFinite => "Input should be a finite number"
  | notList => "Input should be a valid list"
  | otherValue expected => expected.guard.requirement
  | wholeTooLong => "Unable to parse input string as an integer, exceeded maximum size"
  | flagMixedUp expected => "Value error, " ++ expected.guard.requirement
  | notMoment => "Value error, " ++ momentRequirement
  | badMoment .yearZero => "Input should be a valid datetime, " ++ MomentFault.yearZero.reason
  | badMoment fault => "Input should be a valid datetime or date, " ++ fault.reason

end Fault

/-- A failure. -/
structure Failure where
  place : List Step
  fault : Fault
  /-- What stood at the place; for a missing field the data that misses it. -/
  input : Json

/-- A failure seen from further outside. -/
def Failure.within (step : Step) (f : Failure) : Failure := { f with place := step :: f.place }

/-- A result, or everything that is wrong. -/
abbrev Checked (α : Type) := Except (List Failure) α

namespace Checked

/-- Fails at this very place. -/
def fail (fault : Fault) (input : Json) : Checked α := .error [⟨[], fault, input⟩]

/-- A result seen from further outside. -/
def within (step : Step) (c : Checked α) : Checked α := c.mapError (·.map (Failure.within step))

/-- Both results; what is wrong with either is wrong with both. -/
def both (f : α → β → γ) : Checked α → Checked β → Checked γ
  | .ok a, .ok b => .ok (f a b)
  | .ok _, .error e => .error e
  | .error e, .ok _ => .error e
  | .error e, .error e' => .error (e ++ e')

end Checked

end SchemaTree
