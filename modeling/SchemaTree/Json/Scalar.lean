import SchemaTree.Json.Display
import SchemaTree.Decimal.Nearest

/-!
# Scalars

The values that a literal can have: texts, flags and numbers. Two numbers are the same scalar if
they are the same number, whether they are written as a whole number or not, and a NaN is the same
as any other; otherwise scalars of different sorts are never the same. -/

namespace SchemaTree

/-- A scalar value other than null. -/
inductive Scalar where
  | text (s : String)
  | flag (b : Bool)
  | whole (n : Int)
  | real (x : Float)

namespace Scalar

/-- The scalar that a value is; `none` for null, lists and objects. -/
def ofJson? : Json → Option Scalar
  | .str s => some (.text s)
  | .bool b => some (.flag b)
  | .int n => some (.whole n)
  | .float x => some (.real x)
  | .null | .arr _ | .obj _ => none

/-- A scalar as a value. -/
def toJson : Scalar → Json
  | .text s => .str s
  | .flag b => .bool b
  | .whole n => .int n
  | .real x => .float x

/-- Whether a value is the same scalar. -/
def admits : Scalar → Json → Bool
  | .text s, .str t => s = t
  | .flag a, .bool b => a = b
  | .whole m, .int n => m = n
  | .whole m, .float x => Decimal.equalsInt x m
  | .real x, .int n => Decimal.equalsInt x n
  | .real x, .float y => x == y || x.isNaN && y.isNaN
  | _, _ => false

/-- Whether a whole number is a signed number of 64 bits. -/
def isInt64 (n : Int) : Bool := -0x8000000000000000 ≤ n && n < 0x8000000000000000

/-- The display notation of a scalar. -/
def display (s : Scalar) : String := s.toJson.display

@[simp] theorem ofJson?_toJson (s : Scalar) : ofJson? s.toJson = some s := by cases s <;> rfl

end Scalar

end SchemaTree
