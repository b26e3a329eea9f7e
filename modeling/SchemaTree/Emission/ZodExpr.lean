import SchemaTree.Emission.Fault
import SchemaTree.Json.Scalar
import SchemaTree.Naming.Binding

/-!
# Schema expressions

The expressions that a zod module is made of, and their text. An expression is a tree; suffixes such
as `.optional()` are nodes around the expression they follow, so where a suffix stands is visible in
the tree and not only in the text.
-/

namespace SchemaTree

/-- A schema expression. -/
inductive ZodExpr where
  | string
  | number
  | boolean
  | datetime
  | unknown
  | literal (value : Scalar)
  | object (properties : List (String × ZodExpr))
  | union (options : List ZodExpr)
  /-- The binding that a reference leads to, if it leads anywhere. -/
  | reference (binding : Option String)
  | describe (inner : ZodExpr) (description : Json)
  | array (inner : ZodExpr)
  | optional (inner : ZodExpr)
  | default (inner : ZodExpr) (value : Json)
deriving Inhabited

/-- The indentation of a module: one unit, and the indentation of a depth of nesting. -/
structure Indent where
  unit : List Char
  pad : Nat → List Char

/-- Indentation by repeating a text. -/
def Indent.ofText (unit : List Char) : Indent :=
  ⟨unit, fun depth => (List.replicate depth unit).flatten⟩

namespace ZodExpr

/-- A property key: unquoted where possible. -/
def propertyKey (name : String) : List Char :=
  if Naming.isUnquotedKey name then name.toList else Text.doubleQuoted name.toList

/-- The text of a JSON value within a module. -/
def valueText (value : Json) : List Char := value.write (.document none) 0

mutual

/-- The text of an expression at a depth of nesting. -/
def write (indent : Indent) (depth : Nat) : ZodExpr → List Char
  | .string => "z.string()".toList
  | .number => "z.number()".toList
  | .boolean => "z.boolean()".toList
  | .datetime => "z.iso.datetime()".toList
  | .unknown => "z.unknown()".toList
  | .literal value => "z.literal(".toList ++ valueText value.toJson ++ [')']
  | .object [] => "z.object(\x7b\x7d)".toList
  | .object (p :: rest) =>
    "z.object(\x7b\n".toList ++
      Json.joinWith [',', '\n'] (writeProperties indent depth (p :: rest)) ++
      '\n' :: indent.pad depth ++ ['\x7d', ')']
  | .union options =>
    "z.union([".toList ++ Json.joinWith [',', ' '] (writeOptions indent depth options) ++ [']', ')']
  | .reference (some binding) => "z.lazy(() => ".toList ++ binding.toList ++ [')']
  | .reference none => "z.lazy(() => z.unknown())".toList
  | .describe inner description =>
    write indent depth inner ++ ".describe(".toList ++ valueText description ++ [')']
  | .array inner => "z.array(".toList ++ write indent depth inner ++ [')']
  | .optional inner => write indent depth inner ++ ".optional()".toList
  | .default inner value =>
    write indent depth inner ++ ".default(".toList ++ valueText value ++ [')']

/-- The lines of the properties of an object. -/
def writeProperties (indent : Indent) (depth : Nat) : List (String × ZodExpr) → List (List Char)
  | [] => []
  | (name, e) :: rest =>
    (indent.pad depth ++ indent.unit ++ propertyKey name ++
      ':' :: ' ' :: write indent (depth + 1) e)
      :: writeProperties indent depth rest

/-- The texts of the options of a union. -/
def writeOptions (indent : Indent) (depth : Nat) : List ZodExpr → List (List Char)
  | [] => []
  | e :: rest => write indent depth e :: writeOptions indent depth rest

end

mutual

/-- What keeps an expression from being written with a unit of indentation at a depth of nesting, in
the order in which writing comes to it. -/
def faults (unit : Json) (depth : Nat) : ZodExpr → List WriteFault
  | .literal value => WriteFault.ofValue value.toJson
  | .object [] => []
  | .object (p :: rest) =>
    WriteFault.ofIndent unit depth ++ faultsOfProperties unit depth (p :: rest)
  | .union options => faultsOfOptions unit depth options
  | .describe inner value | .default inner value =>
    faults unit depth inner ++ WriteFault.ofValue value
  | .array inner | .optional inner => faults unit depth inner
  | .string | .number | .boolean | .datetime | .unknown | .reference _ => []

/-- What keeps the lines of the properties of an object from being written. -/
def faultsOfProperties (unit : Json) (depth : Nat) : List (String × ZodExpr) → List WriteFault
  | [] => []
  | (_, e) :: rest =>
    WriteFault.ofValue unit ++ faults unit (depth + 1) e ++ faultsOfProperties unit depth rest

/-- What keeps the options of a union from being written. -/
def faultsOfOptions (unit : Json) (depth : Nat) : List ZodExpr → List WriteFault
  | [] => []
  | e :: rest => faults unit depth e ++ faultsOfOptions unit depth rest

end

end ZodExpr

end SchemaTree
