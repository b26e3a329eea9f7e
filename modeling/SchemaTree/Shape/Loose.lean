import SchemaTree.Decimal.Nearest
import SchemaTree.Json.Scalar

/-!
# Loose types

Types that convert what can be taken for one of their values: a flag may be given as zero or one or
by one of a few words, and a whole number as a flag, as digits or as a binary64 that is a whole
number of 64 bits. They are not built from documents, but a registry can hold them. -/

namespace SchemaTree

/-- A loose type. -/
inductive LooseType where
  | text
  | flag
  | whole
  | anything
deriving DecidableEq, Repr

/-- Why a value is not accepted. -/
inductive LooseFault where
  | notText
  | notFlag
  | unreadableFlag
  | notWhole
  | unreadableWhole
  | fraction
  | notFinite
  /-- A binary64 that is a whole number of more than 64 bits. -/
  | wholeTooLong
deriving DecidableEq, Repr

/-- The name of the sort of a fault. -/
def LooseFault.word : LooseFault → String
  | notText => "string_type"
  | notFlag => "bool_type"
  | unreadableFlag => "bool_parsing"
  | notWhole => "int_type"
  | unreadableWhole => "int_parsing"
  | fraction => "int_from_float"
  | notFinite => "finite_number"
  | wholeTooLong => "int_parsing_size"

/-- The wording of a fault. -/
def LooseFault.message : LooseFault → String
  | notText => "Input should be a valid string"
  | notFlag => "Input should be a valid boolean"
  | unreadableFlag => "Input should be a valid boolean, unable to interpret input"
  | notWhole => "Input should be a valid integer"
  | unreadableWhole => "Input should be a valid integer, unable to parse string as an integer"
  | fraction => "Input should be a valid integer, got a number with a fractional part"
  | notFinite => "Input should be a finite number"
  | wholeTooLong => "Unable to parse input string as an integer, exceeded maximum size"

namespace LooseType

/-- The label of a loose type. -/
def label : LooseType → String
  | text => "str"
  | flag => "bool"
  | whole => "int"
  | anything => "any"

/-- The flag that a word stands for, in any case. -/
def flagOfWord? (word : String) : Option Bool :=
  let word := word.map Char.toLower
  if word ∈ ["1", "true", "t", "y", "yes", "on"] then some true
  else if word ∈ ["0", "false", "f", "n", "no", "off"] then some false
  else none

/-- Takes a whole number for a flag. A number of more than 64 bits is not even tried. -/
def flagOfWhole (n : Int) : Except LooseFault Json :=
  if n = 0 then .ok (.bool false)
  else if n = 1 then .ok (.bool true)
  else if Scalar.isInt64 n then .error .unreadableFlag
  else .error .notFlag

/-- Takes a binary64 for a whole number. -/
def wholeOfFloat (x : Float) : Except LooseFault Int :=
  if x.isNaN || x.isInf then .error .notFinite
  else
    match Decimal.wholeValue? x.toBits.toNat with
    | some n => if n.natAbs < Nat.pow 2 63 then .ok n else .error .wholeTooLong
    | none => .error .fraction

/-- Takes a value for a flag. -/
def toFlag : Json → Except LooseFault Json
  | .bool b => .ok (.bool b)
  | .int n => flagOfWhole n
  | .float x =>
    match wholeOfFloat x with
    | .ok n => flagOfWhole n
    | .error _ => .error .notFlag
  | .str word =>
    match flagOfWord? word with
    | some b => .ok (.bool b)
    | none => .error .unreadableFlag
  | _ => .error .notFlag

/-- Takes a value for a whole number. -/
def toWhole : Json → Except LooseFault Json
  | .int n => .ok (.int n)
  | .bool b => .ok (.int (if b then 1 else 0))
  | .float x => Json.int <$> wholeOfFloat x
  | .str s =>
    let digits := s.trimAscii.toString
    match (if digits.startsWith "+" then (digits.drop 1).toString else digits).toInt? with
    | some n => .ok (.int n)
    | none => .error .unreadableWhole
  | _ => .error .notWhole

/-- Takes a value for one of a type. -/
def convert : LooseType → Json → Except LooseFault Json
  | text, .str s => .ok (.str s)
  | text, _ => .error .notText
  | flag, value => toFlag value
  | whole, value => toWhole value
  | anything, value => .ok value

end LooseType

end SchemaTree
