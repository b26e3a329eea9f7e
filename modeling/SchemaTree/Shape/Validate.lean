import SchemaTree.Shape.Build
import SchemaTree.Shape.Failure
import SchemaTree.Shape.Write

/-!
# Validation

`Shape.validate` checks data against a shape by recursion on the shape, and leaves references to a
function it is given; `Registry.follow` is that function for a registry, and `Model.validate` puts
the two together. A reference that leads nowhere accepts everything.

A union takes the option that fits best. How well data fits is how exactly it was taken over, and
how many fields of records it filled; see `Fit.beats`.

A document can refer to itself in such a way that validation never ends: an option of a union may
lead back to the union. Validation is therefore bounded, and yields no verdict where the bound is
used up. Between two steps into the data no reference is followed twice unless it never ends, so
the bound of `Model.validate` is never used up otherwise.
-/

namespace SchemaTree

/-! ## How well data fits -/

/-- How exactly data was taken over. -/
inductive Exactness where
  | lax
  | strict
  | exact
deriving DecidableEq, Repr

/-- The place of an exactness among the three. -/
def Exactness.rank : Exactness → Nat
  | .lax => 0
  | .strict => 1
  | .exact => 2

/-- The lower of two. -/
def Exactness.meet (a b : Exactness) : Exactness := if a.rank ≤ b.rank then a else b

/-- How well data fits a shape. -/
structure Fit where
  exactness : Exactness
  /-- The number of fields of records that the data filled, if there are records. -/
  filled : Option Nat
deriving DecidableEq, Repr

namespace Fit

/-- The fit of data that is taken over as it is. -/
def perfect : Fit := ⟨.exact, none⟩

/-- The sum of two counts. -/
def addCounts : Option Nat → Option Nat → Option Nat
  | none, n => n
  | m, none => m
  | some m, some n => some (m + n)

/-- The fit of data with two parts. -/
def both (a b : Fit) : Fit := ⟨a.exactness.meet b.exactness, addCounts a.filled b.filled⟩

/-- Whether a fit is better than another one: more fields filled, if both fill fields and not
equally many, and otherwise more exact. -/
def beats (new old : Fit) : Bool :=
  match old.filled, new.filled with
  | some m, some n =>
    if m = n then old.exactness.rank < new.exactness.rank else m < n
  | _, _ => old.exactness.rank < new.exactness.rank

end Fit

/-- Data that was accepted. -/
structure Accepted where
  datum : Datum
  fit : Fit

/-- The outcome of validation. -/
abbrev Verdict := Checked Accepted

/-- A validation that reports events and may never end. -/
abbrev Validating (α : Type) := OptionT Logged α

/-- Reports an event. -/
def Validating.report (event : Event) : Validating Unit := OptionT.lift (Logged.report event)

/-! ## Values without parts -/

/-- Accepts a value as it is. -/
def Verdict.take (value : Json) : Verdict := .ok ⟨.ofJson value, .perfect⟩

/-- Whether a binary64 is finite. -/
def isFinite (x : Float) : Bool := !x.isNaN && !x.isInf

/-- Checks a text. -/
def checkText : Json → Verdict
  | .str s => .take (.str s)
  | value => .fail .notText value

/-- Checks a flag. -/
def checkFlag : Json → Verdict
  | .bool b => .take (.bool b)
  | value => .fail .notFlag value

/-- Checks a number. A whole number is accepted if a binary64 can be near it, and becomes one. -/
def checkNumber : Json → Verdict
  | .float x => if isFinite x then .take (.float x) else .fail .notFinite (.float x)
  | .int n =>
    match Decimal.ofInt? n with
    | some x => .ok ⟨.plain (.float x), ⟨.strict, none⟩⟩
    | none => .fail .notNumber (.int n)
  | value => .fail .notNumber value

/-- What is wrong with a value that is not that of a literal. Where the literal is a whole number of
64 bits, a longer whole number is not even compared. -/
def otherValueFault : Scalar → Json → Fault
  | .whole m, .int n =>
    if Scalar.isInt64 m && !Scalar.isInt64 n then .wholeTooLong else .otherValue (.whole m)
  | expected, _ => .otherValue expected

/-- Checks a value against a literal. A literal number or flag tells the two apart first. -/
def checkLiteral (expected : Scalar) (value : Json) : Verdict :=
  match expected with
  | .text _ =>
    if expected.admits value then .take expected.toJson else .fail (.otherValue expected) value
  | _ =>
    if !expected.guard.admits value then .fail (.flagMixedUp expected) value
    else if expected.admits value then .take expected.toJson
    else .fail (otherValueFault expected value) value

/-- Checks a moment. -/
def checkMoment (value : Json) : Verdict :=
  match value with
  | .str s =>
    match MomentForm.ofText? s.toList with
    | none => .fail .notMoment value
    | some form =>
      match Moment.ofForm form with
      | .ok m => .ok ⟨.moment m, ⟨.lax, none⟩⟩
      | .error fault => .fail (.badMoment fault) value
  | _ => .fail .notMoment value

/-- Checks a value of a scalar type. -/
def checkScalar : ScalarType → Json → Verdict
  | .text => checkText
  | .number => checkNumber
  | .flag => checkFlag
  | .moment => checkMoment

/-! ## Lists -/

/-- The verdict on a list with a verdict on its first element and one on the others. -/
def Checked.cons (first : Verdict) (rest : Checked (List Datum × Fit)) :
    Checked (List Datum × Fit) :=
  Checked.both (fun a (data, fit) => (a.datum :: data, a.fit.both fit)) first rest

/-- Checks the elements of a list from an index on. -/
def checkElements {m : Type → Type} [Monad m] (check : Json → m Verdict) (index : Nat) :
    List Json → m (Checked (List Datum × Fit))
  | [] => return .ok ([], .perfect)
  | x :: rest => do
    let first ← check x
    let rest ← checkElements check (index + 1) rest
    return (first.within (.index index)).cons rest

/-- Whether a shape accepts everything as it is. -/
def Shape.isAnything (shape : Shape) : Bool :=
  match shape.bare with
  | .anything => true
  | _ => false

/-- The verdict on a list. Elements that are not looked at are taken over as they are. -/
def listVerdict (element : Shape) (elements : Checked (List Datum × Fit)) : Verdict :=
  elements.map fun (data, fit) => ⟨.list data, if element.isAnything then .perfect else fit⟩

/-! ## Records -/

/-- The verdict on a field of a record, and whether the data holds it. -/
def fieldVerdict (members : List (String × Json)) (head : FieldHead)
    (present : Option Verdict) : Checked (Datum × Fit) :=
  match present, head.default with
  | some verdict, _ =>
    (verdict.within (.name head.name)).map fun a => (a.datum, a.fit.both ⟨.exact, some 1⟩)
  | none, some value => .ok (.ofJson value, .perfect)
  | none, none => Checked.within (.name head.name) (.fail .missing (.obj members))

/-- The verdict on fields with a verdict on the first and one on the others. -/
def Checked.consField (first : Checked (Datum × Fit)) (rest : Checked (List Datum × Fit)) :
    Checked (List Datum × Fit) :=
  Checked.both (fun (datum, fit) (data, fits) => (datum :: data, fit.both fits)) first rest

/-- The verdict on a record. -/
def recordVerdict (name : String) (fields : List (FieldHead × Shape))
    (data : Checked (List Datum × Fit)) : Verdict :=
  data.map fun (data, fit) => ⟨.ofFields name fields data, fit.both ⟨.strict, some 0⟩⟩

/-! ## Unions -/

/-- A choice among options: the best so far, or what is wrong with all so far. -/
inductive Choice where
  | undecided (failures : List Failure)
  | best (a : Accepted)

namespace Choice

/-- The choice after another option with a label has been tried. -/
def add (label : String) (verdict : Verdict) : Choice → Choice
  | .undecided failures =>
    match verdict with
    | .ok a => .best a
    | .error more => .undecided (failures ++ more.map (Failure.within (.name label)))
  | .best old =>
    match verdict with
    | .ok a => if a.fit.beats old.fit then .best a else .best old
    | .error _ => .best old

/-- Whether an option ends the search at once. -/
def settles : Verdict → Bool
  | .ok a => a.fit = .perfect
  | .error _ => false

/-- The verdict on a union. -/
def verdict : Choice → Verdict
  | .undecided failures => .error failures
  | .best a => .ok a

end Choice

/-! ## Shapes -/

section Validate

variable {m : Type → Type} [Monad m]

mutual

/-- Validates data against a shape; `look` validates data against what an id leads to. -/
def Shape.validate (look : String → Json → m Verdict) : Shape → Json → m Verdict
  | .scalar type, value => return checkScalar type value
  | .literal expected, value => return checkLiteral expected value
  | .record name _ fields, value =>
    match value with
    | .obj members => do
      return recordVerdict name fields (← Shape.validateFields look members fields)
    | _ => return .fail (.notRecord name) value
  | .union options, value => do
    return (← Shape.validateOptions look value (.undecided []) options).verdict
  | .anything, value => return .ok ⟨.ofJson value, ⟨.strict, none⟩⟩
  | .reference id, value => look id value
  | .list element, value =>
    match value with
    | .arr elements => do
      return listVerdict element (← checkElements (Shape.validate look element) 0 elements)
    | _ => return .fail .notList value
  | .optional inner, value =>
    match value with
    | .null => return .take .null
    | _ => Shape.validate look inner value
  | .described inner _, value => Shape.validate look inner value

/-- Validates the members of an object against the fields of a record. -/
def Shape.validateFields (look : String → Json → m Verdict)
    (members : List (String × Json)) :
    List (FieldHead × Shape) → m (Checked (List Datum × Fit))
  | [] => return .ok ([], .perfect)
  | (head, shape) :: rest => do
    let present ←
      match Json.Members.find? head.name members with
      | some value => some <$> Shape.validate look shape value
      | none => pure none
    let rest ← Shape.validateFields look members rest
    return Checked.consField (fieldVerdict members head present) rest

/-- Tries the options of a union in turn. -/
def Shape.validateOptions (look : String → Json → m Verdict) (value : Json)
    (choice : Choice) : List Shape → m Choice
  | [] => return choice
  | shape :: rest => do
    let verdict ← Shape.validate look shape value
    let choice := choice.add shape.label verdict
    if Choice.settles verdict then return choice
    else Shape.validateOptions look value choice rest

end

end Validate

/-! ## References -/

/-- Validates data against what an id leads to. What a reference leads to has no bearing on the
choice among options around the reference. -/
def Registry.follow (registry : Registry Shape) : Nat → String → Json → Validating Verdict
  | 0, _, _ => failure
  | bound + 1, id, value => do
    let target ← OptionT.lift (registry.lookup id)
    match target with
    | none =>
      Validating.report (.referenceUnresolved id)
      return .take value
    | some shape =>
      let verdict ← shape.validate (registry.follow bound) value
      return verdict.map fun a => { a with fit := .perfect }

/-- The number of references that validation of a value can follow one inside the other. -/
def Registry.bound (registry : Registry Shape) (value : Json) : Nat :=
  (value.depth + 1) * (registry.entries.length + 1)

/-- Validates data against a shape and a registry. -/
def Registry.validate (registry : Registry Shape) (shape : Shape) (value : Json) :
    Logged (Option (Checked Datum)) :=
  (·.map (·.map Accepted.datum)) <$>
    (shape.validate (registry.follow (registry.bound value)) value).run

/-- Validates data against a model. -/
def Model.validate (m : Model) (value : Json) : Logged (Option (Checked Datum)) :=
  m.registry.validate m.shape value

end SchemaTree
