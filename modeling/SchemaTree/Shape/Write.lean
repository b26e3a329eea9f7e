import SchemaTree.Decimal.Nearest
import SchemaTree.Shape.Datum

/-!
# Writing validated data

`Shape.write` is the JSON value of data as a value of a shape. Most data are written as they are,
whatever the shape; the shape matters for defaults, which are not validated, and only where it asks
for numbers. There a whole number is written as a binary64. A flag becomes one too if data are
written straight away, but stays a flag in a copy, and what a reference leads to is always copied.

A union does not know which of its options took the data, and writes them with the first option that
they fit. `Shape.fit?` decides that, and is either strict, where a whole number is no number, or
lax. Options are tried laxly only if none fits strictly and some option has records. Data that fit
no option are written on their own. An option that is a union itself is as strict as the one around
it. -/

namespace SchemaTree

/-- How close data have to be to what a shape asks for. -/
inductive Strictness where
  | strict
  /-- Whole numbers are numbers. -/
  | lax
deriving DecidableEq, Repr

/-! ## Values without parts -/

/-- The value that is written for data where a number is asked for. -/
def Datum.writeNumber (route : Route) (d : Datum) : Json :=
  match d, route with
  | .plain (.int n), _ => ((Decimal.ofInt? n).map Json.float).getD (.int n)
  | .plain (.bool b), .straight => .float (if b then 1.0 else 0.0)
  | d, _ => d.toJson route

/-- The value that is written for data that fit a scalar type. -/
def ScalarType.fit? (strictness : Strictness) : ScalarType → Datum → Option Json
  | .text, .plain (.str s) => some (.str s)
  | .number, .plain (.float x) => some (.float x)
  | .number, .plain (.int n) =>
    if strictness = .lax then (Decimal.ofInt? n).map Json.float else none
  | .flag, .plain (.bool b) => some (.bool b)
  | .moment, .moment m => some (.str m.text)
  | _, _ => none

/-- The number that a flag counts as; any other value is itself. -/
def Json.flagAsNumber : Json → Json
  | .bool b => .int (if b then 1 else 0)
  | value => value

/-- Whether a value fits a literal. A whole number of 64 bits fits only itself; otherwise numbers
and flags are compared by their size. -/
def Scalar.fits (expected : Scalar) (value : Json) : Bool :=
  match expected, value with
  | .whole m, .int n => m = n
  | .whole m, _ => !isInt64 m && expected.admits value
  | .flag b, _ => (Scalar.whole (if b then 1 else 0)).admits value.flagAsNumber
  | _, _ => expected.admits value.flagAsNumber

/-- The value that is written for data that fit a literal. -/
def Scalar.fit? (expected : Scalar) : Datum → Option Json
  | .plain value => if expected.fits value then some value else none
  | _ => none

/-! ## Shapes -/

mutual

/-- Whether a shape has records that are not behind a reference. -/
def Shape.hasRecords : Shape → Bool
  | .record _ _ _ => true
  | .union options => Shape.anyHasRecords options
  | .list inner | .optional inner | .described inner _ => Shape.hasRecords inner
  | _ => false

/-- Whether any of several shapes has records. -/
def Shape.anyHasRecords : List Shape → Bool
  | [] => false
  | shape :: rest => Shape.hasRecords shape || Shape.anyHasRecords rest

end

mutual

/-- The value that is written for data that fit a shape. Null fits every shape. -/
def Shape.fit? (strictness : Strictness) : Shape → Datum → Option Json
  | _, .plain .null => some .null
  | .scalar type, d => type.fit? strictness d
  | .literal expected, d => expected.fit? d
  | .record name _ fields, .record recordClass data _ =>
    if recordClass = .ofFields name fields then Json.obj <$> Shape.fitFields? strictness fields data
    else none
  | .record _ _ _, _ => none
  | .union options, d => Shape.fitOptions? strictness options d
  | .anything, d | .reference _, d => some (d.toJson .copied)
  | .list element, .list data => Json.arr <$> data.mapM (Shape.fit? strictness element)
  | .list _, _ => none
  | .optional inner, d | .described inner _, d => Shape.fit? strictness inner d

/-- The members that are written for the fields of a record that fit. -/
def Shape.fitFields? (strictness : Strictness) :
    List (FieldHead × Shape) → List Datum → Option (List (String × Json))
  | (head, shape) :: rest, d :: data => do
    let value ← Shape.fit? strictness shape d
    let members ← Shape.fitFields? strictness rest data
    return (head.name, value) :: members
  | _, _ => some []

/-- The value that is written for data by the first of several shapes that they fit. -/
def Shape.fitOptions? (strictness : Strictness) : List Shape → Datum → Option Json
  | [], _ => none
  | shape :: rest, d =>
    (Shape.fit? strictness shape d).or (Shape.fitOptions? strictness rest d)

end

/-- The value that is written for data of a union, if they fit an option. -/
def Shape.fitUnion? (options : List Shape) (d : Datum) : Option Json :=
  (Shape.fitOptions? .strict options d).or
    (if Shape.anyHasRecords options then Shape.fitOptions? .lax options d else none)

/-- The value that is written for data as a value of a shape. -/
def Shape.write (route : Route) : Shape → Datum → Json
  | .scalar .number, d => d.writeNumber route
  | .union options, d => (Shape.fitUnion? options d).getD (d.toJson route)
  | .reference _, d => d.toJson .copied
  | .list element, .list data => .arr (data.map (Shape.write route element))
  | .optional inner, d | .described inner _, d => Shape.write route inner d
  | _, d => d.toJson route

/-- A record with fields. -/
def Datum.ofFields (name : String) (fields : List (FieldHead × Shape)) (data : List Datum) :
    Datum :=
  .record (.ofFields name fields) data fun route =>
    .obj (List.zipWith (fun (head, shape) d => (head.name, shape.write route d)) fields data)

end SchemaTree
