import SchemaTree.Decimal.Shortest

/-!
# Layouts of decimal numbers

How a binary64 is written once its shortest digits are known: which magnitudes are written
positionally, how wide the exponent is, and the texts of the values that have no digits. A
positional text always has a point, so that it never reads as a whole number.
-/

namespace SchemaTree.Decimal

/-- The choices of one style of writing a binary64. -/
structure Layout where
  /-- Positional from the place of this leading digit upward. -/
  lowest : Int
  /-- Scientific from the place of this leading digit upward. -/
  highest : Int
  /-- Least number of digits of the exponent. -/
  exponentWidth : Nat
  nan : String
  infinity : String
  negativeInfinity : String

/-- Documents and displayed values: scientific below `0.0001` and from `1e16` on, two digits of
exponent. -/
def Layout.document : Layout := ⟨-4, 16, 2, "NaN", "Infinity", "-Infinity"⟩

/-- Displayed values: as in documents, with short words for what is not finite. -/
def Layout.display : Layout :=
  { Layout.document with nan := "nan", infinity := "inf", negativeInfinity := "-inf" }

/-- Validated data: scientific below `0.00001` and from `1e16` on, no padding of the exponent, and
null for what is not finite. -/
def Layout.compact : Layout := ⟨-5, 16, 1, "null", "null", "null"⟩

/-- The digits of a natural number, padded with zeros on the left to a least width. -/
def padded (width n : Nat) : List Char :=
  let digits := Nat.toDigits 10 n
  List.replicate (width - digits.length) '0' ++ digits

/-- Writes a decimal whose digits are not zero. -/
def Layout.write (layout : Layout) (d : Scaled) : List Char :=
  let digits := Nat.toDigits 10 d.digits
  let place := d.exponent + digits.length - 1
  if layout.lowest ≤ place ∧ place < layout.highest then
    if place < 0 then
      '0' :: '.' :: (List.replicate (-place - 1).toNat '0' ++ digits)
    else
      let whole := place.toNat + 1
      let front := digits.take whole ++ List.replicate (whole - digits.length) '0'
      let back := digits.drop whole
      front ++ '.' :: (if back.isEmpty then ['0'] else back)
  else
    let back := digits.drop 1
    digits.take 1 ++ (if back.isEmpty then [] else '.' :: back) ++
      'e' :: (if place < 0 then '-' else '+') :: padded layout.exponentWidth place.natAbs

/-- The text of what the bits of a binary64 stand for. -/
def Layout.text (layout : Layout) : Binary → List Char
  | .nan => layout.nan.toList
  | .infinite negative => (if negative then layout.negativeInfinity else layout.infinity).toList
  | .zero negative => (if negative then "-0.0" else "0.0").toList
  | .finite negative mantissa exponent narrow =>
    (if negative then ['-'] else []) ++ layout.write (shortest mantissa exponent narrow)

/-- The text of a binary64. -/
def Layout.render (layout : Layout) (x : Float) : String :=
  String.ofList (layout.text (.ofFloat x))

end SchemaTree.Decimal
