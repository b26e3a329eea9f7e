/-!
# The binary64 nearest to a quotient

A decimal or a whole number is read as the binary64 nearest to it; a tie goes to the even mantissa,
and what is too large becomes infinite. The quotient is exact until the one rounding step.
-/

namespace SchemaTree.Decimal

/-- `num / den` rounded to the nearest natural number, a tie to the even one. -/
def roundHalfEven (num den : Nat) : Nat :=
  let low := num / den
  let excess := 2 * (num % den)
  if den < excess then low + 1
  else if excess = den then low + low % 2
  else low

/-- `num * 2 ^ (-unit) / den` as a numerator and a denominator. -/
private def inUnits (num den : Nat) (unit : Int) : Nat × Nat :=
  (num * Nat.pow 2 (-unit).toNat, den * Nat.pow 2 unit.toNat)

/-- The exponent of the last mantissa bit of the binary64 nearest to `num / den`: the one that gives
the mantissa 53 bits, but never less than that of the smallest positive binary64. -/
def unitExponent (num den : Nat) : Int :=
  let guess := Int.ofNat (Nat.log2 num) - Int.ofNat (Nat.log2 den) - 52
  let (n, d) := inUnits num den guess
  max (if n / d < Nat.pow 2 52 then guess - 1 else guess) (-1074)

/-- The bits of positive infinity. -/
def infinityBits : Nat := 2047 * Nat.pow 2 52

/-- The bits of the binary64 nearest to `num / den`. A mantissa that rounds up to a 54th bit carries
into the exponent field by itself. -/
def nearestBits (num den : Nat) : Nat :=
  if num = 0 then 0
  else
    let unit := unitExponent num den
    let (n, d) := inUnits num den unit
    let mantissa := roundHalfEven n d
    let bits :=
      if mantissa < Nat.pow 2 52 then mantissa
      else (unit + 1075).toNat * Nat.pow 2 52 + (mantissa - Nat.pow 2 52)
    min bits infinityBits

/-- A binary64 from the bits of its magnitude. -/
def signed (negative : Bool) (bits : Nat) : Float :=
  Float.ofBits (UInt64.ofNat (bits + if negative then Nat.pow 2 63 else 0))

/-- The bits of the binary64 nearest to `digits * 10 ^ exponent`. Exponents far outside the range of
binary64 are decided by the size of the number alone. -/
def readBits (digits : Nat) (exponent : Int) : Nat :=
  let place := exponent + Int.ofNat (Nat.log2 digits) * 30103 / 100000
  if digits = 0 ∨ place < -400 then 0
  else if 400 < place then infinityBits
  else nearestBits (digits * Nat.pow 10 exponent.toNat) (Nat.pow 10 (-exponent).toNat)

/-- The binary64 nearest to a decimal. -/
def read (negative : Bool) (digits : Nat) (exponent : Int) : Float :=
  signed negative (readBits digits exponent)

/-- The binary64 nearest to a whole number; `none` if that is infinite. -/
def ofInt? (n : Int) : Option Float :=
  let bits := nearestBits n.natAbs 1
  if bits = infinityBits then none else some (signed (n < 0) bits)

/-- The whole number that the bits of a binary64 stand for, if they stand for one. -/
def wholeValue? (bits : Nat) : Option Int :=
  let fraction := bits % Nat.pow 2 52
  let biased := bits / Nat.pow 2 52 % Nat.pow 2 11
  let mantissa := if biased = 0 then fraction else Nat.pow 2 52 + fraction
  let exponent : Int := (if biased = 0 then 1 else Int.ofNat biased) - 1075
  let den := Nat.pow 2 (-exponent).toNat
  let magnitude := mantissa * Nat.pow 2 exponent.toNat
  if biased = 2047 then none
  else if magnitude % den = 0 then
    some (if bits / Nat.pow 2 63 % 2 = 1 then -Int.ofNat (magnitude / den)
      else Int.ofNat (magnitude / den))
  else none

/-- Whether a binary64 and a whole number are the same number. -/
def equalsInt (x : Float) (n : Int) : Bool := wholeValue? x.toBits.toNat = some n

end SchemaTree.Decimal
