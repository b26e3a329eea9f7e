/-!
# The shortest decimal of a binary64

A finite non-zero binary64 is `m * 2 ^ q` for a natural number `m`. The reals that round to it form
an interval around it whose ends belong to it exactly when `m` is even. Among the decimals in that
interval this module picks one with the fewest digits, and among those the nearest: for one, two,
three digits and so on it tests the two neighbours of the value on the decimal grid of that many
digits, in exact arithmetic on natural numbers, and the first grid with a hit wins.
-/

namespace SchemaTree.Decimal

/-- The number `digits * 10 ^ exponent`. -/
structure Scaled where
  digits : Nat
  exponent : Int
deriving DecidableEq, Repr

/-- What the bits of a binary64 stand for. -/
inductive Binary where
  /-- Not a number. -/
  | nan
  /-- Infinity with a sign. -/
  | infinite (negative : Bool)
  /-- A zero with a sign. -/
  | zero (negative : Bool)
  /-- `mantissa * 2 ^ exponent` with a sign; `narrow` marks a power of two, whose lower neighbour is
  only half as far away as its upper one. -/
  | finite (negative : Bool) (mantissa : Nat) (exponent : Int) (narrow : Bool)
deriving DecidableEq, Repr

/-- Reads the three fields of a binary64: sign, biased exponent and fraction. -/
def Binary.ofBits (bits : Nat) : Binary :=
  let negative := bits / Nat.pow 2 63 % 2 = 1
  let biased := bits / Nat.pow 2 52 % Nat.pow 2 11
  let fraction := bits % Nat.pow 2 52
  if biased = Nat.pow 2 11 - 1 then
    if fraction = 0 then .infinite negative else .nan
  else if biased = 0 then
    if fraction = 0 then .zero negative else .finite negative fraction (-1074) false
  else
    .finite negative (Nat.pow 2 52 + fraction) (Int.ofNat biased - 1075) (fraction = 0 ∧ 1 < biased)

/-- Reads a binary64. -/
def Binary.ofFloat (x : Float) : Binary := .ofBits x.toBits.toNat

/-- Numerator and denominator of `a * 2 ^ twos / 10 ^ tens`. -/
private def scale (a : Nat) (twos tens : Int) : Nat × Nat :=
  (a * Nat.pow 2 twos.toNat * Nat.pow 10 (-tens).toNat,
    Nat.pow 2 (-twos).toNat * Nat.pow 10 tens.toNat)

/-- The interval of the reals that round to `mantissa * 2 ^ exponent`, in quarter units: numerators
over `4` of its lower end, the value and its upper end. -/
def quarters (mantissa : Nat) (narrow : Bool) : Nat × Nat × Nat :=
  (if narrow then 4 * mantissa - 1 else 4 * mantissa - 2, 4 * mantissa, 4 * mantissa + 2)

/-- The decimal place of the leading digit of `mantissa * 2 ^ exponent`: the largest `e` with
`10 ^ e` at most the value. The start is an estimate that is at most one too large or two small. -/
def leadingPlace (mantissa : Nat) (exponent : Int) : Int :=
  let estimate := (Int.ofNat (Nat.log2 mantissa) + exponent) * 30103 / 100000 + 2
  let reaches (e : Int) : Bool :=
    let (num, den) := scale mantissa exponent e
    den ≤ num
  let rec settle : Nat → Int → Int
    | 0, e => e
    | k + 1, e => if reaches e then e else settle k (e - 1)
  settle 6 estimate

/-- The nearer of the two neighbours of `mantissa * 2 ^ exponent` on the grid of the multiples of
`10 ^ place` that round to it; on a tie the even one. -/
def gridHit? (mantissa : Nat) (exponent : Int) (narrow : Bool) (place : Int) : Option Nat :=
  let (low, mid, high) := quarters mantissa narrow
  let (lowN, den) := scale low (exponent - 2) place
  let (midN, _) := scale mid (exponent - 2) place
  let (highN, _) := scale high (exponent - 2) place
  let inside (c : Nat) : Bool :=
    if mantissa % 2 = 0 then lowN ≤ c * den && c * den ≤ highN
    else lowN < c * den && c * den < highN
  let below := midN / den
  let above := below + 1
  match inside below && 0 < below, inside above with
  | true, true =>
    let toBelow := midN - below * den
    let toAbove := above * den - midN
    if toBelow < toAbove then some below
    else if toAbove < toBelow then some above
    else if below % 2 = 0 then some below else some above
  | true, false => some below
  | false, true => some above
  | false, false => none

/-- Moves trailing zeros of the digits into the exponent; `fuel` bounds their number. -/
def Scaled.trim : Nat → Scaled → Scaled
  | 0, d => d
  | fuel + 1, d =>
    if d.digits ≠ 0 ∧ d.digits % 10 = 0 then Scaled.trim fuel ⟨d.digits / 10, d.exponent + 1⟩ else d

/-- The shortest decimal that rounds to `mantissa * 2 ^ exponent`: the grids of one to seventeen
digits in turn. Seventeen digits always suffice, so the last case is never reached. -/
def shortest (mantissa : Nat) (exponent : Int) (narrow : Bool) : Scaled :=
  let top := leadingPlace mantissa exponent
  let rec search : List Nat → Scaled
    | [] => ⟨0, 0⟩
    | n :: rest =>
      match gridHit? mantissa exponent narrow (top - n) with
      | some digits => Scaled.trim 20 ⟨digits, top - n⟩
      | none => search rest
  search (List.range 18)

end SchemaTree.Decimal
