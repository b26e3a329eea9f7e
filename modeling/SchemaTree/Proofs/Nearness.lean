import SchemaTree.Decimal.Shortest
import SchemaTree.Proofs.Binary64

/-!
# Rationals that are nearest to a binary64

A finite binary64 is the rational `m * 2 ^ q`, and the rationals that are nearer to it than to any
other make up its interval; the ends belong to it if its significand is even (`RoundsTo`). Reading
takes a quotient apart into a whole number of units and a rest, and rounds. What is shown here is
that it comes to the same: every positive quotient in the interval of a binary64 is read as that
binary64 (`nearestBits_of_roundsTo`, `read_of_roundsTo`), from its fields to its bits and back. -/

namespace SchemaTree.Decimal

/-! ## Powers with whole exponents -/

section Powers

variable {a : ℚ}

/-- A power is split into the parts with exponents that are no less than zero. -/
theorem pow_toNat (ha : a ≠ 0) (n : ℤ) : a ^ n.toNat = a ^ n * a ^ (-n).toNat := by
  rw [← zpow_natCast, ← zpow_natCast, ← zpow_add₀ ha]
  congr 1
  omega

end Powers

/-! ## The unit of a quotient -/

section Unit

variable {num den : ℕ} {g : ℤ}

/-- A quotient in units. -/
theorem cast_inUnits (g : ℤ) (num den : ℕ) :
    ((num * 2 ^ (-g).toNat : ℕ) / (den * 2 ^ g.toNat : ℕ) : ℚ) = num / den / 2 ^ g := by
  have hpow : (2 : ℚ) ^ (-g).toNat ≠ 0 := by positivity
  push_cast
  rw [pow_toNat two_ne_zero g, ← mul_assoc, mul_div_mul_right _ _ hpow, div_div]

/-- A whole quotient is the largest whole number that the quotient reaches. -/
theorem le_div_iff_cast (hden : 0 < den) (k : ℕ) : k ≤ num / den ↔ (k : ℚ) ≤ num / den := by
  have hden' : (0 : ℚ) < den := by exact_mod_cast hden
  rw [Nat.le_div_iff_mul_le hden, le_div_iff₀ hden']
  exact_mod_cast Iff.rfl

theorem two_zpow_log2_le {n : ℕ} (h : n ≠ 0) : (2 : ℚ) ^ (n.log2 : ℤ) ≤ n := by
  rw [zpow_natCast]
  exact_mod_cast Nat.log2_self_le h

theorem lt_two_zpow_log2 (n : ℕ) : (n : ℚ) < 2 ^ ((n.log2 : ℤ) + 1) := by
  have h : n < 2 ^ (n.log2 + 1) := Nat.lt_log2_self
  have hcast : ((n.log2 : ℤ) + 1) = ((n.log2 + 1 : ℕ) : ℤ) := by push_cast; rfl
  rw [hcast, zpow_natCast]
  exact_mod_cast h

/-- The unit that the lengths of both numbers suggest leaves a mantissa of 52 or 53 bits. -/
theorem bounds_of_log2 (hnum : 0 < num) (hden : 0 < den)
    (hguess : g = (num.log2 : ℤ) - den.log2 - 52) :
    2 ^ 51 * (2 : ℚ) ^ g ≤ num / den ∧ (num / den : ℚ) < 2 ^ 53 * 2 ^ g := by
  subst hguess
  have hden' : (0 : ℚ) < den := by exact_mod_cast hden
  constructor
  · rw [le_div_iff₀ hden']
    calc 2 ^ 51 * (2 : ℚ) ^ ((num.log2 : ℤ) - den.log2 - 52) * den
        ≤ 2 ^ 51 * (2 : ℚ) ^ ((num.log2 : ℤ) - den.log2 - 52) * 2 ^ ((den.log2 : ℤ) + 1) := by
          gcongr
          exact (lt_two_zpow_log2 den).le
      _ = 2 ^ (num.log2 : ℤ) := by
          rw [← zpow_natCast, ← zpow_add₀ two_ne_zero, ← zpow_add₀ two_ne_zero]
          congr 1
          push_cast
          ring
      _ ≤ num := two_zpow_log2_le hnum.ne'
  · rw [div_lt_iff₀ hden']
    calc (num : ℚ) < 2 ^ ((num.log2 : ℤ) + 1) := lt_two_zpow_log2 num
      _ = 2 ^ 53 * (2 : ℚ) ^ ((num.log2 : ℤ) - den.log2 - 52) * 2 ^ (den.log2 : ℤ) := by
          rw [← zpow_natCast, ← zpow_add₀ two_ne_zero, ← zpow_add₀ two_ne_zero]
          congr 1
          push_cast
          ring
      _ ≤ 2 ^ 53 * (2 : ℚ) ^ ((num.log2 : ℤ) - den.log2 - 52) * den := by
          gcongr
          exact two_zpow_log2_le hden.ne'

/-- **The unit of a quotient** gives it a mantissa of 53 bits, unless it would be less than that of
the smallest positive binary64. -/
theorem exists_unitExponent (hnum : 0 < num) (hden : 0 < den) :
    ∃ unit : ℤ, unitExponent num den = max unit (-1074) ∧
      2 ^ 52 * (2 : ℚ) ^ unit ≤ num / den ∧ (num / den : ℚ) < 2 ^ 53 * 2 ^ unit := by
  have hunit : unitExponent num den =
      max (if num * 2 ^ (-((num.log2 : ℤ) - den.log2 - 52)).toNat /
          (den * 2 ^ ((num.log2 : ℤ) - den.log2 - 52).toNat) < 2 ^ 52
        then (num.log2 : ℤ) - den.log2 - 52 - 1 else (num.log2 : ℤ) - den.log2 - 52) (-1074) := rfl
  obtain ⟨hlow, hhigh⟩ := bounds_of_log2 hnum hden rfl
  generalize (num.log2 : ℤ) - den.log2 - 52 = guess at hunit hlow hhigh
  have hpow : (0 : ℚ) < 2 ^ guess := by positivity
  have hmiddle : ¬ num * 2 ^ (-guess).toNat / (den * 2 ^ guess.toNat) < 2 ^ 52 ↔
      2 ^ 52 * (2 : ℚ) ^ guess ≤ num / den := by
    rw [not_lt, le_div_iff_cast (by positivity), cast_inUnits, le_div_iff₀ hpow]
    exact_mod_cast Iff.rfl
  by_cases hsmall : num * 2 ^ (-guess).toNat / (den * 2 ^ guess.toNat) < 2 ^ 52
  · rw [if_pos hsmall] at hunit
    have hbelow : (num / den : ℚ) < 2 ^ 52 * 2 ^ guess := by
      rw [← not_le]
      exact fun hle ↦ hmiddle.mpr hle hsmall
    have hhalf : (2 : ℚ) ^ guess = 2 * 2 ^ (guess - 1) := by
      rw [mul_comm, ← zpow_add_one₀ two_ne_zero, sub_add_cancel]
    rw [hhalf] at hlow hbelow
    exact ⟨guess - 1, hunit, by linarith, by linarith⟩
  · rw [if_neg hsmall] at hunit
    exact ⟨guess, hunit, hmiddle.mp hsmall, hhigh⟩

end Unit

/-! ## Rounding -/

section Rounding

variable {num den m : ℕ} {q : ℤ} {narrow : Bool} {v : ℚ}

/-- A quotient is rounded to a whole number that is at most a half away, unless it lies half way
between that and an even one. -/
theorem roundHalfEven_eq_of_nat (hden : 0 < den) (hlow : 2 * (m * den) ≤ 2 * num + den)
    (hhigh : 2 * num ≤ 2 * (m * den) + den)
    (hstrict : m % 2 = 1 → 2 * (m * den) < 2 * num + den ∧ 2 * num < 2 * (m * den) + den) :
    roundHalfEven num den = m := by
  have hnum : den * (num / den) + num % den = num := Nat.div_add_mod num den
  have hrem : num % den < den := Nat.mod_lt num hden
  -- the whole quotient is the number itself or the one before it
  have hcases : num / den = m ∨ num / den + 1 = m := by
    have hle : num / den < m + 1 := by
      rw [Nat.div_lt_iff_lt_mul hden, Nat.add_mul, Nat.one_mul]
      omega
    have hge : m - 1 ≤ num / den := by
      rw [Nat.le_div_iff_mul_le hden, Nat.sub_mul, Nat.one_mul]
      omega
    omega
  rcases hcases with h | h
  · have hprod : m * den = den * (num / den) := by rw [h, mul_comm]
    simp only [roundHalfEven]
    split_ifs <;> omega
  · have hprod : m * den = den * (num / den) + den := by rw [← h]; ring
    simp only [roundHalfEven]
    split_ifs <;> omega

/-- The same with the distance measured in rationals. -/
theorem roundHalfEven_eq (hden : 0 < den) (hlow : (2 * m - 1 : ℚ) ≤ 2 * (num / den))
    (hhigh : (2 * (num / den) : ℚ) ≤ 2 * m + 1)
    (hstrict : m % 2 = 1 → (2 * m - 1 : ℚ) < 2 * (num / den) ∧ (2 * (num / den) : ℚ) < 2 * m + 1) :
    roundHalfEven num den = m := by
  have hden' : (0 : ℚ) < den := by exact_mod_cast hden
  rw [← mul_div_assoc] at hlow hhigh hstrict
  rw [le_div_iff₀ hden'] at hlow
  rw [div_le_iff₀ hden'] at hhigh
  rw [lt_div_iff₀ hden', div_lt_iff₀ hden'] at hstrict
  have hlow' : (2 * (m * den) : ℚ) ≤ 2 * num + den := by linarith
  have hhigh' : (2 * num : ℚ) ≤ 2 * (m * den) + den := by linarith
  refine roundHalfEven_eq_of_nat hden (by exact_mod_cast hlow') (by exact_mod_cast hhigh')
    fun hodd ↦ ?_
  obtain ⟨hlow, hhigh⟩ := hstrict hodd
  have hlow' : (2 * (m * den) : ℚ) < 2 * num + den := by linarith
  have hhigh' : (2 * num : ℚ) < 2 * (m * den) + den := by linarith
  exact ⟨by exact_mod_cast hlow', by exact_mod_cast hhigh'⟩

/-- What the fields of a binary64 with a mantissa and an exponent are, apart from the sign. -/
def fieldBits (m : ℕ) (q : ℤ) : ℕ :=
  if m < 2 ^ 52 then m else (q + 1075).toNat * 2 ^ 52 + (m - 2 ^ 52)

/-- A mantissa and an exponent that a binary64 has. Only a mantissa for the least exponent is short
of 53 bits, and only the least mantissa for another exponent has a narrow lower half. -/
structure IsFinite (m : ℕ) (q : ℤ) (narrow : Bool) : Prop where
  pos : 0 < m
  lt : m < 2 ^ 53
  le_exponent : -1074 ≤ q
  exponent_le : q ≤ 971
  short : m < 2 ^ 52 → q = -1074
  narrow_iff : narrow ↔ m = 2 ^ 52 ∧ -1074 < q

/-- A rational in the interval that is rounded to `m * 2 ^ q`. -/
structure RoundsTo (m : ℕ) (q : ℤ) (narrow : Bool) (v : ℚ) : Prop where
  low : (quarters m narrow).1 * 2 ^ (q - 2) ≤ v
  high : v ≤ (quarters m narrow).2.2 * 2 ^ (q - 2)
  strict : m % 2 = 1 →
    (quarters m narrow).1 * 2 ^ (q - 2) < v ∧ v < (quarters m narrow).2.2 * 2 ^ (q - 2)

/-- What the bits of the nearest binary64 are once the unit of the quotient is known. -/
theorem nearestBits_eq_of_unit (hnum : 0 < num) (hunit : unitExponent num den = q)
    (hround : roundHalfEven (num * 2 ^ (-q).toNat) (den * 2 ^ q.toNat) = m) :
    nearestBits num den = min (fieldBits m q) infinityBits := by
  have hbits : nearestBits num den =
      if num = 0 then 0
      else
        let unit := unitExponent num den
        let mantissa := roundHalfEven (num * 2 ^ (-unit).toNat) (den * 2 ^ unit.toNat)
        min (if mantissa < 2 ^ 52 then mantissa
          else (unit + 1075).toNat * 2 ^ 52 + (mantissa - 2 ^ 52)) infinityBits := rfl
  rw [hbits, if_neg hnum.ne', hunit]
  dsimp only
  rw [hround, fieldBits]

theorem fieldBits_lt (h : IsFinite m q narrow) : fieldBits m q < infinityBits := by
  have hinf : infinityBits = 2047 * 2 ^ 52 := rfl
  have hlt := h.lt
  have hexponent := h.exponent_le
  rw [fieldBits, hinf]
  split
  · omega
  · have hfield : (q + 1075).toNat ≤ 2046 := by omega
    omega

/-- A power of two has the bits of twice its mantissa with the exponent before. -/
theorem fieldBits_two_pow (hq : -1074 < q) : fieldBits (2 ^ 53) (q - 1) = fieldBits (2 ^ 52) q := by
  rw [fieldBits, fieldBits, if_neg (by norm_num), if_neg (by norm_num)]
  omega

theorem two_zpow_quarter (q : ℤ) : (2 : ℚ) ^ q = 4 * 2 ^ (q - 2) := by
  have hfour : (4 : ℚ) = 2 ^ (2 : ℤ) := by norm_num
  rw [hfour, ← zpow_add₀ two_ne_zero]
  congr 1
  ring

/-- The interval of a binary64 reaches at most half a unit down. -/
theorem le_quarters (hm : 0 < m) (narrow : Bool) : (4 * m - 2 : ℚ) ≤ (quarters m narrow).1 := by
  have hle : 4 * m ≤ (quarters m narrow).1 + 2 := by
    rw [quarters]
    dsimp only
    split <;> omega
  have hcast : (4 * m : ℚ) ≤ (quarters m narrow).1 + 2 := by exact_mod_cast hle
  linarith

theorem quarters_high (m : ℕ) (narrow : Bool) : ((quarters m narrow).2.2 : ℚ) = 4 * m + 2 := by
  simp [quarters]

/-- A quotient that is at most half a unit away is rounded to the mantissa. -/
theorem roundHalfEven_inUnits (hm : 0 < m) (hden : 0 < den)
    (hv : RoundsTo m q narrow (num / den)) :
    roundHalfEven (num * 2 ^ (-q).toNat) (den * 2 ^ q.toNat) = m := by
  have hpow : (0 : ℚ) < 2 ^ (q - 2) := by positivity
  have hunit : (0 : ℚ) < 2 ^ q := by positivity
  have hquarter := two_zpow_quarter q
  have hlow := le_quarters hm narrow
  have hlow' : (4 * m - 2 : ℚ) * 2 ^ (q - 2) ≤ (quarters m narrow).1 * 2 ^ (q - 2) :=
    mul_le_mul_of_nonneg_right hlow hpow.le
  refine roundHalfEven_eq (by positivity) ?_ ?_ ?_
  · rw [cast_inUnits, ← mul_div_assoc, le_div_iff₀ hunit, hquarter]
    linarith [hv.low]
  · rw [cast_inUnits, ← mul_div_assoc, div_le_iff₀ hunit, hquarter]
    have hhigh := hv.high
    rw [quarters_high] at hhigh
    linarith
  · intro hodd
    obtain ⟨hlow'', hhigh''⟩ := hv.strict hodd
    rw [quarters_high] at hhigh''
    rw [cast_inUnits, ← mul_div_assoc, lt_div_iff₀ hunit, div_lt_iff₀ hunit, hquarter]
    constructor <;> linarith

/-- The unit of a number in the interval of a binary64 is not greater than that of the binary64. -/
theorem RoundsTo.unit_le (h : IsFinite m q narrow) (hv : RoundsTo m q narrow v) {unit : ℤ}
    (hlow : 2 ^ 52 * (2 : ℚ) ^ unit ≤ v) : unit ≤ q := by
  have hpow : (0 : ℚ) < 2 ^ (q - 2) := by positivity
  have hm : (m : ℚ) + 1 ≤ 2 ^ 53 := by exact_mod_cast h.lt
  have hhigh := hv.high
  rw [quarters_high] at hhigh
  have hbound : v < 2 ^ 53 * 2 ^ q := by
    refine hhigh.trans_lt ?_
    rw [two_zpow_quarter q, ← mul_assoc]
    exact mul_lt_mul_of_pos_right (by linarith) hpow
  have hpows : (2 : ℚ) ^ (52 + unit) < 2 ^ (53 + q) := by
    rw [zpow_add₀ two_ne_zero, zpow_add₀ two_ne_zero]
    exact_mod_cast hlow.trans_lt hbound
  have hplaces := (zpow_lt_zpow_iff_right₀ one_lt_two).mp hpows
  omega

theorem two_zpow_half (q : ℤ) : (2 : ℚ) ^ (q - 1) = 2 * 2 ^ (q - 2) := by
  rw [mul_comm, ← zpow_add_one₀ two_ne_zero]
  congr 1
  ring

/-- Only the interval of a power of two reaches numbers with a smaller unit. -/
theorem RoundsTo.eq_two_pow (h : IsFinite m q narrow) (hv : RoundsTo m q narrow v) (hq : -1074 < q)
    (hbelow : v < 2 ^ 53 * 2 ^ (q - 1)) : m = 2 ^ 52 := by
  have hpow : (0 : ℚ) < 2 ^ (q - 2) := by positivity
  rw [two_zpow_half] at hbelow
  have hlow := (mul_le_mul_of_nonneg_right (le_quarters h.pos narrow) hpow.le).trans hv.low
  have hlt : (4 * m - 2 : ℚ) * 2 ^ (q - 2) < 2 ^ 54 * 2 ^ (q - 2) := by linarith
  have hlt' : (4 * m : ℚ) < 2 ^ 54 + 2 := by linarith [lt_of_mul_lt_mul_right hlt hpow.le]
  have hlt'' : 4 * m < 2 ^ 54 + 2 := by exact_mod_cast hlt'
  have hlong : ¬ m < 2 ^ 52 := fun hshort ↦ hq.ne' (h.short hshort)
  omega

/-- A power of two may be reached from below. -/
theorem RoundsTo.le_of_two_pow (hv : RoundsTo (2 ^ 52) q true v) :
    (2 ^ 54 - 1) * 2 ^ (q - 2) ≤ v := by
  have hlow := hv.low
  rw [quarters, if_pos rfl] at hlow
  norm_num at hlow ⊢
  exact hlow

/-- Next below a power of two, a number is rounded up to twice the least mantissa. -/
theorem roundHalfEven_inHalfUnits (hden : 0 < den) (hv : RoundsTo (2 ^ 52) q true (num / den))
    (hbelow : (num / den : ℚ) < 2 ^ 53 * 2 ^ (q - 1)) :
    roundHalfEven (num * 2 ^ (-(q - 1)).toNat) (den * 2 ^ (q - 1).toNat) = 2 ^ 53 := by
  have hunit : (0 : ℚ) < 2 ^ (q - 1) := by positivity
  have hlow := hv.le_of_two_pow
  have hhalf := two_zpow_half q
  refine roundHalfEven_eq (by positivity) ?_ ?_ (fun hodd ↦ absurd hodd (by norm_num))
  · rw [cast_inUnits, ← mul_div_assoc, le_div_iff₀ hunit, hhalf]
    norm_num
    linarith
  · rw [cast_inUnits, ← mul_div_assoc, div_le_iff₀ hunit]
    norm_num
    linarith

/-- **A quotient in the interval of a binary64** is read as it. -/
theorem nearestBits_of_roundsTo (h : IsFinite m q narrow) (hnum : 0 < num) (hden : 0 < den)
    (hv : RoundsTo m q narrow (num / den)) : nearestBits num den = fieldBits m q := by
  obtain ⟨unit, hunit, hlow, hhigh⟩ := exists_unitExponent hnum hden
  have hle := hv.unit_le h hlow
  -- the unit is that of the binary64, except next below a power of two
  by_cases hsame : max unit (-1074) = q
  · rw [nearestBits_eq_of_unit hnum (hunit.trans hsame) (roundHalfEven_inUnits h.pos hden hv),
      min_eq_left (fieldBits_lt h).le]
  · have hq : -1074 < q := by
      have hleast := h.le_exponent
      omega
    have hbelow : (num / den : ℚ) < 2 ^ 53 * 2 ^ (q - 1) := by
      refine hhigh.trans_le (mul_le_mul_of_nonneg_left ?_ (by positivity))
      exact zpow_le_zpow_right₀ one_le_two (by omega)
    obtain rfl := hv.eq_two_pow h hq hbelow
    obtain rfl : narrow = true := h.narrow_iff.mpr ⟨rfl, hq⟩
    have hpred : unit = q - 1 := by
      have hpow : (0 : ℚ) < 2 ^ (q - 2) := by positivity
      have hpows : (2 : ℚ) ^ (q - 2) < 2 ^ unit := by linarith [hv.le_of_two_pow]
      have hlast := (zpow_lt_zpow_iff_right₀ one_lt_two).mp hpows
      omega
    rw [nearestBits_eq_of_unit hnum (hunit.trans (by omega))
      (roundHalfEven_inHalfUnits hden hv hbelow), fieldBits_two_pow hq,
      min_eq_left (fieldBits_lt h).le]

end Rounding

/-! ## Reading decimals -/

section Reading

variable {m digits : ℕ} {q exponent : ℤ} {narrow negative : Bool}

theorem RoundsTo.lt_two_pow (h : IsFinite m q narrow) {v : ℚ} (hv : RoundsTo m q narrow v) :
    v < 2 ^ (1024 : ℤ) := by
  have hm : (m : ℚ) + 1 ≤ 2 ^ 53 := by exact_mod_cast h.lt
  have hhigh := hv.high
  rw [quarters_high] at hhigh
  have hexponent := h.exponent_le
  calc v ≤ (4 * m + 2) * 2 ^ (q - 2) := hhigh
    _ < 2 ^ (55 : ℤ) * 2 ^ (q - 2) := by
        refine mul_lt_mul_of_pos_right ?_ (by positivity)
        norm_num
        linarith
    _ = 2 ^ (55 + (q - 2)) := (zpow_add₀ two_ne_zero _ _).symm
    _ ≤ 2 ^ (1024 : ℤ) := zpow_le_zpow_right₀ one_le_two (by omega)

theorem two_pow_lt_ten_pow : (2 : ℚ) ^ (1024 : ℤ) < 10 ^ (309 : ℤ) :=
  calc (2 : ℚ) ^ (1024 : ℤ) = (2 ^ 93) ^ 11 * 2 := by
        rw [← pow_mul, ← pow_succ]
        rfl
    _ < (10 ^ 28) ^ 11 * 10 := by gcongr <;> norm_num
    _ = 10 ^ (309 : ℤ) := by
        rw [← pow_mul, ← pow_succ]
        rfl

/-- A decimal that a binary64 is near to is not so large that it would be taken for infinite. -/
theorem place_le (hdigits : 0 < digits) (hleast : -400 ≤ exponent)
    (hlt : (digits * 10 ^ exponent : ℚ) < 2 ^ (1024 : ℤ)) :
    exponent + Int.ofNat digits.log2 * 30103 / 100000 ≤ 400 := by
  have hlow : (2 : ℚ) ^ (digits.log2 : ℤ) * 10 ^ exponent < 2 ^ (1024 : ℤ) :=
    (mul_le_mul_of_nonneg_right (two_zpow_log2_le hdigits.ne') (by positivity)).trans_lt hlt
  -- by `10 ≤ 2 ^ 4` the digits are few enough for `2 ^ 10` to be taken for `10 ^ 3` thereafter
  have hfew : (digits.log2 : ℤ) < 2624 := by
    have hten : (2 : ℚ) ^ (-1600 : ℤ) ≤ 10 ^ exponent :=
      calc (2 : ℚ) ^ (-1600 : ℤ) = ((2 ^ 4) ^ 400)⁻¹ := by
            rw [← pow_mul, zpow_neg]
            rfl
        _ ≤ (10 ^ 400)⁻¹ := by gcongr; norm_num
        _ = 10 ^ (-400 : ℤ) := by
            rw [zpow_neg]
            rfl
        _ ≤ 10 ^ exponent := zpow_le_zpow_right₀ (by norm_num) hleast
    have hpows : (2 : ℚ) ^ ((digits.log2 : ℤ) + -1600) < 2 ^ (1024 : ℤ) := by
      rw [zpow_add₀ two_ne_zero]
      exact (mul_le_mul_of_nonneg_left hten (by positivity)).trans_lt hlow
    have hlog := (zpow_lt_zpow_iff_right₀ one_lt_two).mp hpows
    omega
  have hplace : 3 * (digits.log2 / 10 : ℕ) + exponent < (309 : ℤ) := by
    have hten : (10 : ℚ) ^ (3 * (digits.log2 / 10 : ℕ) : ℤ) ≤ 2 ^ (digits.log2 : ℤ) :=
      calc (10 : ℚ) ^ (3 * (digits.log2 / 10 : ℕ) : ℤ) = (10 ^ 3) ^ (digits.log2 / 10) := by
            rw [zpow_mul, zpow_natCast]
            rfl
        _ ≤ (2 ^ 10) ^ (digits.log2 / 10) := by gcongr; norm_num
        _ = (2 : ℚ) ^ (10 * (digits.log2 / 10 : ℕ) : ℤ) := by
            rw [zpow_mul, zpow_natCast]
            rfl
        _ ≤ 2 ^ (digits.log2 : ℤ) := zpow_le_zpow_right₀ one_le_two (by omega)
    have hpows : (10 : ℚ) ^ (3 * (digits.log2 / 10 : ℕ) + exponent : ℤ) < 10 ^ (309 : ℤ) := by
      rw [zpow_add₀ (by norm_num)]
      exact ((mul_le_mul_of_nonneg_right hten (by positivity)).trans_lt hlow).trans
        two_pow_lt_ten_pow
    exact (zpow_lt_zpow_iff_right₀ (by norm_num)).mp hpows
  rw [Int.ofNat_eq_natCast]
  omega

/-- **A decimal in the interval of a binary64** is read as it. -/
theorem readBits_of_roundsTo (h : IsFinite m q narrow) (hdigits : 0 < digits)
    (hleast : -400 ≤ exponent) (hv : RoundsTo m q narrow (digits * 10 ^ exponent)) :
    readBits digits exponent = fieldBits m q := by
  have hplace := place_le hdigits hleast (hv.lt_two_pow h)
  have hread : readBits digits exponent =
      if digits = 0 ∨ exponent + Int.ofNat digits.log2 * 30103 / 100000 < -400 then 0
      else if 400 < exponent + Int.ofNat digits.log2 * 30103 / 100000 then infinityBits
      else nearestBits (digits * 10 ^ exponent.toNat) (10 ^ (-exponent).toNat) := rfl
  have hnonneg : 0 ≤ Int.ofNat digits.log2 * 30103 / 100000 :=
    Int.ediv_nonneg (mul_nonneg (Int.natCast_nonneg _) (by norm_num)) (by norm_num)
  have hquotient : ((digits * 10 ^ exponent.toNat : ℕ) / (10 ^ (-exponent).toNat : ℕ) : ℚ) =
      digits * 10 ^ exponent := by
    have hpow : (10 : ℚ) ^ (-exponent).toNat ≠ 0 := by positivity
    push_cast
    rw [pow_toNat (by norm_num) exponent, ← mul_assoc, mul_div_assoc, div_self hpow, mul_one]
  rw [hread, if_neg (by omega), if_neg (by omega)]
  exact nearestBits_of_roundsTo h (by positivity) (by positivity) (hquotient ▸ hv)

end Reading

/-! ## The fields of a binary64 -/

section Fields

variable {bits m : ℕ} {q : ℤ} {narrow negative : Bool} {x : Float}

theorem ofBits_eq (bits : ℕ) : Binary.ofBits bits =
    let negative : Bool := bits / 2 ^ 63 % 2 = 1
    let biased := bits / 2 ^ 52 % 2 ^ 11
    let fraction := bits % 2 ^ 52
    if biased = 2 ^ 11 - 1 then if fraction = 0 then .infinite negative else .nan
    else if biased = 0 then
      if fraction = 0 then .zero negative else .finite negative fraction (-1074) false
    else .finite negative (2 ^ 52 + fraction) (Int.ofNat biased - 1075)
      (fraction = 0 ∧ 1 < biased) := rfl

/-- What the sign adds to the bits of a binary64. -/
def signBits (negative : Bool) : ℕ := if negative then 2 ^ 63 else 0

theorem signBits_eq (hbits : bits < 2 ^ 64) :
    signBits (bits / 2 ^ 63 % 2 = 1) = bits / 2 ^ 63 * 2 ^ 63 := by
  rw [signBits]
  by_cases hsign : bits / 2 ^ 63 % 2 = 1
  · rw [if_pos (decide_eq_true hsign)]
    omega
  · rw [if_neg (by simpa using hsign)]
    omega

/-- **The fields of a finite binary64** other than zero. -/
theorem of_ofBits_eq_finite (hbits : bits < 2 ^ 64)
    (h : Binary.ofBits bits = .finite negative m q narrow) :
    IsFinite m q narrow ∧ bits = fieldBits m q + signBits negative := by
  rw [ofBits_eq] at h
  dsimp only at h
  have hsign := signBits_eq hbits
  have hfraction : bits % 2 ^ 52 < 2 ^ 52 := Nat.mod_lt _ (by norm_num)
  split_ifs at h with hones hzero hleast hfirst
  · obtain ⟨rfl, rfl, rfl, rfl⟩ := Binary.finite.inj h
    refine ⟨⟨by omega, by omega, by omega, by omega, fun _ ↦ rfl, by simp⟩, ?_⟩
    rw [fieldBits, if_pos hfraction, hsign]
    omega
  · obtain ⟨rfl, rfl, rfl, rfl⟩ := Binary.finite.inj h
    rw [Int.ofNat_eq_natCast]
    refine ⟨⟨by omega, by omega, by omega, by omega, by omega, ?_⟩, ?_⟩
    · rw [decide_eq_true_eq]
      omega
    · rw [fieldBits, if_neg (by omega), hsign]
      omega

theorem of_ofBits_eq_zero (hbits : bits < 2 ^ 64) (h : Binary.ofBits bits = .zero negative) :
    bits = 0 + signBits negative := by
  rw [ofBits_eq] at h
  dsimp only at h
  have hsign := signBits_eq hbits
  split_ifs at h
  obtain rfl := Binary.zero.inj h
  omega

theorem of_ofBits_eq_infinite (hbits : bits < 2 ^ 64)
    (h : Binary.ofBits bits = .infinite negative) :
    bits = infinityBits + signBits negative := by
  rw [ofBits_eq] at h
  dsimp only at h
  have hsign := signBits_eq hbits
  have hinf : infinityBits = 2047 * 2 ^ 52 := rfl
  split_ifs at h
  obtain rfl := Binary.infinite.inj h
  omega

theorem of_ofBits_eq_nan (h : Binary.ofBits bits = .nan) :
    bits / 2 ^ 52 % 2 ^ 11 = 2047 ∧ bits % 2 ^ 52 ≠ 0 := by
  rw [ofBits_eq] at h
  dsimp only at h
  split_ifs at h with hones hfraction
  exact ⟨hones, hfraction⟩

/-- A binary64 from its bits without the sign, and the sign. -/
theorem signed_eq {negative : Bool} (h : x.toBits.toNat = m + signBits negative) :
    signed negative m = x := by
  have hsign : signed negative m = Float.ofBits (UInt64.ofNat (m + signBits negative)) := rfl
  rw [hsign, ← h, UInt64.ofNat_toNat, Float.ofBits_toBits]

/-- All bits that are not a number are the same one. -/
theorem eq_nan_of_ofFloat (h : Binary.ofFloat x = .nan) : x = Float.nan := by
  obtain ⟨hones, hfraction⟩ := of_ofBits_eq_nan h
  have hnan : x.isNaN = (Float.Model.UnpackedFloat.unpack .binary64 x.toBits.toBitVec).isNaN := rfl
  have hmantissa := toNat_unpackMantissa x.toBits
  have hne : @Float.Model.UnpackedFloat.unpackMantissa .binary64 x.toBits.toBitVec ≠ 0#_ := by
    intro hzero
    rw [hzero] at hmantissa
    exact hfraction hmantissa.symm
  rw [← unpackExponent_eq_ones_iff] at hones
  have hisNaN : x.isNaN := by
    rw [hnan, Float.Model.UnpackedFloat.unpack]
    dsimp only
    rw [if_pos hones, if_neg hne]
    rfl
  rw [Float.isNaN_eq_decide_eq_nan, decide_eq_true_eq] at hisNaN
  exact hisNaN

/-- **A binary64 is read** from every decimal in its interval. -/
theorem read_of_roundsTo {digits : ℕ} {exponent : ℤ}
    (hx : Binary.ofFloat x = .finite negative m q narrow) (hdigits : 0 < digits)
    (hleast : -400 ≤ exponent) (hv : RoundsTo m q narrow (digits * 10 ^ exponent)) :
    read negative digits exponent = x := by
  obtain ⟨hfinite, hbits⟩ := of_ofBits_eq_finite x.toBits.toNat_lt hx
  rw [read, readBits_of_roundsTo hfinite hdigits hleast hv]
  exact signed_eq hbits

end Fields

end SchemaTree.Decimal
