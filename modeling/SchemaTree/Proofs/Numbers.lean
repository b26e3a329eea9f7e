import SchemaTree.Decimal.Nearest
import Mathlib.Data.Nat.Log
import Mathlib.Tactic.Linarith
import Mathlib.Tactic.Ring

/-!
# Whole numbers that a binary64 can be near

A whole number is read as the binary64 nearest to it, and has none if that is infinite. The least
whole number without one lies half a unit of the last place beyond the largest finite binary64
(`Decimal.isSome_ofInt?_iff`). Up to there rounding stays below the next power of two; the tie goes
to that power, since the mantissa before it is odd.
-/

namespace SchemaTree.Decimal

/-! ## Rounding -/

section Rounding

variable {num den k : Nat}

theorem le_roundHalfEven : num / den ≤ roundHalfEven num den := by
  simp only [roundHalfEven]
  split_ifs <;> omega

theorem roundHalfEven_le : roundHalfEven num den ≤ num / den + 1 := by
  simp only [roundHalfEven]
  split_ifs <;> omega

/-- A quotient is rounded to less than an even number exactly if more than a half is missing. -/
theorem roundHalfEven_lt_iff (hden : 0 < den) :
    roundHalfEven num den < 2 * k ↔ 2 * num + den < 4 * (den * k) := by
  have hnum : den * (num / den) + num % den = num := Nat.div_add_mod num den
  have hrem : num % den < den := Nat.mod_lt num hden
  have hzero : 0 ≤ num % den := Nat.zero_le _
  -- rounding adds at most one, so only the odd quotient next to `2 * k` is decided by its remainder
  rcases lt_trichotomy (num / den + 1) (2 * k) with hlt | heq | hgt
  · have hle : den * (num / den + 2) ≤ den * (2 * k) := Nat.mul_le_mul_left den hlt
    refine iff_of_true (lt_of_le_of_lt roundHalfEven_le hlt) ?_
    linarith
  · have hmul : den * (num / den + 1) = den * (2 * k) := by rw [heq]
    have hround : roundHalfEven num den < 2 * k ↔ 2 * (num % den) < den := by
      simp only [roundHalfEven]
      split_ifs <;> omega
    rw [hround]
    constructor <;> intro h <;> linarith
  · have hle : den * (2 * k) ≤ den * (num / den) := Nat.mul_le_mul_left den (by omega)
    refine iff_of_false (fun h ↦ ?_) (fun h ↦ ?_)
    · have hlow : num / den ≤ roundHalfEven num den := le_roundHalfEven
      omega
    · linarith

end Rounding

/-! ## The exponent of a whole number -/

section Whole

variable {n : Nat}

/-- A whole number in units of the last of its first 53 bits. -/
theorem two_pow_le_inUnits (hn : n ≠ 0) :
    2 ^ 52 ≤ n * 2 ^ (52 - n.log2) / 2 ^ (n.log2 - 52) := by
  have hlow : 2 ^ n.log2 ≤ n := Nat.log2_self_le hn
  rw [Nat.le_div_iff_mul_le (Nat.two_pow_pos _)]
  calc 2 ^ 52 * 2 ^ (n.log2 - 52) = 2 ^ n.log2 * 2 ^ (52 - n.log2) := by
        rw [← pow_add, ← pow_add]
        congr 1
        omega
    _ ≤ n * 2 ^ (52 - n.log2) := Nat.mul_le_mul_right _ hlow

theorem inUnits_lt : n * 2 ^ (52 - n.log2) / 2 ^ (n.log2 - 52) < 2 ^ 53 := by
  have hhigh : n < 2 ^ (n.log2 + 1) := Nat.lt_log2_self
  rw [Nat.div_lt_iff_lt_mul (Nat.two_pow_pos _)]
  calc n * 2 ^ (52 - n.log2) < 2 ^ (n.log2 + 1) * 2 ^ (52 - n.log2) :=
        Nat.mul_lt_mul_of_pos_right hhigh (Nat.two_pow_pos _)
    _ = 2 ^ 53 * 2 ^ (n.log2 - 52) := by
        rw [← pow_add, ← pow_add]
        congr 1
        omega

theorem unitExponent_one (hn : n ≠ 0) : unitExponent n 1 = (n.log2 : Int) - 52 := by
  have hguess : unitExponent n 1 =
      max (if n * 2 ^ (-((n.log2 : Int) - 0 - 52)).toNat /
          (1 * 2 ^ ((n.log2 : Int) - 0 - 52).toNat) < 2 ^ 52
        then (n.log2 : Int) - 0 - 52 - 1 else (n.log2 : Int) - 0 - 52) (-1074) := rfl
  have hdown : (-((n.log2 : Int) - 0 - 52)).toNat = 52 - n.log2 := by omega
  have hup : ((n.log2 : Int) - 0 - 52).toNat = n.log2 - 52 := by omega
  rw [hguess, hdown, hup, one_mul, if_neg (not_lt.mpr (two_pow_le_inUnits hn))]
  omega

/-- The bits of the binary64 nearest to a whole number, infinity not yet considered. -/
theorem nearestBits_one (hn : n ≠ 0) :
    nearestBits n 1 = min ((n.log2 + 1022) * 2 ^ 52 +
      roundHalfEven (n * 2 ^ (52 - n.log2)) (2 ^ (n.log2 - 52))) infinityBits := by
  have hbits : nearestBits n 1 =
      if n = 0 then 0
      else
        let mantissa := roundHalfEven (n * 2 ^ (-unitExponent n 1).toNat)
          (1 * 2 ^ (unitExponent n 1).toNat)
        min (if mantissa < 2 ^ 52 then mantissa
          else (unitExponent n 1 + 1075).toNat * 2 ^ 52 + (mantissa - 2 ^ 52)) infinityBits := rfl
  have hdown : (-((n.log2 : Int) - 52)).toNat = 52 - n.log2 := by omega
  have hup : ((n.log2 : Int) - 52).toNat = n.log2 - 52 := by omega
  have hplace : ((n.log2 : Int) - 52 + 1075).toNat = n.log2 + 1022 + 1 := by omega
  have hmantissa := (two_pow_le_inUnits hn).trans le_roundHalfEven
  -- the leading bit of the mantissa is not stored but adds one to the exponent
  have hcarry (m : Nat) (hm : 2 ^ 52 ≤ m) :
      (n.log2 + 1022 + 1) * 2 ^ 52 + (m - 2 ^ 52) = (n.log2 + 1022) * 2 ^ 52 + m := by omega
  rw [hbits, if_neg hn, unitExponent_one hn, hdown, hup, hplace, one_mul]
  dsimp only
  rw [if_neg (not_lt.mpr hmantissa), hcarry _ hmantissa]

/-- A mantissa of the largest exponent does not carry exactly below the bound. -/
theorem roundHalfEven_lt_carry_iff (hlog : n.log2 = 1023) :
    roundHalfEven (n * 2 ^ (52 - n.log2)) (2 ^ (n.log2 - 52)) < 2 ^ 53 ↔
      n + 2 ^ 970 < 2 ^ 1024 := by
  rw [hlog, Nat.sub_eq_zero_of_le (by norm_num), pow_zero, mul_one]
  have hden : 2 ^ (1023 - 52) = 2 * 2 ^ 970 := by rw [← pow_succ']
  have hbound : 2 ^ 1024 = 2 ^ 54 * 2 ^ 970 := by rw [← pow_add]
  have hpos : 0 < 2 ^ 970 := pow_pos two_pos 970
  have hcarry : 2 ^ 53 = 2 * 2 ^ 52 := by rw [← pow_succ']
  rw [hden, hbound, hcarry]
  -- the powers of two are too large to be worked out
  generalize 2 ^ 970 = p at hpos ⊢
  rw [roundHalfEven_lt_iff (by omega)]
  omega

theorem nearestBits_one_lt_iff : nearestBits n 1 < infinityBits ↔ n + 2 ^ 970 < 2 ^ 1024 := by
  by_cases hn : n = 0
  · subst hn
    refine iff_of_true (by decide) ?_
    rw [zero_add]
    exact pow_lt_pow_right₀ one_lt_two (by norm_num)
  rw [nearestBits_one hn, min_lt_iff, or_iff_left (lt_irrefl _)]
  have hlow : 2 ^ 52 ≤ roundHalfEven (n * 2 ^ (52 - n.log2)) (2 ^ (n.log2 - 52)) :=
    (two_pow_le_inUnits hn).trans le_roundHalfEven
  have hhigh : roundHalfEven (n * 2 ^ (52 - n.log2)) (2 ^ (n.log2 - 52)) ≤ 2 ^ 53 :=
    roundHalfEven_le.trans inUnits_lt
  have hinf : infinityBits = 2047 * 2 ^ 52 := rfl
  -- below the largest exponent a carry leads to a finite number, and beyond it there is none
  rcases lt_trichotomy n.log2 1023 with hlt | heq | hgt
  · have hsmall : n < 2 ^ 1023 :=
      Nat.lt_log2_self.trans_le (pow_le_pow_right₀ one_le_two hlt)
    have hhalf : 2 ^ 970 ≤ 2 ^ 1023 := pow_le_pow_right₀ one_le_two (by norm_num)
    have hdouble : 2 ^ 1024 = 2 * 2 ^ 1023 := by rw [← pow_succ']
    refine iff_of_true ?_ ?_
    · omega
    · rw [hdouble]
      omega
  · rw [← roundHalfEven_lt_carry_iff heq]
    generalize roundHalfEven (n * 2 ^ (52 - n.log2)) (2 ^ (n.log2 - 52)) = mantissa at *
    omega
  · have hlog : 1024 ≤ n.log2 := hgt
    have hlarge : 2 ^ 1024 ≤ n :=
      (pow_le_pow_right₀ one_le_two hlog).trans (Nat.log2_self_le hn)
    refine iff_of_false ?_ ?_
    · omega
    · exact fun h ↦ absurd h (not_lt.mpr (hlarge.trans le_self_add))

end Whole

theorem nearestBits_one_le (n : Nat) : nearestBits n 1 ≤ infinityBits := by
  by_cases hn : n = 0
  · rw [hn]
    decide
  · rw [nearestBits_one hn]
    exact min_le_right _ _

/-- **The whole numbers near a finite binary64.** -/
theorem isSome_ofInt?_iff {n : Int} : (ofInt? n).isSome ↔ n.natAbs + 2 ^ 970 < 2 ^ 1024 := by
  rw [← nearestBits_one_lt_iff, (nearestBits_one_le n.natAbs).lt_iff_ne, ofInt?]
  by_cases hinf : nearestBits n.natAbs 1 = infinityBits <;> simp [hinf]

end SchemaTree.Decimal
