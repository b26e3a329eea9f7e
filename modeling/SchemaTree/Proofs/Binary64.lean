import Mathlib
import SchemaTree.Proofs.Numbers
import SchemaTree.Shape.Validate

/-!
# Binary64 numbers and their bits

A binary64 is finite exactly if not all bits of its exponent are set (`isFinite_iff`). This is what
connects the numbers with the arithmetic on their bits by which whole numbers are read and compared:
the binary64 nearest to a whole number is finite (`Decimal.isFinite_of_ofInt?`), and a binary64 that
is a whole number is the one nearest to it, up to the sign of zero (`Decimal.beq_of_equalsInt`).
-/

namespace SchemaTree

/-! ## Bits -/

section Bits

open Float.Model

variable {x y : Float} {b : UInt64}

/-- The exponent bits of the logical model of a binary64 as a natural number. -/
theorem toNat_unpackExponent (b : UInt64) :
    (@UnpackedFloat.unpackExponent Format.binary64 b.toBitVec).toNat =
      b.toNat / 2 ^ 52 % 2 ^ 11 := by
  rw [UnpackedFloat.unpackExponent_def, BitVec.extractLsb'_toNat, Nat.shiftRight_eq_div_pow]
  rfl

theorem unpackExponent_eq_ones_iff (b : UInt64) :
    @UnpackedFloat.unpackExponent Format.binary64 b.toBitVec = -1#_ ↔
      b.toNat / 2 ^ 52 % 2 ^ 11 = 2047 := by
  rw [← toNat_unpackExponent, ← BitVec.toNat_inj]
  rfl

/-- **The finite numbers** are those whose exponent has a bit that is not set. -/
theorem isFinite_iff : isFinite x ↔ x.toBits.toNat / 2 ^ 52 % 2 ^ 11 ≠ 2047 := by
  have hnan : x.isNaN = (UnpackedFloat.unpack Format.binary64 x.toBits.toBitVec).isNaN := rfl
  have hinf : x.isInf = (UnpackedFloat.unpack Format.binary64 x.toBits.toBitVec).isInf := rfl
  rw [isFinite, hnan, hinf, ne_eq, ← unpackExponent_eq_ones_iff, UnpackedFloat.unpack]
  dsimp only
  split_ifs <;> simp_all [UnpackedFloat.isNaN, UnpackedFloat.isInf]

/-- Bits of a finite number are its bits. -/
theorem toBits_ofBits (h : b.toNat / 2 ^ 52 % 2 ^ 11 ≠ 2047) : (Float.ofBits b).toBits = b := by
  have hnan : ¬ @UnpackedFloat.isNaNBits Format.binary64 b.toBitVec := by
    intro hb
    rw [UnpackedFloat.isNaNBits, decide_eq_true_eq, unpackExponent_eq_ones_iff] at hb
    exact h hb.1
  have hpack := @UnpackedFloat.pack_unpack Format.binary64 b.toBitVec (by decide)
  rw [if_neg hnan] at hpack
  rw [← UInt64.toBitVec_inj]
  exact hpack

theorem beq_self_of_isFinite (h : isFinite x) : x == x := by
  rw [isFinite, Bool.and_eq_true, Float.isNaN_eq_decide_eq_nan] at h
  rw [Float.beq_self_iff]
  simpa using h.1

/-- What is the same number as a finite one is finite. -/
theorem isFinite_of_beq (h : isFinite x) (hxy : x == y) : isFinite y := by
  obtain ⟨-, -, rfl | ⟨-, rfl⟩ | ⟨-, rfl⟩⟩ := Float.beq_iff_ne_nan_and_eq.mp hxy
  · exact h
  · decide
  · decide

theorem toNat_unpackMantissa (b : UInt64) :
    (@UnpackedFloat.unpackMantissa Format.binary64 b.toBitVec).toNat = b.toNat % 2 ^ 52 := by
  rw [UnpackedFloat.unpackMantissa_def, BitVec.extractLsb'_toNat, Nat.shiftRight_zero]
  rfl

theorem toNat_unpackSign (b : UInt64) :
    (@UnpackedFloat.unpackSign Format.binary64 b.toBitVec).toNat = b.toNat / 2 ^ 63 % 2 := by
  rw [UnpackedFloat.unpackSign_def, BitVec.extractLsb'_toNat, Nat.shiftRight_eq_div_pow]
  rfl

/-- Words that differ in the bit of the sign alone are opposite numbers. -/
theorem unpack_opposite {a b : UInt64} (hlow : a.toNat % 2 ^ 63 = b.toNat % 2 ^ 63)
    (hsign : a.toNat / 2 ^ 63 ≠ b.toNat / 2 ^ 63) :
    UnpackedFloat.unpack Format.binary64 b.toBitVec =
      (UnpackedFloat.unpack Format.binary64 a.toBitVec).neg := by
  have ha := a.toNat_lt
  have hb := b.toNat_lt
  have hmantissa : @UnpackedFloat.unpackMantissa Format.binary64 b.toBitVec =
      @UnpackedFloat.unpackMantissa Format.binary64 a.toBitVec := by
    rw [← BitVec.toNat_inj, toNat_unpackMantissa, toNat_unpackMantissa]
    omega
  have hexponent : @UnpackedFloat.unpackExponent Format.binary64 b.toBitVec =
      @UnpackedFloat.unpackExponent Format.binary64 a.toBitVec := by
    rw [← BitVec.toNat_inj, toNat_unpackExponent, toNat_unpackExponent]
    omega
  have hopposite : UnpackedFloat.Sign.ofBitVec
      (@UnpackedFloat.unpackSign Format.binary64 b.toBitVec) =
      -UnpackedFloat.Sign.ofBitVec (@UnpackedFloat.unpackSign Format.binary64 a.toBitVec) := by
    have hbit (v : BitVec 1) : UnpackedFloat.Sign.ofBitVec v =
        if v.toNat = 0 then .positive else .negative := by
      rw [UnpackedFloat.Sign.ofBitVec]
      simp [← BitVec.toNat_inj]
    have hbits : a.toNat / 2 ^ 63 = 0 ∧ b.toNat / 2 ^ 63 = 1 ∨
        a.toNat / 2 ^ 63 = 1 ∧ b.toNat / 2 ^ 63 = 0 := by omega
    rw [hbit, hbit, toNat_unpackSign, toNat_unpackSign]
    rcases hbits with ⟨hzero, hone⟩ | ⟨hone, hzero⟩
    · rw [hzero, hone]
      rfl
    · rw [hzero, hone]
      rfl
  simp only [UnpackedFloat.unpack, hmantissa, hexponent, hopposite]
  split_ifs <;> rfl

/-- **The opposite of a finite number** has the other sign and otherwise the same bits. -/
theorem toNat_toBits_neg (h : x.toBits.toNat / 2 ^ 52 % 2 ^ 11 ≠ 2047) :
    (-x).toBits.toNat = (x.toBits.toNat + 2 ^ 63) % 2 ^ 64 := by
  have hx := x.toBits.toNat_lt
  obtain ⟨b, hb⟩ : ∃ b : UInt64, b.toNat = (x.toBits.toNat + 2 ^ 63) % 2 ^ 64 :=
    ⟨UInt64.ofNat (x.toBits.toNat + 2 ^ 63), UInt64.toNat_ofNat'⟩
  have hnan : ¬ @UnpackedFloat.isNaNBits Format.binary64 b.toBitVec := by
    intro hnan
    rw [UnpackedFloat.isNaNBits, decide_eq_true_eq, unpackExponent_eq_ones_iff] at hnan
    omega
  have hpack := @UnpackedFloat.pack_unpack Format.binary64 b.toBitVec (by decide)
  rw [if_neg hnan, unpack_opposite (a := x.toBits) (by omega) (by omega)] at hpack
  have hbits : (-x).toBits = b := by
    rw [← UInt64.toBitVec_inj]
    exact hpack
  rw [hbits, hb]

end Bits

namespace Decimal

/-! ## Reading whole numbers -/

variable {x y : Float} {n : Int} {bits : Nat}

theorem toNat_toBits_signed (h : bits < infinityBits) (negative : Bool) :
    (signed negative bits).toBits.toNat = bits + if negative then 2 ^ 63 else 0 := by
  have hinf : infinityBits = 2047 * 2 ^ 52 := rfl
  have hsign : Nat.pow 2 63 = 2 ^ 63 := rfl
  have hword : (UInt64.ofNat (bits + if negative then 2 ^ 63 else 0)).toNat =
      bits + if negative then 2 ^ 63 else 0 := by
    rw [UInt64.toNat_ofNat', Nat.mod_eq_of_lt]
    cases negative <;> simp only [Bool.false_eq_true, if_true, if_false] <;> omega
  rw [signed, hsign, toBits_ofBits, hword]
  rw [hword]
  cases negative <;> simp only [Bool.false_eq_true, if_true, if_false] <;> omega

/-- What a whole number is read as. -/
theorem ofInt?_eq_some_iff :
    ofInt? n = some x ↔ nearestBits n.natAbs 1 < infinityBits ∧
      x = signed (n < 0) (nearestBits n.natAbs 1) := by
  rw [ofInt?, (nearestBits_one_le n.natAbs).lt_iff_ne]
  by_cases hinf : nearestBits n.natAbs 1 = infinityBits <;> simp [hinf, eq_comm]

/-- **The binary64 nearest to a whole number** is finite. -/
theorem isFinite_of_ofInt? (h : ofInt? n = some x) : isFinite x := by
  obtain ⟨hbits, rfl⟩ := ofInt?_eq_some_iff.mp h
  have hinf : infinityBits = 2047 * 2 ^ 52 := rfl
  rw [isFinite_iff, toNat_toBits_signed hbits]
  split <;> omega

/-! ## Whole numbers among the binary64 -/

theorem roundHalfEven_mul_right (k : Nat) {den : Nat} (h : 0 < den) :
    roundHalfEven (k * den) den = k := by
  simp only [roundHalfEven, Nat.mul_div_cancel _ h, Nat.mul_mod_left]
  rw [if_neg (by omega), if_neg (by omega)]

/-- A whole number with a mantissa of 53 bits is read without rounding. -/
theorem nearestBits_of_mantissa {k mantissa up down : Nat} (hlow : 2 ^ 52 ≤ mantissa)
    (hhigh : mantissa < 2 ^ 53) (hside : up = 0 ∨ down = 0)
    (hk : k * 2 ^ down = mantissa * 2 ^ up) :
    nearestBits k 1 = min ((k.log2 + 1022) * 2 ^ 52 + mantissa) infinityBits ∧
      k.log2 + down = 52 + up := by
  have hk0 : k ≠ 0 := by
    rintro rfl
    rw [zero_mul, eq_comm, mul_eq_zero] at hk
    rcases hk with hk | hk
    · omega
    · exact (Nat.two_pow_pos up).ne' hk
  have hlog : k.log2 + down = 52 + up := by
    have hbelow : 2 ^ (52 + up) ≤ k * 2 ^ down := by
      rw [hk, pow_add]
      exact Nat.mul_le_mul_right _ hlow
    have habove : k * 2 ^ down < 2 ^ (53 + up) := by
      rw [hk, pow_add]
      exact Nat.mul_lt_mul_of_pos_right hhigh (Nat.two_pow_pos up)
    have hlow' : 2 ^ (k.log2 + down) ≤ k * 2 ^ down := by
      rw [pow_add]
      exact Nat.mul_le_mul_right _ (Nat.log2_self_le hk0)
    have hhigh' : k * 2 ^ down < 2 ^ (k.log2 + 1 + down) := by
      rw [pow_add]
      exact Nat.mul_lt_mul_of_pos_right Nat.lt_log2_self (Nat.two_pow_pos down)
    have h₁ := (Nat.pow_lt_pow_iff_right one_lt_two).mp (hlow'.trans_lt habove)
    have h₂ := (Nat.pow_lt_pow_iff_right one_lt_two).mp (hbelow.trans_lt hhigh')
    omega
  refine ⟨?_, hlog⟩
  rw [nearestBits_one hk0]
  -- one of the two powers is one, and the other one is that of `hk`
  have hround : roundHalfEven (k * 2 ^ (52 - k.log2)) (2 ^ (k.log2 - 52)) = mantissa := by
    have hdown : 52 - k.log2 = down := by omega
    have hup : k.log2 - 52 = up := by omega
    rw [hdown, hup, hk]
    exact roundHalfEven_mul_right _ (Nat.two_pow_pos up)
  rw [hround]

/-- The exponent of the last mantissa bit of a binary64 with some exponent bits. -/
def unitOfBiased (biased : Nat) : Int := (if biased = 0 then 1 else (biased : Int)) - 1075

/-- The mantissa of a binary64 with some exponent bits and bits of a fraction. -/
def mantissaOf (biased fraction : Nat) : Nat := if biased = 0 then fraction else 2 ^ 52 + fraction

theorem of_wholeValue?_eq_some (h : wholeValue? bits = some n) :
    bits / 2 ^ 52 % 2 ^ 11 ≠ 2047 ∧
      n.natAbs * 2 ^ (-unitOfBiased (bits / 2 ^ 52 % 2 ^ 11)).toNat =
        mantissaOf (bits / 2 ^ 52 % 2 ^ 11) (bits % 2 ^ 52) *
          2 ^ (unitOfBiased (bits / 2 ^ 52 % 2 ^ 11)).toNat ∧
      (n ≠ 0 → bits / 2 ^ 63 % 2 = if n < 0 then 1 else 0) := by
  have hvalue : wholeValue? bits =
      let biased := bits / 2 ^ 52 % 2 ^ 11
      let den := 2 ^ (-unitOfBiased biased).toNat
      let magnitude := mantissaOf biased (bits % 2 ^ 52) * 2 ^ (unitOfBiased biased).toNat
      if biased = 2047 then none
      else if magnitude % den = 0 then
        some (if bits / 2 ^ 63 % 2 = 1 then -Int.ofNat (magnitude / den)
          else Int.ofNat (magnitude / den))
      else none := rfl
  rw [hvalue] at h
  generalize bits / 2 ^ 52 % 2 ^ 11 = biased at h ⊢
  dsimp only at h
  generalize mantissaOf biased (bits % 2 ^ 52) * 2 ^ (unitOfBiased biased).toNat = magnitude at h ⊢
  generalize 2 ^ (-unitOfBiased biased).toNat = den at h ⊢
  split_ifs at h with hbiased hmod hsign
  -- what is left are the negative and the positive numbers
  · obtain rfl := Option.some_inj.mp h
    refine ⟨hbiased, ?_, fun hn ↦ ?_⟩
    · rw [Int.natAbs_neg]
      exact Nat.div_mul_cancel (Nat.dvd_of_mod_eq_zero hmod)
    · have hneg : -Int.ofNat (magnitude / den) < 0 := by
        have hpos : (0 : Int) ≤ Int.ofNat (magnitude / den) := Int.natCast_nonneg _
        omega
      rw [if_pos hneg, hsign]
  · obtain rfl := Option.some_inj.mp h
    refine ⟨hbiased, ?_, fun _ ↦ ?_⟩
    · exact Nat.div_mul_cancel (Nat.dvd_of_mod_eq_zero hmod)
    · have hpos : ¬ Int.ofNat (magnitude / den) < 0 := not_lt.mpr (Int.natCast_nonneg _)
      rw [if_neg hpos]
      omega

/-- A whole number that is smaller than its unit is zero. -/
theorem eq_zero_of_mul_two_pow {k down fraction : Nat} (hdown : 52 ≤ down)
    (h : k * 2 ^ down = fraction) (hfraction : fraction < 2 ^ 52) : k = 0 := by
  by_contra hk
  have hpow : 2 ^ 52 ≤ 2 ^ down := Nat.pow_le_pow_right two_pos hdown
  have hle : 2 ^ down ≤ k * 2 ^ down := Nat.le_mul_of_pos_left _ (Nat.pos_of_ne_zero hk)
  omega

/-- **The bits of a whole number**, apart from the sign, are those that the number is read with. -/
theorem nearestBits_of_wholeValue? (h : wholeValue? bits = some n) :
    nearestBits n.natAbs 1 = bits % 2 ^ 63 ∧ bits % 2 ^ 63 < infinityBits := by
  obtain ⟨hbiased, hvalue, -⟩ := of_wholeValue?_eq_some h
  have hinf : infinityBits = 2047 * 2 ^ 52 := rfl
  have hfields : bits % 2 ^ 63 = bits / 2 ^ 52 % 2 ^ 11 * 2 ^ 52 + bits % 2 ^ 52 := by omega
  have hbiased' : bits / 2 ^ 52 % 2 ^ 11 < 2 ^ 11 := Nat.mod_lt _ (by norm_num)
  have hfraction : bits % 2 ^ 52 < 2 ^ 52 := Nat.mod_lt _ (by norm_num)
  rw [hfields]
  generalize bits / 2 ^ 52 % 2 ^ 11 = biased at hbiased hbiased' hvalue ⊢
  generalize bits % 2 ^ 52 = fraction at hfraction hvalue ⊢
  refine ⟨?_, by omega⟩
  rw [mantissaOf, unitOfBiased] at hvalue
  by_cases hzero : biased = 0
  · rw [if_pos hzero, if_pos hzero] at hvalue
    have hdown : 52 ≤ (-(1 - 1075) : Int).toNat := by decide
    have hup : (1 - 1075 : Int).toNat = 0 := rfl
    rw [hup, pow_zero, mul_one] at hvalue
    rw [hzero, zero_mul, zero_add, eq_zero_of_mul_two_pow hdown hvalue hfraction, ← hvalue,
      eq_zero_of_mul_two_pow hdown hvalue hfraction, zero_mul]
    decide
  · rw [if_neg hzero, if_neg hzero] at hvalue
    have hside : ((biased : Int) - 1075).toNat = 0 ∨ (-((biased : Int) - 1075)).toNat = 0 := by
      omega
    obtain ⟨hbits, hlog⟩ := nearestBits_of_mantissa (by omega) (by omega) hside hvalue
    have hplace : n.natAbs.log2 + 1022 + 1 = biased := by
      clear hbits hvalue
      omega
    have hsum : (n.natAbs.log2 + 1022) * 2 ^ 52 + (2 ^ 52 + fraction) =
        biased * 2 ^ 52 + fraction := by
      rw [← hplace]
      ring
    rw [hbits, hsum, min_eq_left]
    omega

/-- A binary64 with no bits but that of the sign is zero. -/
theorem beq_zero_of_bits (h : x.toBits.toNat % 2 ^ 63 = 0) : x == signed false 0 := by
  have hbits : x.toBits.toNat < 2 ^ 64 := x.toBits.toNat_lt
  have hword : x.toBits = 0 ∨ x.toBits = UInt64.ofNat (2 ^ 63) := by
    rw [← UInt64.toNat_inj, ← UInt64.toNat_inj]
    have h0 : (0 : UInt64).toNat = 0 := rfl
    have h63 : (UInt64.ofNat (2 ^ 63)).toNat = 2 ^ 63 := rfl
    omega
  rw [← Float.ofBits_toBits x]
  rcases hword with hword | hword
  · rw [hword]
    decide
  · rw [hword]
    decide

/-- **A binary64 that is a whole number** is the one nearest to it, up to the sign of zero. -/
theorem beq_of_equalsInt (h : equalsInt x n) (hy : ofInt? n = some y) : x == y := by
  rw [equalsInt, decide_eq_true_eq] at h
  obtain ⟨hnearest, hlt⟩ := nearestBits_of_wholeValue? h
  obtain ⟨hbiased, -, hsign⟩ := of_wholeValue?_eq_some h
  have hx : isFinite x := isFinite_iff.mpr hbiased
  obtain ⟨-, rfl⟩ := ofInt?_eq_some_iff.mp hy
  rw [hnearest]
  by_cases hn : n = 0
  · subst hn
    have hzero : x.toBits.toNat % 2 ^ 63 = 0 := hnearest.symm
    rw [hzero]
    exact beq_zero_of_bits hzero
  · have hword : (signed (n < 0) (x.toBits.toNat % 2 ^ 63)).toBits = x.toBits := by
      have hbits : x.toBits.toNat < 2 ^ 64 := x.toBits.toNat_lt
      have hbit := hsign hn
      rw [← UInt64.toNat_inj, toNat_toBits_signed hlt]
      by_cases hneg : n < 0
      · rw [if_pos hneg] at hbit
        rw [if_pos (decide_eq_true hneg)]
        omega
      · rw [if_neg hneg] at hbit
        rw [if_neg (by simpa using hneg)]
        omega
    rw [Float.toBits_inj.mp hword]
    exact beq_self_of_isFinite hx

end Decimal

end SchemaTree
