import SchemaTree.Decimal.Shortest
import SchemaTree.Proofs.Nearness

/-!
# The shortest decimal is a near one

The digits that are picked for a finite binary64 lie in its interval (`Decimal.roundsTo_shortest`),
so that it is read back from them. A hit on a grid lies in the interval by its test; what is to be
shown is that the search finds one. The place of the leading digit starts from an estimate that is
never too large by more than the six steps it may go down, and seventeen digits below that place the
grid is finer than the interval. -/

namespace SchemaTree.Decimal

/-- The rational that a decimal is. -/
def Scaled.value (d : Scaled) : ℚ := d.digits * 10 ^ d.exponent

/-! ## The place of the leading digit -/

section Place

variable {m : ℕ} {q : ℤ} {narrow : Bool}

theorem cast_scale (a : ℕ) (twos tens : ℤ) :
    ((a * 2 ^ twos.toNat * 10 ^ (-tens).toNat : ℕ) : ℚ) * 10 ^ tens =
      a * 2 ^ twos * (2 ^ (-twos).toNat * 10 ^ tens.toNat : ℕ) := by
  push_cast
  rw [pow_toNat two_ne_zero twos, pow_toNat (by norm_num) tens]
  ring

/-- Comparing a multiple of a power of two with one of a power of ten takes natural numbers only. -/
theorem le_scale_iff (a b : ℕ) (twos tens : ℤ) :
    b * (2 ^ (-twos).toNat * 10 ^ tens.toNat) ≤ a * 2 ^ twos.toNat * 10 ^ (-tens).toNat ↔
      (b * 10 ^ tens : ℚ) ≤ a * 2 ^ twos := by
  have hpow : (0 : ℚ) < 10 ^ tens := by positivity
  have hden : (0 : ℚ) < (2 ^ (-twos).toNat * 10 ^ tens.toNat : ℕ) := by positivity
  rw [← Nat.cast_le (α := ℚ), ← mul_le_mul_iff_left₀ hpow, cast_scale, Nat.cast_mul b,
    mul_right_comm, mul_le_mul_iff_left₀ hden]

theorem scale_le_iff (a b : ℕ) (twos tens : ℤ) :
    a * 2 ^ twos.toNat * 10 ^ (-tens).toNat ≤ b * (2 ^ (-twos).toNat * 10 ^ tens.toNat) ↔
      (a * 2 ^ twos : ℚ) ≤ b * 10 ^ tens := by
  have hpow : (0 : ℚ) < 10 ^ tens := by positivity
  have hden : (0 : ℚ) < (2 ^ (-twos).toNat * 10 ^ tens.toNat : ℕ) := by positivity
  rw [← Nat.cast_le (α := ℚ), ← mul_le_mul_iff_left₀ hpow, cast_scale, Nat.cast_mul b,
    mul_right_comm (b : ℚ), mul_le_mul_iff_left₀ hden]

/-- Whether `10 ^ place` is at most the value. -/
def reaches (m : ℕ) (q place : ℤ) : Bool :=
  2 ^ (-q).toNat * 10 ^ place.toNat ≤ m * 2 ^ q.toNat * 10 ^ (-place).toNat

theorem reaches_iff {place : ℤ} : reaches m q place ↔ (10 ^ place : ℚ) ≤ m * 2 ^ q := by
  have h := le_scale_iff m 1 q place
  rw [one_mul, Nat.cast_one, one_mul] at h
  rw [reaches, decide_eq_true_eq, h]

/-- A power of two is at least the power of ten that its exponent is estimated to be. -/
theorem ten_zpow_le {s : ℤ} (hlow : -1074 ≤ s) (hhigh : s ≤ 1023) :
    (10 : ℚ) ^ (s * 30103 / 100000 - 4) ≤ 2 ^ s := by
  have hthree (k : ℤ) (hk : 0 ≤ k) : (10 : ℚ) ^ (3 * k) ≤ 2 ^ (10 * k) := by
    rw [zpow_mul, zpow_mul]
    exact zpow_le_zpow_left₀ hk (by norm_num) (by norm_num)
  by_cases hs : 0 ≤ s
  · calc (10 : ℚ) ^ (s * 30103 / 100000 - 4) ≤ 10 ^ (3 * (s / 10)) :=
          zpow_le_zpow_right₀ (by norm_num) (by omega)
      _ ≤ 2 ^ (10 * (s / 10)) := hthree _ (by omega)
      _ ≤ 2 ^ s := zpow_le_zpow_right₀ one_le_two (by omega)
  · -- below zero `10 ^ 3 ≤ 2 ^ 10` points the wrong way, so the whole parts are taken of `93`
    have hwhole (k : ℤ) (hk : k ≤ 0) : (10 : ℚ) ^ (28 * k) ≤ 2 ^ (93 * k) := by
      have hinv (a : ℚ) (n : ℤ) : a ^ (n * k) = ((a ^ n) ^ (-k))⁻¹ := by
        rw [zpow_neg, inv_inv, zpow_mul]
      rw [hinv, hinv]
      exact inv_anti₀ (by positivity) (zpow_le_zpow_left₀ (by omega) (by norm_num) (by norm_num))
    calc (10 : ℚ) ^ (s * 30103 / 100000 - 4) ≤ 10 ^ (28 * (s / 93) + 3 * (s % 93 / 10)) :=
          zpow_le_zpow_right₀ (by norm_num) (by omega)
      _ = 10 ^ (28 * (s / 93)) * 10 ^ (3 * (s % 93 / 10)) := zpow_add₀ (by norm_num) _ _
      _ ≤ 2 ^ (93 * (s / 93)) * 2 ^ (10 * (s % 93 / 10)) := by
          have hfirst := hwhole (s / 93) (by omega)
          have hsecond := hthree (s % 93 / 10) (by omega)
          gcongr
      _ = 2 ^ (93 * (s / 93) + 10 * (s % 93 / 10)) := (zpow_add₀ two_ne_zero _ _).symm
      _ ≤ 2 ^ s := zpow_le_zpow_right₀ one_le_two (by omega)

/-- Going down from a place ends no more than so many steps below it, and at a place that is reached
if that far below one is. -/
theorem settle_spec {reached : ℤ → Bool} :
    ∀ (k : ℕ) (place : ℤ), reached (place - k) →
      reached (leadingPlace.settle reached k place) ∧
        place - k ≤ leadingPlace.settle reached k place
  | 0, place, h => by
    rw [Nat.cast_zero, sub_zero] at h ⊢
    exact ⟨h, le_rfl⟩
  | k + 1, place, h => by
    rw [leadingPlace.settle]
    have hstep : place - (k + 1 : ℕ) = place - 1 - k := by push_cast; ring
    by_cases hreached : reached place
    · rw [if_pos hreached]
      exact ⟨hreached, by omega⟩
    · rw [if_neg hreached, hstep]
      exact settle_spec k (place - 1) (hstep ▸ h)

/-- **The place of the leading digit** is that of a power of ten that the value reaches, and its
least ones leave room for seventeen more digits. -/
theorem leadingPlace_spec (h : IsFinite m q narrow) :
    (10 ^ leadingPlace m q : ℚ) ≤ m * 2 ^ q ∧ -328 ≤ leadingPlace m q := by
  have hplace : leadingPlace m q = leadingPlace.settle (reaches m q) 6
      (((m.log2 : ℤ) + q) * 30103 / 100000 + 2) := rfl
  have hlog : (m.log2 : ℤ) < 53 := by
    have hlt := (Nat.log2_lt h.pos.ne').mpr h.lt
    exact_mod_cast hlt
  have hleast := h.le_exponent
  have hmost := h.exponent_le
  have hpow : (2 : ℚ) ^ ((m.log2 : ℤ) + q) ≤ m * 2 ^ q := by
    rw [zpow_add₀ two_ne_zero]
    exact mul_le_mul_of_nonneg_right (two_zpow_log2_le h.pos.ne') (by positivity)
  have hreach : reaches m q (((m.log2 : ℤ) + q) * 30103 / 100000 + 2 - (6 : ℕ)) := by
    have hsub : ((m.log2 : ℤ) + q) * 30103 / 100000 + 2 - (6 : ℕ) =
        ((m.log2 : ℤ) + q) * 30103 / 100000 - 4 := by push_cast; ring
    rw [hsub, reaches_iff]
    exact (ten_zpow_le (by omega) (by omega)).trans hpow
  obtain ⟨hreached, hle⟩ := settle_spec 6 _ hreach
  rw [hplace]
  exact ⟨reaches_iff.mp hreached, by omega⟩

end Place

/-! ## Hits on a grid -/

section Grid

variable {m c : ℕ} {q place : ℤ} {narrow : Bool}

/-- Whether a multiple of a grid lies in the interval that is rounded to `m * 2 ^ q`. -/
def isInside (m : ℕ) (q : ℤ) (narrow : Bool) (place : ℤ) (c : ℕ) : Bool :=
  let den := 2 ^ (-(q - 2)).toNat * 10 ^ place.toNat
  let scaled (a : ℕ) := a * 2 ^ (q - 2).toNat * 10 ^ (-place).toNat
  if m % 2 = 0 then
    scaled (quarters m narrow).1 ≤ c * den && c * den ≤ scaled (quarters m narrow).2.2
  else scaled (quarters m narrow).1 < c * den && c * den < scaled (quarters m narrow).2.2

/-- The grid point next below the value. -/
def gridBelow (m : ℕ) (q place : ℤ) : ℕ :=
  4 * m * 2 ^ (q - 2).toNat * 10 ^ (-place).toNat / (2 ^ (-(q - 2)).toNat * 10 ^ place.toNat)

/-- Of two neighbours on a grid, the one that is inside; of two that are, the one nearer to `value`,
and on a tie the even one. A step of the grid is as wide as `part`. -/
def nearerHit (below value part : ℕ) : Bool → Bool → Option ℕ
  | true, true =>
    if value - below * part < (below + 1) * part - value then some below
    else if (below + 1) * part - value < value - below * part then some (below + 1)
    else if below % 2 = 0 then some below else some (below + 1)
  | true, false => some below
  | false, true => some (below + 1)
  | false, false => none

theorem isInside_iff :
    isInside m q narrow place c ↔ RoundsTo m q narrow (c * 10 ^ place) := by
  simp only [isInside]
  by_cases heven : m % 2 = 0
  · rw [if_pos heven, Bool.and_eq_true, decide_eq_true_eq, decide_eq_true_eq, scale_le_iff,
      le_scale_iff]
    exact ⟨fun ⟨hlow, hhigh⟩ ↦ ⟨hlow, hhigh, by omega⟩, fun h ↦ ⟨h.low, h.high⟩⟩
  · rw [if_neg heven, Bool.and_eq_true, decide_eq_true_eq, decide_eq_true_eq, ← not_le, ← not_le,
      scale_le_iff, le_scale_iff, not_le, not_le]
    exact ⟨fun ⟨hlow, hhigh⟩ ↦ ⟨hlow.le, hhigh.le, fun _ ↦ ⟨hlow, hhigh⟩⟩,
      fun h ↦ h.strict (by omega)⟩

/-- A hit is one of the two neighbours, and there is one if the upper neighbour is inside. -/
theorem gridHit?_spec :
    (∀ c, gridHit? m q narrow place = some c → 0 < c ∧ isInside m q narrow place c) ∧
      (isInside m q narrow place (gridBelow m q place + 1) →
        (gridHit? m q narrow place).isSome) := by
  have hhit : gridHit? m q narrow place =
      nearerHit (gridBelow m q place) (4 * m * 2 ^ (q - 2).toNat * 10 ^ (-place).toNat)
        (2 ^ (-(q - 2)).toNat * 10 ^ place.toNat)
        (isInside m q narrow place (gridBelow m q place) && 0 < gridBelow m q place)
        (isInside m q narrow place (gridBelow m q place + 1)) := rfl
  rw [hhit]
  generalize gridBelow m q place = below
  rcases hbelow : (isInside m q narrow place below && 0 < below) with _ | _ <;>
    rcases habove : isInside m q narrow place (below + 1) with _ | _ <;> rw [nearerHit]
  · simp
  · refine ⟨fun c hc ↦ ?_, fun _ ↦ rfl⟩
    obtain rfl := Option.some_inj.mp hc
    exact ⟨by omega, habove⟩
  · rw [Bool.and_eq_true, decide_eq_true_eq] at hbelow
    refine ⟨fun c hc ↦ ?_, fun _ ↦ rfl⟩
    obtain rfl := Option.some_inj.mp hc
    exact hbelow.symm
  · rw [Bool.and_eq_true, decide_eq_true_eq] at hbelow
    constructor
    · intro c hc
      split_ifs at hc <;> obtain rfl := Option.some_inj.mp hc
      · exact hbelow.symm
      · exact ⟨by omega, habove⟩
      · exact hbelow.symm
      · exact ⟨by omega, habove⟩
    · intro _
      split_ifs <;> rfl

/-- On a grid that is finer than half a unit, the grid point next above the value is inside. -/
theorem isInside_above (hfine : (10 ^ place : ℚ) < 2 * 2 ^ (q - 2)) (hm : 0 < m) :
    isInside m q narrow place (gridBelow m q place + 1) := by
  have hunit : (0 : ℚ) < 2 ^ (q - 2) := by positivity
  have hbelow : (gridBelow m q place * 10 ^ place : ℚ) ≤ (4 * m : ℕ) * 2 ^ (q - 2) :=
    (le_scale_iff _ _ _ _).mp (Nat.div_mul_le_self _ _)
  have habove : ((4 * m : ℕ) * 2 ^ (q - 2) : ℚ) < (gridBelow m q place + 1 : ℕ) * 10 ^ place := by
    rw [← not_le, ← le_scale_iff, not_le, mul_comm (gridBelow m q place + 1)]
    exact Nat.lt_mul_div_succ _ (by positivity)
  push_cast at hbelow habove
  have hlow : ((quarters m narrow).1 : ℚ) ≤ 4 * m := by
    have hle : (quarters m narrow).1 ≤ 4 * m := by
      rw [quarters]
      dsimp only
      split <;> omega
    exact_mod_cast hle
  have hlow' : ((quarters m narrow).1 * 2 ^ (q - 2) : ℚ) ≤ 4 * m * 2 ^ (q - 2) :=
    mul_le_mul_of_nonneg_right hlow hunit.le
  have hhigh : ((gridBelow m q place + 1 : ℕ) * 10 ^ place : ℚ) <
      (quarters m narrow).2.2 * 2 ^ (q - 2) := by
    rw [quarters_high]
    push_cast
    linarith
  have hlow'' : ((quarters m narrow).1 * 2 ^ (q - 2) : ℚ) <
      (gridBelow m q place + 1 : ℕ) * 10 ^ place := by
    push_cast
    exact hlow'.trans_lt habove
  rw [isInside_iff]
  exact ⟨hlow''.le, hhigh.le, fun _ ↦ ⟨hlow'', hhigh⟩⟩

end Grid

/-! ## The search -/

section Search

variable {m : ℕ} {q : ℤ} {narrow : Bool}

/-- Moving zeros into the exponent keeps the value and does not lower the exponent. -/
theorem Scaled.trim_spec (fuel : ℕ) (d : Scaled) :
    (Scaled.trim fuel d).value = d.value ∧ d.exponent ≤ (Scaled.trim fuel d).exponent ∧
      (0 < d.digits → 0 < (Scaled.trim fuel d).digits) := by
  induction fuel generalizing d with
  | zero => exact ⟨rfl, le_rfl, id⟩
  | succ fuel ih =>
    rw [Scaled.trim]
    by_cases hzero : d.digits ≠ 0 ∧ d.digits % 10 = 0
    · rw [if_pos hzero]
      obtain ⟨hvalue, hexponent, hdigits⟩ := ih ⟨d.digits / 10, d.exponent + 1⟩
      have hten : (d.digits : ℚ) = (d.digits / 10 : ℕ) * 10 := by
        have hdiv : d.digits = d.digits / 10 * 10 := by omega
        exact_mod_cast hdiv
      refine ⟨hvalue.trans ?_, (lt_add_one d.exponent).le.trans hexponent,
        fun _ ↦ hdigits (by dsimp only; omega)⟩
      rw [Scaled.value, Scaled.value, hten, zpow_add_one₀ (by norm_num)]
      ring
    · rw [if_neg hzero]
      exact ⟨rfl, le_rfl, id⟩

/-- A search that passes a grid with a hit ends with the digits of a hit. -/
theorem search_spec (top : ℤ) {ns : List ℕ} {n : ℕ} (hn : n ∈ ns)
    (hhit : (gridHit? m q narrow (top - n)).isSome) :
    ∃ n ∈ ns, ∃ c, gridHit? m q narrow (top - n) = some c ∧
      shortest.search m q narrow top ns = Scaled.trim 20 ⟨c, top - n⟩ := by
  induction ns with
  | nil => exact absurd hn List.not_mem_nil
  | cons first rest ih =>
    rw [shortest.search]
    rcases hfirst : gridHit? m q narrow (top - first) with _ | c
    · rcases List.mem_cons.mp hn with rfl | hn
      · rw [hfirst] at hhit
        exact absurd hhit Bool.false_ne_true
      · obtain ⟨n, hn, c, hc⟩ := ih hn
        exact ⟨n, List.mem_cons_of_mem _ hn, c, hc⟩
    · exact ⟨first, List.mem_cons_self, c, hfirst, rfl⟩

/-- **The shortest decimal lies in the interval** of the binary64 it is picked for. -/
theorem roundsTo_shortest (h : IsFinite m q narrow) :
    RoundsTo m q narrow (shortest m q narrow).value ∧ 0 < (shortest m q narrow).digits ∧
      -345 ≤ (shortest m q narrow).exponent := by
  have hsearch : shortest m q narrow =
      shortest.search m q narrow (leadingPlace m q) (List.range 18) := rfl
  obtain ⟨htop, hleast⟩ := leadingPlace_spec h
  have hm : (m : ℚ) + 1 ≤ 2 ^ 53 := by exact_mod_cast h.lt
  have hunit : (0 : ℚ) < 2 ^ (q - 2) := by positivity
  -- by `2 ^ 54 < 10 ^ 17`
  have hfine : (10 ^ (leadingPlace m q - 17) : ℚ) < 2 * 2 ^ (q - 2) := by
    rw [zpow_sub₀ (by norm_num), div_lt_iff₀ (by positivity)]
    rw [two_zpow_quarter] at htop
    have hbound : (m * (4 * 2 ^ (q - 2)) : ℚ) ≤ 2 ^ 53 * (4 * 2 ^ (q - 2)) :=
      mul_le_mul_of_nonneg_right (by linarith) (by positivity)
    refine (htop.trans hbound).trans_lt ?_
    norm_num
    linarith
  have hhit : (gridHit? m q narrow (leadingPlace m q - (17 : ℕ))).isSome :=
    gridHit?_spec.2 (isInside_above hfine h.pos)
  obtain ⟨n, hn, c, hc, hshortest⟩ := search_spec (leadingPlace m q)
    (List.mem_range.mpr (by norm_num : 17 < 18)) hhit
  obtain ⟨hvalue, hexponent, hdigits⟩ := Scaled.trim_spec 20 ⟨c, leadingPlace m q - n⟩
  obtain ⟨hcpos, hinside⟩ := gridHit?_spec.1 c hc
  have hn' : n < 18 := List.mem_range.mp hn
  rw [hsearch, hshortest, hvalue]
  dsimp only at hexponent
  exact ⟨isInside_iff.mp hinside, hdigits hcpos, by omega⟩

end Search

/-- **A finite binary64 is read back** from any decimal with the value of its shortest one. -/
theorem read_of_value_eq {x : Float} {negative narrow : Bool} {m digits : ℕ} {q exponent : ℤ}
    (hx : Binary.ofFloat x = .finite negative m q narrow) (hleast : -400 ≤ exponent)
    (hvalue : (Scaled.mk digits exponent).value = (shortest m q narrow).value) :
    read negative digits exponent = x := by
  obtain ⟨hfinite, -⟩ := of_ofBits_eq_finite x.toBits.toNat_lt hx
  obtain ⟨hrounds, hpos, -⟩ := roundsTo_shortest hfinite
  rw [← hvalue] at hrounds
  have hdigits : 0 < digits := by
    rw [Nat.pos_iff_ne_zero]
    rintro rfl
    have hzero : (Scaled.mk 0 exponent).value = 0 := by simp [Scaled.value]
    have hpositive : 0 < (shortest m q narrow).value := by
      rw [Scaled.value]
      positivity
    exact hpositive.ne' (hvalue.symm.trans hzero)
  exact read_of_roundsTo hx hdigits hleast hrounds

end SchemaTree.Decimal
