import SchemaTree.Decimal.Layout
import SchemaTree.Json.Parser
import SchemaTree.Proofs.Identifiers
import SchemaTree.Proofs.Moments
import SchemaTree.Proofs.Shortest

/-!
# Numbers read from their texts

A number is read up to the first character that cannot belong to it. A whole number is read from its
digits unless there are too many of them (`Json.readNumber_toString`). A finite binary64 is read
from any layout of its shortest digits (`Json.readNumber_finite`): the three layouts write the same
decimal with different exponents, and a decimal with that value is near enough. -/

namespace SchemaTree.Decimal

/-! ## Characters of a number -/

/-- A character that stands in the text of a decimal. -/
def IsNumberChar (c : Char) : Prop := c.isDigit ∨ c = '.' ∨ c = 'e' ∨ c = '+' ∨ c = '-'

instance : DecidablePred IsNumberChar := fun c ↦
  inferInstanceAs (Decidable (c.isDigit ∨ c = '.' ∨ c = 'e' ∨ c = '+' ∨ c = '-'))

theorem isNumberChar_of_mem_write (layout : Layout) (d : Scaled) :
    ∀ c ∈ layout.write d, IsNumberChar c := by
  have hzeros (n : ℕ) : ∀ c ∈ List.replicate n '0', IsNumberChar c :=
    fun c hc ↦ .inl (isDigit_of_mem_replicate n c hc)
  have hdigits (n : ℕ) : ∀ c ∈ Nat.toDigits 10 n, IsNumberChar c :=
    fun c hc ↦ .inl (isDigit_of_mem_toDigits hc)
  have hpadded (n : ℕ) : ∀ c ∈ padded layout.exponentWidth n, IsNumberChar c :=
    List.forall_mem_append.mpr ⟨hzeros _, hdigits n⟩
  rw [Layout.write]
  generalize hd : Nat.toDigits 10 d.digits = digits
  have hall : ∀ c ∈ digits, IsNumberChar c := hd ▸ hdigits d.digits
  have hfront (n : ℕ) : ∀ c ∈ digits.take n, IsNumberChar c :=
    fun c hc ↦ hall c (List.mem_of_mem_take hc)
  have hback (n : ℕ) : ∀ c ∈ digits.drop n, IsNumberChar c :=
    fun c hc ↦ hall c (List.mem_of_mem_drop hc)
  have hsign (negative : Prop) [Decidable negative] :
      IsNumberChar (if negative then '-' else '+') := by
    split <;> decide
  dsimp only
  split
  · split
    · exact List.forall_mem_cons.mpr ⟨by decide, List.forall_mem_cons.mpr ⟨by decide,
        List.forall_mem_append.mpr ⟨hzeros _, hall⟩⟩⟩
    · refine List.forall_mem_append.mpr ⟨List.forall_mem_append.mpr ⟨hfront _, hzeros _⟩,
        List.forall_mem_cons.mpr ⟨by decide, ?_⟩⟩
      split
      · exact hzeros 1
      · exact hback _
  · refine List.forall_mem_append.mpr ⟨List.forall_mem_append.mpr ⟨hfront 1, ?_⟩,
      List.forall_mem_cons.mpr ⟨by decide, List.forall_mem_cons.mpr ⟨hsign _, hpadded _⟩⟩⟩
    split
    · exact fun c hc ↦ absurd hc List.not_mem_nil
    · exact List.forall_mem_cons.mpr ⟨by decide, hback 1⟩

end SchemaTree.Decimal

namespace SchemaTree.Json

open Decimal

/-! ## Runs of digits -/

section Digits

variable {digits whole fraction rest : List Char} {n : ℕ}

theorem spanDigits_append (hdigits : ∀ c ∈ digits, c.isDigit)
    (hrest : ∀ c ∈ rest.head?, ¬ c.isDigit) : spanDigits (digits ++ rest) = (digits, rest) := by
  rw [spanDigits, List.span_eq_takeWhile_dropWhile, List.takeWhile_append_of_pos hdigits,
    List.dropWhile_append_of_pos hdigits]
  cases rest with
  | nil => simp
  | cons c rest =>
    have hc : ¬ c.isDigit := hrest c rfl
    rw [List.takeWhile_cons_of_neg hc, List.dropWhile_cons_of_neg hc, List.append_nil]

theorem digitsValue_eq (digits : List Char) :
    digitsValue digits = Nat.ofDigitChars 10 digits 0 := by
  rw [digitsValue, Nat.ofDigitChars_eq_foldl]
  congr 1
  funext acc c
  rw [Nat.mul_comm]

theorem digitsValue_toDigits (n : ℕ) : digitsValue (Nat.toDigits 10 n) = n := by
  rw [digitsValue_eq, Nat.ofDigitChars_ten_toDigits]

theorem digitsValue_replicate_append (k : ℕ) (digits : List Char) :
    digitsValue (List.replicate k '0' ++ digits) = digitsValue digits := by
  rw [digitsValue_eq, digitsValue_eq, Nat.ofDigitChars_append, Nat.ofDigitChars_replicate_zero,
    Nat.mul_zero]

theorem digitsValue_append_replicate (k : ℕ) (digits : List Char) :
    digitsValue (digits ++ List.replicate k '0') = digitsValue digits * 10 ^ k := by
  rw [digitsValue_eq, digitsValue_eq, Nat.ofDigitChars_append, Nat.ofDigitChars_replicate_zero,
    Nat.mul_comm]

/-- The digits of a number other than zero begin with another digit than zero. -/
theorem head?_toDigits (h : 0 < n) : (Nat.toDigits 10 n).head? ≠ some '0' := by
  intro hhead
  obtain ⟨digits, hdigits⟩ := List.head?_eq_some_iff.mp hhead
  have hread : Nat.ofDigitChars 10 digits 0 = n := by
    have hvalue := digitsValue_toDigits n
    rw [hdigits, digitsValue_eq, Nat.ofDigitChars_cons] at hvalue
    exact hvalue
  have hall : ∀ c ∈ digits, c.isDigit := fun c hc ↦
    isDigit_of_mem_toDigits (n := n) (hdigits ▸ List.mem_cons_of_mem _ hc)
  have hlt : n < 10 ^ digits.length := by
    have hbound := ofDigitChars_lt hall 0
    rwa [hread, Nat.zero_add, Nat.one_mul] at hbound
  -- without the zero there are too few digits
  have hpos : 0 < digits.length := by
    rw [List.length_pos_iff]
    rintro rfl
    rw [List.length_nil, pow_zero] at hlt
    omega
  have hlength := (Nat.length_toDigits_le_iff (by norm_num) hpos).mpr hlt
  rw [hdigits, List.length_cons] at hlength
  omega

/-- Digits that a number begins with: a zero, or digits that do not begin with one. -/
structure IsWhole (whole : List Char) : Prop where
  ne_nil : whole ≠ []
  isDigit : ∀ c ∈ whole, c.isDigit
  head? : whole = ['0'] ∨ whole.head? ≠ some '0'

theorem isWhole_toDigits (n : ℕ) : IsWhole (Nat.toDigits 10 n) where
  ne_nil := Nat.toDigits_ne_nil
  isDigit _ := isDigit_of_mem_toDigits
  head? := by
    rcases Nat.eq_zero_or_pos n with rfl | hn
    · exact .inl rfl
    · exact .inr (head?_toDigits hn)

theorem wholeDigits?_append (h : IsWhole whole) (hrest : ∀ c ∈ rest.head?, ¬ c.isDigit) :
    wholeDigits? (whole ++ rest) = some (whole, rest) := by
  obtain ⟨c, digits, rfl⟩ := List.exists_cons_of_ne_nil h.ne_nil
  rw [List.cons_append, wholeDigits?]
  by_cases hzero : c = '0'
  · subst hzero
    have hnil : digits = [] := by simpa using h.head?
    rw [if_pos rfl, hnil, List.nil_append]
  · obtain ⟨hc, hdigits⟩ := List.forall_mem_cons.mp h.isDigit
    rw [if_neg hzero, if_pos hc, spanDigits_append hdigits hrest]

end Digits

/-! ## The parts of a number -/

section Parts

variable {whole fraction digits rest : List Char} {negative : Bool}

/-- A text cannot go on a number that stands before it. -/
def EndsNumber (rest : List Char) : Prop :=
  ∀ c ∈ rest.head?, ¬ c.isDigit ∧ c ≠ '.' ∧ c ≠ 'e' ∧ c ≠ 'E'

theorem EndsNumber.not_isDigit (h : EndsNumber rest) : ∀ c ∈ rest.head?, ¬ c.isDigit :=
  fun c hc ↦ (h c hc).1

theorem fractionDigits_of_ends (h : ∀ c ∈ rest.head?, c ≠ '.') :
    fractionDigits rest = ([], rest) := by
  cases rest with
  | nil => rfl
  | cons c rest =>
    have hc : c ≠ '.' := h c rfl
    rw [fractionDigits]
    intro digits hcons
    exact hc (List.cons.inj hcons).1

theorem fractionDigits_point (hne : fraction ≠ []) (hfraction : ∀ c ∈ fraction, c.isDigit)
    (hrest : ∀ c ∈ rest.head?, ¬ c.isDigit) :
    fractionDigits ('.' :: (fraction ++ rest)) = (fraction, rest) := by
  rw [fractionDigits, spanDigits_append hfraction hrest]
  cases fraction with
  | nil => exact absurd rfl hne
  | cons c fraction => rfl

theorem exponentPart?_of_ends (h : EndsNumber rest) : exponentPart? rest = none := by
  cases rest with
  | nil => rfl
  | cons c rest =>
    obtain ⟨-, -, he, hE⟩ := h c rfl
    simp [exponentPart?, he, hE]

theorem exponentPart?_mark (hne : digits ≠ []) (hdigits : ∀ c ∈ digits, c.isDigit)
    (hrest : ∀ c ∈ rest.head?, ¬ c.isDigit) :
    exponentPart? ('e' :: (if negative then '-' else '+') :: (digits ++ rest)) =
      some (if negative then -(digitsValue digits : ℤ) else digitsValue digits, rest) := by
  have hspan := spanDigits_append hdigits hrest
  obtain ⟨c, cs, rfl⟩ := List.exists_cons_of_ne_nil hne
  cases negative <;> simp only [exponentPart?, Bool.false_eq_true, if_true, if_false, hspan] <;> rfl

/-- A number is read from its sign, its whole digits and what follows them. -/
theorem readNumber_append (h : IsWhole whole) (hrest : ∀ c ∈ rest.head?, ¬ c.isDigit) :
    readNumber ((if negative then ['-'] else []) ++ (whole ++ rest)) =
      match exponentPart? (fractionDigits rest).2 with
      | some (exponent, rest') =>
        .ok (.float (Decimal.read negative (digitsValue (whole ++ (fractionDigits rest).1))
          (exponent - (fractionDigits rest).1.length)), rest')
      | none =>
        if !(fractionDigits rest).1.isEmpty then
          .ok (.float (Decimal.read negative (digitsValue (whole ++ (fractionDigits rest).1))
            (-Int.ofNat (fractionDigits rest).1.length)), (fractionDigits rest).2)
        else if maxWholeDigits < whole.length then .error (.tooLong whole.length)
        else
          .ok (.int (if negative then -Int.ofNat (digitsValue whole) else
            Int.ofNat (digitsValue whole)), (fractionDigits rest).2) := by
  have hwhole := wholeDigits?_append h hrest
  cases negative with
  | true =>
    rw [if_pos rfl, List.cons_append, List.nil_append, readNumber]
    dsimp only
    rewrite [hwhole]
    rfl
  | false =>
    obtain ⟨c, cs, rfl⟩ := List.exists_cons_of_ne_nil h.ne_nil
    have hc : c ≠ '-' := by
      rintro rfl
      exact absurd (h.isDigit '-' List.mem_cons_self) (by decide)
    have hunsigned (r : List Char) : c :: cs ++ rest ≠ '-' :: r :=
      fun hcons ↦ hc (List.cons.inj hcons).1
    rw [if_neg Bool.false_ne_true, List.nil_append, readNumber]
    · dsimp only
      rewrite [hwhole]
      rfl
    · exact hunsigned

end Parts

/-! ## Whole numbers -/

/-- The text of a whole number is its sign and its digits. -/
theorem toList_toString (n : ℤ) :
    (toString n).toList = (if decide (n < 0) then ['-'] else []) ++ Nat.toDigits 10 n.natAbs := by
  rcases n with m | m
  · have hsign : ¬ decide (Int.ofNat m < 0) := by simp
    rw [if_neg hsign]
    exact Nat.toList_repr
  · have hsign : decide (Int.negSucc m < 0) := by simp
    have htext : toString (Int.negSucc m) = "-" ++ (m + 1).repr := rfl
    rw [if_pos hsign, htext, String.toList_append, Nat.toList_repr]
    rfl

/-- **A whole number is read from its digits**, unless there are too many of them. -/
theorem readNumber_toString (n : ℤ) {rest : List Char} (h : EndsNumber rest) :
    readNumber ((toString n).toList ++ rest) =
      if maxWholeDigits < (Nat.toDigits 10 n.natAbs).length then
        .error (.tooLong (Nat.toDigits 10 n.natAbs).length)
      else .ok (.int n, rest) := by
  have hdot : ∀ c ∈ rest.head?, c ≠ '.' := fun c hc ↦ (h c hc).2.1
  have hvalue : (if n < 0 then -Int.ofNat n.natAbs else Int.ofNat n.natAbs) = n := by
    rw [Int.ofNat_eq_natCast]
    split <;> omega
  rw [toList_toString, List.append_assoc, readNumber_append (isWhole_toDigits _) h.not_isDigit,
    fractionDigits_of_ends hdot, exponentPart?_of_ends h]
  dsimp only
  rw [List.isEmpty_nil, Bool.not_true, if_neg Bool.false_ne_true, digitsValue_toDigits]
  simp only [decide_eq_true_eq, hvalue]

/-! ## Decimals -/

section Decimals

variable {whole fraction digits rest : List Char} {negative small : Bool} {d : Scaled}

theorem readNumber_point (negative : Bool) (h : IsWhole whole) (hne : fraction ≠ [])
    (hfraction : ∀ c ∈ fraction, c.isDigit) (hrest : EndsNumber rest) :
    readNumber ((if negative then ['-'] else []) ++ (whole ++ '.' :: (fraction ++ rest))) =
      .ok (.float (Decimal.read negative (digitsValue (whole ++ fraction))
        (-(fraction.length : ℤ))), rest) := by
  have hpoint : ∀ c ∈ ('.' :: (fraction ++ rest)).head?, ¬ c.isDigit := by
    rintro c ⟨⟩
    decide
  rw [readNumber_append h hpoint, fractionDigits_point hne hfraction hrest.not_isDigit,
    exponentPart?_of_ends hrest]
  dsimp only
  rw [if_pos (by simpa using hne), Int.ofNat_eq_natCast]

theorem readNumber_exponent (negative small : Bool) (h : IsWhole whole)
    (hfraction : ∀ c ∈ fraction, c.isDigit) (hne : digits ≠ []) (hdigits : ∀ c ∈ digits, c.isDigit)
    (hrest : EndsNumber rest) :
    readNumber ((if negative then ['-'] else []) ++ (whole ++
        ((if fraction.isEmpty then [] else '.' :: fraction) ++
          'e' :: (if small then '-' else '+') :: (digits ++ rest)))) =
      .ok (.float (Decimal.read negative (digitsValue (whole ++ fraction))
        ((if small then -(digitsValue digits : ℤ) else digitsValue digits) - fraction.length)),
        rest) := by
  have hmark : ∀ c ∈ ('e' :: (if small then '-' else '+') :: (digits ++ rest)).head?,
      ¬ c.isDigit ∧ c ≠ '.' := by
    rintro c ⟨⟩
    decide
  have hparts : fractionDigits ((if fraction.isEmpty then [] else '.' :: fraction) ++
      'e' :: (if small then '-' else '+') :: (digits ++ rest)) =
        (fraction, 'e' :: (if small then '-' else '+') :: (digits ++ rest)) := by
    cases fraction with
    | nil => exact fractionDigits_of_ends fun c hc ↦ (hmark c hc).2
    | cons c fraction =>
      exact fractionDigits_point (List.cons_ne_nil _ _) hfraction fun c hc ↦ (hmark c hc).1
  have hhead : ∀ c ∈ ((if fraction.isEmpty then [] else '.' :: fraction) ++
      'e' :: (if small then '-' else '+') :: (digits ++ rest)).head?, ¬ c.isDigit := by
    cases fraction with
    | nil => exact fun c hc ↦ (hmark c hc).1
    | cons c fraction =>
      rintro c ⟨⟩
      decide
  rw [readNumber_append h hhead, hparts, exponentPart?_mark hne hdigits hrest.not_isDigit]

/-- A text is read as a decimal of the same value, whose exponent is not much less. -/
def ReadsAs (negative : Bool) (d : Scaled) (text rest : List Char) : Prop :=
  ∃ found : Scaled, found.value = d.value ∧ min d.exponent (-1) ≤ found.exponent ∧
    readNumber ((if negative then ['-'] else []) ++ (text ++ rest)) =
      .ok (.float (Decimal.read negative found.digits found.exponent), rest)

/-- The digits of a decimal that is not zero. -/
structure HasDigits (d : Scaled) (digits : List Char) : Prop where
  isDigit : ∀ c ∈ digits, c.isDigit
  ne_nil : digits ≠ []
  head : digits.head? ≠ some '0'
  value : digitsValue digits = d.digits

theorem hasDigits_toDigits (hd : 0 < d.digits) : HasDigits d (Nat.toDigits 10 d.digits) where
  isDigit _ := isDigit_of_mem_toDigits
  ne_nil := Nat.toDigits_ne_nil
  head := head?_toDigits hd
  value := digitsValue_toDigits d.digits

namespace HasDigits

/-- The leading digits, any number of them, are the whole digits of a number. -/
theorem isWhole_take (h : HasDigits d digits) (count : ℕ) : IsWhole (digits.take (count + 1)) := by
  have hdigits := h.isDigit
  have hhead := h.head
  obtain ⟨c, cs, rfl⟩ := List.exists_cons_of_ne_nil h.ne_nil
  exact ⟨List.cons_ne_nil _ _, fun c hc ↦ hdigits c (List.mem_of_mem_take hc), .inr hhead⟩

theorem isDigit_drop (h : HasDigits d digits) (count : ℕ) : ∀ c ∈ digits.drop count, c.isDigit :=
  fun c hc ↦ h.isDigit c (List.mem_of_mem_drop hc)

/-- Below one: a zero, the point, zeros and all digits. -/
theorem readsAs_below (h : HasDigits d digits) {zeros : ℕ}
    (hexponent : d.exponent = -((zeros + digits.length : ℕ) : ℤ)) (hrest : EndsNumber rest) :
    ReadsAs negative d ('0' :: '.' :: (List.replicate zeros '0' ++ digits)) rest := by
  have hback : ∀ c ∈ List.replicate zeros '0' ++ digits, c.isDigit :=
    List.forall_mem_append.mpr ⟨isDigit_of_mem_replicate zeros, h.isDigit⟩
  have hread := readNumber_point negative (isWhole_toDigits 0)
    (List.append_ne_nil_of_right_ne_nil _ h.ne_nil) hback hrest
  have hcons (cs : List Char) : Nat.toDigits 10 0 ++ cs = List.replicate 1 '0' ++ cs := rfl
  rw [hcons (List.replicate _ _ ++ _), digitsValue_replicate_append, digitsValue_replicate_append,
    h.value, List.length_append, List.length_replicate, ← hexponent] at hread
  exact ⟨d, rfl, min_le_left _ _, hread⟩

/-- A multiple of ten, up to the zero behind the point: all digits and zeros stand before it. -/
theorem readsAs_whole (h : HasDigits d digits) {zeros : ℕ} (hexponent : d.exponent = zeros)
    (hrest : EndsNumber rest) :
    ReadsAs negative d (digits ++ List.replicate zeros '0' ++ ['.', '0']) rest := by
  have hwhole : IsWhole (digits ++ List.replicate zeros '0') := by
    have hdigits := h.isDigit
    have hhead := h.head
    obtain ⟨c, cs, rfl⟩ := List.exists_cons_of_ne_nil h.ne_nil
    exact ⟨List.cons_ne_nil _ _,
      List.forall_mem_append.mpr ⟨hdigits, isDigit_of_mem_replicate _⟩, .inr hhead⟩
  refine ⟨⟨d.digits * 10 ^ zeros * 10, -1⟩, ?_, min_le_right _ _, ?_⟩
  · rw [Scaled.value, Scaled.value, hexponent, zpow_natCast]
    push_cast
    rw [zpow_neg_one, mul_inv_cancel_right₀ (by norm_num)]
  · have hread := readNumber_point negative hwhole (List.cons_ne_nil '0' [])
      (List.forall_mem_singleton.mpr rfl) hrest
    have hzero := digitsValue_append_replicate 1 (digits ++ List.replicate zeros '0')
    rw [digitsValue_append_replicate _ digits, h.value, pow_one, List.replicate_one] at hzero
    rw [hzero] at hread
    simpa using hread

/-- The point stands among the digits. -/
theorem readsAs_point (h : HasDigits d digits) {count : ℕ} (hlt : count + 1 < digits.length)
    (hexponent : d.exponent = -((digits.length - (count + 1) : ℕ) : ℤ)) (hrest : EndsNumber rest) :
    ReadsAs negative d (digits.take (count + 1) ++ '.' :: digits.drop (count + 1)) rest := by
  have hback : digits.drop (count + 1) ≠ [] := List.ne_nil_of_length_pos (by
    rw [List.length_drop]
    omega)
  have hread := readNumber_point negative (h.isWhole_take count) hback (h.isDigit_drop (count + 1))
    hrest
  rw [List.take_append_drop, h.value, List.length_drop, ← hexponent] at hread
  refine ⟨d, rfl, min_le_left _ _, ?_⟩
  simpa using hread

/-- One digit, the point and further digits if there are any, and the exponent. -/
theorem readsAs_exponent (h : HasDigits d digits) (width : ℕ) {place : ℤ}
    (hplace : place = d.exponent + digits.length - 1) (hrest : EndsNumber rest) :
    ReadsAs negative d (digits.take 1 ++
      (if (digits.drop 1).isEmpty then [] else '.' :: digits.drop 1) ++
        'e' :: (if place < 0 then '-' else '+') :: padded width place.natAbs) rest := by
  have hpadded : ∀ c ∈ padded width place.natAbs, c.isDigit :=
    List.forall_mem_append.mpr ⟨isDigit_of_mem_replicate _, fun c ↦ isDigit_of_mem_toDigits⟩
  have hne : padded width place.natAbs ≠ [] :=
    List.append_ne_nil_of_right_ne_nil _ Nat.toDigits_ne_nil
  have hvalue : digitsValue (padded width place.natAbs) = place.natAbs := by
    rw [padded, digitsValue_replicate_append, digitsValue_toDigits]
  have hread := readNumber_exponent negative (place < 0) (h.isWhole_take 0) (h.isDigit_drop 1) hne
    hpadded hrest
  rw [List.take_append_drop, h.value, hvalue, List.length_drop] at hread
  have hlength : 0 < digits.length := List.length_pos_iff.mpr h.ne_nil
  have hexponent : (if decide (place < 0) then -(place.natAbs : ℤ) else place.natAbs) -
      (digits.length - 1 : ℕ) = d.exponent := by
    by_cases hsmall : place < 0
    · rw [if_pos (decide_eq_true hsmall)]
      omega
    · rw [if_neg (by simpa using hsmall)]
      omega
  rw [hexponent] at hread
  refine ⟨d, rfl, min_le_left _ _, ?_⟩
  simpa using hread

end HasDigits

/-- **A decimal is read from its text** in any layout. -/
theorem readsAs_write (layout : Layout) (negative : Bool) (hd : 0 < d.digits)
    (hrest : EndsNumber rest) :
    ReadsAs negative d (layout.write d) rest := by
  have h := hasDigits_toDigits hd
  have hlength := List.length_pos_iff.mpr h.ne_nil
  rw [Layout.write]
  generalize Nat.toDigits 10 d.digits = digits at h hlength
  dsimp only
  split
  · split
    · exact h.readsAs_below (by omega) hrest
    · generalize hcount : (d.exponent + digits.length - 1).toNat = count
      by_cases hshort : (digits.drop (count + 1)).isEmpty
      · have hle : digits.length ≤ count + 1 := by simpa using hshort
        rw [if_pos hshort, List.take_of_length_le hle]
        exact h.readsAs_whole (by omega) hrest
      · have hlt : count + 1 < digits.length := by simpa using hshort
        rw [if_neg hshort, Nat.sub_eq_zero_of_le hlt.le, List.replicate_zero, List.append_nil]
        exact h.readsAs_point hlt (by omega) hrest
  · exact h.readsAs_exponent layout.exponentWidth rfl hrest

end Decimals

/-! ## Binary64 numbers -/

section Floats

variable {rest : List Char} {x : Float} {negative narrow : Bool} {m : ℕ} {q : ℤ}

/-- **A finite binary64 is read from its text** in any layout. -/
theorem readNumber_finite (layout : Layout) (hx : Binary.ofFloat x = .finite negative m q narrow)
    (hrest : EndsNumber rest) :
    readNumber (layout.text (.ofFloat x) ++ rest) = .ok (.float x, rest) := by
  obtain ⟨hfinite, -⟩ := of_ofBits_eq_finite x.toBits.toNat_lt hx
  obtain ⟨-, hpos, hleast⟩ := roundsTo_shortest hfinite
  obtain ⟨found, hvalue, hexponent, hread⟩ :=
    readsAs_write layout negative hpos hrest
  have hfound : Decimal.read negative found.digits found.exponent = x :=
    read_of_value_eq hx (by omega) hvalue
  rw [hx, Layout.text, List.append_assoc, hread, hfound]

/-- A zero is read with its sign. -/
theorem readNumber_zero (layout : Layout) (hx : Binary.ofFloat x = .zero negative)
    (hrest : EndsNumber rest) :
    readNumber (layout.text (.ofFloat x) ++ rest) = .ok (.float x, rest) := by
  have hread := readNumber_point negative (isWhole_toDigits 0)
    (List.cons_ne_nil '0' []) (List.forall_mem_singleton.mpr rfl) hrest
  have hzero : Decimal.read negative 0 (-1) = x :=
    signed_eq (of_ofBits_eq_zero x.toBits.toNat_lt hx)
  have hdigits : digitsValue (Nat.toDigits 10 0 ++ ['0']) = 0 := rfl
  have htext : layout.text (.zero negative) ++ rest =
      (if negative then ['-'] else []) ++ (Nat.toDigits 10 0 ++ '.' :: (['0'] ++ rest)) := by
    cases negative <;> rfl
  rw [hdigits] at hread
  rw [hx, htext, hread, ← hzero]
  rfl

end Floats

end SchemaTree.Json
