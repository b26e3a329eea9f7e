import SchemaTree.Moment.Basic
import SchemaTree.Proofs.Steps
import Mathlib.Data.List.TakeDrop
import Mathlib.Data.Option.Basic
import Mathlib.Tactic.Ring

/-!
# Moments are read back from their texts

A moment that has been read lies in the ranges of the calendar and the clock
(`Moment.inRange_of_ofForm`), and the text of such a moment is read as this moment
(`Moment.exists_form_of_text`). The text always has seconds, and its numbers fill their places, so
its parts are known beforehand; `Moment.form` holds them.
-/

namespace SchemaTree

/-! ## Digits -/

section Digits

variable {digits rest : List Char} {n width : Nat}

/-- Digits are worth less than a one with as many zeros, whatever stands before them. -/
theorem ofDigitChars_lt (h : ∀ c ∈ digits, c.isDigit) (init : Nat) :
    Nat.ofDigitChars 10 digits init < (init + 1) * 10 ^ digits.length := by
  induction digits generalizing init with
  | nil => simp
  | cons c cs ih =>
    obtain ⟨hc, hcs⟩ := List.forall_mem_cons.mp h
    have hdigit : c.toNat - '0'.toNat ≤ 9 := by
      have hle : c.toNat ≤ '9'.toNat := (Char.isDigit_iff_toNat.mp hc).2
      have hspan : '9'.toNat = '0'.toNat + 9 := rfl
      omega
    rw [Nat.ofDigitChars_cons, List.length_cons, pow_succ']
    calc Nat.ofDigitChars 10 cs (10 * init + (c.toNat - '0'.toNat))
        < (10 * init + (c.toNat - '0'.toNat) + 1) * 10 ^ cs.length := ih hcs _
      _ ≤ (init + 1) * 10 * 10 ^ cs.length := Nat.mul_le_mul_right _ (by omega)
      _ = (init + 1) * (10 * 10 ^ cs.length) := by ring

theorem Moment.lt_of_number?_eq_some (h : Moment.number? digits = some n) :
    n < 10 ^ digits.length := by
  rw [number?, Option.ite_none_right_eq_some, List.all_eq_true] at h
  obtain ⟨hdigits, h⟩ := h
  obtain rfl := Option.some_inj.mp h
  simpa using ofDigitChars_lt hdigits 0

theorem length_of_splitDigits {text : List Char}
    (h : MomentForm.splitDigits n text = some (digits, rest)) : digits.length = n := by
  induction n generalizing text digits with
  | zero =>
    rw [MomentForm.splitDigits, Option.some_inj, Prod.mk.injEq] at h
    rw [← h.1, List.length_nil]
  | succ n ih =>
    cases text with
    | nil => cases h
    | cons c text =>
      rw [MomentForm.splitDigits, Option.ite_none_right_eq_some, Option.map_eq_some_iff] at h
      obtain ⟨-, ⟨digits', rest'⟩, hsplit, heq⟩ := h
      obtain ⟨rfl, rfl⟩ := Prod.mk.inj heq
      rw [List.length_cons, ih hsplit]

theorem isDigit_of_mem_padded {c : Char} (h : c ∈ Decimal.padded width n) : c.isDigit := by
  rw [Decimal.padded, List.mem_append] at h
  rcases h with h | h
  · rw [List.eq_of_mem_replicate h]
    decide
  · exact Nat.isDigit_of_mem_toDigits (by omega) (Nat.le_refl 10) h

theorem isDecimalDigit_of_isDigit {c : Char} (h : c.isDigit) : Text.isDecimalDigit c := by
  have hle : c.toNat ≤ '9'.toNat := (Char.isDigit_iff_toNat.mp h).2
  have hascii : c.toNat < 0x80 := hle.trans_lt (by decide)
  rw [Text.isDecimalDigit, if_pos hascii]
  exact h

theorem length_padded (hwidth : 0 < width) (h : n < 10 ^ width) :
    (Decimal.padded width n).length = width := by
  have hle := (Nat.length_toDigits_le_iff (by omega) hwidth).mpr h
  rw [Decimal.padded, List.length_append, List.length_replicate]
  omega

theorem Moment.number?_padded (width n : Nat) :
    Moment.number? (Decimal.padded width n) = some n := by
  have hall : (Decimal.padded width n).all Char.isDigit :=
    List.all_eq_true.mpr fun c hc ↦ isDigit_of_mem_padded hc
  rw [number?, if_pos hall, Decimal.padded, Nat.ofDigitChars_append,
    Nat.ofDigitChars_replicate_zero, Nat.mul_zero, Nat.ofDigitChars_ten_toDigits]

/-- Digits are taken off a text as they were put there. -/
theorem splitDigits_append (h : ∀ c ∈ digits, Text.isDecimalDigit c) (rest : List Char) :
    MomentForm.splitDigits digits.length (digits ++ rest) = some (digits, rest) := by
  induction digits with
  | nil => rfl
  | cons c cs ih =>
    obtain ⟨hc, hcs⟩ := List.forall_mem_cons.mp h
    rw [List.length_cons, List.cons_append, MomentForm.splitDigits, if_pos hc, ih hcs]
    rfl

/-- A padded number is taken off a text as it was put there. -/
theorem splitDigits_padded (hwidth : 0 < width) (h : n < 10 ^ width) (rest : List Char) :
    MomentForm.splitDigits width (Decimal.padded width n ++ rest) =
      some (Decimal.padded width n, rest) := by
  have hdigits : ∀ c ∈ Decimal.padded width n, Text.isDecimalDigit c :=
    fun c hc ↦ isDecimalDigit_of_isDigit (isDigit_of_mem_padded hc)
  have hpadded := splitDigits_append hdigits rest
  rwa [length_padded hwidth h] at hpadded

end Digits

namespace Moment

variable {f : MomentForm} {m : Moment} {n bound : Nat} {digits : List Char}

/-! ## Reading backwards -/

theorem numberBelow?_eq_some_iff :
    numberBelow? bound digits = some n ↔ number? digits = some n ∧ n < bound := by
  rw [numberBelow?, Option.filter_eq_some_iff, decide_eq_true_eq]

theorem datePart_eq_ok_iff {part : String} {digits : List Char} {n : Nat} :
    datePart part digits = .ok n ↔ number? digits = some n := by
  rw [datePart]
  cases number? digits <;> simp

theorem onDate?_eq_some_iff {year month day : Nat} :
    onDate? f year month day = some m ↔
      (m.year = year ∧ m.month = month ∧ m.day = day) ∧
      numberBelow? 24 f.hour = some m.hour ∧ numberBelow? 60 f.minute = some m.minute ∧
      part? (numberBelow? 60) 0 f.second = some m.second ∧
      part? millionths? 0 f.fraction = some m.fraction ∧
      part? (fun zone ↦ (offset? zone).map some) none f.zone = some m.offset ∧
      f.lineFeed = false := by
  obtain ⟨_, _, _, _, _, _, _, _⟩ := m
  simp only [onDate?, Option.bind_eq_bind, Option.bind_eq_some_iff]
  cases f.lineFeed <;> simp
  grind

theorem ofForm_eq_ok_iff : ofForm f = .ok m ↔
    (number? f.year = some m.year ∧ number? f.month = some m.month ∧
      number? f.day = some m.day) ∧ m.year ≠ 0 ∧ (1 ≤ m.month ∧ m.month ≤ 12) ∧
      (1 ≤ m.day ∧ m.day ≤ daysInMonth m.year m.month) ∧
      onDate? f m.year m.month m.day = some m := by
  constructor
  · intro h
    rw [ofForm] at h
    obtain ⟨year, hyear, h⟩ := exists_of_bind_eq_ok h
    obtain ⟨month, hmonth, h⟩ := exists_of_bind_eq_ok h
    obtain ⟨day, hday, h⟩ := exists_of_bind_eq_ok h
    rw [datePart_eq_ok_iff] at hyear hmonth hday
    dsimp only at h
    split at h
    · cases h
    rename_i hm
    split at h
    · cases h
    rename_i hd
    split at h
    · cases h
    rename_i moment hmoment
    split at h
    · cases h
    rename_i hy
    obtain rfl := Except.ok.inj h
    obtain ⟨⟨rfl, rfl, rfl⟩, -⟩ := onDate?_eq_some_iff.mp hmoment
    exact ⟨⟨hyear, hmonth, hday⟩, hy, by omega, by omega, hmoment⟩
  · rintro ⟨⟨hyear, hmonth, hday⟩, hy, hm, hd, hmoment⟩
    have hm' : ¬ (m.month < 1 ∨ 12 < m.month) := by omega
    have hd' : ¬ (m.day < 1 ∨ daysInMonth m.year m.month < m.day) := by omega
    rw [ofForm, datePart_eq_ok_iff.mpr hyear, datePart_eq_ok_iff.mpr hmonth,
      datePart_eq_ok_iff.mpr hday]
    simp only [bind, Except.bind, if_neg hm', if_neg hd', hmoment, if_neg hy]
    rfl

/-! ## Ranges -/

/-- A moment within the calendar and the clock. -/
structure InRange (m : Moment) : Prop where
  year : m.year ≠ 0 ∧ m.year < 10 ^ 4
  month : 1 ≤ m.month ∧ m.month ≤ 12
  day : 1 ≤ m.day ∧ m.day ≤ daysInMonth m.year m.month
  hour : m.hour < 24
  minute : m.minute < 60
  second : m.second < 60
  fraction : m.fraction < 10 ^ 6
  offset : ∀ minutes ∈ m.offset, minutes.natAbs < 24 * 60

theorem daysInMonth_le (year month : Nat) : daysInMonth year month ≤ 31 := by
  rw [daysInMonth]
  split_ifs <;> omega

theorem lt_of_millionths?_eq_some (h : millionths? digits = some n) : n < 10 ^ 6 := by
  rw [millionths?, Option.ite_none_right_eq_some] at h
  have hlt := lt_of_number?_eq_some h.2
  rwa [List.length_take, List.length_append, List.length_replicate, min_eq_left (by omega)] at hlt

theorem natAbs_lt_of_offset?_eq_some {zone : ZoneForm} {minutes : Int}
    (h : offset? zone = some minutes) : minutes.natAbs < 24 * 60 := by
  cases zone with
  | utc =>
    obtain rfl := Option.some_inj.mp h
    decide
  | offset negative hour minute =>
    rw [offset?, Option.bind_eq_bind, Option.bind_eq_some_iff] at h
    obtain ⟨hours, hhours, h⟩ := h
    obtain ⟨rest, hrest, h⟩ := Option.bind_eq_some_iff.mp h
    rw [numberBelow?_eq_some_iff] at hhours hrest
    obtain rfl := Option.some_inj.mp h
    split <;> omega

/-- **What is read** lies in the ranges of the calendar and the clock. -/
theorem inRange_of_ofForm (hlength : f.year.length = 4) (h : ofForm f = .ok m) :
    m.InRange := by
  obtain ⟨⟨hyear, -, -⟩, hy, hmonth, hday, hmoment⟩ := ofForm_eq_ok_iff.mp h
  obtain ⟨-, hhour, hminute, hsecond, hfraction, hoffset, -⟩ := onDate?_eq_some_iff.mp hmoment
  refine ⟨⟨hy, hlength ▸ lt_of_number?_eq_some hyear⟩, hmonth, hday,
    (numberBelow?_eq_some_iff.mp hhour).2, (numberBelow?_eq_some_iff.mp hminute).2, ?_, ?_, ?_⟩
  · cases hform : f.second with
    | none =>
      rw [hform, part?, Option.some_inj] at hsecond
      omega
    | some digits =>
      rw [hform, part?] at hsecond
      exact (numberBelow?_eq_some_iff.mp hsecond).2
  · cases hform : f.fraction with
    | none =>
      rw [hform, part?, Option.some_inj] at hfraction
      omega
    | some digits =>
      rw [hform, part?] at hfraction
      exact lt_of_millionths?_eq_some hfraction
  · cases hform : f.zone with
    | none =>
      rw [hform, part?, Option.some_inj] at hoffset
      simp [← hoffset]
    | some zone =>
      rw [hform, part?, Option.map_eq_some_iff] at hoffset
      obtain ⟨minutes, hminutes, hoffset⟩ := hoffset
      simp [← hoffset, natAbs_lt_of_offset?_eq_some hminutes]

theorem length_year_of_ofText? {text : List Char} (h : MomentForm.ofText? text = some f) :
    f.year.length = 4 := by
  rw [MomentForm.ofText?, Option.bind_eq_bind, Option.bind_eq_some_iff] at h
  obtain ⟨⟨year, rest⟩, hyear, h⟩ := h
  have hform : f.year = year := by
    simp only [Option.bind_eq_bind, Option.bind_eq_some_iff, pure, Option.some_inj] at h
    grind
  rw [hform]
  exact length_of_splitDigits hyear

/-! ## The form of a text -/

/-- The written form of an offset. -/
def zoneForm (minutes : Int) : ZoneForm :=
  if minutes = 0 then .utc
  else .offset (minutes < 0) (Decimal.padded 2 (minutes.natAbs / 60))
    (Decimal.padded 2 (minutes.natAbs % 60))

/-- The written form of a moment. -/
def form (m : Moment) : MomentForm where
  year := Decimal.padded 4 m.year
  month := Decimal.padded 2 m.month
  day := Decimal.padded 2 m.day
  hour := Decimal.padded 2 m.hour
  minute := Decimal.padded 2 m.minute
  second := some (Decimal.padded 2 m.second)
  fraction := if m.fraction = 0 then none else some (Decimal.padded 6 m.fraction)
  zone := m.offset.map zoneForm
  lineFeed := false

theorem splitZone_offsetChars {minutes : Int} (h : minutes.natAbs < 24 * 60) :
    MomentForm.splitZone (offsetChars minutes) = some (some (zoneForm minutes), []) := by
  have hhour : minutes.natAbs / 60 < 10 ^ 2 := by omega
  have hminute : minutes.natAbs % 60 < 10 ^ 2 := by omega
  have hoffset (negative : Bool) : MomentForm.splitOffset negative
      (Decimal.padded 2 (minutes.natAbs / 60) ++ ':' :: Decimal.padded 2 (minutes.natAbs % 60)) =
        some (.offset negative (Decimal.padded 2 (minutes.natAbs / 60))
          (Decimal.padded 2 (minutes.natAbs % 60)), []) := by
    have hrest := splitDigits_padded two_pos hminute []
    rw [List.append_nil] at hrest
    rw [MomentForm.splitOffset, splitDigits_padded two_pos hhour]
    simp [MomentForm.splitMark, hrest]
  rw [offsetChars, zoneForm]
  by_cases hzero : minutes = 0
  · rw [if_pos hzero, if_pos hzero]
    rfl
  · rw [if_neg hzero, if_neg hzero]
    by_cases hneg : minutes < 0
    · rw [if_pos hneg, MomentForm.splitZone, hoffset, decide_eq_true hneg]
      rfl
    · rw [if_neg hneg, MomentForm.splitZone, hoffset, decide_eq_false hneg]
      rfl

/-- A fraction ends where no digit follows. -/
theorem splitFraction_digits {rest : List Char} (hne : digits ≠ [])
    (hdigits : ∀ c ∈ digits, Text.isDecimalDigit c)
    (hrest : ∀ c ∈ rest.head?, Text.isDecimalDigit c = false) :
    MomentForm.splitFraction ('.' :: (digits ++ rest)) = some (some digits, rest) := by
  have hspan : (digits ++ rest).span Text.isDecimalDigit = (digits, rest) := by
    rw [List.span_eq_takeWhile_dropWhile, List.takeWhile_append_of_pos hdigits,
      List.dropWhile_append_of_pos hdigits]
    cases rest with
    | nil => simp
    | cons c rest => simp [hrest c rfl]
  rw [MomentForm.splitFraction, hspan]
  simp [List.isEmpty_eq_false_iff.mpr hne]

/-- Where no point stands, there is no fraction. -/
theorem splitFraction_of_head? {rest : List Char} (hrest : ∀ c ∈ rest.head?, c ≠ '.') :
    MomentForm.splitFraction rest = some (none, rest) := by
  cases rest with
  | nil => rfl
  | cons c rest =>
    rw [MomentForm.splitFraction]
    rintro _ ⟨⟩
    exact hrest '.' rfl rfl

/-- A fraction is written if it is not zero. -/
theorem splitFraction_append {fraction : Nat} (h : fraction < 10 ^ 6) {rest : List Char}
    (hrest : ∀ c ∈ rest.head?, c ≠ '.' ∧ Text.isDecimalDigit c = false) :
    MomentForm.splitFraction
        ((if fraction = 0 then [] else '.' :: Decimal.padded 6 fraction) ++ rest) =
      some (if fraction = 0 then none else some (Decimal.padded 6 fraction), rest) := by
  by_cases hzero : fraction = 0
  · rw [if_pos hzero, if_pos hzero, List.nil_append]
    exact splitFraction_of_head? fun c hc ↦ (hrest c hc).1
  · have hne : Decimal.padded 6 fraction ≠ [] := by
      rw [← List.length_pos_iff, length_padded (by omega) h]
      omega
    rw [if_neg hzero, if_neg hzero, List.cons_append]
    exact splitFraction_digits hne
      (fun c hc ↦ isDecimalDigit_of_isDigit (isDigit_of_mem_padded hc)) fun c hc ↦ (hrest c hc).2

/-- What stands behind the clock neither goes on with a number nor starts a fraction. -/
theorem head?_elim_offsetChars {offset : Option Int} :
    ∀ c ∈ (offset.elim [] offsetChars).head?, c ≠ '.' ∧ Text.isDecimalDigit c = false := by
  cases offset with
  | none => simp
  | some minutes =>
    intro c hc
    rw [Option.elim_some, offsetChars] at hc
    split_ifs at hc <;> obtain rfl := Option.some_inj.mp hc <;> decide

theorem splitZone_elim_offsetChars {offset : Option Int}
    (h : ∀ minutes ∈ offset, minutes.natAbs < 24 * 60) :
    MomentForm.splitZone (offset.elim [] offsetChars) = some (offset.map zoneForm, []) := by
  cases offset with
  | none => rfl
  | some minutes => exact splitZone_offsetChars (h minutes rfl)

theorem splitMark_cons (mark : Char) (rest : List Char) :
    MomentForm.splitMark mark (mark :: rest) = some rest := if_pos rfl

/-- The clock ends with the seconds and their fraction, which are always there. -/
theorem splitSeconds_append {second fraction : Nat} (hsecond : second < 10 ^ 2)
    (hfraction : fraction < 10 ^ 6) {rest : List Char}
    (hrest : ∀ c ∈ rest.head?, c ≠ '.' ∧ Text.isDecimalDigit c = false) :
    MomentForm.splitSeconds (':' :: (Decimal.padded 2 second ++
        ((if fraction = 0 then [] else '.' :: Decimal.padded 6 fraction) ++ rest))) =
      some (some (Decimal.padded 2 second),
        if fraction = 0 then none else some (Decimal.padded 6 fraction), rest) := by
  refine Option.bind_eq_some_iff.mpr ⟨_, splitDigits_padded two_pos hsecond _, ?_⟩
  exact Option.bind_eq_some_iff.mpr ⟨_, splitFraction_append hfraction hrest, rfl⟩

/-- The text of a moment is taken apart into its form. -/
theorem ofText?_chars (hm : m.InRange) : MomentForm.ofText? m.chars = some m.form := by
  have hmonth : m.month < 10 ^ 2 := hm.month.2.trans_lt (by decide)
  have hday : m.day < 10 ^ 2 := (hm.day.2.trans (daysInMonth_le _ _)).trans_lt (by decide)
  have hhour : m.hour < 10 ^ 2 := hm.hour.trans (by decide)
  have hminute : m.minute < 10 ^ 2 := hm.minute.trans (by decide)
  have hsecond : m.second < 10 ^ 2 := hm.second.trans (by decide)
  have hchars : m.chars = Decimal.padded 4 m.year ++ '-' :: (Decimal.padded 2 m.month ++
      '-' :: (Decimal.padded 2 m.day ++ 'T' :: (Decimal.padded 2 m.hour ++
      ':' :: (Decimal.padded 2 m.minute ++ ':' :: (Decimal.padded 2 m.second ++
      ((if m.fraction = 0 then [] else '.' :: Decimal.padded 6 m.fraction) ++
      m.offset.elim [] offsetChars)))))) := by
    rw [chars]
    cases m.offset <;> simp only [List.append_assoc, List.cons_append] <;> rfl
  rw [MomentForm.ofText?, hchars]
  -- each part is taken off the front of what is left
  refine Option.bind_eq_some_iff.mpr ⟨_, splitDigits_padded four_pos hm.year.2 _, ?_⟩
  refine Option.bind_eq_some_iff.mpr ⟨_, splitMark_cons '-' _, ?_⟩
  refine Option.bind_eq_some_iff.mpr ⟨_, splitDigits_padded two_pos hmonth _, ?_⟩
  refine Option.bind_eq_some_iff.mpr ⟨_, splitMark_cons '-' _, ?_⟩
  refine Option.bind_eq_some_iff.mpr ⟨_, splitDigits_padded two_pos hday _, ?_⟩
  refine Option.bind_eq_some_iff.mpr ⟨_, splitMark_cons 'T' _, ?_⟩
  refine Option.bind_eq_some_iff.mpr ⟨_, splitDigits_padded two_pos hhour _, ?_⟩
  refine Option.bind_eq_some_iff.mpr ⟨_, splitMark_cons ':' _, ?_⟩
  refine Option.bind_eq_some_iff.mpr ⟨_, splitDigits_padded two_pos hminute _, ?_⟩
  refine Option.bind_eq_some_iff.mpr
    ⟨_, splitSeconds_append hsecond hm.fraction head?_elim_offsetChars, ?_⟩
  refine Option.bind_eq_some_iff.mpr ⟨_, splitZone_elim_offsetChars hm.offset, ?_⟩
  rfl

/-! ## The form of a text read -/

theorem offset?_zoneForm {minutes : Int} (h : minutes.natAbs < 24 * 60) :
    offset? (zoneForm minutes) = some minutes := by
  rw [zoneForm]
  by_cases hzero : minutes = 0
  · rw [if_pos hzero, hzero]
    rfl
  · have hhour : numberBelow? 24 (Decimal.padded 2 (minutes.natAbs / 60)) =
        some (minutes.natAbs / 60) :=
      numberBelow?_eq_some_iff.mpr ⟨number?_padded _ _, by omega⟩
    have hminute : numberBelow? 60 (Decimal.padded 2 (minutes.natAbs % 60)) =
        some (minutes.natAbs % 60) :=
      numberBelow?_eq_some_iff.mpr ⟨number?_padded _ _, by omega⟩
    rw [if_neg hzero, offset?, hhour, hminute]
    simp only [Option.bind_eq_bind, Option.bind_some, Option.pure_def, decide_eq_true_eq,
      Option.some_inj]
    split <;> omega

/-- **A moment is read back from its form.** -/
theorem ofForm_form (hm : m.InRange) : ofForm m.form = .ok m := by
  have hfraction : part? millionths? 0 m.form.fraction = some m.fraction := by
    rw [form]
    dsimp only
    by_cases hzero : m.fraction = 0
    · rw [if_pos hzero, hzero]
      rfl
    · have hall : (Decimal.padded 6 m.fraction).all Char.isDigit :=
        List.all_eq_true.mpr fun c hc ↦ isDigit_of_mem_padded hc
      rw [if_neg hzero, part?, millionths?, if_pos hall,
        List.take_left' (length_padded (by decide) hm.fraction), number?_padded]
  have hoffset : part? (fun zone ↦ (offset? zone).map some) none m.form.zone = some m.offset := by
    rw [form]
    dsimp only
    cases ho : m.offset with
    | none => rfl
    | some minutes =>
      rw [Option.map_some, part?, offset?_zoneForm (hm.offset minutes ho)]
      rfl
  refine ofForm_eq_ok_iff.mpr ⟨⟨number?_padded _ _, number?_padded _ _, number?_padded _ _⟩,
    hm.year.1, hm.month, hm.day, onDate?_eq_some_iff.mpr ⟨⟨rfl, rfl, rfl⟩, ?_, ?_, ?_, hfraction,
      hoffset, rfl⟩⟩
  · exact numberBelow?_eq_some_iff.mpr ⟨number?_padded _ _, hm.hour⟩
  · exact numberBelow?_eq_some_iff.mpr ⟨number?_padded _ _, hm.minute⟩
  · exact numberBelow?_eq_some_iff.mpr ⟨number?_padded _ _, hm.second⟩

/-- **The text of a moment that has been read** is read as the same moment. -/
theorem exists_form_of_text {text : List Char} (hf : MomentForm.ofText? text = some f)
    (hm : ofForm f = .ok m) :
    ∃ f', MomentForm.ofText? m.text.toList = some f' ∧ ofForm f' = .ok m := by
  have hrange : m.InRange := inRange_of_ofForm (length_year_of_ofText? hf) hm
  refine ⟨m.form, ?_, ofForm_form hrange⟩
  rw [Moment.text, String.toList_ofList]
  exact ofText?_chars hrange

end Moment

end SchemaTree
