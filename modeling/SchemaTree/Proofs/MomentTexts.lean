import SchemaTree.Proofs.Moments
import SchemaTree.Proofs.Verdicts
import Mathlib.Tactic.IntervalCases

/-!
# Which texts are moments

A text passes two readers before a date-time item accepts it. The first takes it apart, and is
content with digits of any script, with numbers out of their ranges and with a line feed at the end.
The second reads the numbers and knows the calendar, but takes the parts as they come. What both let
pass is exactly what the grammar `MomentText` describes, for the years from one on
(`Item.build_accepts_moments`).

Both directions go from part to part. A part is taken off the front of a text, so that the first
direction splits a text and the second one has to know what may stand behind a part: no colon and no
point behind the minutes, and no digit behind a fraction.
-/

namespace SchemaTree

/-! ## The grammar -/

/-- A numeral for `n` of a given width, in ASCII digits. -/
structure IsNumeral (width n : ℕ) (text : List Char) : Prop where
  length : text.length = width
  digits : ∀ c ∈ text, c.isDigit
  value : Nat.ofDigitChars 10 text 0 = n

/-- The lengths of the months of a year. -/
def monthLengths (year : ℕ) : List ℕ :=
  [31, if 4 ∣ year ∧ (100 ∣ year → 400 ∣ year) then 29 else 28, 31, 30, 31, 30,
    31, 31, 30, 31, 30, 31]

/-- A day that exists in its month. -/
structure InCalendar (year month day : ℕ) : Prop where
  inYear : 1 ≤ month ∧ month ≤ 12
  inMonth : 1 ≤ day ∧ ∃ length ∈ (monthLengths year)[month - 1]?, day ≤ length

/-- What may stand behind the minutes: nothing, seconds, or seconds with a fraction of any length.
-/
inductive SecondsText : List Char → Prop where
  | absent : SecondsText []
  | whole {n : ℕ} {second : List Char} (h : IsNumeral 2 n second) (hn : n ≤ 59) :
    SecondsText (':' :: second)
  | parted {n : ℕ} {second fraction : List Char} (h : IsNumeral 2 n second) (hn : n ≤ 59)
      (hne : fraction ≠ []) (hdigits : ∀ c ∈ fraction, c.isDigit) :
    SecondsText (':' :: (second ++ '.' :: fraction))

/-- What may stand at the end: nothing, `Z`, or an offset of less than a day, with or without a
colon in it. -/
inductive ZoneText : List Char → Prop where
  | absent : ZoneText []
  | utc : ZoneText ['Z']
  | offset {sign : Char} {hours minutes : ℕ} {hour colon minute : List Char}
      (hsign : sign = '+' ∨ sign = '-') (hcolon : colon = [] ∨ colon = [':'])
      (hhour : IsNumeral 2 hours hour) (hminute : IsNumeral 2 minutes minute)
      (hminutes : minutes ≤ 59) (hday : hours * 60 + minutes < 24 * 60) :
    ZoneText (sign :: (hour ++ (colon ++ minute)))

/-- The text of a moment in a year: `YYYY-MM-DDTHH:MM`, and behind it seconds and an offset, each of
which may be left out. -/
inductive MomentText : ℕ → List Char → Prop where
  | mk {y mo d h mi : ℕ} {year month day hour minute seconds zone : List Char}
      (hyear : IsNumeral 4 y year) (hmonth : IsNumeral 2 mo month) (hday : IsNumeral 2 d day)
      (hdate : InCalendar y mo d) (hhour : IsNumeral 2 h hour) (hh : h ≤ 23)
      (hminute : IsNumeral 2 mi minute) (hmi : mi ≤ 59) (hseconds : SecondsText seconds)
      (hzone : ZoneText zone) :
    MomentText y (year ++ '-' :: (month ++ '-' :: (day ++ 'T' :: (hour ++ ':' :: (minute ++
      (seconds ++ zone))))))

/-! ## The calendar -/

theorem isLeapYear_iff {year : ℕ} :
    isLeapYear year ↔ 4 ∣ year ∧ (100 ∣ year → 400 ∣ year) := by
  simp only [isLeapYear, decide_eq_true_eq]
  omega

theorem daysInMonth_eq {year month : ℕ} (h : 1 ≤ month ∧ month ≤ 12) :
    (monthLengths year)[month - 1]? = some (daysInMonth year month) := by
  obtain ⟨hone, htwelve⟩ := h
  have hfebruary : (if 4 ∣ year ∧ (100 ∣ year → 400 ∣ year) then 29 else 28) =
      if isLeapYear year then 29 else 28 := if_congr isLeapYear_iff.symm rfl rfl
  rw [monthLengths, hfebruary]
  interval_cases month <;> rfl

theorem inCalendar_iff {year month day : ℕ} :
    InCalendar year month day ↔
      (1 ≤ month ∧ month ≤ 12) ∧ 1 ≤ day ∧ day ≤ daysInMonth year month := by
  constructor
  · rintro ⟨hmonth, hone, length, hlength, hle⟩
    rw [daysInMonth_eq hmonth, Option.mem_some_iff] at hlength
    exact ⟨hmonth, hone, hlength ▸ hle⟩
  · rintro ⟨hmonth, hone, hle⟩
    exact ⟨hmonth, hone, _, daysInMonth_eq hmonth, hle⟩

/-! ## Numerals -/

section Numerals

variable {width n bound : ℕ} {digits : List Char}

theorem Moment.number?_eq_some_iff :
    number? digits = some n ↔ (∀ c ∈ digits, c.isDigit) ∧ Nat.ofDigitChars 10 digits 0 = n := by
  rw [number?, Option.ite_none_right_eq_some, List.all_eq_true, Option.some_inj]

theorem IsNumeral.of_all (hlength : digits.length = width) (h : digits.all Char.isDigit)
    (hvalue : Nat.ofDigitChars 10 digits 0 = n) : IsNumeral width n digits :=
  ⟨hlength, List.all_eq_true.mp h, hvalue⟩

theorem isNumeral_iff :
    IsNumeral width n digits ↔ digits.length = width ∧ Moment.number? digits = some n := by
  rw [Moment.number?_eq_some_iff]
  exact ⟨fun h ↦ ⟨h.length, h.digits, h.value⟩, fun h ↦ ⟨h.1, h.2.1, h.2.2⟩⟩

theorem IsNumeral.number? (h : IsNumeral width n digits) : Moment.number? digits = some n :=
  (isNumeral_iff.mp h).2

theorem IsNumeral.numberBelow? (h : IsNumeral width n digits) (hn : n < bound) :
    Moment.numberBelow? bound digits = some n :=
  Moment.numberBelow?_eq_some_iff.mpr ⟨h.number?, hn⟩

/-- A fraction may have any number of digits. -/
theorem Moment.isSome_millionths?_iff :
    (millionths? digits).isSome ↔ ∀ c ∈ digits, c.isDigit := by
  rw [millionths?, ← List.all_eq_true]
  by_cases h : digits.all Char.isDigit
  · have hall : ((digits ++ List.replicate 6 '0').take 6).all Char.isDigit := by
      refine List.all_eq_true.mpr fun c hc ↦ ?_
      rcases List.mem_append.mp (List.mem_of_mem_take hc) with hc | hc
      · exact List.all_eq_true.mp h c hc
      · rw [List.eq_of_mem_replicate hc]
        decide
    rw [if_pos h, Moment.number?, if_pos hall]
    exact iff_of_true rfl h
  · rw [if_neg h]
    exact iff_of_false Bool.false_ne_true h

end Numerals

/-! ## Taking a text apart -/

namespace MomentForm

variable {n : ℕ} {mark : Char} {text digits rest : List Char}

theorem splitDigits_eq_some_iff :
    splitDigits n text = some (digits, rest) ↔
      text = digits ++ rest ∧ digits.length = n ∧ ∀ c ∈ digits, Text.isDecimalDigit c := by
  constructor
  · intro h
    induction n generalizing text digits with
    | zero =>
      rw [splitDigits, Option.some_inj, Prod.mk.injEq] at h
      obtain ⟨rfl, rfl⟩ := h
      exact ⟨rfl, rfl, List.forall_mem_nil _⟩
    | succ n ih =>
      cases text with
      | nil => cases h
      | cons c text =>
        rw [splitDigits, Option.ite_none_right_eq_some, Option.map_eq_some_iff] at h
        obtain ⟨hc, ⟨digits', rest'⟩, hsplit, heq⟩ := h
        obtain ⟨rfl, rfl⟩ := Prod.mk.inj heq
        obtain ⟨rfl, hlength, hdigits⟩ := ih hsplit
        exact ⟨rfl, by rw [List.length_cons, hlength], List.forall_mem_cons.mpr ⟨hc, hdigits⟩⟩
  · rintro ⟨rfl, rfl, hdigits⟩
    exact splitDigits_append hdigits rest

/-- A numeral is taken off a text. -/
theorem splitDigits_numeral {value : ℕ} (h : IsNumeral n value digits) (rest : List Char) :
    splitDigits n (digits ++ rest) = some (digits, rest) :=
  splitDigits_eq_some_iff.mpr
    ⟨rfl, h.length, fun c hc ↦ isDecimalDigit_of_isDigit (h.digits c hc)⟩

/-- What is taken off a text is a numeral if it is read as a number. -/
theorem isNumeral_of_splitDigits {value : ℕ} (h : splitDigits n text = some (digits, rest))
    (hvalue : Moment.number? digits = some value) :
    IsNumeral n value digits ∧ text = digits ++ rest := by
  obtain ⟨htext, hlength, -⟩ := splitDigits_eq_some_iff.mp h
  exact ⟨isNumeral_iff.mpr ⟨hlength, hvalue⟩, htext⟩

theorem splitMark_eq_some_iff : splitMark mark text = some rest ↔ text = mark :: rest := by
  cases text with
  | nil => simp [splitMark]
  | cons c text => simp [splitMark]

theorem splitEnd_eq_some_false_iff : splitEnd text = some false ↔ text = [] := by
  rw [splitEnd.eq_def]
  split <;> simp_all

theorem splitFraction_eq_some_cases {fraction : Option (List Char)}
    (h : splitFraction text = some (fraction, rest)) :
    fraction = none ∧ text = rest ∨
      ∃ digits, fraction = some digits ∧ digits ≠ [] ∧ text = '.' :: (digits ++ rest) := by
  rw [splitFraction.eq_def] at h
  split at h
  · next text =>
    dsimp only at h
    split at h
    · cases h
    · next hne =>
      obtain ⟨rfl, rfl⟩ := Prod.mk.inj (Option.some.inj h)
      refine .inr ⟨_, rfl, by simpa using hne, ?_⟩
      rw [List.span_eq_takeWhile_dropWhile, List.takeWhile_append_dropWhile]
  · obtain ⟨rfl, rfl⟩ := Prod.mk.inj (Option.some.inj h)
    exact .inl ⟨rfl, rfl⟩

end MomentForm

/-! ## Seconds -/

section Seconds

open MomentForm Moment

variable {text seconds rest : List Char} {second fraction : Option (List Char)}

/-- A text that neither begins with another part of the time of day nor goes on with a number. -/
def EndsClock (rest : List Char) : Prop :=
  ∀ c ∈ rest.head?, c ≠ ':' ∧ c ≠ '.' ∧ Text.isDecimalDigit c = false

theorem exists_secondsText (h : splitSeconds text = some (second, fraction, rest)) {s f : ℕ}
    (hsecond : part? (numberBelow? 60) 0 second = some s)
    (hfraction : part? millionths? 0 fraction = some f) :
    ∃ seconds, SecondsText seconds ∧ text = seconds ++ rest := by
  rw [splitSeconds.eq_def] at h
  split at h
  · next text =>
    obtain ⟨⟨second, behind⟩, hsplit, h⟩ := Option.bind_eq_some_iff.mp h
    obtain ⟨⟨fraction, rest⟩, hparted, h⟩ := Option.bind_eq_some_iff.mp h
    obtain ⟨rfl, rfl, rfl⟩ := Option.some.inj h
    obtain ⟨hnumber, hbound⟩ := numberBelow?_eq_some_iff.mp hsecond
    obtain ⟨hnumeral, rfl⟩ := isNumeral_of_splitDigits hsplit hnumber
    rcases splitFraction_eq_some_cases hparted with ⟨rfl, rfl⟩ | ⟨digits, rfl, hne, rfl⟩
    · exact ⟨_, .whole hnumeral (Nat.le_of_lt_succ hbound), rfl⟩
    · have hdigits := isSome_millionths?_iff.mp (Option.isSome_of_eq_some hfraction)
      refine ⟨_, .parted hnumeral (Nat.le_of_lt_succ hbound) hne hdigits, ?_⟩
      simp
  · obtain ⟨rfl, rfl, rfl⟩ := Option.some.inj h
    exact ⟨[], .absent, rfl⟩

theorem exists_splitSeconds (h : SecondsText seconds) (hrest : EndsClock rest) :
    ∃ second fraction s f, splitSeconds (seconds ++ rest) = some (second, fraction, rest) ∧
      part? (numberBelow? 60) 0 second = some s ∧ part? millionths? 0 fraction = some f := by
  have hnoPoint : splitFraction rest = some (none, rest) :=
    splitFraction_of_head? fun c hc ↦ (hrest c hc).2.1
  cases h with
  | absent =>
    refine ⟨none, none, 0, 0, ?_, rfl, rfl⟩
    cases rest with
    | nil => rfl
    | cons c rest =>
      rw [List.nil_append, splitSeconds]
      rintro _ ⟨⟩
      exact (hrest ':' rfl).1 rfl
  | @whole n second hnumeral hn =>
    refine ⟨some second, none, n, 0, ?_, hnumeral.numberBelow? (Nat.lt_succ_of_le hn), rfl⟩
    refine Option.bind_eq_some_iff.mpr ⟨_, splitDigits_numeral hnumeral rest, ?_⟩
    exact Option.bind_eq_some_iff.mpr ⟨_, hnoPoint, rfl⟩
  | @parted n second fraction hnumeral hn hne hdigits =>
    obtain ⟨f, hf⟩ := Option.isSome_iff_exists.mp (isSome_millionths?_iff.mpr hdigits)
    refine ⟨some second, some fraction, n, f, ?_, hnumeral.numberBelow? (Nat.lt_succ_of_le hn), hf⟩
    rw [List.cons_append, List.append_assoc, List.cons_append]
    refine Option.bind_eq_some_iff.mpr ⟨_, splitDigits_numeral hnumeral _, ?_⟩
    refine Option.bind_eq_some_iff.mpr ⟨_, splitFraction_digits hne
      (fun c hc ↦ isDecimalDigit_of_isDigit (hdigits c hc)) fun c hc ↦ (hrest c hc).2.2, rfl⟩

end Seconds

/-! ## Offsets -/

section Zones

open MomentForm Moment

variable {text zone : List Char} {rest : List Char}

/-- The offset of a sign. -/
theorem zoneText_of_splitOffset {sign : Char} {negative : Bool} {form : ZoneForm} {minutes : ℤ}
    (hsign : sign = '+' ∨ sign = '-') (h : splitOffset negative text = some (form, []))
    (hoffset : offset? form = some minutes) : ZoneText (sign :: text) := by
  obtain ⟨⟨hour, behind⟩, hsplit, h⟩ := Option.bind_eq_some_iff.mp h
  obtain ⟨⟨minute, rest⟩, hsplit', h⟩ := Option.bind_eq_some_iff.mp h
  obtain ⟨rfl, rfl⟩ := Prod.mk.inj (Option.some.inj h)
  obtain ⟨hours, hhours, hoffset⟩ := Option.bind_eq_some_iff.mp hoffset
  obtain ⟨minutes, hminutes, -⟩ := Option.bind_eq_some_iff.mp hoffset
  obtain ⟨hhours, hday⟩ := numberBelow?_eq_some_iff.mp hhours
  obtain ⟨hminutes, hbound⟩ := numberBelow?_eq_some_iff.mp hminutes
  obtain ⟨hhour, rfl⟩ := isNumeral_of_splitDigits hsplit hhours
  obtain ⟨hminute, hbehind⟩ := isNumeral_of_splitDigits hsplit' hminutes
  have hcolon : ∃ colon, (colon = [] ∨ colon = [':']) ∧ behind = colon ++ minute := by
    rw [List.append_nil] at hbehind
    cases hmark : splitMark ':' behind with
    | none =>
      rw [hmark, Option.getD_none] at hbehind
      exact ⟨[], .inl rfl, hbehind⟩
    | some rest =>
      rw [hmark, Option.getD_some] at hbehind
      exact ⟨[':'], .inr rfl, by rw [splitMark_eq_some_iff.mp hmark, hbehind]; rfl⟩
  obtain ⟨colon, hcolon, rfl⟩ := hcolon
  exact .offset hsign hcolon hhour hminute (Nat.le_of_lt_succ hbound) (by omega)

theorem zoneText_of_split {form : Option ZoneForm} {offset : Option ℤ}
    (h : splitZone text = some (form, []))
    (hoffset : part? (fun zone ↦ (offset? zone).map some) none form = some offset) :
    ZoneText text := by
  have hsigned {sign : Char} {negative : Bool} {text : List Char} (hsign : sign = '+' ∨ sign = '-')
      (h : (splitOffset negative text).map (Prod.map some id) = some (form, [])) :
      ZoneText (sign :: text) := by
    obtain ⟨⟨form, rest⟩, hsplit, h⟩ := Option.map_eq_some_iff.mp h
    obtain ⟨rfl, rfl⟩ := Prod.mk.inj h
    obtain ⟨minutes, hminutes, -⟩ := Option.map_eq_some_iff.mp hoffset
    exact zoneText_of_splitOffset hsign hsplit hminutes
  rw [splitZone.eq_def] at h
  split at h
  · obtain ⟨-, rfl⟩ := Prod.mk.inj (Option.some.inj h)
    exact .utc
  · exact hsigned (.inl rfl) h
  · exact hsigned (.inr rfl) h
  · obtain ⟨-, rfl⟩ := Prod.mk.inj (Option.some.inj h)
    exact .absent

theorem exists_splitZone (h : ZoneText zone) :
    ∃ form offset, splitZone zone = some (form, []) ∧
      part? (fun zone ↦ (offset? zone).map some) none form = some offset := by
  cases h with
  | absent => exact ⟨none, none, rfl, rfl⟩
  | utc => exact ⟨some .utc, some 0, rfl, rfl⟩
  | @offset sign hours minutes hour colon minute hsign hcolon hhour hminute hminutes hday =>
    obtain ⟨negative, hzone⟩ : ∃ negative, splitZone (sign :: (hour ++ (colon ++ minute))) =
        (splitOffset negative (hour ++ (colon ++ minute))).map (Prod.map some id) := by
      rcases hsign with rfl | rfl
      · exact ⟨false, rfl⟩
      · exact ⟨true, rfl⟩
    obtain ⟨o, ho⟩ : ∃ o, offset? (.offset negative hour minute) = some o := by
      rw [offset?, hhour.numberBelow? (by omega), hminute.numberBelow? (by omega)]
      exact ⟨_, rfl⟩
    have hmark : (splitMark ':' (colon ++ minute)).getD (colon ++ minute) = minute := by
      rcases hcolon with rfl | rfl
      · have hnone : splitMark ':' minute = none := by
          refine Option.eq_none_iff_forall_ne_some.mpr fun rest hrest ↦ ?_
          rw [splitMark_eq_some_iff] at hrest
          exact absurd (hminute.digits ':' (hrest ▸ List.mem_cons_self)) (by decide)
        rw [List.nil_append, hnone, Option.getD_none]
      · rfl
    have hlast : splitDigits 2 ((splitMark ':' (colon ++ minute)).getD (colon ++ minute)) =
        some (minute, []) := by
      rw [hmark]
      simpa using splitDigits_numeral hminute []
    have hsplit : splitOffset negative (hour ++ (colon ++ minute)) =
        some (.offset negative hour minute, []) := by
      refine Option.bind_eq_some_iff.mpr ⟨_, splitDigits_numeral hhour _, ?_⟩
      exact Option.bind_eq_some_iff.mpr ⟨_, hlast, rfl⟩
    refine ⟨some (.offset negative hour minute), some o, ?_, ?_⟩
    · rw [hzone, hsplit]
      rfl
    · rw [part?, ho]
      rfl

theorem endsClock_of_zoneText (h : ZoneText zone) : EndsClock zone := by
  intro c hc
  cases h with
  | absent => cases hc
  | utc =>
    obtain rfl := Option.some.inj hc
    decide
  | offset hsign =>
    obtain rfl := Option.some.inj hc
    rcases hsign with rfl | rfl <;> decide

end Zones

/-! ## Moments -/

section Moments

open MomentForm Moment

variable {text : List Char} {form : MomentForm} {m : Moment} {year : ℕ}

/-- **What is read is a text of the grammar.** -/
theorem momentText_of_ofForm (hform : ofText? text = some form) (hm : ofForm form = .ok m) :
    1 ≤ m.year ∧ MomentText m.year text := by
  obtain ⟨⟨hyear, hmonth, hday⟩, hpositive, hmonths, hdays, hmoment⟩ := ofForm_eq_ok_iff.mp hm
  obtain ⟨-, hhour, hminute, hsecond, hfraction, hoffset, hend⟩ := onDate?_eq_some_iff.mp hmoment
  obtain ⟨hhour, hhours⟩ := numberBelow?_eq_some_iff.mp hhour
  obtain ⟨hminute, hminutes⟩ := numberBelow?_eq_some_iff.mp hminute
  -- each part is taken off the front of what is left
  obtain ⟨⟨year, t₁⟩, hsplit₁, h⟩ := Option.bind_eq_some_iff.mp hform
  obtain ⟨t₂, hmark₂, h⟩ := Option.bind_eq_some_iff.mp h
  obtain ⟨⟨month, t₃⟩, hsplit₃, h⟩ := Option.bind_eq_some_iff.mp h
  obtain ⟨t₄, hmark₄, h⟩ := Option.bind_eq_some_iff.mp h
  obtain ⟨⟨day, t₅⟩, hsplit₅, h⟩ := Option.bind_eq_some_iff.mp h
  obtain ⟨t₆, hmark₆, h⟩ := Option.bind_eq_some_iff.mp h
  obtain ⟨⟨hour, t₇⟩, hsplit₇, h⟩ := Option.bind_eq_some_iff.mp h
  obtain ⟨t₈, hmark₈, h⟩ := Option.bind_eq_some_iff.mp h
  obtain ⟨⟨minute, t₉⟩, hsplit₉, h⟩ := Option.bind_eq_some_iff.mp h
  obtain ⟨⟨second, fraction, t₁₀⟩, hsplit₁₀, h⟩ := Option.bind_eq_some_iff.mp h
  obtain ⟨⟨zone, t₁₁⟩, hsplit₁₁, h⟩ := Option.bind_eq_some_iff.mp h
  obtain ⟨lineFeed, hlineFeed, h⟩ := Option.bind_eq_some_iff.mp h
  obtain rfl := Option.some.inj h
  rw [splitMark_eq_some_iff] at hmark₂ hmark₄ hmark₆ hmark₈
  obtain rfl : t₁₁ = [] := splitEnd_eq_some_false_iff.mp (hend ▸ hlineFeed)
  obtain ⟨hyear, rfl⟩ := isNumeral_of_splitDigits hsplit₁ hyear
  obtain ⟨hmonth, rfl⟩ := isNumeral_of_splitDigits hsplit₃ hmonth
  obtain ⟨hday, rfl⟩ := isNumeral_of_splitDigits hsplit₅ hday
  obtain ⟨hhour, rfl⟩ := isNumeral_of_splitDigits hsplit₇ hhour
  obtain ⟨hminute, rfl⟩ := isNumeral_of_splitDigits hsplit₉ hminute
  obtain ⟨seconds, hseconds, rfl⟩ := exists_secondsText hsplit₁₀ hsecond hfraction
  have hzone := zoneText_of_split hsplit₁₁ hoffset
  subst hmark₂ hmark₄ hmark₆ hmark₈
  exact ⟨Nat.one_le_iff_ne_zero.mpr hpositive, .mk hyear hmonth hday
    (inCalendar_iff.mpr ⟨hmonths, hdays⟩) hhour (Nat.le_of_lt_succ hhours) hminute
    (Nat.le_of_lt_succ hminutes) hseconds hzone⟩

/-- **Every text of the grammar is read**, for a year from one on. -/
theorem exists_ofForm_of_momentText (h : MomentText year text) (hpositive : 1 ≤ year) :
    ∃ form m, ofText? text = some form ∧ ofForm form = .ok m := by
  obtain @⟨mo, d, h, mi, year', month, day, hour, minute, seconds, zone', hyear, hmonth, hday,
    hdate, hhour, hh, hminute, hmi, hseconds, hzone⟩ := h
  obtain ⟨hmonths, hdays⟩ := inCalendar_iff.mp hdate
  obtain ⟨second, fraction, s, f, hsplit, hs, hf⟩ :=
    exists_splitSeconds hseconds (endsClock_of_zoneText hzone)
  obtain ⟨zone, offset, hsplit', hoffset⟩ := exists_splitZone hzone
  refine ⟨⟨year', month, day, hour, minute, second, fraction, zone, false⟩,
    ⟨year, mo, d, h, mi, s, f, offset⟩, ?_, ?_⟩
  · refine Option.bind_eq_some_iff.mpr ⟨_, splitDigits_numeral hyear _, ?_⟩
    refine Option.bind_eq_some_iff.mpr ⟨_, splitMark_cons '-' _, ?_⟩
    refine Option.bind_eq_some_iff.mpr ⟨_, splitDigits_numeral hmonth _, ?_⟩
    refine Option.bind_eq_some_iff.mpr ⟨_, splitMark_cons '-' _, ?_⟩
    refine Option.bind_eq_some_iff.mpr ⟨_, splitDigits_numeral hday _, ?_⟩
    refine Option.bind_eq_some_iff.mpr ⟨_, splitMark_cons 'T' _, ?_⟩
    refine Option.bind_eq_some_iff.mpr ⟨_, splitDigits_numeral hhour _, ?_⟩
    refine Option.bind_eq_some_iff.mpr ⟨_, splitMark_cons ':' _, ?_⟩
    refine Option.bind_eq_some_iff.mpr ⟨_, splitDigits_numeral hminute _, ?_⟩
    refine Option.bind_eq_some_iff.mpr ⟨_, hsplit, ?_⟩
    exact Option.bind_eq_some_iff.mpr ⟨_, hsplit', rfl⟩
  · refine ofForm_eq_ok_iff.mpr ⟨⟨hyear.number?, hmonth.number?, hday.number?⟩,
      Nat.one_le_iff_ne_zero.mp hpositive, hmonths, hdays, ?_⟩
    exact onDate?_eq_some_iff.mpr ⟨⟨rfl, rfl, rfl⟩, hhour.numberBelow? (Nat.lt_succ_of_le hh),
      hminute.numberBelow? (Nat.lt_succ_of_le hmi), hs, hf, hoffset, rfl⟩

theorem admits_moment_iff {v : Json} :
    ScalarType.moment.Admits v ↔
      ∃ s year, v = .str s ∧ 1 ≤ year ∧ MomentText year s.toList := by
  constructor
  · intro h
    cases h with
    | @moment s form m hform hm => exact ⟨s, m.year, rfl, momentText_of_ofForm hform hm⟩
  · rintro ⟨s, year, rfl, hpositive, h⟩
    obtain ⟨form, m, hform, hm⟩ := exists_ofForm_of_momentText h hpositive
    exact .moment hform hm

end Moments

/-! ## Date-time items -/

/-- A date-time item is built in the same way under all settings. -/
theorem Item.yields_build_moment (settings : BuilderSettings) {x : Item} (ht : x.target? = none)
    (hk : x.kind = .datetime) (r : Registry Shape) :
    ∃ r', Yields (x.build settings) r
      ((Shape.scalar .moment).describedBy x.attributes.description) r' := by
  obtain ⟨a, fields, options⟩ := x
  rw [target?, attributes] at ht
  rw [kind, attributes] at hk
  have hleaf := yields_buildLeaf (r := r) a
  have hscalar : a.kind.scalarType? = some .moment := by
    rw [hk]
    rfl
  rw [Attributes.leafShape_of_scalarType hscalar] at hleaf
  rw [Item.build, ht, hk]
  exact ⟨_, .bind hleaf (.bind (.pure _ _) (.bind (yields_register a _) (.pure _ _)))⟩

/-- **What a date-time item accepts.** It is built under any settings and after anything else, and
validation against it ends whatever references lead to. Data is accepted exactly if it is a text of
the grammar for a year from one on. -/
theorem Item.build_accepts_moments (settings : BuilderSettings) {x : Item} (ht : x.target? = none)
    (hk : x.kind = .datetime) (r : Registry Shape) :
    ∃ shape r', Yields (x.build settings) r shape r' ∧
      ∀ (context : Registry Shape) (v : Json), ∃ verdict,
        (context.validate shape v).value = some verdict ∧
          (verdict.isOk ↔ ∃ s year, v = .str s ∧ 1 ≤ year ∧ MomentText year s.toList) := by
  obtain ⟨r', hbuild⟩ := x.yields_build_moment settings ht hk r
  refine ⟨_, r', hbuild, fun context v ↦ ?_⟩
  refine ⟨(checkScalar .moment v).map Accepted.datum, ?_, ?_⟩
  · rw [Registry.validate, validate_describedBy, Shape.validate]
    rfl
  · rw [Checked.isOk_map, isOk_checkScalar_iff, admits_moment_iff]

/-- An item for a date and a time. -/
def Item.instant : Item :=
  .mk { id := "at", name := "at", kind := .datetime, required := true, isArray := false
        description := .str "When it begins.", defaultValue := .null, hasDefault := false
        literal := .null, reference := none } none none

theorem Item.build_accepts_moments_leapDay :
    instant.target? = none ∧ instant.kind = .datetime ∧
      ∃ shape r', Yields (instant.build {}) {} shape r' ∧ ∀ context : Registry Shape,
        (∃ verdict, (context.validate shape (.str "2024-02-29T23:59:00.1234567890+0530")).value =
          some verdict ∧ verdict.isOk) ∧
        ∃ verdict, (context.validate shape (.int 0)).value = some verdict ∧ ¬ verdict.isOk := by
  have htext : MomentText 2024 "2024-02-29T23:59:00.1234567890+0530".toList :=
    @MomentText.mk 2024 2 29 23 59 ['2', '0', '2', '4'] ['0', '2'] ['2', '9'] ['2', '3'] ['5', '9']
      (':' :: (['0', '0'] ++ '.' :: ['1', '2', '3', '4', '5', '6', '7', '8', '9', '0']))
      ('+' :: (['0', '5'] ++ ([] ++ ['3', '0'])))
      (.of_all rfl (by decide) (by decide)) (.of_all rfl (by decide) (by decide))
      (.of_all rfl (by decide) (by decide)) ⟨by decide, by decide, 29, rfl, le_rfl⟩
      (.of_all rfl (by decide) (by decide)) (by decide) (.of_all rfl (by decide) (by decide))
      (by decide)
      (.parted (.of_all rfl (by decide) (by decide)) (by decide : 0 ≤ 59) (by decide)
        (List.all_eq_true.mp (by decide)))
      (.offset (.inl rfl) (.inl rfl) (.of_all rfl (by decide) (by decide))
        (.of_all rfl (by decide) (by decide)) (by decide : 30 ≤ 59)
        (by decide : 5 * 60 + 30 < 24 * 60))
  obtain ⟨shape, r', hbuild, haccepts⟩ := Item.build_accepts_moments {} (x := instant) rfl rfl {}
  refine ⟨rfl, rfl, shape, r', hbuild, fun context ↦ ⟨?_, ?_⟩⟩
  · obtain ⟨verdict, hverdict, hiff⟩ := haccepts context (.str _)
    exact ⟨verdict, hverdict, hiff.mpr ⟨_, 2024, rfl, by decide, htext⟩⟩
  · obtain ⟨verdict, hverdict, hiff⟩ := haccepts context (.int 0)
    exact ⟨verdict, hverdict, fun hok ↦ by simpa using hiff.mp hok⟩

end SchemaTree
