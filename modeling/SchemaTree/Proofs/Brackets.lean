import SchemaTree.Proofs.Parsing

/-!
# Texts with brackets in balance

A reader of brackets counts how many are open and skips what stands between double quotes, where a
backslash takes the character behind it along. A text is balanced if the reader ends where it began,
from any depth on. Such a text is over at the first bracket that closes more than it opened, so two
balanced texts with closing brackets behind them can only be the same text (`Balanced.cancel`).

The text of every JSON value is balanced, whatever its strings hold (`balanced_write`).
-/

namespace SchemaTree.Text

/-! ## The reader -/

/-- Where a reader of brackets stands: how many are open, and whether it is within quotes. -/
inductive Nesting where
  | outside (depth : ℕ)
  | quoted (depth : ℕ)
  /-- Within quotes, behind a backslash. -/
  | escaped (depth : ℕ)

/-- Whether a character is an opening bracket. -/
def isOpening (c : Char) : Bool := c = '(' || c = '[' || c = '\x7b'

/-- Whether a character is a closing bracket. -/
def isClosing (c : Char) : Bool := c = ')' || c = ']' || c = '\x7d'

/-- Reads a character. Nothing is left to close at depth zero. -/
def Nesting.step : Nesting → Char → Option Nesting
  | outside depth, c =>
    if c = '"' then some (quoted depth)
    else if isOpening c then some (outside (depth + 1))
    else if isClosing c then
      match depth with
      | 0 => none
      | depth + 1 => some (outside depth)
    else some (outside depth)
  | quoted depth, c =>
    if c = '"' then some (outside depth)
    else if c = '\\' then some (escaped depth)
    else some (quoted depth)
  | escaped depth, _ => some (quoted depth)

/-- Reads a text. -/
def Nesting.read (n : Nesting) (text : List Char) : Option Nesting := text.foldlM step n

section Reading

variable {n : Nesting} {t u rest : List Char} {c : Char} {depth : ℕ}

theorem Nesting.read_cons (n : Nesting) (c : Char) (t : List Char) :
    n.read (c :: t) = (n.step c).bind fun n ↦ n.read t := rfl

theorem Nesting.read_append (n : Nesting) (t u : List Char) :
    n.read (t ++ u) = (n.read t).bind fun n ↦ n.read u := List.foldlM_append ..

/-- Whether a character is neither a quote nor a bracket. -/
def isPlain (c : Char) : Bool := !(c = '"' || isOpening c || isClosing c)

/-- The characters that are not plain. -/
def delimiters : List Char := ['"', '(', '[', '\x7b', ')', ']', '\x7d']

theorem isPlain_of_notMem (h : c ∉ delimiters) : isPlain c := by
  simpa [isPlain, isOpening, isClosing, delimiters, not_or, and_assoc] using h

/-- A text is plain if its characters have a property that no delimiter has. -/
theorem all_isPlain {P : Char → Prop} [DecidablePred P] (ht : ∀ c ∈ t, P c)
    (hP : delimiters.all fun c ↦ ¬ P c) : t.all isPlain := by
  refine List.all_eq_true.mpr fun c hc ↦ isPlain_of_notMem fun hmem ↦ ?_
  exact of_decide_eq_true (List.all_eq_true.mp hP c hmem) (ht c hc)

theorem Nesting.step_of_isPlain (hc : isPlain c) :
    (outside depth).step c = some (outside depth) := by
  simp only [isPlain, Bool.not_eq_true', Bool.or_eq_false_iff, decide_eq_false_iff_not] at hc
  obtain ⟨⟨hquote, hopening⟩, hclosing⟩ := hc
  simp [step, hquote, hopening, hclosing]

theorem Nesting.step_of_isOpening (hc : isOpening c) :
    (outside depth).step c = some (outside (depth + 1)) := by
  have hquote : c ≠ '"' := by
    rintro rfl
    exact absurd hc (by decide)
  simp [step, hquote, hc]

theorem Nesting.step_of_isClosing (depth : ℕ) (hc : isClosing c) :
    (outside 0).step c = none ∧ (outside (depth + 1)).step c = some (outside depth) := by
  have hquote : c ≠ '"' := by
    rintro rfl
    exact absurd hc (by decide)
  have hopening : ¬ isOpening c := by
    simp only [isClosing, Bool.or_eq_true, decide_eq_true_eq] at hc
    rcases hc with (rfl | rfl) | rfl <;> decide
  simp [step, hquote, hopening, hc]

/-! ## Balanced texts -/

/-- A text that leaves a reader of brackets as deep as it was. -/
def Balanced (t : List Char) : Prop :=
  ∀ depth, (Nesting.outside depth).read t = some (.outside depth)

namespace Balanced

theorem nil : Balanced [] := fun _ ↦ rfl

theorem append (ht : Balanced t) (hu : Balanced u) : Balanced (t ++ u) := by
  intro depth
  rw [Nesting.read_append, ht depth, Option.bind_some, hu depth]

theorem cons (hc : isPlain c) (ht : Balanced t) : Balanced (c :: t) := by
  intro depth
  rw [Nesting.read_cons, Nesting.step_of_isPlain hc]
  exact ht depth

theorem of_all (h : t.all isPlain) : Balanced t := by
  rw [List.all_eq_true] at h
  induction t with
  | nil => exact nil
  | cons c t ih =>
    obtain ⟨hc, ht⟩ := List.forall_mem_cons.mp h
    exact cons hc (ih ht)

theorem enclosed {opening closing : Char} (ho : isOpening opening) (hc : isClosing closing)
    (ht : Balanced t) : Balanced (opening :: (t ++ [closing])) := by
  intro depth
  rw [Nesting.read_cons, Nesting.step_of_isOpening ho, Option.bind_some, Nesting.read_append,
    ht (depth + 1), Option.bind_some, Nesting.read_cons, (Nesting.step_of_isClosing depth hc).2]
  rfl

theorem joinWith {separator : List Char} (hseparator : Balanced separator)
    {pieces : List (List Char)} (h : ∀ piece ∈ pieces, Balanced piece) :
    Balanced (Json.joinWith separator pieces) := by
  induction pieces with
  | nil => exact nil
  | cons piece pieces ih =>
    obtain ⟨hpiece, hpieces⟩ := List.forall_mem_cons.mp h
    cases pieces with
    | nil => exact hpiece
    | cons next pieces => exact (hpiece.append hseparator).append (ih hpieces)

/-- A balanced text does not go on behind the closing bracket that ends another one. -/
theorem length_le (ht : Balanced t) (hu : Balanced u) (hc : isClosing c) {s : List Char}
    (h : t ++ c :: rest = u ++ s) : u.length ≤ t.length := by
  rcases List.append_eq_append_iff.mp h with ⟨more, rfl, hmore⟩ | ⟨more, rfl, -⟩
  · cases more with
    | nil => rw [List.append_nil]
    | cons c' more =>
      obtain ⟨rfl, -⟩ := List.cons.inj hmore
      -- the bracket stands where nothing is open
      have hread := hu 0
      rw [Nesting.read_append, ht 0, Option.bind_some, Nesting.read_cons,
        (Nesting.step_of_isClosing 0 hc).1] at hread
      exact absurd hread nofun
  · rw [List.length_append]
    exact Nat.le_add_right _ _

/-- **Balanced texts are told apart from what follows**, if closing brackets do. -/
theorem cancel (ht : Balanced t) (hu : Balanced u) {d : Char} {s : List Char} (hc : isClosing c)
    (hd : isClosing d) (h : t ++ c :: rest = u ++ d :: s) : t = u ∧ c :: rest = d :: s :=
  List.append_inj h (Nat.le_antisymm (length_le hu ht hd h.symm) (length_le ht hu hc h))

end Balanced

end Reading

/-! ## JSON text -/

section Values

variable {t rest : List Char} {c : Char} {depth : ℕ}

theorem read_quoted (h : ∀ c ∈ t, c ≠ '\\' ∧ c ≠ '"') :
    (Nesting.quoted depth).read t = some (.quoted depth) := by
  induction t with
  | nil => rfl
  | cons c t ih =>
    obtain ⟨⟨hbackslash, hquote⟩, ht⟩ := List.forall_mem_cons.mp h
    rw [Nesting.read_cons, Nesting.step, if_neg hquote, if_neg hbackslash]
    exact ih ht

/-- What stands for a character between double quotes does not end them. -/
theorem read_doubleQuotedChar (c : Char) :
    (Nesting.quoted depth).read (doubleQuotedChar c) = some (.quoted depth) := by
  rw [doubleQuotedChar.eq_def]
  split
  case h_8 hquote hbackslash _ _ _ _ _ =>
    split
    · rename_i hcontrol
      -- behind the backslash and the letter only the digits are left
      have hdigits : (Nesting.quoted depth).read (hex 4 c.toNat) = some (.quoted depth) :=
        read_quoted (hex_of_control hcontrol)
      exact hdigits
    · exact read_quoted (List.forall_mem_singleton.mpr ⟨hbackslash, hquote⟩)
  all_goals rfl

theorem balanced_doubleQuoted (text : List Char) : Balanced (doubleQuoted text) := by
  have hchars : ∀ depth,
      (Nesting.quoted depth).read (text.flatMap doubleQuotedChar) = some (.quoted depth) := by
    intro depth
    induction text with
    | nil => rfl
    | cons c text ih =>
      rw [List.flatMap_cons, Nesting.read_append, read_doubleQuotedChar, Option.bind_some, ih]
  intro depth
  rw [doubleQuoted, Nesting.read_cons]
  change (Nesting.quoted depth).read _ = _
  rw [Nesting.read_append, hchars, Option.bind_some]
  rfl

end Values

end SchemaTree.Text

namespace SchemaTree.Json

open Text

theorem balanced_of_isNumberChar {t : List Char} (h : ∀ c ∈ t, Decimal.IsNumberChar c) :
    Balanced t :=
  .of_all (all_isPlain h (by decide))

theorem balanced_text (b : Decimal.Binary) : Balanced (Decimal.Layout.document.text b) := by
  cases b with
  | nan => exact .of_all (by decide)
  | infinite negative => cases negative <;> exact .of_all (by decide)
  | zero negative => cases negative <;> exact .of_all (by decide)
  | finite negative m q narrow =>
    have hwrite : Balanced (Decimal.Layout.document.write (Decimal.shortest m q narrow)) :=
      balanced_of_isNumberChar (Decimal.isNumberChar_of_mem_write _ _)
    rw [Decimal.Layout.text]
    refine Balanced.append ?_ hwrite
    split
    · exact .of_all (by decide)
    · exact .nil

theorem balanced_bracket {indent : Option ℕ} {level : ℕ} {opening closing : Char}
    (ho : isOpening opening) (hc : isClosing closing) {pieces : List (List Char)}
    (h : ∀ piece ∈ pieces, Balanced piece) :
    Balanced ((Style.document indent).bracket level opening closing pieces) := by
  have hgap {gap : List Char} (hgap : IsGap gap) : Balanced gap := by
    exact .of_all (all_isPlain hgap (by decide))
  have hbreak (level : ℕ) := hgap (isGap_lineBreak (.document indent) level)
  have hcomma (level : ℕ) : Balanced ((Style.document indent).comma level) := by
    obtain ⟨gap, hcomma, hblanks⟩ := exists_comma_eq_cons (.document indent) level
    rw [hcomma]
    exact .cons (by decide) (hgap hblanks)
  rw [Style.bracket]
  split
  · exact .enclosed ho hc .nil
  · exact .enclosed ho hc (((hbreak _).append (.joinWith (hcomma _) h)).append (hbreak _))

/-- **The text of a value is balanced.** -/
theorem balanced_write (value : Json) (indent : Option ℕ) (level : ℕ) :
    Balanced (value.write (.document indent) level) := by
  induction value using Json.induction generalizing level with
  | null => exact .of_all (t := "null".toList) (by decide)
  | bool b =>
    cases b with
    | true => exact .of_all (t := "true".toList) (by decide)
    | false => exact .of_all (t := "false".toList) (by decide)
  | int n =>
    have hdigits : Balanced (Nat.toDigits 10 n.natAbs) :=
      balanced_of_isNumberChar fun c hc ↦ .inl (Decimal.isDigit_of_mem_toDigits hc)
    rw [write, toList_toString]
    refine Balanced.append ?_ hdigits
    split
    · exact .of_all (by decide)
    · exact .nil
  | float x => exact balanced_text _
  | str s => exact balanced_doubleQuoted _
  | arr elements ih =>
    refine balanced_bracket rfl rfl ?_
    rw [writeElements_eq_map, List.forall_mem_map]
    exact fun x hx ↦ ih x hx _
  | obj members ih =>
    refine balanced_bracket rfl rfl ?_
    rw [writeMembers_eq_map, List.forall_mem_map]
    have hcolon : Balanced (Style.document indent).colon :=
      .of_all (t := [':', ' ']) (by decide)
    exact fun m hm ↦ ((balanced_doubleQuoted _).append hcolon).append (ih m hm _)

end SchemaTree.Json
