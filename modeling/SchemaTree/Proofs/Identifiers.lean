import SchemaTree.Emission.ClassModule
import SchemaTree.Naming.FieldKey
import Mathlib.Data.List.Perm.Basic

/-!
# Identifiers in a text

Which identifiers does the text of a type expression use? `Text.identifiersIn` reads a text from
left to right, as one would: a word is a run of letters, digits and underscores outside of quotes,
and a word is an identifier unless it begins with a digit, is a keyword or names an argument, which
an equals sign right behind it shows.

A text is read piece by piece. `Text.Uses t names` says that the pieces `t` of a text contribute
`names` wherever it is followed by something that ends a word; the lemmas about it follow the way
type expressions are written. A type expression is legible (`TypeExpr.IsLegible`) if its definitions
are named by words, its descriptions are texts and the numbers in its literals are finite. The last
condition is there because the text of an infinite number is a word like any other.

The reader only needs to be right about type expressions, which have no comments and no operators.
-/

namespace SchemaTree

open Json
open scoped List

namespace Text

/-! ## Reading -/

/-- Whether a character can be part of a word. Beyond ASCII every character counts as one. -/
def isWordPart (c : Char) : Bool := c.isAlphanum || c = '_' || 0x80 ≤ c.toNat

/-- Those of some words that are no keywords. -/
def spoken (words : List String) : List String := words.filter (· ∉ Naming.keywords)

/-- The identifier that a run of word characters is, if it is one. -/
def asIdentifier : List Char → List String
  | [] => []
  | c :: rest => if c.isDigit then [] else spoken [String.ofList (c :: rest)]

/-- What a reader is in the middle of. -/
inductive Reading where
  /-- A word, of which these characters have been read; between words there are none. -/
  | word (read : List Char)
  | quoted (quote : Char)
  /-- Quotes, with a backslash just read. -/
  | escaped (quote : Char)

namespace Reading

/-- Reads one more character. If that ends an identifier, the identifier is given back. -/
def step : Reading → Char → Reading × List String
  | word read, c =>
    if isWordPart c then (word (read ++ [c]), [])
    else if c = '=' then (word [], [])
    else (if c = '"' ∨ c = '\'' then quoted c else word [], asIdentifier read)
  | quoted quote, c =>
    (if c = '\\' then escaped quote else if c = quote then word [] else quoted quote, [])
  | escaped quote, _ => (quoted quote, [])

/-- The identifier that the end of the text ends. -/
def finish : Reading → List String
  | word read => asIdentifier read
  | _ => []

end Reading

/-- The identifiers in the rest of a text. -/
def identifiersFrom (reading : Reading) : List Char → List String
  | [] => reading.finish
  | c :: rest => (reading.step c).2 ++ identifiersFrom (reading.step c).1 rest

/-- The identifiers in a text. -/
def identifiersIn (text : List Char) : List String := identifiersFrom (.word []) text

/-- Whether a text ends a word that stands right before it. -/
def EndsWord (text : List Char) : Prop := ∀ c ∈ text.head?, isWordPart c = false ∧ c ≠ '='

/-- A character that stands for itself: part of no word, no quote and no equals sign. -/
def isMark (c : Char) : Bool := !isWordPart c && c ≠ '=' && c ≠ '"' && c ≠ '\''

section Reading

variable {text rest : List Char} {c : Char}

theorem endsWord_nil : EndsWord [] := by simp [EndsWord]

theorem endsWord_cons (h : isMark c) : EndsWord (c :: rest) := by
  simp only [isMark, Bool.and_eq_true, Bool.not_eq_true', decide_eq_true_eq] at h
  simpa [EndsWord] using h.1.1

theorem endsWord_append (h : EndsWord text) (hne : text ≠ []) : EndsWord (text ++ rest) := by
  cases text with
  | nil => exact absurd rfl hne
  | cons c text => exact h

/-- A run of word characters is read as a whole. -/
theorem identifiersFrom_append (read : List Char) (h : ∀ c ∈ text, isWordPart c) :
    identifiersFrom (.word read) (text ++ rest) = identifiersFrom (.word (read ++ text)) rest := by
  induction text generalizing read with
  | nil => rw [List.nil_append, List.append_nil]
  | cons c text ih =>
    obtain ⟨hc, htext⟩ := List.forall_mem_cons.mp h
    rw [List.cons_append, identifiersFrom, Reading.step, if_pos hc, List.nil_append, ih _ htext,
      List.append_assoc, List.singleton_append]

/-- What ends a word begins anew. -/
theorem identifiersFrom_of_endsWord (read : List Char) (h : EndsWord rest) :
    identifiersFrom (.word read) rest = asIdentifier read ++ identifiersIn rest := by
  cases rest with
  | nil => exact (List.append_nil _).symm
  | cons c rest =>
    obtain ⟨hword, hequals⟩ := h c rfl
    simp [identifiersIn, identifiersFrom, Reading.step, hword, hequals, asIdentifier]

theorem identifiersIn_word (h : ∀ c ∈ text, isWordPart c) (hrest : EndsWord rest) :
    identifiersIn (text ++ rest) = asIdentifier text ++ identifiersIn rest := by
  rw [identifiersIn, identifiersFrom_append _ h, List.nil_append,
    identifiersFrom_of_endsWord _ hrest]

theorem identifiersIn_mark (h : isMark c) : identifiersIn (c :: rest) = identifiersIn rest := by
  simp only [isMark, Bool.and_eq_true, Bool.not_eq_true', decide_eq_true_eq] at h
  obtain ⟨⟨⟨hword, hequals⟩, hdouble⟩, hsingle⟩ := h
  simp [identifiersIn, identifiersFrom, Reading.step, hword, hequals, hdouble, hsingle,
    asIdentifier]

/-- A word before an equals sign names an argument. -/
theorem identifiersIn_argument (h : ∀ c ∈ text, isWordPart c) :
    identifiersIn (text ++ '=' :: rest) = identifiersIn rest := by
  have hequals : isWordPart '=' = false := by decide
  rw [identifiersIn, identifiersFrom_append _ h, identifiersFrom, Reading.step, hequals]
  simp [identifiersIn]

end Reading

/-! ## Quotes -/

section Quotes

variable {rest : List Char}

/-- Within quotes, characters other than the quote and a backslash are read over. -/
theorem identifiersFrom_quoted {text : List Char} {quote : Char}
    (h : ∀ c ∈ text, c ≠ '\\' ∧ c ≠ quote) :
    identifiersFrom (.quoted quote) (text ++ rest) = identifiersFrom (.quoted quote) rest := by
  induction text with
  | nil => rfl
  | cons c text ih =>
    obtain ⟨⟨hbackslash, hquote⟩, htext⟩ := List.forall_mem_cons.mp h
    rw [List.cons_append, identifiersFrom, Reading.step, if_neg hbackslash, if_neg hquote,
      List.nil_append, ih htext]

theorem hex_of_control {n : Nat} (h : n < 0x20) : ∀ c ∈ hex 4 n, c ≠ '\\' ∧ c ≠ '"' := by
  -- Decided as a check of the four digits, never as a statement about all characters.
  have hall : ∀ n < 0x20, (hex 4 n).all fun c ↦ c ≠ '\\' ∧ c ≠ '"' := by decide
  intro c hc
  have hdigit := List.all_eq_true.mp (hall n h) c hc
  exact of_decide_eq_true hdigit

/-- Within double quotes, what stands for a character is read over. -/
theorem identifiersFrom_doubleQuotedChar (c : Char) :
    identifiersFrom (.quoted '"') (doubleQuotedChar c ++ rest) =
      identifiersFrom (.quoted '"') rest := by
  rw [doubleQuotedChar.eq_def]
  split
  case h_8 hquote hbackslash _ _ _ _ _ =>
    split
    · rename_i hcontrol
      have hdigits := @identifiersFrom_quoted rest _ _ (hex_of_control hcontrol)
      simpa [identifiersFrom, Reading.step] using hdigits
    · exact identifiersFrom_quoted (by simpa using ⟨hbackslash, hquote⟩)
  -- a backslash and the character behind it are read over together
  all_goals simp [identifiersFrom, Reading.step]

theorem identifiersIn_doubleQuoted (text : List Char) :
    identifiersIn (doubleQuoted text ++ rest) = identifiersIn rest := by
  have htext : identifiersFrom (.quoted '"') (text.flatMap doubleQuotedChar ++ '"' :: rest) =
      identifiersIn rest := by
    induction text with
    | nil => simp [identifiersIn, identifiersFrom, Reading.step]
    | cons c text ih =>
      rw [List.flatMap_cons, List.append_assoc, identifiersFrom_doubleQuotedChar, ih]
  have hquote : isWordPart '"' = false := by decide
  rw [doubleQuoted, List.cons_append, List.append_assoc, identifiersIn, identifiersFrom,
    Reading.step, hquote]
  simpa [asIdentifier] using htext

end Quotes

/-! ## Texts and the identifiers they use -/

/-- A text, wherever it is followed by something that ends a word, contributes identifiers. -/
def Uses (text : List Char) (names : List String) : Prop :=
  ∀ rest, EndsWord rest → identifiersIn (text ++ rest) ~ names ++ identifiersIn rest

/-- Whether a text is a word that does not begin with a digit. -/
def isWord : List Char → Bool
  | [] => false
  | c :: rest => !c.isDigit && (c :: rest).all isWordPart

theorem isWordPart_of_isWord {text : List Char} (h : isWord text) :
    ∀ c ∈ text, isWordPart c := by
  cases text with
  | nil => simp
  | cons c text =>
    rw [isWord, Bool.and_eq_true] at h
    exact List.all_eq_true.mp h.2

/-- A word with something in brackets behind it. -/
def enclosed (word : String) (opening closing : Char) (inner : List Char) : List Char :=
  word.toList ++ opening :: (inner ++ [closing])

/-- A word and its bracket, written as one. -/
theorem enclosed_eq {opened word : String} {opening closing : Char} {inner : List Char}
    (h : opened.toList = word.toList ++ [opening]) :
    opened.toList ++ inner ++ [closing] = enclosed word opening closing inner := by
  rw [h, enclosed, List.append_assoc, List.append_assoc, List.singleton_append]

namespace Uses

variable {text other : List Char} {names more : List String} {c : Char}

/-- A text by itself. -/
theorem perm (h : Uses text names) : identifiersIn text ~ names := by
  have hend := h [] endsWord_nil
  have hnil : identifiersIn [] = [] := rfl
  rwa [hnil, List.append_nil, List.append_nil] at hend

theorem congr (h : Uses text names) (hperm : names ~ more) : Uses text more :=
  fun rest hrest ↦ (h rest hrest).trans (hperm.append_right _)

theorem nil : Uses [] [] := fun _ _ ↦ List.Perm.refl _

theorem mark (hc : isMark c) (h : Uses text names) : Uses (c :: text) names := by
  intro rest hrest
  rw [List.cons_append, identifiersIn_mark hc]
  exact h rest hrest

/-- Two texts, of which the second ends the last word of the first. -/
theorem append (h : Uses text names) (hother : Uses other more) (hne : other ≠ [])
    (hend : EndsWord other) : Uses (text ++ other) (names ++ more) := by
  intro rest hrest
  rw [List.append_assoc, List.append_assoc]
  exact (h _ (endsWord_append hend hne)).trans ((hother rest hrest).append_left names)

/-- Two texts with a mark between them. -/
theorem append_mark (h : Uses text names) (hc : isMark c) (hother : Uses other more) :
    Uses (text ++ c :: other) (names ++ more) :=
  h.append (hother.mark hc) (List.cons_ne_nil _ _) (endsWord_cons hc)

theorem word {w : String} (h : isWord w.toList) : Uses w.toList (spoken [w]) := by
  intro rest hrest
  have hidentifier : asIdentifier w.toList = spoken [w] := by
    cases hw : w.toList with
    | nil => simp [hw, isWord] at h
    | cons c cs =>
      rw [hw, isWord, Bool.and_eq_true, Bool.not_eq_true'] at h
      rw [asIdentifier, h.1, ← hw, String.ofList_toList]
      simp
  rw [identifiersIn_word (isWordPart_of_isWord h) hrest, hidentifier]

/-- A run of word characters that begins with a digit. -/
theorem number (hall : ∀ b ∈ c :: text, isWordPart b) (hc : c.isDigit) : Uses (c :: text) [] := by
  intro rest hrest
  rw [identifiersIn_word hall hrest, asIdentifier, if_pos hc]

theorem quoted (text : List Char) : Uses (doubleQuoted text) [] := by
  intro rest _
  rw [identifiersIn_doubleQuoted, List.nil_append]

theorem argument {w : String} (hw : isWord w.toList) (h : Uses text names) :
    Uses (w.toList ++ '=' :: text) names := by
  intro rest hrest
  rw [List.append_assoc, List.cons_append, identifiersIn_argument (isWordPart_of_isWord hw)]
  exact h rest hrest

theorem enclosed {w : String} {opening closing : Char} (hw : isWord w.toList)
    (hopening : isMark opening) (hclosing : isMark closing) (h : Uses text names) :
    Uses (Text.enclosed w opening closing text) (spoken [w] ++ names) := by
  have hinner : Uses (text ++ [closing]) names := by
    have h' := h.append_mark hclosing nil
    rwa [List.append_nil] at h'
  exact (word hw).append_mark hopening hinner

theorem subscript {w : String} (hw : isWord w.toList) (h : Uses text names) :
    Uses (Text.enclosed w '[' ']' text) (spoken [w] ++ names) :=
  h.enclosed hw (by decide) (by decide)

theorem call {w : String} (hw : isWord w.toList) (h : Uses text names) :
    Uses (Text.enclosed w '(' ')' text) (spoken [w] ++ names) :=
  h.enclosed hw (by decide) (by decide)

/-- Two texts with a comma between them. -/
theorem separated (h : Uses text names) (hother : Uses other more) :
    Uses (text ++ ',' :: ' ' :: other) (names ++ more) :=
  h.append_mark (by decide) (hother.mark (by decide))

end Uses

end Text

/-! ## Numbers -/

namespace Decimal

open Text

/-- Whether a binary64 is written with digits. -/
def Binary.isFinite : Binary → Bool
  | .nan | .infinite _ => false
  | .zero _ | .finite .. => true

section Digits

variable {text : List Char}

/-- Digits are no identifier, not even with the letter of an exponent behind them. -/
theorem uses_digits_append (h : ∀ c ∈ text, c.isDigit) (hne : text ≠ []) {rest : List Char}
    (hrest : ∀ c ∈ rest, isWordPart c) : Uses (text ++ rest) [] := by
  cases text with
  | nil => exact absurd rfl hne
  | cons c text =>
    refine Uses.number (fun b hb ↦ ?_) (h c List.mem_cons_self)
    have hmem : b ∈ c :: text ++ rest := hb
    rcases List.mem_append.mp hmem with hb | hb
    · simp [isWordPart, Char.isAlphanum, h b hb]
    · exact hrest b hb

theorem uses_digits (h : ∀ c ∈ text, c.isDigit) (hne : text ≠ []) : Uses text [] := by
  rw [← List.append_nil text]
  exact uses_digits_append h hne (by simp)

theorem isDigit_of_mem_replicate (n : Nat) : ∀ c ∈ List.replicate n '0', c.isDigit := by
  intro c hc
  rw [List.eq_of_mem_replicate hc]
  decide

theorem isDigit_of_mem_toDigits {n : Nat} {c : Char} (h : c ∈ Nat.toDigits 10 n) : c.isDigit :=
  Nat.isDigit_of_mem_toDigits (by omega) (Nat.le_refl 10) h

end Digits

theorem uses_zero : Uses ['0'] [] :=
  uses_digits (List.forall_mem_singleton.mpr rfl) (List.cons_ne_nil _ _)

theorem uses_padded (width n : Nat) : Uses (padded width n) [] := by
  have hdigits (m : Nat) : ∀ c ∈ List.replicate m '0' ++ Nat.toDigits 10 n, c.isDigit :=
    List.forall_mem_append.mpr ⟨isDigit_of_mem_replicate m, fun _ ↦ isDigit_of_mem_toDigits⟩
  rw [padded]
  exact uses_digits (hdigits _) (List.append_ne_nil_of_right_ne_nil _ Nat.toDigits_ne_nil)

/-- A decimal uses no identifier, however it is laid out. -/
theorem uses_write (layout : Layout) (d : Scaled) : Uses (layout.write d) [] := by
  rw [Layout.write]
  have hdigits : ∀ c ∈ Nat.toDigits 10 d.digits, c.isDigit := fun _ ↦ isDigit_of_mem_toDigits
  have hne : Nat.toDigits 10 d.digits ≠ [] := Nat.toDigits_ne_nil
  generalize Nat.toDigits 10 d.digits = digits at hdigits hne
  have hfront (n : Nat) : ∀ c ∈ digits.take n, c.isDigit := fun c hc ↦
    hdigits c (List.mem_of_mem_take hc)
  have hback (n : Nat) : ∀ c ∈ digits.drop n, c.isDigit := fun c hc ↦
    hdigits c (List.mem_of_mem_drop hc)
  have htake (n : Nat) : digits.take (n + 1) ≠ [] := by simpa using hne
  dsimp only
  split
  · split
    · -- below one: a zero, the point, zeros and all digits
      have hdecimals (n : Nat) : ∀ c ∈ List.replicate n '0' ++ digits, c.isDigit :=
        List.forall_mem_append.mpr ⟨isDigit_of_mem_replicate n, hdigits⟩
      exact uses_zero.append_mark (by decide)
        (uses_digits (hdecimals _) (List.append_ne_nil_of_right_ne_nil _ hne))
    · -- digits and zeros before the point, and at least one digit after it
      have hwhole (m n : Nat) : ∀ c ∈ digits.take m ++ List.replicate n '0', c.isDigit :=
        List.forall_mem_append.mpr ⟨hfront m, isDigit_of_mem_replicate n⟩
      refine (uses_digits (hwhole _ _) (List.append_ne_nil_of_left_ne_nil (htake _) _)).append_mark
        (by decide) ?_
      split
      · exact uses_zero
      · rename_i hsome
        exact uses_digits (hback _) (by simpa using hsome)
  · -- the letter of the exponent goes with the digits before it
    have hexponent : ∀ c ∈ ['e'], isWordPart c := List.forall_mem_singleton.mpr rfl
    have hsign (negative : Prop) [Decidable negative] : isMark (if negative then '-' else '+') := by
      split <;> decide
    split
    · rw [List.append_nil, List.append_cons]
      exact (uses_digits_append (hfront 1) (htake 0) hexponent).append_mark (hsign _)
        (uses_padded _ _)
    · rename_i hsome
      have hbackne : digits.drop 1 ≠ [] := by simpa using hsome
      rw [List.append_assoc, List.cons_append, List.append_cons (digits.drop 1)]
      exact (uses_digits (hfront 1) (htake 0)).append_mark (by decide)
        ((uses_digits_append (hback 1) hbackne hexponent).append_mark (hsign _) (uses_padded _ _))

theorem uses_text (layout : Layout) {b : Binary} (h : b.isFinite) : Uses (layout.text b) [] := by
  cases b with
  | nan => cases h
  | infinite negative => cases h
  | zero negative =>
    have hzero : Uses ['0', '.', '0'] [] := uses_zero.append_mark (by decide) uses_zero
    rw [Layout.text]
    split
    · exact hzero.mark (by decide)
    · exact hzero
  | finite negative mantissa exponent narrow =>
    rw [Layout.text]
    split
    · exact (uses_write layout _).mark (by decide)
    · exact uses_write layout _

end Decimal

/-! ## Type expressions -/

/-- A guarded literal whose text uses no identifier: a flag or a number that is written with digits.
-/
def Scalar.IsWordless : Scalar → Prop
  | .text _ => False
  | .flag _ | .whole _ => True
  | .real x => (Decimal.Binary.ofFloat x).isFinite

namespace TypeExpr

open Text

mutual

/-- A type expression that a reader understands: definitions are named by words, guarded literals
have no words in them, and descriptions are texts. -/
def IsLegible : TypeExpr → Prop
  | .guarded value => value.IsWordless
  | .name definition => isWord definition.toList
  | .list inner | .optional inner => IsLegible inner
  | .described inner description => IsLegible inner ∧ ∃ s, description = .str s
  | .union options => AreLegible options
  | .scalar _ | .any | .literal _ | .forward _ => True

/-- Several type expressions that a reader understands. -/
def AreLegible : List TypeExpr → Prop
  | [] => True
  | a :: rest => IsLegible a ∧ AreLegible rest

end

theorem areLegible_iff {types : List TypeExpr} : AreLegible types ↔ ∀ a ∈ types, IsLegible a := by
  induction types with
  | nil => simp [AreLegible]
  | cons a types ih => rw [AreLegible, ih, List.forall_mem_cons]

/-! ### Texts -/

theorem write_list (element : TypeExpr) :
    write (.list element) = enclosed "list" '[' ']' element.write := by
  have htext : write (.list element) = "list[".toList ++ element.write ++ [']'] := rfl
  rw [htext]
  exact enclosed_eq (by decide)

theorem write_optional (inner : TypeExpr) :
    write (.optional inner) = enclosed "Optional" '[' ']' inner.write := by
  have htext : write (.optional inner) = "Optional[".toList ++ inner.write ++ [']'] := rfl
  rw [htext]
  exact enclosed_eq (by decide)

theorem write_union (options : List TypeExpr) :
    write (.union options) = enclosed "Union" '[' ']' (joinWith [',', ' '] (writeAll options)) := by
  have htext : write (.union options) =
      "Union[".toList ++ joinWith [',', ' '] (writeAll options) ++ [']'] := rfl
  rw [htext]
  exact enclosed_eq (by decide)

theorem write_literal (text : String) :
    write (.literal text) = enclosed "Literal" '[' ']' (doubleQuoted text.toList) := by
  have htext : write (.literal text) = "Literal[".toList ++ doubleQuoted text.toList ++ [']'] := rfl
  rw [htext]
  exact enclosed_eq (by decide)

theorem write_guarded (value : Scalar) :
    write (.guarded value) = enclosed "Annotated" '[' ']'
      (enclosed "Literal" '[' ']' value.toJson.displayChars ++ ',' :: ' ' ::
        enclosed "BeforeValidator" '(' ')'
          (enclosed "_exact_literal" '(' ')' value.toJson.displayChars)) := by
  have htext : write (.guarded value) =
      "Annotated[Literal[".toList ++ value.toJson.displayChars ++
        "], BeforeValidator(_exact_literal(".toList ++ value.toJson.displayChars ++
        "))]".toList := rfl
  have hopen : "Annotated[Literal[".toList =
      "Annotated".toList ++ '[' :: ("Literal".toList ++ ['[']) := by decide
  have hcall : "], BeforeValidator(_exact_literal(".toList = ']' :: ',' :: ' ' ::
      ("BeforeValidator".toList ++ '(' :: ("_exact_literal".toList ++ ['('])) := by decide
  have hclose : "))]".toList = [')', ')', ']'] := by decide
  rw [htext, hopen, hcall, hclose]
  simp only [enclosed, List.append_assoc, List.cons_append, List.nil_append]

theorem write_described (inner : TypeExpr) (description : Json) :
    write (.described inner description) = enclosed "Annotated" '[' ']'
      (inner.write ++ ',' :: ' ' :: enclosed "Field" '(' ')'
        ("description".toList ++ '=' :: description.write (.document none) 0)) := by
  have htext : write (.described inner description) =
      "Annotated[".toList ++ inner.write ++ ", Field(description=".toList ++
        description.write (.document none) 0 ++ ")]".toList := rfl
  have hopen : "Annotated[".toList = "Annotated".toList ++ ['['] := by decide
  have hcall : ", Field(description=".toList =
      ',' :: ' ' :: ("Field".toList ++ '(' :: ("description".toList ++ ['='])) := by decide
  have hclose : ")]".toList = [')', ']'] := by decide
  rw [htext, hopen, hcall, hclose]
  simp only [enclosed, List.append_assoc, List.cons_append, List.nil_append]

theorem joinWith_writeAll_cons (a b : TypeExpr) (rest : List TypeExpr) :
    joinWith [',', ' '] (writeAll (a :: b :: rest)) =
      a.write ++ ',' :: ' ' :: joinWith [',', ' '] (writeAll (b :: rest)) := by
  change a.write ++ [',', ' '] ++ _ = _
  rw [List.append_assoc]
  rfl

end TypeExpr

/-! ### Whole numbers, keywords and scalar types -/

theorem uses_whole (n : Int) : Text.Uses (toString n).toList [] := by
  have hdigits (m : Nat) : Text.Uses m.repr.toList [] := by
    rw [Nat.toList_repr]
    exact Decimal.uses_digits (fun c hc ↦ Decimal.isDigit_of_mem_toDigits hc) Nat.toDigits_ne_nil
  have hminus : "-".toList = ['-'] := by decide
  rw [Int.toString_eq_repr, Int.repr_eq_if]
  split
  · exact hdigits _
  · rw [String.toList_append, hminus]
    exact (hdigits _).mark (by decide)

theorem Text.spoken_append (words more : List String) :
    spoken (words ++ more) = spoken words ++ spoken more :=
  List.filter_append words more

theorem TypeExpr.uses_identifier (type : ScalarType) :
    Text.Uses type.identifier.toList (Text.spoken [type.identifier]) := by
  cases type <;> exact Text.Uses.word (by decide)

end SchemaTree
