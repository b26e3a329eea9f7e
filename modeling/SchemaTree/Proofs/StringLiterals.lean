import SchemaTree.Json.Parser
import SchemaTree.Text.Quote
import Mathlib.Algebra.Order.Group.Nat
import Mathlib.Tactic.SplitIfs

/-!
# String literals

A class module has texts in it that stand between quotes, and whoever reads the module has to find
out where such a text ends and what it is. `Text.readLiteral` reads a literal from behind its
opening mark, which is one quote or three. A backslash takes the next character with it, and the
literal ends where its mark stands for the first time otherwise. Only a literal between three quotes
goes on over the end of a line.

Main statements: a text in either notation of quoted text is read back, and so is what stands behind
it (`Text.readLiteral_displayQuoted`, `Text.readLiteral_doubleQuoted`). Both follow from what is
written for a single character. The reader knows the escapes that stand for one character; it gives
up at any other one, and at what cannot be part of a module at all. -/

namespace SchemaTree.Text

/-! ## Reading -/

/-- What a reader of a string literal is in the middle of. -/
inductive LiteralState where
  | plain
  /-- A backslash has just been read. -/
  | escape
  /-- A character is given by its code: the digits still due, and the value so far. -/
  | code (due value : Nat)

/-- The character that a character stands for behind a backslash. -/
def escapedChar? : Char → Option Char
  | '\\' => some '\\'
  | '\'' => some '\''
  | '"' => some '"'
  | 'a' => some '\x07'
  | 'b' => some '\x08'
  | 't' => some '\t'
  | 'n' => some '\n'
  | 'v' => some '\x0b'
  | 'f' => some '\x0c'
  | 'r' => some '\r'
  | _ => none

/-- The number of hexadecimal digits that a character asks for behind a backslash. -/
def codeWidth? : Char → Option Nat
  | 'x' => some 2
  | 'u' => some 4
  | 'U' => some 8
  | _ => none

/-- Whether a character cannot stand for itself in a literal with a closing mark: no module has NUL
or carriage returns in it, and one quote does not reach over the end of a line. -/
def isBarred (mark : List Char) (c : Char) : Bool :=
  c = '\x00' || c = '\r' || c = '\n' && mark.length = 1

/-- Puts a character in front of a text that has been read. -/
def prepend (c : Char) : Option (List Char × List Char) → Option (List Char × List Char) :=
  Option.map fun (text, rest) ↦ (c :: text, rest)

/-- Reads a literal up to its closing mark, from behind its opening mark. The result is the text and
what follows the closing mark. -/
def readLiteral (mark : List Char) : LiteralState → List Char → Option (List Char × List Char)
  | _, [] => none
  | .plain, c :: rest =>
    if mark.isPrefixOf (c :: rest) then some ([], (c :: rest).drop mark.length)
    else if c = '\\' then readLiteral mark .escape rest
    else if isBarred mark c then none
    else prepend c (readLiteral mark .plain rest)
  | .escape, c :: rest =>
    match escapedChar? c, codeWidth? c with
    | some e, _ => prepend e (readLiteral mark .plain rest)
    | none, some width => readLiteral mark (.code width 0) rest
    | none, none => none
  | .code due value, c :: rest =>
    match Json.hexValue? c with
    | none => none
    | some digit =>
      let value := value * 16 + digit
      if due = 1 then
        if value.isValidChar then prepend (Char.ofNat value) (readLiteral mark .plain rest)
        else none
      else readLiteral mark (.code (due - 1) value) rest

section Reading

variable {mark rest : List Char} {c e : Char}

theorem readLiteral_plain_cons (mark : List Char) (c : Char) (rest : List Char) :
    readLiteral mark .plain (c :: rest) =
      if mark.isPrefixOf (c :: rest) then some ([], (c :: rest).drop mark.length)
      else if c = '\\' then readLiteral mark .escape rest
      else if isBarred mark c then none
      else prepend c (readLiteral mark .plain rest) := rfl

theorem readLiteral_escape_cons (mark : List Char) (c : Char) (rest : List Char) :
    readLiteral mark .escape (c :: rest) =
      (escapedChar? c).elim
        ((codeWidth? c).elim none fun width ↦ readLiteral mark (.code width 0) rest)
        fun e ↦ prepend e (readLiteral mark .plain rest) := by
  rw [readLiteral]
  rcases escapedChar? c with _ | e
  · rcases codeWidth? c with _ | width <;> rfl
  · rfl

theorem readLiteral_code_cons (mark : List Char) (due value : Nat) (c : Char) (rest : List Char) :
    readLiteral mark (.code due value) (c :: rest) =
      (Json.hexValue? c).elim none fun digit ↦
        if due = 1 then
          if (value * 16 + digit).isValidChar then
            prepend (Char.ofNat (value * 16 + digit)) (readLiteral mark .plain rest)
          else none
        else readLiteral mark (.code (due - 1) (value * 16 + digit)) rest := by
  rw [readLiteral]
  rcases Json.hexValue? c with _ | digit <;> rfl

/-- A literal ends with its mark. -/
theorem readLiteral_mark (h : mark ≠ []) :
    readLiteral mark .plain (mark ++ rest) = some ([], rest) := by
  obtain ⟨c, cs, rfl⟩ := List.exists_cons_of_ne_nil h
  have hmark : (c :: cs).isPrefixOf (c :: (cs ++ rest)) := by
    rw [← List.cons_append, List.isPrefixOf_iff_prefix]
    exact List.prefix_append _ _
  rw [List.cons_append, readLiteral_plain_cons, if_pos hmark, ← List.cons_append, List.drop_left]

/-- A character that stands for itself is read as such. -/
theorem readLiteral_plain (hmark : ¬ mark <+: c :: rest) (hc : c ≠ '\\')
    (hbarred : ¬ isBarred mark c) :
    readLiteral mark .plain (c :: rest) = prepend c (readLiteral mark .plain rest) := by
  rw [← List.isPrefixOf_iff_prefix] at hmark
  rw [readLiteral_plain_cons, if_neg hmark, if_neg hc, if_neg hbarred]

/-- A backslash takes the next character with it. -/
theorem readLiteral_backslash (hmark : ¬ mark <+: '\\' :: rest) :
    readLiteral mark .plain ('\\' :: rest) = readLiteral mark .escape rest := by
  rw [← List.isPrefixOf_iff_prefix] at hmark
  rw [readLiteral_plain_cons, if_neg hmark, if_pos rfl]

theorem readLiteral_escaped (h : escapedChar? c = some e) :
    readLiteral mark .escape (c :: rest) = prepend e (readLiteral mark .plain rest) := by
  rw [readLiteral_escape_cons, h]
  rfl

end Reading

/-! ## Codes -/

section Codes

variable {mark rest : List Char}

theorem hexValue?_digitChar {d : Nat} (h : d < 16) : Json.hexValue? (Nat.digitChar d) = some d := by
  have hall : ∀ d < 16, Json.hexValue? (Nat.digitChar d) = some d := by decide
  exact hall d h

theorem hex_one {n : Nat} (h : n < 16) : hex 1 n = [Nat.digitChar n] := by
  rw [hex, Nat.toDigits_of_lt_base h]
  rfl

/-- A number with one more place has one more digit at its end. -/
theorem hex_succ {width : Nat} (hwidth : 0 < width) (n : Nat) :
    hex (width + 1) n = hex width (n / 16) ++ [Nat.digitChar (n % 16)] := by
  rcases Nat.lt_or_ge n 16 with hn | hn
  · have hquotient : n / 16 = 0 := Nat.div_eq_of_lt hn
    have hzeros : List.replicate width '0' = List.replicate (width - 1) '0' ++ ['0'] := by
      rw [← List.replicate_succ', Nat.sub_add_cancel hwidth]
    rw [hquotient, Nat.mod_eq_of_lt hn, hex, hex, Nat.toDigits_of_lt_base hn, Nat.toDigits_zero]
    simp [hzeros]
  · have hdigits := Nat.toDigits_of_base_le (by decide : 1 < 16) hn
    have hzeros : width + 1 - ((Nat.toDigits 16 (n / 16)).length + 1) =
        width - (Nat.toDigits 16 (n / 16)).length := by omega
    rw [hex, hdigits, hex]
    simp [hzeros]

/-- Digits that are not the last ones are read as the number that they are. -/
theorem readLiteral_code_more (more width : Nat) {n : Nat} (hn : n < 16 ^ (width + 1))
    (value : Nat) :
    readLiteral mark (.code (more + 1 + (width + 1)) value) (hex (width + 1) n ++ rest) =
      readLiteral mark (.code (more + 1) (value * 16 ^ (width + 1) + n)) rest := by
  induction width generalizing more n rest with
  | zero =>
    have hn' : n < 16 := by simpa using hn
    rw [hex_one hn', List.singleton_append, readLiteral_code_cons, hexValue?_digitChar hn']
    simp
  | succ width ih =>
    have hquotient : n / 16 < 16 ^ (width + 1) := by
      rw [Nat.div_lt_iff_lt_mul (by decide), ← Nat.pow_succ]
      exact hn
    have hlast : n % 16 < 16 := Nat.mod_lt n (by decide)
    have hdue : more + 1 + (width + 1 + 1) = more + 1 + 1 + (width + 1) := by omega
    have hvalue : (value * 16 ^ (width + 1) + n / 16) * 16 + n % 16 =
        value * 16 ^ (width + 1 + 1) + n := by
      rw [Nat.pow_succ 16 (width + 1), Nat.add_mul, Nat.mul_assoc]
      omega
    rw [hex_succ width.succ_pos, List.append_assoc, List.singleton_append, hdue,
      ih (more + 1) hquotient, readLiteral_code_cons, hexValue?_digitChar hlast]
    simp [hvalue]

/-- **A character is read from its code**, written with as many digits as are due. -/
theorem readLiteral_code {width : Nat} {c : Char} (hwidth : 0 < width) (hc : c.toNat < 16 ^ width) :
    readLiteral mark (.code width 0) (hex width c.toNat ++ rest) =
      prepend c (readLiteral mark .plain rest) := by
  have hvalid : c.toNat.isValidChar := c.valid
  have hlast : c.toNat % 16 < 16 := Nat.mod_lt _ (by decide)
  match width with
  | 1 =>
    have hc' : c.toNat < 16 := by simpa using hc
    rw [hex_one hc', List.singleton_append, readLiteral_code_cons, hexValue?_digitChar hc']
    simp [hvalid]
  | width + 2 =>
    have hquotient : c.toNat / 16 < 16 ^ (width + 1) := by
      rw [Nat.div_lt_iff_lt_mul (by decide), ← Nat.pow_succ]
      exact hc
    have hdue : width + 2 = 0 + 1 + (width + 1) := by omega
    have hvalue : c.toNat / 16 * 16 + c.toNat % 16 = c.toNat := by omega
    rw [hex_succ width.succ_pos, List.append_assoc, List.singleton_append, hdue,
      readLiteral_code_more 0 width hquotient, readLiteral_code_cons, hexValue?_digitChar hlast]
    simp [hvalid, hvalue]

end Codes

/-! ## Quoted texts -/

section Quoted

variable {quote c : Char} {rest : List Char}

theorem not_prefix_of_ne (h : c ≠ quote) : ¬ [quote] <+: c :: rest := by
  intro hprefix
  exact h (List.cons_prefix_cons.mp hprefix).1.symm

/-- What is written for a character is read as the character. -/
def ReadsBack (quote : Char) (write : Char → List Char) : Prop :=
  ∀ c rest, readLiteral [quote] .plain (write c ++ rest) =
    prepend c (readLiteral [quote] .plain rest)

/-- A text is read back if its characters are. -/
theorem ReadsBack.text {write : Char → List Char} (h : ReadsBack quote write)
    (text rest : List Char) :
    readLiteral [quote] .plain (text.flatMap write ++ quote :: rest) = some (text, rest) := by
  induction text with
  | nil => exact readLiteral_mark (List.cons_ne_nil quote [])
  | cons c text ih =>
    rw [List.flatMap_cons, List.append_assoc, h, ih]
    rfl

section Escapes

variable {e : Char} (hquote : quote ≠ '\\')
include hquote

/-- An escape of one letter. -/
theorem readLiteral_escape (h : escapedChar? c = some e) :
    readLiteral [quote] .plain ('\\' :: c :: rest) =
      prepend e (readLiteral [quote] .plain rest) := by
  rw [readLiteral_backslash (not_prefix_of_ne hquote.symm), readLiteral_escaped h]

/-- An escape with the code of a character. -/
theorem readLiteral_escapedCode {letter : Char} {width : Nat}
    (hletter : codeWidth? letter = some width)
    (hnone : escapedChar? letter = none) (hwidth : 0 < width) (hc : c.toNat < 16 ^ width) :
    readLiteral [quote] .plain ('\\' :: letter :: (hex width c.toNat ++ rest)) =
      prepend c (readLiteral [quote] .plain rest) := by
  rw [readLiteral_backslash (not_prefix_of_ne hquote.symm), readLiteral_escape_cons, hnone, hletter]
  exact readLiteral_code hwidth hc

end Escapes

/-- A quote does not bar a character that ends no line and is not NUL. -/
theorem not_isBarred_of_ne (hnul : c ≠ '\x00') (hreturn : c ≠ '\r') (hfeed : c ≠ '\n') :
    ¬ isBarred [quote] c := by
  simp [isBarred, hnul, hreturn, hfeed]

theorem readsBack_displayChar (hquote : escapedChar? quote = some quote) (hne : quote ≠ '\\') :
    ReadsBack quote (displayChar quote) := by
  intro c rest
  have hcode : c.toNat < 0x110000 := by
    rcases c.valid with h | h
    · exact Nat.lt_trans h (by decide)
    · exact h.2
  rw [displayChar]
  split_ifs with hescape hfeed hreturn htab hprintable hbyte hshort
  · apply readLiteral_escape hne
    rcases hescape with rfl | rfl
    · exact hquote
    · rfl
  · subst hfeed
    exact readLiteral_escape hne rfl
  · subst hreturn
    exact readLiteral_escape hne rfl
  · subst htab
    exact readLiteral_escape hne rfl
  · -- a printable character stands for itself
    rw [not_or] at hescape
    have hnul : c ≠ '\x00' := by
      rintro rfl
      exact absurd hprintable (by decide)
    exact readLiteral_plain (not_prefix_of_ne hescape.1) hescape.2
      (not_isBarred_of_ne hnul hreturn hfeed)
  · exact readLiteral_escapedCode hne rfl rfl (by decide) hbyte
  · exact readLiteral_escapedCode hne rfl rfl (by decide) hshort
  · exact readLiteral_escapedCode hne rfl rfl (by decide) (by omega)

theorem readsBack_doubleQuotedChar : ReadsBack '"' doubleQuotedChar := by
  intro c rest
  have hne : '"' ≠ '\\' := by decide
  rw [doubleQuotedChar.eq_def]
  split
  case h_8 hquote hbackslash hfeed hreturn _ _ _ =>
    split
    · rename_i hcontrol
      exact readLiteral_escapedCode hne rfl rfl (by decide) (by omega)
    · rename_i hprintable
      have hnul : c ≠ '\x00' := by
        rintro rfl
        exact hprintable (by decide)
      exact readLiteral_plain (not_prefix_of_ne hquote) hbackslash
        (not_isBarred_of_ne hnul hreturn hfeed)
  all_goals exact readLiteral_escape hne rfl

/-- A text is displayed between single or double quotes. -/
theorem displayQuote_cases (text : List Char) :
    displayQuote text = '\'' ∨ displayQuote text = '"' := by
  rw [displayQuote]
  split
  · exact .inr rfl
  · exact .inl rfl

/-- **A displayed text is read back**, and what stands behind it. -/
theorem readLiteral_displayQuoted (text rest : List Char) :
    readLiteral [displayQuote text] .plain
        (text.flatMap (displayChar (displayQuote text)) ++ displayQuote text :: rest) =
      some (text, rest) := by
  apply ReadsBack.text
  rcases displayQuote_cases text with hquote | hquote
  · rw [hquote]
    exact readsBack_displayChar rfl (by decide)
  · rw [hquote]
    exact readsBack_displayChar rfl (by decide)

/-- **A text between double quotes is read back**, and what stands behind it. -/
theorem readLiteral_doubleQuoted (text rest : List Char) :
    readLiteral ['"'] .plain (text.flatMap doubleQuotedChar ++ '"' :: rest) = some (text, rest) :=
  readsBack_doubleQuotedChar.text text rest

end Quoted

end SchemaTree.Text
