import SchemaTree.Document.Load
import SchemaTree.Json.Printer
import SchemaTree.Proofs.Members
import SchemaTree.Proofs.NumberText
import SchemaTree.Proofs.Values

/-!
# Reading printed values

A printed value is read back, whatever its indentation and whatever follows it, as long as a number
at its end does not run on (`ReadsBack`, `readsBack`). Strings come first, then numbers, then lists
and objects by induction over the value: both are parts between commas (`readParts_text`), what
stands between two tokens is a gap of blanks, and the fuel of the reader, the length of the text, is
never used up.

Two things can stop it. Keys have to be distinct, since the last of two members with the same key is
the one that is kept (`HasDistinctKeys`). A whole number with too many digits is written but not
read (`excess?`), and the first of them in the order of the text is the one that reading reports. -/

namespace SchemaTree.Json

open Text

/-! ## Strings -/

section Strings

variable {opening rest : List Char}

/-- The four hexadecimal digits of a control character are read as its code. -/
theorem hex_reads {n : ℕ} (h : n < 0x20) :
    ∃ a b c d i j k l, hex 4 n = [a, b, c, d] ∧ hexValue? a = some i ∧ hexValue? b = some j ∧
      hexValue? c = some k ∧ hexValue? d = some l ∧ ((i * 16 + j) * 16 + k) * 16 + l = n := by
  have hall : ∀ n < 0x20, hex 4 n = ['0', '0', Nat.digitChar (n / 16), Nat.digitChar (n % 16)] ∧
      hexValue? (Nat.digitChar (n / 16)) = some (n / 16) ∧
      hexValue? (Nat.digitChar (n % 16)) = some (n % 16) := by decide
  obtain ⟨hhex, hhigh, hlow⟩ := hall n h
  refine ⟨_, _, _, _, 0, 0, n / 16, n % 16, hhex, rfl, rfl, hhigh, hlow, by omega⟩

/-- What stands for a character between double quotes is read as the character. A code unit wants a
character behind it, so the text that is left is not empty. -/
theorem readString_doubleQuotedChar (c : Char) (chars : List Char) (hrest : rest ≠ []) :
    readString opening .plain ⟨chars, none⟩ (doubleQuotedChar c ++ rest) =
      readString opening .plain ⟨c :: chars, none⟩ rest := by
  rw [doubleQuotedChar.eq_def]
  split
  case h_8 hquote hbackslash _ _ _ _ _ =>
    split
    · rename_i hcontrol
      obtain ⟨a, b, c', d, i, j, k, l, hhex, ha, hb, hc, hd, hvalue⟩ := hex_reads hcontrol
      have hunit : StringBuffer.pushUnit ⟨chars, none⟩ (((i * 16 + j) * 16 + k) * 16 + l) =
          .ok ⟨c :: chars, none⟩ := by
        have hhigh : isHighSurrogate c.toNat = false := by
          simp only [isHighSurrogate, Bool.and_eq_false_iff, decide_eq_false_iff_not]
          omega
        have hlow : isLowSurrogate c.toNat = false := by
          simp only [isLowSurrogate, Bool.and_eq_false_iff, decide_eq_false_iff_not]
          omega
        rw [hvalue, StringBuffer.pushUnit, hhigh, hlow, Char.ofNat_toNat]
        rfl
      rw [hhex]
      simp [readString, ha, hb, hc, hd, hrest, hunit, bind, Except.bind]
    · rename_i hprintable
      rw [List.cons_append, List.nil_append, readString, if_neg hquote, if_neg hbackslash,
        if_neg hprintable]
      rfl
  all_goals rfl

/-- **A string is read from its text**, and the rest is left. -/
theorem readString_doubleQuoted (s : String) :
    readString opening .plain ⟨[], none⟩ (s.toList.flatMap doubleQuotedChar ++ '"' :: rest) =
      .ok (s, rest) := by
  have hchars (text chars : List Char) :
      readString opening .plain ⟨chars, none⟩ (text.flatMap doubleQuotedChar ++ '"' :: rest) =
        .ok (String.ofList (chars.reverse ++ text), rest) := by
    induction text generalizing chars with
    | nil => simp [readString, StringBuffer.settle]
    | cons c text ih =>
      rw [List.flatMap_cons, List.append_assoc, readString_doubleQuotedChar c chars (by simp), ih]
      simp
  rw [hchars, List.reverse_nil, List.nil_append, String.ofList_toList]

end Strings

/-! ## Words and numbers -/

section Scalars

variable {text rest : List Char} {fuel : ℕ}

/-- The first characters of a number: its sign, if it is negative, and a digit. -/
def StartsNumber (text : List Char) : Prop :=
  ∃ (negative : Bool) (c : Char) (cs : List Char), c.isDigit ∧
    text = (if negative then ['-'] else []) ++ c :: cs

theorem readValue_of_startsNumber (h : StartsNumber text) :
    readValue (fuel + 1) text = readNumber text := by
  obtain ⟨negative, c, cs, hc, rfl⟩ := h
  have hne (other : Char) (hother : ¬ other.isDigit) : other ≠ c := by
    rintro rfl
    exact hother hc
  -- no word has a digit in the place of the first one
  have hwords : (words.findSome? fun word ↦
      (afterWord? word.1 ((if negative then ['-'] else []) ++ c :: cs)).map fun rest ↦
        (word.2, rest)) = none := by
    have hI := hne 'I' (by decide)
    have hminus := hne '-' (by decide)
    have hn := hne 'n' (by decide)
    have ht := hne 't' (by decide)
    have hf := hne 'f' (by decide)
    have hN := hne 'N' (by decide)
    cases negative <;> simp [words, afterWord?, hI, hminus, hn, ht, hf, hN]
  have hscalar : readScalar ((if negative then ['-'] else []) ++ c :: cs) =
      readNumber ((if negative then ['-'] else []) ++ c :: cs) := by
    rw [readScalar, hwords]
  rw [← hscalar]
  cases negative with
  | true => rfl
  | false =>
    rw [if_neg Bool.false_ne_true, List.nil_append, readValue]
    · rintro r ⟨⟩
      exact absurd hc (by decide)
    · rintro r ⟨⟩
      exact absurd hc (by decide)
    · rintro r ⟨⟩
      exact absurd hc (by decide)

theorem startsNumber_toString (n : ℤ) (rest : List Char) :
    StartsNumber ((toString n).toList ++ rest) := by
  obtain ⟨c, cs, hcons⟩ :=
    List.exists_cons_of_ne_nil (Nat.toDigits_ne_nil (n := n.natAbs) (b := 10))
  refine ⟨n < 0, c, cs ++ rest, Decimal.isDigit_of_mem_toDigits (hcons ▸ List.mem_cons_self), ?_⟩
  rw [toList_toString, hcons, List.append_assoc, List.cons_append]

theorem exists_layout_eq_cons (layout : Decimal.Layout) (d : Decimal.Scaled) :
    ∃ c cs, layout.write d = c :: cs ∧ c.isDigit := by
  have hdigits : ∀ c ∈ Nat.toDigits 10 d.digits, c.isDigit :=
    fun c ↦ Decimal.isDigit_of_mem_toDigits
  obtain ⟨c, cs, hcons⟩ :=
    List.exists_cons_of_ne_nil (Nat.toDigits_ne_nil (n := d.digits) (b := 10))
  rw [hcons] at hdigits
  rw [Decimal.Layout.write, hcons]
  dsimp only
  split
  · split
    · exact ⟨_, _, rfl, rfl⟩
    · exact ⟨c, _, rfl, hdigits c List.mem_cons_self⟩
  · exact ⟨c, _, rfl, hdigits c List.mem_cons_self⟩

theorem startsNumber_text (layout : Decimal.Layout) {b : Decimal.Binary} (hb : b.isFinite)
    (rest : List Char) : StartsNumber (layout.text b ++ rest) := by
  cases b with
  | nan => exact absurd hb Bool.false_ne_true
  | infinite negative => exact absurd hb Bool.false_ne_true
  | zero negative =>
    refine ⟨negative, '0', ['.', '0'] ++ rest, rfl, ?_⟩
    cases negative <;> rfl
  | finite negative m q narrow =>
    obtain ⟨c, cs, hwrite, hc⟩ := exists_layout_eq_cons layout (Decimal.shortest m q narrow)
    refine ⟨negative, c, cs ++ rest, hc, ?_⟩
    rw [Decimal.Layout.text, hwrite, List.append_assoc, List.cons_append]

/-- **A binary64 is read from its text** in a document. -/
theorem readValue_float (x : Float) (hrest : EndsNumber rest) :
    readValue (fuel + 1) (Decimal.Layout.document.text (.ofFloat x) ++ rest) =
      .ok (.float x, rest) := by
  rcases hx : Decimal.Binary.ofFloat x with _ | negative | negative | ⟨negative, m, q, narrow⟩
  · have hnan : (0.0 / 0.0 : Float) = Float.nan := by decide
    rw [Decimal.eq_nan_of_ofFloat hx, ← hnan]
    rfl
  · have hbits := Decimal.signed_eq (Decimal.of_ofBits_eq_infinite x.toBits.toNat_lt hx)
    cases negative with
    | true =>
      have hinf : (-1.0 / 0.0 : Float) = Decimal.signed true Decimal.infinityBits := by decide
      rw [← hbits, ← hinf]
      rfl
    | false =>
      have hinf : (1.0 / 0.0 : Float) = Decimal.signed false Decimal.infinityBits := by decide
      rw [← hbits, ← hinf]
      rfl
  · rw [readValue_of_startsNumber (startsNumber_text _ rfl rest), ← hx,
      readNumber_zero _ hx hrest]
  · rw [readValue_of_startsNumber (startsNumber_text _ rfl rest), ← hx,
      readNumber_finite _ hx hrest]

end Scalars

/-! ## Whole numbers that are too long -/

/-- A result, unless there is an excess. -/
def unlessExcess {α : Type} : Option ℕ → α → Except Stuck α
  | none, a => .ok a
  | some count, _ => .error (.tooLong count)

theorem unlessExcess_bind {α β : Type} {f : α → Except Stuck β} {a : α} {b : β}
    {first second : Option ℕ} (h : f a = unlessExcess second b) :
    unlessExcess first a >>= f = unlessExcess (first.or second) b := by
  cases first with
  | none => exact h
  | some count => rfl

theorem unlessExcess_bind_pure {α β : Type} {f : α → Except Stuck β} {a : α} {b : β}
    {first : Option ℕ} (h : f a = .ok b) : unlessExcess first a >>= f = unlessExcess first b := by
  cases first with
  | none => exact h
  | some count => rfl

/-! ## Values -/

section Values

variable {style : Style} {indent : Option ℕ} {level fuel : ℕ} {gap rest : List Char}
  {elements : List Json} {members : List (String × Json)} {value : Json}

/-- In every object within a value the keys are distinct. -/
inductive HasDistinctKeys : Json → Prop
  | null : HasDistinctKeys .null
  | bool (b : Bool) : HasDistinctKeys (.bool b)
  | int (n : ℤ) : HasDistinctKeys (.int n)
  | float (x : Float) : HasDistinctKeys (.float x)
  | str (s : String) : HasDistinctKeys (.str s)
  | arr {elements : List Json} (h : ∀ e ∈ elements, HasDistinctKeys e) :
      HasDistinctKeys (.arr elements)
  | obj {members : List (String × Json)} (hkeys : (Members.keys members).Nodup)
      (h : ∀ m ∈ members, HasDistinctKeys m.2) : HasDistinctKeys (.obj members)

/-- Characters that may stand between tokens. -/
def IsGap (gap : List Char) : Prop := ∀ c ∈ gap, isBlank c

theorem skipBlanks_append (hgap : IsGap gap) {c : Char} (hc : ¬ isBlank c) (rest : List Char) :
    skipBlanks (gap ++ c :: rest) = c :: rest := by
  rw [skipBlanks, List.dropWhile_append_of_pos hgap, List.dropWhile_cons_of_neg hc]

theorem isGap_lineBreak (style : Style) (level : ℕ) : IsGap (style.lineBreak level) := by
  rw [Style.lineBreak]
  split
  · exact fun c hc ↦ absurd hc List.not_mem_nil
  · refine List.forall_mem_cons.mpr ⟨rfl, fun c hc ↦ ?_⟩
    rw [List.eq_of_mem_replicate hc]
    rfl

theorem exists_comma_eq_cons (style : Style) (level : ℕ) :
    ∃ gap, style.comma level = ',' :: gap ∧ IsGap gap := by
  rw [Style.comma]
  split
  · split
    · exact ⟨[' '], rfl, List.forall_mem_singleton.mpr rfl⟩
    · exact ⟨[], rfl, fun c hc ↦ absurd hc List.not_mem_nil⟩
  · exact ⟨_, rfl, isGap_lineBreak style level⟩

theorem endsNumber_cons {c : Char} (hc : ¬ c.isDigit ∧ c ≠ '.' ∧ c ≠ 'e' ∧ c ≠ 'E') :
    EndsNumber (c :: rest) := by
  rintro other hother
  obtain rfl := Option.some_inj.mp hother
  exact hc

/-- What stands behind a value does not go on a number. -/
theorem endsNumber_append (hgap : IsGap gap) {c : Char}
    (hc : ¬ c.isDigit ∧ c ≠ '.' ∧ c ≠ 'e' ∧ c ≠ 'E') : EndsNumber (gap ++ c :: rest) := by
  cases gap with
  | nil => exact endsNumber_cons hc
  | cons blank gap =>
    have hblank := hgap blank List.mem_cons_self
    simp only [isBlank, Bool.or_eq_true, decide_eq_true_eq] at hblank
    refine endsNumber_cons ?_
    rcases hblank with ((rfl | rfl) | rfl) | rfl <;> decide

/-- A character that a value can begin with: it is no blank, it closes nothing, and it does not mark
an order of bytes. -/
def StartsValue (c : Char) : Prop := ¬ isBlank c ∧ c ≠ ']' ∧ c ≠ '\x7d' ∧ c ≠ '\ufeff'

instance : DecidablePred StartsValue := fun c ↦
  inferInstanceAs (Decidable (¬ isBlank c ∧ c ≠ ']' ∧ c ≠ '\x7d' ∧ c ≠ '\ufeff'))

theorem startsValue_of_isDigit {c : Char} (hc : c.isDigit) : StartsValue c := by
  refine ⟨fun hblank ↦ ?_, ?_, ?_, ?_⟩
  · simp only [isBlank, Bool.or_eq_true, decide_eq_true_eq] at hblank
    rcases hblank with ((rfl | rfl) | rfl) | rfl <;> exact absurd hc (by decide)
  all_goals
    rintro rfl
    exact absurd hc (by decide)

theorem StartsNumber.exists_cons {text : List Char} (h : StartsNumber text) :
    ∃ c cs, text = c :: cs ∧ StartsValue c := by
  obtain ⟨negative, c, cs, hc, rfl⟩ := h
  cases negative with
  | true => exact ⟨'-', c :: cs, rfl, by decide⟩
  | false => exact ⟨c, cs, rfl, startsValue_of_isDigit hc⟩

theorem exists_toString_eq_cons (n : ℤ) :
    ∃ c cs, (toString n).toList = c :: cs ∧ StartsValue c := by
  have hstart := startsNumber_toString n []
  rw [List.append_nil] at hstart
  exact hstart.exists_cons

/-- The text of a binary64 begins as a value if the words for what is not finite do. -/
theorem exists_text_eq_cons (layout : Decimal.Layout) (b : Decimal.Binary)
    (hwords : ∀ word ∈ [layout.nan, layout.infinity, layout.negativeInfinity],
      StartsValue (word.toList.headD ' ')) :
    ∃ c cs, layout.text b = c :: cs ∧ StartsValue c := by
  have hword {word : String}
      (hmem : word ∈ [layout.nan, layout.infinity, layout.negativeInfinity]) :
      ∃ c cs, word.toList = c :: cs ∧ StartsValue c := by
    have hstart := hwords word hmem
    cases hchars : word.toList with
    | nil =>
      rw [hchars] at hstart
      exact absurd hstart (by decide)
    | cons c cs =>
      rw [hchars] at hstart
      exact ⟨c, cs, rfl, hstart⟩
  have hfinite (h : b.isFinite) : ∃ c cs, layout.text b = c :: cs ∧ StartsValue c := by
    have hstart := startsNumber_text layout h []
    rw [List.append_nil] at hstart
    exact hstart.exists_cons
  cases b with
  | nan => exact hword (by simp)
  | infinite negative =>
    cases negative with
    | true => exact hword (by simp)
    | false => exact hword (by simp)
  | zero | finite => exact hfinite rfl

/-- The text of a value in a document begins as one. -/
theorem exists_write_eq_cons (indent : Option ℕ) (level : ℕ) (value : Json) :
    ∃ c cs, value.write (.document indent) level = c :: cs ∧ StartsValue c := by
  have hbracket (opening closing : Char) (pieces : List (List Char)) :
      ∃ cs, (Style.document indent).bracket level opening closing pieces = opening :: cs := by
    rw [Style.bracket]
    split <;> exact ⟨_, rfl⟩
  cases value with
  | null => exact ⟨'n', _, rfl, by decide⟩
  | bool b =>
    cases b with
    | true => exact ⟨'t', _, rfl, by decide⟩
    | false => exact ⟨'f', _, rfl, by decide⟩
  | int n => exact exists_toString_eq_cons n
  | float x => exact exists_text_eq_cons Decimal.Layout.document (.ofFloat x) (by decide)
  | str s => exact ⟨'"', _, rfl, by decide⟩
  | arr elements =>
    obtain ⟨cs, hcs⟩ := hbracket '[' ']' (writeElements (.document indent) (level + 1) elements)
    exact ⟨'[', cs, hcs, by decide⟩
  | obj members =>
    obtain ⟨cs, hcs⟩ :=
      hbracket '\x7b' '\x7d' (writeMembers (.document indent) (level + 1) members)
    exact ⟨'\x7b', cs, hcs, by decide⟩

/-- A value that is read from its text in a document at any level of nesting, whatever follows it.
-/
def ReadsBack (value : Json) : Prop :=
  ∀ indent level fuel rest, EndsNumber rest →
    2 * (value.write (.document indent) level).length ≤ fuel →
    readValue fuel (value.write (.document indent) level ++ rest) =
      unlessExcess value.excess? (value, rest)

/-! ### Parts of a list or of an object -/

section Parts

variable {α : Type} {read : ℕ → List Char → Except Stuck (List α × List Char)}
  {others : List Char → Except Stuck (List α × List Char)} {closing : Char}
  {piece : α → List Char} {excess? : α → Option ℕ} {parts : List α}

/-- Goes on behind a part: up to the closing character, or with the other parts. -/
def closeList (closing : Char) (others : List Char → Except Stuck (List α × List Char))
    (found : α × List Char) : Except Stuck (List α × List Char) :=
  match skipBlanks found.2 with
  | ',' :: rest => do
    let parts ← others (skipBlanks rest)
    return (found.1 :: parts.1, parts.2)
  | rest =>
    if rest.head? = some closing then return ([found.1], rest.tail)
    else throw (.faulty .expectingComma rest)

theorem closeList_of_closing {text : List Char} (hcomma : closing ≠ ',')
    (htext : skipBlanks text = closing :: rest) (a : α) :
    closeList closing others (a, text) = .ok ([a], rest) := by
  rw [closeList]
  dsimp only
  rw [htext]
  split
  · rename_i heq
    exact absurd (List.cons.inj heq).1 hcomma
  · exact if_pos rfl

theorem closeList_of_comma {text : List Char} (htext : skipBlanks text = ',' :: rest) (a : α) :
    closeList closing others (a, text) =
      others (skipBlanks rest) >>= fun parts ↦ .ok (a :: parts.1, parts.2) := by
  rw [closeList]
  dsimp only
  rw [htext]
  rfl

theorem closeList_of_other {text : List Char} (hclosing : ∀ rest, skipBlanks text ≠ closing :: rest)
    (hcomma : ∀ rest, skipBlanks text ≠ ',' :: rest) (a : α) :
    closeList closing others (a, text) = .error (.faulty .expectingComma (skipBlanks text)) := by
  rw [closeList]
  dsimp only
  split
  · next rest h => exact absurd h (hcomma rest)
  · refine if_neg fun hhead ↦ ?_
    obtain ⟨rest, hrest⟩ := List.head?_eq_some_iff.mp hhead
    exact hclosing rest hrest

theorem closeList_closing (hclosing : closing = ']' ∨ closing = '\x7d') (hgap : IsGap gap) (a : α) :
    closeList closing others (a, gap ++ closing :: rest) = .ok ([a], rest) := by
  have hclosing : closing ≠ ',' ∧ ¬ isBlank closing := by rcases hclosing with rfl | rfl <;> decide
  exact closeList_of_closing hclosing.1 (skipBlanks_append hgap hclosing.2 rest) a

theorem closeList_comma (hgap : IsGap gap) {c : Char} (hc : ¬ isBlank c) (a : α) :
    closeList closing others (a, ',' :: (gap ++ c :: rest)) =
      others (c :: rest) >>= fun parts ↦ .ok (a :: parts.1, parts.2) := by
  have hcomma : skipBlanks (',' :: (gap ++ c :: rest)) = ',' :: (gap ++ c :: rest) := rfl
  rw [closeList_of_comma hcomma, skipBlanks_append hgap hc]

/-- Joined texts begin as the first one does. -/
theorem exists_joinWith_eq_cons (separator : List Char) (c : Char) (first : List Char)
    (texts : List (List Char)) :
    ∃ cs, joinWith separator ((c :: first) :: texts) = c :: cs := by
  cases texts with
  | nil => exact ⟨first, rfl⟩
  | cons second texts => exact ⟨_, rfl⟩

theorem findSome?_cons_eq_or (a : α) :
    (a :: parts).findSome? excess? = (excess? a).or (parts.findSome? excess?) := by
  rw [List.findSome?_cons]
  cases excess? a <;> rfl

/-- **Parts are read from their texts**, separated by commas, if each of them is. -/
theorem readParts_text (hclosing : closing = ']' ∨ closing = '\x7d')
    (hstart : ∀ a, ∃ c cs, piece a = c :: cs ∧ ¬ isBlank c)
    (hread : ∀ a ∈ parts, ∀ fuel rest, EndsNumber rest → 2 * (piece a).length ≤ fuel →
      read (fuel + 1) (piece a ++ rest) =
        unlessExcess (excess? a) (a, rest) >>= closeList closing (read fuel))
    (hgap : IsGap gap) (hne : parts ≠ [])
    (hfuel : 2 * (joinWith (style.comma level) (parts.map piece)).length + 1 ≤ fuel) :
    read fuel (joinWith (style.comma level) (parts.map piece) ++ (gap ++ closing :: rest)) =
      unlessExcess (parts.findSome? excess?) (parts, rest) := by
  induction parts generalizing fuel with
  | nil => exact absurd rfl hne
  | cons a parts ih =>
    obtain ⟨ha, hparts⟩ := List.forall_mem_cons.mp hread
    obtain ⟨fuel, rfl⟩ : ∃ k, fuel = k + 1 := ⟨fuel - 1, by omega⟩
    rw [findSome?_cons_eq_or]
    cases parts with
    | nil =>
      have hends : EndsNumber (gap ++ closing :: rest) := by
        rcases hclosing with rfl | rfl <;> exact endsNumber_append hgap (by decide)
      rw [List.map_singleton, joinWith] at hfuel ⊢
      rw [ha fuel _ hends (by omega), List.findSome?_nil, Option.or_none]
      exact unlessExcess_bind_pure (closeList_closing hclosing hgap a)
    | cons b parts =>
      obtain ⟨blanks, hcomma, hblanks⟩ := exists_comma_eq_cons style level
      have hjoin : joinWith (style.comma level) ((a :: b :: parts).map piece) =
          piece a ++ (',' :: blanks) ++ joinWith (style.comma level) ((b :: parts).map piece) := by
        rw [← hcomma]
        rfl
      obtain ⟨c, first, hpiece, hc⟩ := hstart b
      obtain ⟨cs, htext⟩ := exists_joinWith_eq_cons (style.comma level) c first (parts.map piece)
      rw [← hpiece, ← List.map_cons] at htext
      rw [hjoin, List.length_append, List.length_append, List.length_cons] at hfuel
      have hrest := ih hparts (List.cons_ne_nil _ _) (show _ ≤ fuel by omega)
      rw [hjoin, List.append_assoc, List.append_assoc, List.cons_append,
        ha fuel _ (endsNumber_cons (by decide)) (by omega)]
      refine unlessExcess_bind ?_
      rw [htext, List.cons_append] at hrest ⊢
      rw [closeList_comma hblanks hc, hrest]
      exact unlessExcess_bind_pure rfl

end Parts

theorem excessIn?_eq (elements : List Json) : excessIn? elements = elements.findSome? excess? := by
  induction elements with
  | nil => rfl
  | cons x elements ih => rw [excessIn?, ih, findSome?_cons_eq_or]

theorem excessInMembers?_eq (members : List (String × Json)) :
    excessInMembers? members = members.findSome? fun m ↦ m.2.excess? := by
  induction members with
  | nil => rfl
  | cons m members ih => rw [excessInMembers?, ih, findSome?_cons_eq_or]

theorem readElements_succ (text : List Char) :
    readElements (fuel + 1) text =
      readValue fuel text >>= closeList ']' (readElements fuel) := by
  rw [readElements]
  refine congrArg (readValue fuel text >>= ·) (funext fun found ↦ ?_)
  dsimp only
  split
  · next rest h => exact (closeList_of_closing (by decide) h _).symm
  · next rest h => exact (closeList_of_comma h _).symm
  · next hclosing hcomma => exact (closeList_of_other hclosing hcomma _).symm

theorem readElements_text (indent : Option ℕ) (level : ℕ) (rest : List Char) (fuel : ℕ)
    (h : ∀ e ∈ elements, e.ReadsBack) (hne : elements ≠ []) (hgap : IsGap gap)
    (hfuel : 2 * (joinWith ((Style.document indent).comma level)
      (writeElements (.document indent) level elements)).length + 1 ≤ fuel) :
    readElements fuel (joinWith ((Style.document indent).comma level)
      (writeElements (.document indent) level elements) ++ (gap ++ ']' :: rest)) =
      unlessExcess (excessIn? elements) (elements, rest) := by
  rw [writeElements_eq_map] at hfuel ⊢
  rw [excessIn?_eq]
  refine readParts_text (.inl rfl) (fun x ↦ ?_) (fun x hx fuel rest hrest hfuel ↦ ?_) hgap hne hfuel
  · obtain ⟨c, cs, hwrite, hc⟩ := exists_write_eq_cons indent level x
    exact ⟨c, cs, hwrite, hc.1⟩
  · rw [readElements_succ, h x hx indent level fuel rest hrest hfuel]

/-- The text of a member of an object. -/
def memberText (indent : Option ℕ) (level : ℕ) (m : String × Json) : List Char :=
  (Style.document indent).string m.1 ++ (Style.document indent).colon ++
    m.2.write (.document indent) level

/-- Members begin with a key and a colon, and go on as a list behind their values. -/
theorem readMembers_succ (text : List Char) :
    readMembers (fuel + 1) ('"' :: text) =
      readString ('"' :: text) .plain ⟨[], none⟩ text >>= fun key ↦
        match skipBlanks key.2 with
        | ':' :: rest =>
          readValue fuel (skipBlanks rest) >>= fun found ↦
            closeList '\x7d' (readMembers fuel) ((key.1, found.1), found.2)
        | rest => throw (.faulty .expectingColon rest) := by
  rw [readMembers]
  refine congrArg (readString _ _ _ _ >>= ·) (funext fun key ↦ ?_)
  dsimp only
  generalize skipBlanks key.2 = afterKey
  match afterKey with
  | [] => rfl
  | c :: rest =>
    by_cases hc : c = ':'
    · subst hc
      refine congrArg (readValue fuel _ >>= ·) (funext fun found ↦ ?_)
      split
      · next rest h => exact (closeList_of_closing (by decide) h _).symm
      · next rest h => exact (closeList_of_comma h _).symm
      · next hclosing hcomma => exact (closeList_of_other hclosing hcomma _).symm
    · simp [hc]

/-- Of a member, the key and the colon are read over. -/
theorem readMembers_memberText (m : String × Json) :
    readMembers (fuel + 1) (memberText indent level m ++ rest) =
      readValue fuel (m.2.write (.document indent) level ++ rest) >>= fun found ↦
        closeList '\x7d' (readMembers fuel) ((m.1, found.1), found.2) := by
  obtain ⟨key, x⟩ := m
  obtain ⟨c, cs, hwrite, hc⟩ := exists_write_eq_cons indent level x
  have htext : memberText indent level (key, x) ++ rest =
      '"' :: (key.toList.flatMap doubleQuotedChar ++
        '"' :: ':' :: ' ' :: (x.write (.document indent) level ++ rest)) := by
    have hstring : (Style.document indent).string key =
        '"' :: (key.toList.flatMap doubleQuotedChar ++ ['"']) := rfl
    have hcolon : (Style.document indent).colon = [':', ' '] := rfl
    rw [memberText, hstring, hcolon]
    simp
  have hskip : skipBlanks (' ' :: (x.write (.document indent) level ++ rest)) =
      x.write (.document indent) level ++ rest := by
    rw [hwrite, List.cons_append]
    have hblank : IsGap [' '] := List.forall_mem_singleton.mpr rfl
    exact skipBlanks_append hblank hc.1 _
  rw [htext, readMembers_succ, readString_doubleQuoted]
  change (readValue fuel (skipBlanks (' ' :: (x.write (.document indent) level ++ rest))) >>=
    _) = _
  rw [hskip]

theorem readMembers_text (indent : Option ℕ) (level : ℕ) (rest : List Char) (fuel : ℕ)
    (h : ∀ m ∈ members, m.2.ReadsBack) (hne : members ≠ []) (hgap : IsGap gap)
    (hfuel : 2 * (joinWith ((Style.document indent).comma level)
      (writeMembers (.document indent) level members)).length + 1 ≤ fuel) :
    readMembers fuel (joinWith ((Style.document indent).comma level)
      (writeMembers (.document indent) level members) ++ (gap ++ '\x7d' :: rest)) =
      unlessExcess (excessInMembers? members) (members, rest) := by
  have hmap : writeMembers (.document indent) level members =
      members.map (memberText indent level) := writeMembers_eq_map _ _ _
  rw [hmap] at hfuel ⊢
  rw [excessInMembers?_eq]
  refine readParts_text (.inr rfl) (fun m ↦ ⟨'"', _, rfl, by decide⟩)
    (fun m hm fuel rest hrest hfuel ↦ ?_) hgap hne hfuel
  have hvalue : 2 * (m.2.write (.document indent) level).length ≤ fuel := by
    rw [memberText, List.length_append] at hfuel
    omega
  rw [readMembers_memberText, h m hm indent level fuel rest hrest hvalue]
  cases m.2.excess? <;> rfl

theorem readValue_list {text : List Char} (htext : (skipBlanks text).head? ≠ some ']') :
    readValue (fuel + 1) ('[' :: text) =
      readElements fuel (skipBlanks text) >>= fun found ↦ .ok (.arr found.1, found.2) := by
  rw [readValue]
  dsimp only
  split
  · rename_i heq
    exact absurd (congrArg List.head? heq) htext
  · rfl

theorem readValue_object {text : List Char} (htext : (skipBlanks text).head? ≠ some '\x7d') :
    readValue (fuel + 1) ('\x7b' :: text) =
      readMembers fuel (skipBlanks text) >>= fun found ↦
        .ok (.obj (Members.ofList found.1), found.2) := by
  rw [readValue]
  dsimp only
  split
  · rename_i heq
    exact absurd (congrArg List.head? heq) htext
  · rfl

/-- Elements that are not empty stand between their brackets on lines of their own, or on one. -/
theorem bracket_cons (style : Style) (level : ℕ) (opening closing : Char) (piece : List Char)
    (pieces : List (List Char)) :
    style.bracket level opening closing (piece :: pieces) ++ rest =
      opening :: (style.lineBreak (level + 1) ++
        (joinWith (style.comma (level + 1)) (piece :: pieces) ++
          (style.lineBreak level ++ closing :: rest))) := by
  rw [Style.bracket, List.isEmpty_cons, if_neg Bool.false_ne_true]
  simp

theorem length_joinWith_lt_bracket (style : Style) (level : ℕ) (opening closing : Char)
    (piece : List Char) (pieces : List (List Char)) :
    (joinWith (style.comma (level + 1)) (piece :: pieces)).length + 1 <
      (style.bracket level opening closing (piece :: pieces)).length := by
  have hlength := congrArg List.length (@bracket_cons [] style level opening closing piece pieces)
  simp only [List.length_append, List.length_cons, List.length_nil] at hlength
  omega

/-- Behind the opening bracket and the blanks stand the pieces, up to the closing bracket. -/
theorem exists_bracket_eq_cons (style : Style) (level : ℕ) (opening closing : Char)
    {piece first : List Char} {c : Char} (hpiece : piece = c :: first) (hc : ¬ isBlank c)
    (pieces : List (List Char)) (rest : List Char) :
    ∃ text, style.bracket level opening closing (piece :: pieces) ++ rest = opening :: text ∧
      skipBlanks text = joinWith (style.comma (level + 1)) (piece :: pieces) ++
        (style.lineBreak level ++ closing :: rest) ∧
      (skipBlanks text).head? = some c := by
  subst hpiece
  obtain ⟨cs, hcs⟩ := exists_joinWith_eq_cons (style.comma (level + 1)) c first pieces
  have hskip := skipBlanks_append (isGap_lineBreak style (level + 1)) hc
    (cs ++ (style.lineBreak level ++ closing :: rest))
  refine ⟨_, bracket_cons style level opening closing (c :: first) pieces, ?_, ?_⟩
  · rw [hcs, List.cons_append, hskip]
  · rw [hcs, List.cons_append, hskip]
    rfl

/-- The text of a value is not empty, so the bound on its reading is not zero. -/
theorem readsBack_of_succ
    (h : ∀ indent level fuel rest, EndsNumber rest →
      2 * (value.write (.document indent) level).length ≤ fuel + 1 →
      readValue (fuel + 1) (value.write (.document indent) level ++ rest) =
        unlessExcess value.excess? (value, rest)) : value.ReadsBack := by
  intro indent level fuel rest hrest hfuel
  obtain ⟨c, cs, hwrite, -⟩ := exists_write_eq_cons indent level value
  obtain ⟨fuel, rfl⟩ : ∃ k, fuel = k + 1 := by
    rw [hwrite, List.length_cons] at hfuel
    exact ⟨fuel - 1, by omega⟩
  exact h indent level fuel rest hrest hfuel

theorem readsBack_arr (h : ∀ e ∈ elements, e.ReadsBack) : (Json.arr elements).ReadsBack := by
  refine readsBack_of_succ fun indent level fuel rest hrest hfuel ↦ ?_
  cases elements with
  | nil => rfl
  | cons x elements =>
    obtain ⟨c, first, hfirst, hc⟩ := exists_write_eq_cons indent (level + 1) x
    have hlength := length_joinWith_lt_bracket (.document indent) level '[' ']'
      (x.write (.document indent) (level + 1))
        (writeElements (.document indent) (level + 1) elements)
    obtain ⟨text, hwrite, hskip, hhead⟩ := exists_bracket_eq_cons (.document indent) level '[' ']'
      hfirst hc.1 (writeElements (.document indent) (level + 1) elements) rest
    rw [← writeElements] at hlength hwrite hskip
    rw [write] at hfuel ⊢
    have hread := readElements_text indent (level + 1) rest fuel h (List.cons_ne_nil _ _)
      (isGap_lineBreak (.document indent) level) (by omega)
    rw [hwrite, readValue_list (by simp [hhead, hc.2.1]), hskip, hread]
    exact unlessExcess_bind_pure rfl

theorem readsBack_obj (hkeys : (Members.keys members).Nodup) (h : ∀ m ∈ members, m.2.ReadsBack) :
    (Json.obj members).ReadsBack := by
  refine readsBack_of_succ fun indent level fuel rest hrest hfuel ↦ ?_
  cases members with
  | nil => rfl
  | cons m members =>
    have hmembers : writeMembers (.document indent) (level + 1) (m :: members) =
        memberText indent (level + 1) m :: writeMembers (.document indent) (level + 1) members :=
          rfl
    have hlength := length_joinWith_lt_bracket (.document indent) level '\x7b' '\x7d'
      (memberText indent (level + 1) m) (writeMembers (.document indent) (level + 1) members)
    obtain ⟨text, hwrite, hskip, hhead⟩ := exists_bracket_eq_cons (.document indent) level
      '\x7b' '\x7d' (rfl : memberText indent (level + 1) m = '"' :: _) (by decide)
      (writeMembers (.document indent) (level + 1) members) rest
    rw [← hmembers] at hlength hwrite hskip
    rw [write] at hfuel ⊢
    have hread := readMembers_text indent (level + 1) rest fuel h (List.cons_ne_nil _ _)
      (isGap_lineBreak (.document indent) level) (by omega)
    rw [hwrite, readValue_object (by simp [hhead]), hskip, hread]
    refine unlessExcess_bind_pure ?_
    rw [Members.ofList_of_nodup hkeys]

/-- **A value is read from its text** in a document, if no object in it has a key twice and no whole
number in it has too many digits. Otherwise the first number that has too many stops the reading. -/
theorem readsBack (value : Json) (hkeys : value.HasDistinctKeys) : value.ReadsBack := by
  induction value using Json.induction with
  | null => exact readsBack_of_succ fun indent level fuel rest hrest hfuel ↦ rfl
  | bool b =>
    cases b with
    | true => exact readsBack_of_succ fun indent level fuel rest hrest hfuel ↦ rfl
    | false => exact readsBack_of_succ fun indent level fuel rest hrest hfuel ↦ rfl
  | int n =>
    refine readsBack_of_succ fun indent level fuel rest hrest hfuel ↦ ?_
    rw [write, readValue_of_startsNumber (startsNumber_toString n rest),
      readNumber_toString n hrest, excess?]
    split <;> rfl
  | float x =>
    refine readsBack_of_succ fun indent level fuel rest hrest hfuel ↦ ?_
    exact readValue_float x hrest
  | str s =>
    refine readsBack_of_succ fun indent level fuel rest hrest hfuel ↦ ?_
    have htext : (Json.str s).write (.document indent) level ++ rest =
        '"' :: (s.toList.flatMap doubleQuotedChar ++ '"' :: rest) := by
      have hstring : (Json.str s).write (.document indent) level =
          '"' :: (s.toList.flatMap doubleQuotedChar ++ ['"']) := rfl
      rw [hstring]
      simp
    rw [htext, readValue, readString_doubleQuoted]
    rfl
  | arr elements ih =>
    cases hkeys with
    | arr h => exact readsBack_arr fun e he ↦ ih e he (h e he)
  | obj members ih =>
    cases hkeys with
    | obj hdistinct h => exact readsBack_obj hdistinct fun m hm ↦ ih m hm (h m hm)

end Values

/-! ## Texts -/

section Texts

variable {value : Json} {indent : Option ℕ} {level : ℕ}

theorem notMem_of_forall_isDigit {digits : List Char} (h : ∀ c ∈ digits, c.isDigit) :
    '\r' ∉ digits := fun hmem ↦ absurd (h _ hmem) (by decide)

/-- A quoted text is on one line: no control character stands for itself in it. -/
theorem le_of_mem_doubleQuoted {text : List Char} {c : Char} (h : c ∈ doubleQuoted text) :
    0x20 ≤ c.toNat := by
  have hchar (b : Char) : (doubleQuotedChar b).all (0x20 ≤ ·.toNat) := by
    rw [doubleQuotedChar.eq_def]
    split
    case h_8 =>
      split
      · rename_i hcontrol
        have hall : ∀ n < 0x20, ('\\' :: 'u' :: hex 4 n).all (0x20 ≤ ·.toNat) := by decide
        exact hall b.toNat hcontrol
      · rename_i hprintable
        rw [List.all_cons, List.all_nil, Bool.and_true]
        exact decide_eq_true (Nat.le_of_not_lt hprintable)
    all_goals decide
  rw [doubleQuoted, List.mem_cons, List.mem_append, List.mem_flatMap, List.mem_singleton] at h
  rcases h with rfl | ⟨b, -, hb⟩ | rfl
  · decide
  · exact of_decide_eq_true (List.all_eq_true.mp (hchar b) c hb)
  · decide

theorem notMem_doubleQuoted (text : List Char) : '\r' ∉ doubleQuoted text := fun h ↦
  absurd (le_of_mem_doubleQuoted h) (by decide)

theorem notMem_layout (layout : Decimal.Layout) (d : Decimal.Scaled) : '\r' ∉ layout.write d :=
  fun hmem ↦ absurd (Decimal.isNumberChar_of_mem_write layout d _ hmem) (by decide)

theorem notMem_text (b : Decimal.Binary) : '\r' ∉ Decimal.Layout.document.text b := by
  cases b with
  | nan => decide
  | infinite negative => cases negative <;> decide
  | zero negative => cases negative <;> decide
  | finite negative m q narrow =>
    rw [Decimal.Layout.text, List.mem_append]
    have hwrite := notMem_layout Decimal.Layout.document (Decimal.shortest m q narrow)
    cases negative <;> simp [hwrite]

theorem notMem_joinWith {c : Char} {separator : List Char} (hseparator : c ∉ separator)
    {pieces : List (List Char)} (h : ∀ piece ∈ pieces, c ∉ piece) :
    c ∉ joinWith separator pieces := by
  induction pieces with
  | nil => exact List.not_mem_nil
  | cons piece pieces ih =>
    obtain ⟨hpiece, hpieces⟩ := List.forall_mem_cons.mp h
    cases pieces with
    | nil => exact hpiece
    | cons next pieces => simpa [joinWith, hpiece, hseparator] using ih hpieces

theorem notMem_bracket {opening closing : Char} (ho : '\r' ≠ opening) (hc : '\r' ≠ closing)
    {pieces : List (List Char)} (h : ∀ piece ∈ pieces, '\r' ∉ piece) :
    '\r' ∉ (Style.document indent).bracket level opening closing pieces := by
  have hbreak (level : ℕ) : '\r' ∉ (Style.document indent).lineBreak level := by
    rw [Style.lineBreak]
    split <;> simp
  have hcomma (level : ℕ) : '\r' ∉ (Style.document indent).comma level := by
    rw [Style.comma]
    split
    · split <;> decide
    · simp [hbreak]
  rw [Style.bracket]
  split
  · simp [ho, hc]
  · simp [ho, hc, hbreak, notMem_joinWith (hcomma _) h]

/-- What is written ends its lines with line feeds alone. -/
theorem notMem_write (value : Json) (indent : Option ℕ) (level : ℕ) :
    '\r' ∉ value.write (.document indent) level := by
  induction value using Json.induction generalizing level with
  | null =>
    change '\r' ∉ "null".toList
    decide
  | bool b =>
    change '\r' ∉ (if b then "true" else "false").toList
    cases b <;> decide
  | int n =>
    have hdigits : '\r' ∉ Nat.toDigits 10 n.natAbs :=
      notMem_of_forall_isDigit fun c ↦ Decimal.isDigit_of_mem_toDigits
    rw [write, toList_toString]
    split <;> simp [hdigits]
  | float x => exact notMem_text _
  | str s => exact notMem_doubleQuoted _
  | arr elements ih =>
    refine notMem_bracket (by decide) (by decide) ?_
    rw [writeElements_eq_map, List.forall_mem_map]
    exact fun x hx ↦ ih x hx _
  | obj members ih =>
    refine notMem_bracket (by decide) (by decide) ?_
    rw [writeMembers_eq_map, List.forall_mem_map]
    intro m hm
    have hkey : '\r' ∉ (Style.document indent).string m.1 := notMem_doubleQuoted _
    have hcolon : '\r' ∉ (Style.document indent).colon := by
      change '\r' ∉ [':', ' ']
      decide
    simp [hkey, hcolon, ih m hm]

theorem normalizeLineEnds_of_notMem {text : List Char} (h : '\r' ∉ text) :
    normalizeLineEnds text = text := by
  induction text with
  | nil => rfl
  | cons c text ih =>
    obtain ⟨hc, htext⟩ := not_or.mp (List.mem_cons.not.mp h)
    rw [normalizeLineEnds, ih htext]
    · exact fun _ heq _ ↦ hc heq.symm
    · exact fun heq ↦ hc heq.symm

/-- **A text of a value is read as the value**, whatever the indentation, if no object in it has a
key twice and no whole number in it has too many digits. -/
theorem parseFile_print (hkeys : value.HasDistinctKeys) (indent : Option ℕ) :
    parseFile (value.print (.document indent)) =
      match value.excess? with
      | none => .ok value
      | some count => .error (.tooLong count) := by
  obtain ⟨c, cs, hwrite, hc⟩ := exists_write_eq_cons indent 0 value
  have htext : (value.print (.document indent)).toList = value.write (.document indent) 0 :=
    String.toList_ofList
  have hread : readText (value.write (.document indent) 0) = unlessExcess value.excess? value := by
    have hvalue := readsBack value hkeys indent 0
      (2 * (value.write (.document indent) 0).length + 2)
      [] (fun _ h ↦ absurd h nofun) (by omega)
    rw [List.append_nil] at hvalue
    have hskip : skipBlanks (value.write (.document indent) 0) =
        value.write (.document indent) 0 := by
      rw [hwrite]
      have hnone : IsGap [] := fun _ h ↦ absurd h List.not_mem_nil
      exact skipBlanks_append hnone hc.1 _
    rw [readText]
    · rw [hskip, hvalue]
      exact unlessExcess_bind_pure rfl
    · rw [hwrite]
      rintro rest heq
      exact hc.2.2.2 (List.cons.inj heq).1
  rw [parseFile, parse, withLineFeeds, String.toList_ofList, htext,
    normalizeLineEnds_of_notMem (notMem_write value indent 0), hread]
  cases value.excess? with
  | none => rfl
  | some count => rfl

end Texts

end SchemaTree.Json
