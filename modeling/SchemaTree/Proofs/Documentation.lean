import SchemaTree.Emission.ClassModule
import SchemaTree.Proofs.StringLiterals
import Mathlib.Data.List.TakeWhile
import Mathlib.Tactic.SplitIfs

/-!
# Documentation between quotes

The documentation of a class stands between three double quotes, with backslashes in front of what
could end it too early. They are put there in three steps, each of which sees the outcome of the one
before it: in front of every backslash, in front of three quotes in a row, and in front of a quote
at the very end. The equations `escapeDocumentation_cons`, `escapeDocumentation_quote` and
`escapeDocumentation_triple` say what the three steps do together to the beginning of a text, and
the main statement follows them.

**Which documentation is read back** (`readLiteral_documentation`): every text but those that end in
three, six, nine or any other multiple of three double quotes. The last of these quotes already has
a backslash in front of it when the last step puts another one there, so that a reader takes the two
of them for one backslash and the literal ends a quote early. -/

namespace SchemaTree

open Text

/-! ## Quotes at the end of a text -/

/-- The mark around the documentation of a class. -/
def documentationMark : List Char := ['"', '"', '"']

/-- The number of double quotes at the end of a text. -/
def trailingQuotes (text : List Char) : Nat := (text.reverse.takeWhile (· = '"')).length

/-- A text ends in double quotes that come in threes. -/
def EndsInTriples (text : List Char) : Prop := 0 < trailingQuotes text ∧ 3 ∣ trailingQuotes text

instance (text : List Char) : Decidable (EndsInTriples text) :=
  inferInstanceAs (Decidable (0 < trailingQuotes text ∧ 3 ∣ trailingQuotes text))

section Quotes

variable {front text : List Char} {c : Char}

/-- What stands in front of a text counts only if the text has nothing but quotes. -/
theorem trailingQuotes_append (front text : List Char) :
    trailingQuotes (front ++ text) =
      if text.all (· = '"') then text.length + trailingQuotes front else trailingQuotes text := by
  rw [trailingQuotes, List.reverse_append, List.takeWhile_append]
  by_cases hall : text.all (· = '"')
  · have htake : text.reverse.takeWhile (· = '"') = text.reverse :=
      List.takeWhile_eq_self_iff.mpr fun c hc ↦
        List.all_eq_true.mp hall c (List.mem_reverse.mp hc)
    rw [if_pos hall, if_pos (congrArg List.length htake), List.length_append, List.length_reverse]
    rfl
  · have htake : (text.reverse.takeWhile (· = '"')).length ≠ text.reverse.length := by
      intro hlength
      have hself : text.reverse.takeWhile (· = '"') = text.reverse :=
        (List.takeWhile_prefix _).eq_of_length hlength
      apply hall
      rw [List.all_eq_true]
      intro c hc
      exact List.takeWhile_eq_self_iff.mp hself c (List.mem_reverse.mpr hc)
    rw [if_neg hall, if_neg htake]
    rfl

/-- Three quotes in front change nothing unless they are all there is. -/
theorem endsInTriples_triple (hne : text ≠ []) :
    EndsInTriples ('"' :: '"' :: '"' :: text) ↔ EndsInTriples text := by
  have happend := trailingQuotes_append ['"', '"', '"'] text
  have hthree : trailingQuotes ['"', '"', '"'] = 3 := by decide
  have hself := trailingQuotes_append [] text
  have hnil : trailingQuotes [] = 0 := by decide
  have hlength := List.length_pos_iff.mpr hne
  rw [EndsInTriples, EndsInTriples]
  rw [List.cons_append, List.cons_append, List.cons_append, List.nil_append] at happend
  rw [List.nil_append] at hself
  split_ifs at happend hself <;> omega

/-- A character that is no quote changes nothing. -/
theorem endsInTriples_cons (hc : c ≠ '"') : EndsInTriples (c :: text) ↔ EndsInTriples text := by
  have happend := trailingQuotes_append [c] text
  have hone : trailingQuotes [c] = 0 := by simp [trailingQuotes, hc]
  have hself := trailingQuotes_append [] text
  have hnil : trailingQuotes [] = 0 := by decide
  rw [EndsInTriples, EndsInTriples]
  rw [List.singleton_append] at happend
  rw [List.nil_append] at hself
  split_ifs at happend hself <;> omega

/-- A quote changes nothing in front of a text that does not begin with two of them. -/
theorem endsInTriples_quote (hne : text ≠ []) (hquotes : ¬ ['"', '"'] <+: text) :
    EndsInTriples ('"' :: text) ↔ EndsInTriples text := by
  by_cases hall : text.all (· = '"')
  · have hquote : ∀ c ∈ text, c = '"' :=
      fun c hc ↦ of_decide_eq_true (List.all_eq_true.mp hall c hc)
    -- of the texts of quotes only one is left
    match text with
    | [c] =>
      obtain rfl := hquote c List.mem_cons_self
      decide
    | c :: c' :: more =>
      obtain ⟨rfl, hmore⟩ := List.forall_mem_cons.mp hquote
      obtain ⟨rfl, -⟩ := List.forall_mem_cons.mp hmore
      exact absurd (List.prefix_append ['"', '"'] more) hquotes
  · have happend := trailingQuotes_append ['"'] text
    rw [if_neg hall, List.singleton_append] at happend
    rw [EndsInTriples, EndsInTriples, happend]

end Quotes

/-! ## What the three steps do together -/

section Escape

variable {front text rest : List Char} {c : Char}

/-- The last step looks at the end of the text alone. -/
theorem escapeFinalQuote_append (hne : text ≠ []) :
    escapeFinalQuote (front ++ text) = front ++ escapeFinalQuote text := by
  have hlast : (front ++ text).getLast? = text.getLast? := by
    rw [List.getLast?_append, List.getLast?_eq_some_getLast hne, Option.some_or]
  rw [escapeFinalQuote, escapeFinalQuote, hlast]
  split
  · rw [List.dropLast_append_of_ne_nil hne, List.append_assoc]
  · rfl

theorem escapeBackslashes_cons (hc : c ≠ '\\') :
    escapeBackslashes (c :: text) = c :: escapeBackslashes text := by
  rw [escapeBackslashes, List.flatMap_cons, if_neg hc]
  rfl

/-- The first step leaves quotes at the beginning as they are. -/
theorem prefix_escapeBackslashes_iff :
    ['"', '"'] <+: escapeBackslashes text ↔ ['"', '"'] <+: text := by
  have hhead (text : List Char) : ['"'] <+: escapeBackslashes text ↔ ['"'] <+: text := by
    cases text with
    | nil => rfl
    | cons c text =>
      by_cases hc : c = '\\'
      · subst hc
        simp [escapeBackslashes]
      · rw [escapeBackslashes_cons hc, List.cons_prefix_cons, List.cons_prefix_cons]
        simp
  cases text with
  | nil => rfl
  | cons c text =>
    by_cases hc : c = '\\'
    · subst hc
      simp [escapeBackslashes]
    · rw [escapeBackslashes_cons hc, List.cons_prefix_cons, List.cons_prefix_cons, hhead]

theorem escapeTripleQuotes_cons (h : ¬ documentationMark <+: c :: text) :
    escapeTripleQuotes (c :: text) = c :: escapeTripleQuotes text := by
  rw [escapeTripleQuotes.eq_2]
  rintro rest hc rfl
  subst hc
  exact h (List.prefix_append documentationMark rest)

theorem escapeTripleQuotes_ne_nil (hne : text ≠ []) : escapeTripleQuotes text ≠ [] := by
  rw [escapeTripleQuotes.eq_def]
  split
  · exact List.cons_ne_nil _ _
  · exact List.cons_ne_nil _ _
  · exact absurd rfl hne

theorem escapeBackslashes_ne_nil (hne : text ≠ []) : escapeBackslashes text ≠ [] := by
  obtain ⟨c, rest, rfl⟩ := List.exists_cons_of_ne_nil hne
  rw [escapeBackslashes, List.flatMap_cons]
  apply List.append_ne_nil_of_left_ne_nil
  split <;> exact List.cons_ne_nil _ _

/-- If the first two steps put something in front of what they make of the rest of a text, so do all
three. -/
theorem escapeDocumentation_of_rest (front : List Char) (hne : rest ≠ [])
    (h : escapeTripleQuotes (escapeBackslashes text) =
      front ++ escapeTripleQuotes (escapeBackslashes rest)) :
    escapeDocumentation text = front ++ escapeDocumentation rest := by
  rw [escapeDocumentation, h,
    escapeFinalQuote_append (escapeTripleQuotes_ne_nil (escapeBackslashes_ne_nil hne))]
  rfl

/-- A character that is no quote is kept, and doubled if it is a backslash. -/
theorem escapeDocumentation_cons (hc : c ≠ '"') (text : List Char) :
    escapeDocumentation (c :: text) =
      (if c = '\\' then ['\\', '\\'] else [c]) ++ escapeDocumentation text := by
  have hmark {c : Char} (hc : c ≠ '"') (text : List Char) : ¬ documentationMark <+: c :: text :=
    fun h ↦ hc (List.cons_prefix_cons.mp h).1.symm
  have hsteps : escapeTripleQuotes (escapeBackslashes (c :: text)) =
      (if c = '\\' then ['\\', '\\'] else [c]) ++ escapeTripleQuotes (escapeBackslashes text) := by
    split
    · rename_i hbackslash
      subst hbackslash
      have htwo : escapeBackslashes ('\\' :: text) = '\\' :: '\\' :: escapeBackslashes text := rfl
      rw [htwo, escapeTripleQuotes_cons (hmark hc _), escapeTripleQuotes_cons (hmark hc _)]
      rfl
    · rename_i hbackslash
      rw [escapeBackslashes_cons hbackslash, escapeTripleQuotes_cons (hmark hc _)]
      rfl
  cases text with
  | nil =>
    rw [escapeDocumentation, hsteps]
    split
    · rfl
    · simp [escapeFinalQuote, escapeDocumentation, escapeBackslashes, escapeTripleQuotes, hc]
  | cons c' text => exact escapeDocumentation_of_rest _ (List.cons_ne_nil _ _) hsteps

/-- A quote is kept where it is neither the last character nor the first of three quotes. -/
theorem escapeDocumentation_quote (hne : text ≠ []) (hquotes : ¬ ['"', '"'] <+: text) :
    escapeDocumentation ('"' :: text) = '"' :: escapeDocumentation text := by
  apply escapeDocumentation_of_rest ['"'] hne
  rw [escapeBackslashes_cons (by decide), escapeTripleQuotes_cons, List.singleton_append]
  intro hmark
  exact hquotes (prefix_escapeBackslashes_iff.mp (List.cons_prefix_cons.mp hmark).2)

/-- Three quotes get a backslash each where they are not the end of the text. -/
theorem escapeDocumentation_triple (hne : text ≠ []) :
    escapeDocumentation ('"' :: '"' :: '"' :: text) =
      ['\\', '"', '\\', '"', '\\', '"'] ++ escapeDocumentation text := by
  apply escapeDocumentation_of_rest _ hne
  rfl

/-- What is written for a text begins with two quotes only if the text does. -/
theorem not_prefix_escapeDocumentation (hne : text ≠ []) (hquotes : ¬ ['"', '"'] <+: text)
    (rest : List Char) : ¬ ['"', '"'] <+: escapeDocumentation text ++ rest := by
  have hother {c : Char} (hc : c ≠ '"') (text : List Char) :
      ¬ ['"'] <+: escapeDocumentation (c :: text) ++ rest := by
    rw [escapeDocumentation_cons hc]
    split <;> simp [hc.symm]
  match text with
  | [c] =>
    by_cases hc : c = '"'
    · subst hc
      simp [escapeDocumentation, escapeBackslashes, escapeTripleQuotes, escapeFinalQuote]
    · intro hprefix
      exact hother hc [] ((List.prefix_append ['"'] ['"']).trans hprefix)
  | c :: c' :: text =>
    by_cases hc : c = '"'
    · subst hc
      have hc' : c' ≠ '"' := by
        rintro rfl
        exact hquotes (List.prefix_append _ _)
      rw [escapeDocumentation_quote (List.cons_ne_nil _ _) (by simp [hc'.symm]), List.cons_append,
        List.cons_prefix_cons]
      exact fun hprefix ↦ hother hc' text hprefix.2
    · intro hprefix
      exact hother hc _ ((List.prefix_append ['"'] ['"']).trans hprefix)

end Escape

/-! ## Reading documentation -/

section Reading

variable {text rest : List Char} {c : Char}

/-- An escaped character is read as itself. -/
theorem readLiteral_escapedMark (h : escapedChar? c = some c) :
    readLiteral documentationMark .plain ('\\' :: c :: rest) =
      prepend c (readLiteral documentationMark .plain rest) := by
  have hmark : ¬ documentationMark <+: '\\' :: c :: rest := by
    intro hprefix
    exact absurd (List.cons_prefix_cons.mp hprefix).1 (by decide)
  rw [readLiteral_backslash hmark, readLiteral_escaped h]

/-- What is written for a character that is no quote is read as the character. -/
theorem readLiteral_escapeDocumentation_cons (hquote : c ≠ '"') (hc : c ≠ '\x00' ∧ c ≠ '\r') :
    readLiteral documentationMark .plain (escapeDocumentation (c :: text) ++ rest) =
      prepend c (readLiteral documentationMark .plain (escapeDocumentation text ++ rest)) := by
  rw [escapeDocumentation_cons hquote]
  split
  · rename_i hbackslash
    subst hbackslash
    exact readLiteral_escapedMark rfl
  · rename_i hbackslash
    refine readLiteral_plain ?_ hbackslash (by simp [isBarred, hc, documentationMark])
    intro hprefix
    exact hquote (List.cons_prefix_cons.mp hprefix).1.symm

/-- What is written for a quote is read as a quote where it is neither the last character nor the
first of three quotes. -/
theorem readLiteral_escapeDocumentation_quote (hne : text ≠ []) (hquotes : ¬ ['"', '"'] <+: text) :
    readLiteral documentationMark .plain (escapeDocumentation ('"' :: text) ++ rest) =
      prepend '"' (readLiteral documentationMark .plain (escapeDocumentation text ++ rest)) := by
  have hmark : ¬ documentationMark <+: '"' :: (escapeDocumentation text ++ rest) := fun hprefix ↦
    not_prefix_escapeDocumentation hne hquotes rest (List.cons_prefix_cons.mp hprefix).2
  rw [escapeDocumentation_quote hne hquotes, List.cons_append,
    readLiteral_plain hmark (by decide) (by decide)]

/-- What is written for three quotes is read as three quotes where they are not the end. -/
theorem readLiteral_escapeDocumentation_triple (hne : text ≠ []) :
    readLiteral documentationMark .plain
        (escapeDocumentation ('"' :: '"' :: '"' :: text) ++ rest) =
      prepend '"' (prepend '"' (prepend '"'
        (readLiteral documentationMark .plain (escapeDocumentation text ++ rest)))) := by
  rw [escapeDocumentation_triple hne]
  simp only [List.cons_append, List.nil_append]
  rw [readLiteral_escapedMark rfl, readLiteral_escapedMark rfl, readLiteral_escapedMark rfl]

/-- A character in front of a text that has been read, also where the end of the text is misread. -/
theorem prepend_ite (c : Char) (hne : text ≠ []) {misread : Prop} [Decidable misread]
    (rest rest' : List Char) :
    prepend c (if misread then some (text.dropLast ++ ['\\'], rest) else some (text, rest')) =
      if misread then some ((c :: text).dropLast ++ ['\\'], rest) else some (c :: text, rest') := by
  rw [List.dropLast_cons_of_ne_nil hne]
  split <;> rfl

/-- **Documentation is read back** from between its quotes, and the literal ends where it should,
exactly if the quotes at the end of the text do not come in threes. If they do, the last of them is
read as a backslash and ends the literal together with the first two quotes of the mark. -/
theorem readLiteral_documentation
    (htext : ∀ c ∈ text, c ≠ '\x00' ∧ c ≠ '\r') (rest : List Char) :
    readLiteral documentationMark .plain (escapeDocumentation text ++ (documentationMark ++ rest)) =
      if EndsInTriples text then some (text.dropLast ++ ['\\'], '"' :: rest)
      else some (text, rest) := by
  -- the cases are those of the step that looks for three quotes in a row
  induction text using escapeTripleQuotes.induct with
  | case1 text ih =>
    by_cases hnil : text = []
    · subst hnil
      rfl
    · have hrest : ∀ c ∈ text, c ≠ '\x00' ∧ c ≠ '\r' := fun c hc ↦
        htext c (List.mem_cons_of_mem _ (List.mem_cons_of_mem _ (List.mem_cons_of_mem _ hc)))
      rw [readLiteral_escapeDocumentation_triple hnil, ih hrest, prepend_ite _ hnil,
        prepend_ite _ (List.cons_ne_nil _ _), prepend_ite _ (List.cons_ne_nil _ _)]
      simp only [endsInTriples_triple hnil]
  | case2 c text hthree ih =>
    obtain ⟨hfirst, hrest⟩ := List.forall_mem_cons.mp htext
    have hread := ih hrest
    by_cases hquote : c = '"'
    · subst hquote
      by_cases hnil : text = []
      · subst hnil
        rfl
      · have hquotes : ¬ ['"', '"'] <+: text := by
          rintro ⟨more, rfl⟩
          exact hthree more rfl rfl
        rw [readLiteral_escapeDocumentation_quote hnil hquotes, hread, prepend_ite _ hnil]
        simp only [endsInTriples_quote hnil hquotes]
    · rw [readLiteral_escapeDocumentation_cons hquote hfirst, hread]
      by_cases hnil : text = []
      · subst hnil
        have hnone : ¬ EndsInTriples [c] := by
          rw [endsInTriples_cons hquote]
          decide
        rw [if_neg hnone]
        rfl
      · rw [prepend_ite _ hnil]
        simp only [endsInTriples_cons hquote]
  | case3 => rfl

/-- Backslashes and quotes next to each other, runs of one, two, four and five quotes, and a quote
at the end. -/
theorem readLiteral_documentation_bristling :
    let text := "\"a\\\" \"\"\\\"\"\"\"b\n\"\"\"\"\"\\\\ \"\"\"\"".toList
    (∀ c ∈ text, c ≠ '\x00' ∧ c ≠ '\r') ∧
      readLiteral documentationMark .plain
          (escapeDocumentation text ++ (documentationMark ++ "\n    pass".toList)) =
        some (text, "\n    pass".toList) := by
  intro text
  have hall : text.all fun c ↦ c ≠ '\x00' ∧ c ≠ '\r' := by decide
  have htext : ∀ c ∈ text, c ≠ '\x00' ∧ c ≠ '\r' := fun c hc ↦
    of_decide_eq_true (List.all_eq_true.mp hall c hc)
  have hend : ¬ EndsInTriples text := by decide
  exact ⟨htext, (readLiteral_documentation htext _).trans (if_neg hend)⟩

/-- Three double quotes are not read back, and the literal ends before its last quote. -/
theorem exists_misread_documentation :
    ∃ text : List Char, (∀ c ∈ text, c ≠ '\x00' ∧ c ≠ '\r') ∧
      readLiteral documentationMark .plain (escapeDocumentation text ++ documentationMark) ≠
        some (text, []) :=
  ⟨['"', '"', '"'], by simp, by decide⟩

end Reading

end SchemaTree
