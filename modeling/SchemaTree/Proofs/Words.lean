import SchemaTree.Proofs.Identifiers
import SchemaTree.Proofs.StringLiterals
import SchemaTree.Proofs.Values

/-!
# Words in values

Not every word in a type is one that the type is said to use. A value that has neither digits nor
quotes is written as a word, and which word that is depends on the notation: a displayed value has
`None` or `nan` in it where a JSON text has `null` or `NaN` (`ValueWords`). Types have displayed
values in guarded literals and JSON texts in descriptions.

Main statement (`TypeExpr.uses_words`): whatever its values are, the text of a type uses the
identifiers it is said to use and the words of its values, keywords apart. There is no condition on
literals and descriptions. Both notations write lists and objects alike, so one induction over
values serves for both (`Json.IsLineForm.uses`). The values of a legible type have no words but
keywords, so that its text uses what the type is said to use and nothing else
(`TypeExpr.uses_write`). -/

namespace SchemaTree

open Json Text
open scoped List

/-! ## Displayed texts -/

namespace Text

section Quotes

variable {quote c : Char} {rest : List Char}

theorem exists_digitChar_of_mem_toDigits {n : ℕ} (h : c ∈ Nat.toDigits 16 n) :
    ∃ d < 16, c = Nat.digitChar d := by
  induction n using Nat.strongRecOn with
  | ind n ih =>
    rcases Nat.lt_or_ge n 16 with hn | hn
    · rw [Nat.toDigits_of_lt_base hn, List.mem_singleton] at h
      exact ⟨n, hn, h⟩
    · rw [Nat.toDigits_of_base_le (by decide) hn, List.mem_append, List.mem_singleton] at h
      rcases h with h | h
      · exact ih (n / 16) (Nat.div_lt_self (by omega) (by decide)) h
      · exact ⟨n % 16, Nat.mod_lt n (by decide), h⟩

theorem isAlphanum_of_mem_hex {width n : ℕ} (h : c ∈ hex width n) : c.isAlphanum := by
  have hall : ∀ d < 16, (Nat.digitChar d).isAlphanum := by decide
  rw [hex, List.mem_append] at h
  rcases h with h | h
  · rw [List.eq_of_mem_replicate h]
    rfl
  · obtain ⟨d, hd, rfl⟩ := exists_digitChar_of_mem_toDigits h
    exact hall d hd

section Display

variable (hquote : quote = '\'' ∨ quote = '"')
include hquote

/-- A code is read over with the letter that announces it. -/
theorem identifiersFrom_escapedCode (letter : Char) (width n : ℕ) :
    identifiersFrom (.quoted quote) ('\\' :: letter :: (hex width n ++ rest)) =
      identifiersFrom (.quoted quote) rest := by
  have hplain : ¬ '\\'.isAlphanum ∧ ¬ quote.isAlphanum := by
    rcases hquote with rfl | rfl <;> decide
  have hdigits : ∀ c ∈ hex width n, c ≠ '\\' ∧ c ≠ quote := by
    intro c hc
    have halphanum := isAlphanum_of_mem_hex hc
    constructor
    · rintro rfl
      exact hplain.1 halphanum
    · rintro rfl
      exact hplain.2 halphanum
  have hread := @identifiersFrom_quoted rest _ _ hdigits
  simpa [identifiersFrom, Reading.step] using hread

/-- Between the quotes of a displayed text, what stands for a character is read over. -/
theorem identifiersFrom_displayChar (c : Char) :
    identifiersFrom (.quoted quote) (displayChar quote c ++ rest) =
      identifiersFrom (.quoted quote) rest := by
  have hbackslash (b : Char) : identifiersFrom (.quoted quote) (['\\', b] ++ rest) =
      identifiersFrom (.quoted quote) rest := by
    simp [identifiersFrom, Reading.step]
  rw [displayChar]
  split_ifs with hescape
  · exact hbackslash c
  · exact hbackslash 'n'
  · exact hbackslash 'r'
  · exact hbackslash 't'
  · rw [not_or] at hescape
    exact identifiersFrom_quoted (List.forall_mem_singleton.mpr ⟨hescape.2, hescape.1⟩)
  · exact identifiersFrom_escapedCode hquote 'x' 2 c.toNat
  · exact identifiersFrom_escapedCode hquote 'u' 4 c.toNat
  · exact identifiersFrom_escapedCode hquote 'U' 8 c.toNat

end Display

/-- A displayed text uses no identifier. -/
theorem Uses.displayed (text : List Char) : Uses (displayQuoted text) [] := by
  intro rest _
  have hquote := displayQuote_cases text
  rw [displayQuoted]
  generalize displayQuote text = quote at hquote ⊢
  have hopening : isWordPart quote = false ∧ quote ≠ '=' ∧ (quote = '"' ∨ quote = '\'') := by
    rcases hquote with rfl | rfl <;> decide
  have hclosing : quote ≠ '\\' := by
    rcases hquote with rfl | rfl <;> decide
  have htext : identifiersFrom (.quoted quote) (text.flatMap (displayChar quote) ++ quote :: rest) =
      identifiersIn rest := by
    induction text with
    | nil => simp [identifiersIn, identifiersFrom, Reading.step, hclosing]
    | cons c text ih =>
      rw [List.flatMap_cons, List.append_assoc, identifiersFrom_displayChar hquote, ih]
  rw [List.nil_append, List.cons_append, List.append_assoc, identifiersIn, identifiersFrom,
    Reading.step, hopening.1, if_neg Bool.false_ne_true, if_neg hopening.2.1, if_pos hopening.2.2]
  exact List.Perm.of_eq htext

end Quotes

/-- An equals sign that has no name before it. -/
theorem Uses.equals {text : List Char} {names : List String} (h : Uses text names) :
    Uses ('=' :: text) names := by
  intro rest hrest
  have hargument : identifiersIn ([] ++ '=' :: (text ++ rest)) = identifiersIn (text ++ rest) :=
    identifiersIn_argument nofun
  exact (List.Perm.of_eq hargument).trans (h rest hrest)

/-- Pieces with commas between them use what the pieces use. -/
theorem Uses.joined {α : Type} {text : α → List Char} {names : α → List String} {parts : List α}
    (h : ∀ a ∈ parts, Uses (text a) (spoken (names a))) :
    Uses (joinWith [',', ' '] (parts.map text)) (spoken (parts.flatMap names)) := by
  induction parts with
  | nil => exact Uses.nil
  | cons a parts ih =>
    obtain ⟨ha, hparts⟩ := List.forall_mem_cons.mp h
    cases parts with
    | nil =>
      rw [List.flatMap_singleton]
      exact ha
    | cons b parts =>
      have hjoined : joinWith [',', ' '] ((a :: b :: parts).map text) =
          text a ++ ',' :: ' ' :: joinWith [',', ' '] ((b :: parts).map text) := by
        rw [List.map_cons, List.map_cons, joinWith]
        · rw [List.append_assoc]
          rfl
        · exact nofun
      rw [hjoined, List.flatMap_cons, spoken_append]
      exact ha.separated (ih hparts)

end Text

/-! ## Words of values -/

/-- How a notation writes what has neither digits nor quotes: null, the two flags, and the numbers
that are infinite or NaN. -/
structure ValueWords where
  null : String
  yes : String
  no : String
  numbers : Decimal.Layout
  isWord_of_mem : ∀ word ∈ [null, yes, no, numbers.nan, numbers.infinity], isWord word.toList
  negative : numbers.negativeInfinity.toList = '-' :: numbers.infinity.toList

namespace ValueWords

/-- The words of displayed values. -/
def displayed : ValueWords := ⟨"None", "True", "False", .display, by decide, by decide⟩

/-- The words of JSON texts. -/
def document : ValueWords := ⟨"null", "true", "false", .document, by decide, by decide⟩

/-- All words of a notation. -/
def all (w : ValueWords) : List String := [w.null, w.yes, w.no, w.numbers.nan, w.numbers.infinity]

/-- The words of a number. -/
def ofBinary (w : ValueWords) : Decimal.Binary → List String
  | .nan => [w.numbers.nan]
  | .infinite _ => [w.numbers.infinity]
  | .zero _ | .finite .. => []

variable (w : ValueWords)

theorem ofBinary_subset (b : Decimal.Binary) : w.ofBinary b ⊆ w.all := by
  cases b <;> simp [ofBinary, all]

theorem uses_text (b : Decimal.Binary) : Uses (w.numbers.text b) (spoken (w.ofBinary b)) := by
  cases b with
  | nan => exact Uses.word (w.isWord_of_mem _ (by simp))
  | infinite negative =>
    have hinfinity := Uses.word (w.isWord_of_mem w.numbers.infinity (by simp))
    cases negative with
    | false => exact hinfinity
    | true =>
      change Uses w.numbers.negativeInfinity.toList _
      rw [w.negative]
      exact hinfinity.mark (by decide)
  | zero negative => exact Decimal.uses_text w.numbers rfl
  | finite negative mantissa exponent narrow => exact Decimal.uses_text w.numbers rfl

end ValueWords

namespace Json

variable {w : ValueWords}

mutual

/-- The words in the text of a value. -/
def wordsIn (w : ValueWords) : Json → List String
  | .null => [w.null]
  | .bool b => [if b then w.yes else w.no]
  | .float x => w.ofBinary (.ofFloat x)
  | .int _ | .str _ => []
  | .arr elements => elementWords w elements
  | .obj members => memberWords w members

/-- The words in the texts of the elements of a list. -/
def elementWords (w : ValueWords) : List Json → List String
  | [] => []
  | x :: rest => wordsIn w x ++ elementWords w rest

/-- The words in the texts of the members of an object. -/
def memberWords (w : ValueWords) : List (String × Json) → List String
  | [] => []
  | (_, x) :: rest => wordsIn w x ++ memberWords w rest

end

theorem elementWords_eq (elements : List Json) :
    elementWords w elements = elements.flatMap (wordsIn w) := by
  induction elements with
  | nil => rfl
  | cons e es ih => rw [elementWords, ih, List.flatMap_cons]

theorem memberWords_eq (members : List (String × Json)) :
    memberWords w members = members.flatMap fun m ↦ m.2.wordsIn w := by
  induction members with
  | nil => rfl
  | cons m ms ih => rw [memberWords, ih, List.flatMap_cons]

/-- The words in a text are words of its notation. -/
theorem wordsIn_subset (value : Json) : value.wordsIn w ⊆ w.all := by
  induction value using Json.induction with
  | null => simp [wordsIn, ValueWords.all]
  | bool b => cases b <;> simp [wordsIn, ValueWords.all]
  | int n => exact List.nil_subset _
  | float x => exact w.ofBinary_subset _
  | str s => exact List.nil_subset _
  | arr elements ih =>
    rw [wordsIn, elementWords_eq]
    exact List.forall_mem_flatMap.mpr fun a ha _ hword ↦ ih a ha hword
  | obj members ih =>
    rw [wordsIn, memberWords_eq]
    exact List.forall_mem_flatMap.mpr fun a ha _ hword ↦ ih a ha hword

/-- A notation that writes every value on one line, with the words it has for values and a way to
put strings between quotes. -/
structure IsLineForm (w : ValueWords) (quoted : List Char → List Char) (text : Json → List Char) :
    Prop where
  uses_quoted : ∀ s, Uses (quoted s) []
  null : text .null = w.null.toList
  bool : ∀ b, text (.bool b) = (if b then w.yes else w.no).toList
  int : ∀ n, text (.int n) = (toString n).toList
  float : ∀ x, text (.float x) = w.numbers.text (.ofFloat x)
  str : ∀ s, text (.str s) = quoted s.toList
  arr : ∀ elements, text (.arr elements) = '[' :: (joinWith [',', ' '] (elements.map text) ++ [']'])
  obj : ∀ members, text (.obj members) = '\x7b' :: (joinWith [',', ' ']
    (members.map fun m ↦ quoted m.1.toList ++ ':' :: ' ' :: text m.2) ++ ['\x7d'])

/-- **The text of a value uses its words**, keywords apart. -/
theorem IsLineForm.uses {quoted : List Char → List Char} {text : Json → List Char}
    (h : IsLineForm w quoted text) (value : Json) :
    Uses (text value) (spoken (value.wordsIn w)) := by
  have hbrackets {opening closing : Char} {pieces : List Char} {names : List String}
      (hopening : isMark opening) (hclosing : isMark closing) (hpieces : Uses pieces names) :
      Uses (opening :: (pieces ++ [closing])) names := by
    have hinner := hpieces.append_mark hclosing Uses.nil
    rw [List.append_nil] at hinner
    exact hinner.mark hopening
  induction value using Json.induction with
  | null => exact h.null ▸ Uses.word (w.isWord_of_mem _ (by simp))
  | bool b =>
    rw [h.bool, wordsIn]
    cases b with
    | true => exact Uses.word (w.isWord_of_mem _ (by simp))
    | false => exact Uses.word (w.isWord_of_mem _ (by simp))
  | int n => exact h.int n ▸ uses_whole n
  | float x => exact h.float x ▸ w.uses_text _
  | str s => exact h.str s ▸ h.uses_quoted _
  | arr elements ih =>
    rw [h.arr, wordsIn, elementWords_eq]
    exact hbrackets (by decide) (by decide) (Uses.joined ih)
  | obj members ih =>
    have hmember : ∀ m ∈ members, Uses (quoted m.1.toList ++ ':' :: ' ' :: text m.2)
        (spoken (m.2.wordsIn w)) := fun m hm ↦
      (h.uses_quoted m.1.toList).append_mark (by decide) ((ih m hm).mark (by decide))
    rw [h.obj, wordsIn, memberWords_eq]
    exact hbrackets (by decide) (by decide) (Uses.joined hmember)

theorem isLineForm_displayChars : IsLineForm .displayed displayQuoted displayChars where
  uses_quoted := Uses.displayed
  null := rfl
  bool b := by cases b <;> rfl
  int _ := rfl
  float _ := rfl
  str _ := rfl
  arr elements := by rw [displayChars, displayElements_eq_map]
  obj members := by
    rw [displayChars, displayMembers_eq_map]
    rfl

/-- On one line brackets stand right around what is between them. -/
theorem bracket_document (level : ℕ) (opening closing : Char) (pieces : List (List Char)) :
    (Style.document none).bracket level opening closing pieces =
      opening :: (joinWith [',', ' '] pieces ++ [closing]) := by
  rw [Style.bracket]
  cases pieces with
  | nil => rfl
  | cons piece pieces =>
    rw [List.isEmpty_cons, if_neg Bool.false_ne_true, List.append_assoc]
    rfl

/-- On one line a value is written alike at all levels. -/
theorem write_document (level : ℕ) (value : Json) :
    value.write (.document none) level = value.write (.document none) 0 := by
  induction value using Json.induction generalizing level with
  | null | bool | int | float | str => rfl
  | arr elements ih =>
    rw [write, write, bracket_document, bracket_document, writeElements_eq_map,
      writeElements_eq_map,
        List.map_congr_left fun e he ↦ (ih e he (level + 1)).trans (ih e he (0 + 1)).symm]
  | obj members ih =>
    rw [write, write, bracket_document, bracket_document, writeMembers_eq_map, writeMembers_eq_map,
      List.map_congr_left fun m hm ↦
        congrArg _ ((ih m hm (level + 1)).trans (ih m hm (0 + 1)).symm)]

theorem isLineForm_write : IsLineForm .document doubleQuoted (write (.document none) 0) where
  uses_quoted := Uses.quoted
  null := rfl
  bool b := by cases b <;> rfl
  int _ := rfl
  float _ := rfl
  str _ := rfl
  arr elements := by
    rw [write, bracket_document, writeElements_eq_map,
      List.map_congr_left fun e _ ↦ write_document (0 + 1) e]
  obj members := by
    have hmember (m : String × Json) : (Style.document none).string m.1 ++
        (Style.document none).colon ++ m.2.write (.document none) (0 + 1) =
          doubleQuoted m.1.toList ++ ':' :: ' ' :: m.2.write (.document none) 0 := by
      rw [write_document, List.append_assoc]
      rfl
    rw [write, bracket_document, writeMembers_eq_map, List.map_congr_left fun m _ ↦ hmember m]

end Json

/-! ## Words of types -/

/-- Parts that have two halves use what all first halves and all second halves do. -/
theorem append_append_perm {α : Type} (a b c d : List α) :
    (a ++ b) ++ (c ++ d) ~ (a ++ c) ++ (b ++ d) := by
  rw [List.append_assoc, List.append_assoc]
  exact (List.perm_append_comm_assoc b c d).append_left a

namespace TypeExpr

mutual

/-- The words of the values in the text of a type expression. -/
def valueWords : TypeExpr → List String
  | .guarded value => value.toJson.wordsIn .displayed ++ value.toJson.wordsIn .displayed
  | .list inner | .optional inner => valueWords inner
  | .union options => valueWordsAll options
  | .described inner description => valueWords inner ++ description.wordsIn .document
  | .scalar _ | .any | .literal _ | .name _ | .forward _ => []

/-- The words of the values in the texts of several type expressions. -/
def valueWordsAll : List TypeExpr → List String
  | [] => []
  | a :: rest => valueWords a ++ valueWordsAll rest

end

/-- The words in the text of a type expression: the identifiers it is said to use, and the words of
its values. -/
def words (type : TypeExpr) : List String := type.identifiers ++ type.valueWords

mutual

/-- The values in a type have words of two notations. -/
theorem valueWords_subset : ∀ type : TypeExpr,
    type.valueWords ⊆ ValueWords.displayed.all ++ ValueWords.document.all
  | .guarded value => by
    have hwords := List.subset_append_of_subset_left ValueWords.document.all
      (wordsIn_subset (w := .displayed) value.toJson)
    exact List.append_subset.mpr ⟨hwords, hwords⟩
  | .list inner | .optional inner => valueWords_subset inner
  | .union options => valueWordsAll_subset options
  | .described inner description =>
    List.append_subset.mpr ⟨valueWords_subset inner,
      List.subset_append_of_subset_right _ (wordsIn_subset description)⟩
  | .scalar _ | .any | .literal _ | .name _ | .forward _ => List.nil_subset _

theorem valueWordsAll_subset : ∀ types : List TypeExpr,
    valueWordsAll types ⊆ ValueWords.displayed.all ++ ValueWords.document.all
  | [] => List.nil_subset _
  | a :: rest => List.append_subset.mpr ⟨valueWords_subset a, valueWordsAll_subset rest⟩

end

/-- The text of a guarded literal has its value in it twice. -/
theorem uses_guarded (value : Scalar) :
    Uses (write (.guarded value)) (spoken (words (.guarded value))) := by
  have hvalue := isLineForm_displayChars.uses value.toJson
  have hliteral := hvalue.subscript (w := "Literal") (by decide)
  have hguard := (hvalue.call (w := "_exact_literal") (by decide)).call (w := "BeforeValidator")
    (by decide)
  have hall := (hliteral.separated hguard).subscript (w := "Annotated") (by decide)
  rw [write_guarded]
  refine hall.congr ?_
  rw [words, identifiers, valueWords, spoken_append, spoken_append]
  -- the value stands between the two calls, and again behind them
  have hperm := append_append_perm ["Literal"] (spoken (value.toJson.wordsIn .displayed))
    ["BeforeValidator", "_exact_literal"] (spoken (value.toJson.wordsIn .displayed))
  exact hperm.append_left ["Annotated"]

theorem uses_described {inner : TypeExpr} (h : Uses inner.write (spoken inner.words))
    (description : Json) :
    Uses (write (.described inner description))
      (spoken (words (.described inner description))) := by
  have hdescription := isLineForm_write.uses description
  have hfield := (hdescription.argument (w := "description") (by decide)).call (w := "Field")
    (by decide)
  have hall := (h.separated hfield).subscript (w := "Annotated") (by decide)
  rw [write_described]
  have hwords : spoken (words (.described inner description)) = ["Annotated"] ++ (["Field"] ++
      (spoken inner.words ++ spoken (description.wordsIn .document))) := by
    rw [← spoken_append, words, identifiers, valueWords, words, List.append_assoc]
    rfl
  rw [hwords]
  exact hall.congr ((List.perm_append_comm_assoc _ _ _).append_left _)

mutual

/-- **The words in the text of a type** are the identifiers it is said to use and the words of its
values, keywords apart, if it only names definitions by words. -/
theorem uses_words : ∀ type : TypeExpr, (∀ name ∈ type.identifiers, isWord name.toList) →
    Uses type.write (spoken type.words)
  | .scalar type, _ => uses_identifier type
  | .any, _ => Uses.word (by decide)
  | .literal text, _ => by
    rw [write_literal]
    exact (Uses.quoted _).subscript (by decide)
  | .guarded value, _ => uses_guarded value
  | .name definition, h => Uses.word (h definition (List.mem_singleton_self _))
  | .forward definition, _ => Uses.quoted _
  | .list element, h => by
    have helement := uses_words element fun name hname ↦ h name (List.mem_cons_of_mem _ hname)
    rw [write_list]
    exact helement.subscript (w := "list") (by decide)
  | .optional inner, h => by
    have hinner := uses_words inner fun name hname ↦ h name (List.mem_cons_of_mem _ hname)
    rw [write_optional]
    exact hinner.subscript (w := "Optional") (by decide)
  | .union options, h => by
    have hoptions := uses_wordsAll options fun name hname ↦ h name (List.mem_cons_of_mem _ hname)
    rw [write_union]
    exact hoptions.subscript (w := "Union") (by decide)
  | .described inner description, h => by
    refine uses_described (uses_words inner fun name hname ↦ h name ?_) description
    exact List.mem_cons_of_mem _ (List.mem_cons_of_mem _ hname)

/-- The words in the texts of several types. -/
theorem uses_wordsAll : ∀ types : List TypeExpr,
    (∀ name ∈ identifiersAll types, isWord name.toList) →
      Uses (joinWith [',', ' '] (writeAll types))
        (spoken (identifiersAll types ++ valueWordsAll types))
  | [], _ => Uses.nil
  | [a], h => by
    have ha := uses_words a fun name hname ↦ h name (List.mem_append_left _ hname)
    rw [identifiersAll, identifiersAll, valueWordsAll, valueWordsAll, List.append_nil,
      List.append_nil]
    exact ha
  | a :: b :: rest, h => by
    have ha := uses_words a fun name hname ↦ h name (List.mem_append_left _ hname)
    have hrest := uses_wordsAll (b :: rest) fun name hname ↦ h name (List.mem_append_right _ hname)
    rw [joinWith_writeAll_cons]
    refine (ha.separated hrest).congr ?_
    rw [← spoken_append, identifiersAll, valueWordsAll, words]
    exact (append_append_perm _ _ _ _).filter _

end

/-! ### Legible types -/

theorem spoken_wordsIn_of_isWordless {value : Scalar} (h : value.IsWordless) :
    spoken (value.toJson.wordsIn .displayed) = [] := by
  cases value with
  | text s => exact h.elim
  | flag b => cases b <;> decide
  | whole n => rfl
  | real x =>
    change (Decimal.Binary.ofFloat x).isFinite = true at h
    rw [Scalar.toJson, wordsIn]
    cases hx : Decimal.Binary.ofFloat x with
    | nan | infinite => cases hx ▸ h
    | zero | finite => rfl

mutual

/-- The values of a legible type have no words but keywords. -/
theorem spoken_valueWords : ∀ type : TypeExpr, type.IsLegible → spoken type.valueWords = []
  | .guarded value, h => by
    rw [valueWords, spoken_append, spoken_wordsIn_of_isWordless h]
    rfl
  | .list inner, h | .optional inner, h => spoken_valueWords inner h
  | .union options, h => spoken_valueWordsAll options h
  | .described inner description, h => by
    obtain ⟨hinner, s, rfl⟩ := h
    rw [valueWords, spoken_append, spoken_valueWords inner hinner]
    rfl
  | .scalar _, _ | .any, _ | .literal _, _ | .name _, _ | .forward _, _ => rfl

theorem spoken_valueWordsAll : ∀ types : List TypeExpr, AreLegible types →
    spoken (valueWordsAll types) = []
  | [], _ => rfl
  | a :: rest, h => by
    rw [valueWordsAll, spoken_append, spoken_valueWords a h.1, spoken_valueWordsAll rest h.2]
    rfl

end

mutual

/-- A legible type names everything by words. -/
theorem isWord_of_isLegible : ∀ type : TypeExpr, type.IsLegible →
    ∀ name ∈ type.identifiers, isWord name.toList
  | .scalar type, _ => by cases type <;> decide
  | .any, _ | .literal _, _ => List.forall_mem_singleton.mpr (by decide)
  | .guarded _, _ => by
    have hguarded : ∀ name ∈ ["Annotated", "Literal", "BeforeValidator", "_exact_literal"],
        isWord name.toList := by decide
    exact hguarded
  | .forward _, _ => nofun
  | .name definition, h => List.forall_mem_singleton.mpr h
  | .list inner, h | .optional inner, h =>
    List.forall_mem_cons.mpr ⟨by decide, isWord_of_isLegible inner h⟩
  | .union options, h => List.forall_mem_cons.mpr ⟨by decide, isWord_of_areLegible options h⟩
  | .described inner _, h =>
    List.forall_mem_cons.mpr ⟨by decide, List.forall_mem_cons.mpr
      ⟨by decide, isWord_of_isLegible inner h.1⟩⟩

theorem isWord_of_areLegible : ∀ types : List TypeExpr, AreLegible types →
    ∀ name ∈ identifiersAll types, isWord name.toList
  | [], _ => nofun
  | a :: rest, h =>
    List.forall_mem_append.mpr ⟨isWord_of_isLegible a h.1, isWord_of_areLegible rest h.2⟩

end

/-- **The identifiers in the text of a legible type** are those it is said to use. -/
theorem uses_write (type : TypeExpr) (h : type.IsLegible) :
    Uses type.write (spoken type.identifiers) := by
  have hwords : spoken type.words = spoken type.identifiers := by
    rw [words, spoken_append, spoken_valueWords type h, List.append_nil]
  exact hwords ▸ uses_words type (isWord_of_isLegible type h)

end TypeExpr

end SchemaTree
