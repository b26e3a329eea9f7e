import SchemaTree.Proofs.Legibility
import SchemaTree.Proofs.Parsing
import SchemaTree.Proofs.StringLiterals

/-!
# Expressions

A class module has values in it, the defaults of its fields and its literals, and they stand there
as expressions. `Expression.parse` reads a text as an expression: names, numbers, texts between
quotes, opposites, lists and records. `Expression.eval` is the value of an expression that has one
where no name is defined, so the only names with a value are `None`, `True` and `False`.

Main statement: the text that is displayed for a value is read as the expression `Expression.ofJson`
of the value, unless a whole number in it has too many digits (`parse_displayChars`). This is an
induction over the value (`readsBack`). Lists and objects are both items between commas
(`readItems_text`); a number is read up to its sign, so the numbers come with their opposites.

The reader knows the expressions that values are written as and gives up at all others: behind an
expression there is a comma, a colon, a closing bracket or the end. How deeply brackets may be
nested is not bounded. -/

namespace SchemaTree

open Json (displayElements_eq_map displayMembers_eq_map joinWith memberChars)

/-! ## Opposites of binary64 numbers -/

namespace Decimal

variable {x : Float} {b : Binary}

/-- Whether there is a minus sign in front. -/
def Binary.isNegative : Binary → Bool
  | .nan => false
  | .infinite negative | .zero negative | .finite negative _ _ _ => negative

/-- The same number with the other sign. -/
def Binary.opposite : Binary → Binary
  | .nan => .nan
  | .infinite negative => .infinite !negative
  | .zero negative => .zero !negative
  | .finite negative mantissa exponent narrow => .finite (!negative) mantissa exponent narrow

theorem Binary.isFinite_ofFloat_iff :
    (Binary.ofFloat x).isFinite ↔ x.toBits.toNat / 2 ^ 52 % 2 ^ 11 ≠ 2047 := by
  rw [Binary.ofFloat, ofBits_eq]
  dsimp only
  split_ifs <;> simp_all [Binary.isFinite]

/-- Opposite numbers differ in their signs. -/
theorem Binary.ofFloat_neg (h : (Binary.ofFloat x).isFinite) :
    Binary.ofFloat (-x) = (Binary.ofFloat x).opposite := by
  have hx := x.toBits.toNat_lt
  have hexponent := Binary.isFinite_ofFloat_iff.mp h
  have hbits := toNat_toBits_neg hexponent
  have hbiased : (-x).toBits.toNat / 2 ^ 52 % 2 ^ 11 = x.toBits.toNat / 2 ^ 52 % 2 ^ 11 := by omega
  have hfraction : (-x).toBits.toNat % 2 ^ 52 = x.toBits.toNat % 2 ^ 52 := by omega
  have hsign : decide ((-x).toBits.toNat / 2 ^ 63 % 2 = 1) =
      !decide (x.toBits.toNat / 2 ^ 63 % 2 = 1) := by
    rw [← decide_not, decide_eq_decide]
    omega
  rw [Binary.ofFloat, Binary.ofFloat, ofBits_eq, ofBits_eq]
  dsimp only
  rw [hbiased, hfraction, hsign]
  split_ifs <;> rfl

@[simp] theorem Binary.isFinite_opposite (b : Binary) : b.opposite.isFinite = b.isFinite := by
  cases b <;> rfl

theorem Binary.isNegative_opposite (h : b.isFinite) : b.opposite.isNegative = !b.isNegative := by
  cases b with
  | nan | infinite => cases h
  | zero | finite => rfl

theorem neg_neg_of_isFinite (h : (Binary.ofFloat x).isFinite) : - -x = x := by
  have hx := x.toBits.toNat_lt
  have hexponent := Binary.isFinite_ofFloat_iff.mp h
  have hbits := toNat_toBits_neg hexponent
  have hback : (- -x).toBits.toNat = x.toBits.toNat := by
    rw [toNat_toBits_neg (by omega), hbits]
    omega
  rw [← Float.ofBits_toBits (- -x), UInt64.toNat_inj.mp hback, Float.ofBits_toBits]

/-- A negative number is written as a minus sign and its opposite. -/
theorem Layout.text_of_isNegative (layout : Layout) (hfinite : b.isFinite) (h : b.isNegative) :
    layout.text b = '-' :: layout.text b.opposite := by
  cases b with
  | nan => cases hfinite
  | infinite negative => cases hfinite
  | zero negative =>
    obtain rfl : negative = true := h
    rfl
  | finite negative m q narrow =>
    obtain rfl : negative = true := h
    rfl

/-- A number without a minus sign is written with a digit first. -/
theorem Layout.exists_text_eq_cons (layout : Layout) (hfinite : b.isFinite)
    (h : b.isNegative = false) :
    ∃ c cs, layout.text b = c :: cs ∧ c.isDigit := by
  cases b with
  | nan => cases hfinite
  | infinite negative => cases hfinite
  | zero negative =>
    obtain rfl : negative = false := h
    exact ⟨'0', _, rfl, rfl⟩
  | finite negative m q narrow =>
    obtain rfl : negative = false := h
    exact Json.exists_layout_eq_cons layout _

end Decimal

/-! ## Expressions -/

/-- An expression of a class module, as far as values are written as expressions. -/
inductive Expression where
  | name (word : String)
  | whole (n : Int)
  | real (x : Float)
  | text (s : String)
  | negated (operand : Expression)
  | list (elements : List Expression)
  | record (members : List (Expression × Expression))

namespace Expression

mutual

/-- The names that an expression uses. -/
def names : Expression → List String
  | .name word => [word]
  | .whole _ | .real _ | .text _ => []
  | .negated operand => names operand
  | .list elements => namesAll elements
  | .record members => namesMembers members

/-- The names that several expressions use. -/
def namesAll : List Expression → List String
  | [] => []
  | e :: rest => names e ++ namesAll rest

/-- The names that keys and values use. -/
def namesMembers : List (Expression × Expression) → List String
  | [] => []
  | (key, value) :: rest => names key ++ names value ++ namesMembers rest

end

/-- The names that have a value of their own. -/
def constant? : String → Option Json
  | "None" => some .null
  | "True" => some (.bool true)
  | "False" => some (.bool false)
  | _ => none

/-- The opposite of a number; a flag counts as zero or one. -/
def opposite? : Json → Option Json
  | .bool b => some (.int (if b then -1 else 0))
  | .int n => some (.int (-n))
  | .float x => some (.float (-x))
  | _ => none

mutual

/-- The value of an expression, where no name is defined. A record has texts as its keys; of members
with the same key the first one counts for the place and the last one for the value. -/
def eval : Expression → Option Json
  | .name word => constant? word
  | .whole n => some (.int n)
  | .real x => some (.float x)
  | .text s => some (.str s)
  | .negated operand => eval operand >>= opposite?
  | .list elements => .arr <$> evalAll elements
  | .record members => (fun ms ↦ .obj (Json.Members.ofList ms)) <$> evalMembers members

/-- The values of several expressions. -/
def evalAll : List Expression → Option (List Json)
  | [] => some []
  | e :: rest => do
    let value ← eval e
    let values ← evalAll rest
    return value :: values

/-- The keys and values of members. -/
def evalMembers : List (Expression × Expression) → Option (List (String × Json))
  | [] => some []
  | (key, e) :: rest => do
    let key ← eval key >>= Json.asString?
    let value ← eval e
    let members ← evalMembers rest
    return (key, value) :: members

end

/-! ## Reading -/

/-- Goes on behind an item: up to the closing bracket, or with the other items. -/
def closeItems {α : Type} (closing : Char)
    (others : List Char → Option (List α × List Char)) (a : α)
    (cs : List Char) : Option (List α × List Char) :=
  match Json.skipBlanks cs with
  | [] => none
  | c :: rest =>
    if c = closing then some ([a], rest)
    else if c = ',' then (others rest).map fun (items, rest) ↦ (a :: items, rest)
    else none

/-- Reads items up to a closing bracket, with a comma after each but the last one, where there may
be one. -/
def readItems {α : Type} (item : List Char → Option (α × List Char)) (closing : Char) :
    Nat → List Char → Option (List α × List Char)
  | 0, _ => none
  | fuel + 1, cs =>
    match Json.skipBlanks cs with
    | [] => none
    | c :: rest =>
      if c = closing then some ([], rest)
      else (item (c :: rest)).bind fun (a, rest) ↦
        closeItems closing (readItems item closing fuel) a rest

/-- Reads a key, a colon and a value. -/
def readMember (item : List Char → Option (Expression × List Char)) (cs : List Char) :
    Option ((Expression × Expression) × List Char) :=
  (item cs).bind fun (key, rest) ↦
    match Json.skipBlanks rest with
    | [] => none
    | c :: rest =>
      if c = ':' then (item (Json.skipBlanks rest)).map fun (value, rest) ↦ ((key, value), rest)
      else none

/-- A number that has been read, as an expression. -/
def ofNumber? : Except Json.Stuck (Json × List Char) → Option (Expression × List Char)
  | .ok (.int n, rest) => some (.whole n, rest)
  | .ok (.float x, rest) => some (.real x, rest)
  | _ => none

/-- Reads the expression at the front of a text. The recursion is bounded by a number that every
call lowers. -/
def read : Nat → List Char → Option (Expression × List Char)
  | 0, _ => none
  | _ + 1, [] => none
  | fuel + 1, c :: rest =>
    if c = '[' then
      (readItems (read fuel) ']' fuel rest).map fun (elements, rest) ↦ (.list elements, rest)
    else if c = '\x7b' then
      (readItems (readMember (read fuel)) '\x7d' fuel rest).map fun (members, rest) ↦
        (.record members, rest)
    else if c = '-' then
      (read fuel (Json.skipBlanks rest)).map fun (operand, rest) ↦ (.negated operand, rest)
    else if c = '\'' ∨ c = '"' then
      (Text.readLiteral [c] .plain rest).map fun (s, rest) ↦ (.text (String.ofList s), rest)
    else if c.isDigit then ofNumber? (Json.readNumber (c :: rest))
    else if Text.isIdentifierStart c then
      some (.name (String.ofList (c :: rest.takeWhile Text.isIdentifierPart)),
        rest.dropWhile Text.isIdentifierPart)
    else none

/-- Reads a text that is an expression as a whole. -/
def parse (cs : List Char) : Option Expression :=
  match read (cs.length + 1) cs with
  | some (e, []) => some e
  | _ => none

/-! ## Values as expressions -/

/-- An expression, or the opposite of it. -/
def signed (negative : Bool) (e : Expression) : Expression := if negative then .negated e else e

/-- The expression that a binary64 is written as. -/
def ofFloat (x : Float) : Expression :=
  let b := Decimal.Binary.ofFloat x
  signed b.isNegative
    (if b.isFinite then .real (if b.isNegative then -x else x)
    else .name (if b = .nan then "nan" else "inf"))

mutual

/-- The expression that a value is written as. -/
def ofJson : Json → Expression
  | .null => .name "None"
  | .bool b => .name (if b then "True" else "False")
  | .int n => signed (n < 0) (.whole n.natAbs)
  | .float x => ofFloat x
  | .str s => .text s
  | .arr elements => .list (ofElements elements)
  | .obj members => .record (ofMembers members)

/-- The expressions of the elements of a list. -/
def ofElements : List Json → List Expression
  | [] => []
  | x :: rest => ofJson x :: ofElements rest

/-- The expressions of the members of an object. -/
def ofMembers : List (String × Json) → List (Expression × Expression)
  | [] => []
  | (key, x) :: rest => (.text key, ofJson x) :: ofMembers rest

end

/-! ## Reading what is displayed -/

section Reading

open Text

variable {fuel : ℕ} {c : Char} {rest cs : List Char} {x : Float}

/-- A text cannot go on a name or a number that stands before it. -/
def EndsExpression (rest : List Char) : Prop :=
  ∀ c ∈ rest.head?, ¬ isIdentifierPart c ∧ c ≠ '.'

theorem endsExpression_cons (hc : ¬ isIdentifierPart c ∧ c ≠ '.') : EndsExpression (c :: rest) := by
  rintro other hother
  obtain rfl := Option.some_inj.mp hother
  exact hc

theorem EndsExpression.endsNumber (h : EndsExpression rest) : Json.EndsNumber rest := by
  intro c hc
  obtain ⟨hpart, hpoint⟩ := h c hc
  refine ⟨fun hdigit ↦ hpart (isIdentifierPart_of_isAlphanum ?_), hpoint, ?_, ?_⟩
  · rw [Char.isAlphanum, hdigit, Bool.or_true]
  · rintro rfl
    exact hpart rfl
  · rintro rfl
    exact hpart rfl

/-- A digit begins a number and a letter a name, and neither begins anything else. -/
theorem read_of_isAlphanum (hc : c.isAlphanum) :
    read (fuel + 1) (c :: cs) =
      if c.isDigit then ofNumber? (Json.readNumber (c :: cs))
      else some (.name (String.ofList (c :: cs.takeWhile isIdentifierPart)),
        cs.dropWhile isIdentifierPart) := by
  have hne (other : Char) (hother : ¬ other.isAlphanum) : c ≠ other := by
    rintro rfl
    exact hother hc
  have hquote : ¬ (c = '\'' ∨ c = '"') := not_or.mpr ⟨hne _ (by decide), hne _ (by decide)⟩
  rw [read, if_neg (hne _ (by decide)), if_neg (hne _ (by decide)), if_neg (hne _ (by decide)),
    if_neg hquote]
  by_cases hdigit : c.isDigit
  · rw [if_pos hdigit, if_pos hdigit]
  · have halpha : c.isAlpha := (Bool.or_eq_true_iff.mp hc).resolve_right hdigit
    have hstart : isIdentifierStart c := by
      rw [isIdentifierStart, if_pos (lt_of_isAlphanum hc), halpha, Bool.true_or]
    rw [if_neg hdigit, if_neg hdigit, if_pos hstart]

/-- A number is read if a digit comes first. -/
theorem read_of_isDigit (hc : c.isDigit) :
    read (fuel + 1) (c :: cs) = ofNumber? (Json.readNumber (c :: cs)) := by
  have halphanum : c.isAlphanum := by rw [Char.isAlphanum, hc, Bool.or_true]
  rw [read_of_isAlphanum halphanum, if_pos hc]

/-- An opposite is read if no blank follows the minus sign. -/
theorem read_minus (hc : ¬ Json.isBlank c) :
    read (fuel + 1) ('-' :: c :: cs) =
      (read fuel (c :: cs)).map fun (operand, rest) ↦ (.negated operand, rest) := by
  have hskip : Json.skipBlanks (c :: cs) = c :: cs := List.dropWhile_cons_of_neg hc
  rw [read, if_neg (by decide), if_neg (by decide), if_pos rfl, hskip]

/-- **A name is read** up to what cannot go on with it. -/
theorem read_word (hc : c.isAlpha) (hdigit : ¬ c.isDigit) (hcs : cs.all Char.isAlphanum)
    (hrest : EndsExpression rest) :
    read (fuel + 1) (c :: cs ++ rest) = some (.name (String.ofList (c :: cs)), rest) := by
  have halphanum : c.isAlphanum := by rw [Char.isAlphanum, hc, Bool.true_or]
  have hparts : ∀ b ∈ cs, isIdentifierPart b :=
    fun b hb ↦ isIdentifierPart_of_isAlphanum (List.all_eq_true.mp hcs b hb)
  have hspan : rest.takeWhile isIdentifierPart = [] ∧ rest.dropWhile isIdentifierPart = rest := by
    cases rest with
    | nil => exact ⟨rfl, rfl⟩
    | cons b rest =>
      have hb : ¬ isIdentifierPart b := (hrest b rfl).1
      exact ⟨List.takeWhile_cons_of_neg hb, List.dropWhile_cons_of_neg hb⟩
  rw [List.cons_append, read_of_isAlphanum halphanum, if_neg hdigit,
    List.takeWhile_append_of_pos hparts, List.dropWhile_append_of_pos hparts, hspan.1, hspan.2,
    List.append_nil]

/-- **A displayed text is read** as the text. -/
theorem read_displayQuoted (s : String) :
    read (fuel + 1) (displayQuoted s.toList ++ rest) = some (.text s, rest) := by
  have hread := readLiteral_displayQuoted s.toList rest
  have htext : displayQuoted s.toList ++ rest = displayQuote s.toList ::
      (s.toList.flatMap (displayChar (displayQuote s.toList)) ++
        displayQuote s.toList :: rest) := by
    rw [displayQuoted, List.cons_append, List.append_assoc, List.singleton_append]
  rw [htext, read, hread]
  rcases displayQuote_cases s.toList with hquote | hquote
  · simp [hquote]
  · simp [hquote]

/-- A text between double quotes is read as the text. -/
theorem read_doubleQuoted (s : String) :
    read (fuel + 1) (doubleQuoted s.toList ++ rest) = some (.text s, rest) := by
  have hread := readLiteral_doubleQuoted s.toList rest
  have htext : doubleQuoted s.toList ++ rest =
      '"' :: (s.toList.flatMap doubleQuotedChar ++ '"' :: rest) := by
    rw [doubleQuoted, List.cons_append, List.append_assoc, List.singleton_append]
  rw [htext, read, hread]
  simp

/-- A number that is not negative is read from its digits. -/
theorem read_float_of_not_isNegative (fuel : ℕ) (hfinite : (Decimal.Binary.ofFloat x).isFinite)
    (h : (Decimal.Binary.ofFloat x).isNegative = false) (hrest : EndsExpression rest) :
    read (fuel + 1) (Decimal.Layout.display.text (.ofFloat x) ++ rest) = some (.real x, rest) := by
  obtain ⟨c, cs, htext, hc⟩ := Decimal.Layout.display.exists_text_eq_cons hfinite h
  have hnumber : Json.readNumber (Decimal.Layout.display.text (.ofFloat x) ++ rest) =
      .ok (.float x, rest) := by
    cases hx : Decimal.Binary.ofFloat x with
    | nan | infinite => cases hx ▸ hfinite
    | zero negative => exact hx ▸ Json.readNumber_zero _ hx hrest.endsNumber
    | finite negative m q narrow => exact hx ▸ Json.readNumber_finite _ hx hrest.endsNumber
  rw [htext, List.cons_append] at hnumber ⊢
  rw [read_of_isDigit hc, hnumber]
  rfl

/-- **A binary64 is read** as a number if it is finite, and otherwise as a name. -/
theorem read_float (x : Float) (hrest : EndsExpression rest) :
    read (fuel + 2) (Decimal.Layout.display.text (.ofFloat x) ++ rest) =
      some (ofFloat x, rest) := by
  rw [ofFloat]
  by_cases hfinite : (Decimal.Binary.ofFloat x).isFinite
  · rw [if_pos hfinite]
    cases hsign : (Decimal.Binary.ofFloat x).isNegative with
    | false => exact read_float_of_not_isNegative (fuel + 1) hfinite hsign hrest
    | true =>
      have hneg := Decimal.Binary.ofFloat_neg hfinite
      have hfinite' : (Decimal.Binary.ofFloat (-x)).isFinite := by
        rw [hneg, Decimal.Binary.isFinite_opposite, hfinite]
      have hsign' : (Decimal.Binary.ofFloat (-x)).isNegative = false := by
        rw [hneg, Decimal.Binary.isNegative_opposite hfinite, hsign, Bool.not_true]
      obtain ⟨c, cs, htext, hc⟩ := Decimal.Layout.display.exists_text_eq_cons hfinite' hsign'
      have hread := read_float_of_not_isNegative fuel hfinite' hsign' hrest
      rw [Decimal.Layout.text_of_isNegative _ hfinite hsign, ← hneg, List.cons_append]
      rw [htext, List.cons_append] at hread ⊢
      rw [read_minus (Json.startsValue_of_isDigit hc).1, hread]
      rfl
  · rw [if_neg hfinite]
    cases hx : Decimal.Binary.ofFloat x with
    | nan =>
      rw [if_pos rfl]
      exact read_word rfl (by decide) rfl hrest
    | infinite negative =>
      have hread (fuel : ℕ) : read (fuel + 1) ('i' :: ['n', 'f'] ++ rest) =
          some (.name "inf", rest) :=
        read_word rfl (by decide) rfl hrest
      rw [if_neg nofun]
      cases negative with
      | false => exact hread _
      | true =>
        have htext : Decimal.Layout.display.text (.infinite true) ++ rest =
            '-' :: 'i' :: (['n', 'f'] ++ rest) := rfl
        rw [htext, read_minus (by decide)]
        exact congrArg (Option.map _) (hread fuel)
    | zero | finite => exact absurd rfl (hx ▸ hfinite)

/-- The digits of a natural number are read unless there are too many of them. -/
theorem read_toDigits (fuel m : ℕ) (hrest : EndsExpression rest) :
    read (fuel + 1) (Nat.toDigits 10 m ++ rest) =
      if (Json.int m).excess?.isNone then some (.whole m, rest) else none := by
  have hnumber := Json.readNumber_toString (m : ℤ) hrest.endsNumber
  have hsign : ¬ decide ((m : ℤ) < 0) := by simp
  obtain ⟨c, cs, hcons⟩ := List.exists_cons_of_ne_nil (Nat.toDigits_ne_nil (n := m) (b := 10))
  have hc : c.isDigit := Decimal.isDigit_of_mem_toDigits (hcons ▸ List.mem_cons_self)
  rw [Json.toList_toString, if_neg hsign, List.nil_append, Int.natAbs_natCast] at hnumber
  rw [Json.excess?, Int.natAbs_natCast]
  rw [hcons, List.cons_append] at hnumber ⊢
  rw [read_of_isDigit hc, hnumber]
  split <;> rfl

/-- A whole number is read unless it has too many digits. -/
theorem read_int (n : ℤ) (hrest : EndsExpression rest) :
    read (fuel + 2) ((toString n).toList ++ rest) =
      if (Json.int n).excess?.isNone then some (ofJson (.int n), rest) else none := by
  have hexcess : (Json.int n.natAbs).excess? = (Json.int n).excess? := by
    rw [Json.excess?, Json.excess?, Int.natAbs_natCast]
  have hread (fuel : ℕ) := read_toDigits fuel n.natAbs hrest
  rw [Json.toList_toString, List.append_assoc, ofJson, signed]
  rw [hexcess] at hread
  by_cases hsign : n < 0
  · obtain ⟨c, cs, hcons⟩ :=
      List.exists_cons_of_ne_nil (Nat.toDigits_ne_nil (n := n.natAbs) (b := 10))
    have hc : c.isDigit := Decimal.isDigit_of_mem_toDigits (hcons ▸ List.mem_cons_self)
    rw [if_pos (decide_eq_true hsign), if_pos (decide_eq_true hsign), List.singleton_append]
    rw [hcons, List.cons_append] at hread ⊢
    rw [read_minus (Json.startsValue_of_isDigit hc).1, hread]
    split <;> rfl
  · have hnonneg : ¬ decide (n < 0) := by simpa using hsign
    rw [if_neg hnonneg, if_neg hnonneg, List.nil_append, hread]

/-! ### Items -/

section Items

variable {α β : Type} {item : List Char → Option (β × List Char)}
  {others : List Char → Option (List β × List Char)} {closing : Char}

/-- A blank in front does not matter. -/
theorem readItems_blank :
    readItems item closing fuel (' ' :: cs) = readItems item closing fuel cs := by
  cases fuel <;> rfl

theorem closeItems_closing (hclosing : closing = ']' ∨ closing = '\x7d') (a : β) :
    closeItems closing others a (closing :: rest) = some ([a], rest) := by
  rcases hclosing with rfl | rfl <;> rfl

theorem closeItems_comma (hclosing : closing = ']' ∨ closing = '\x7d') (a : β) :
    closeItems closing others a (',' :: rest) =
      (others rest).map fun (items, rest) ↦ (a :: items, rest) := by
  rcases hclosing with rfl | rfl <;> rfl

/-- Items are read one at a time. -/
theorem readItems_cons (hclosing : closing = ']' ∨ closing = '\x7d') (hc : Json.StartsValue c) :
    readItems item closing (fuel + 1) (c :: cs) =
      (item (c :: cs)).bind fun (a, rest) ↦
        closeItems closing (readItems item closing fuel) a rest := by
  have hskip : Json.skipBlanks (c :: cs) = c :: cs := List.dropWhile_cons_of_neg hc.1
  have hne : c ≠ closing := by
    rcases hclosing with rfl | rfl
    · exact hc.2.1
    · exact hc.2.2.1
  rw [readItems, hskip]
  dsimp only
  rw [if_neg hne]

/-- **Items are read from their texts**, separated by commas, if each of them is. -/
theorem readItems_text {piece : α → List Char} {found : α → β} {ok : α → Bool} {parts : List α}
    (hclosing : closing = ']' ∨ closing = '\x7d')
    (hread : ∀ a ∈ parts, (∃ c cs, piece a = c :: cs ∧ Json.StartsValue c) ∧
      ∀ rest, EndsExpression rest →
        item (piece a ++ rest) = if ok a then some (found a, rest) else none)
    (hfuel : parts.length < fuel) :
    readItems item closing fuel (joinWith [',', ' '] (parts.map piece) ++ closing :: rest) =
      if parts.all ok then some (parts.map found, rest) else none := by
  have hends : EndsExpression (closing :: rest) ∧ ∀ rest, EndsExpression (',' :: rest) := by
    refine ⟨endsExpression_cons ?_, fun _ ↦ endsExpression_cons (by decide)⟩
    rcases hclosing with rfl | rfl <;> decide
  induction parts generalizing fuel with
  | nil =>
    obtain ⟨fuel, rfl⟩ := Nat.exists_eq_succ_of_ne_zero hfuel.ne'
    rcases hclosing with rfl | rfl <;> rfl
  | cons a parts ih =>
    obtain ⟨⟨⟨c, cs, hpiece, hc⟩, ha⟩, hparts⟩ := List.forall_mem_cons.mp hread
    obtain ⟨fuel, rfl⟩ := Nat.exists_eq_succ_of_ne_zero (Nat.ne_zero_of_lt hfuel)
    have hstep (rest : List Char) (hrest : EndsExpression rest) :
        readItems item closing (fuel + 1) (piece a ++ rest) =
          if ok a then closeItems closing (readItems item closing fuel) (found a) rest
          else none := by
      rw [hpiece, List.cons_append, readItems_cons hclosing hc, ← List.cons_append, ← hpiece,
        ha rest hrest]
      split <;> rfl
    rw [List.all_cons, List.map_cons, List.map_cons]
    cases parts with
    | nil =>
      rw [List.map_nil, joinWith, hstep _ hends.1, closeItems_closing hclosing]
      simp
    | cons b parts =>
      have hrest := ih hparts (Nat.lt_of_succ_lt_succ hfuel)
      have hjoin : joinWith [',', ' '] (piece a :: (b :: parts).map piece) ++ closing :: rest =
          piece a ++ ',' :: ' ' ::
            (joinWith [',', ' '] ((b :: parts).map piece) ++ closing :: rest) := by
        change piece a ++ [',', ' '] ++ joinWith [',', ' '] ((b :: parts).map piece) ++ _ = _
        simp
      rw [hjoin, hstep _ (hends.2 _), closeItems_comma hclosing, readItems_blank, hrest]
      cases ok a <;> cases (b :: parts).all ok <;> rfl

/-- Pieces that are not empty are not longer than the joined text, neither in number nor each. -/
theorem length_le_joinWith {pieces : List (List Char)} (hne : ∀ piece ∈ pieces, piece ≠ []) :
    pieces.length ≤ (joinWith [',', ' '] pieces).length ∧
      ∀ piece ∈ pieces, piece.length ≤ (joinWith [',', ' '] pieces).length := by
  induction pieces with
  | nil => exact ⟨Nat.le_refl _, fun _ h ↦ absurd h List.not_mem_nil⟩
  | cons piece pieces ih =>
    obtain ⟨hpiece, hpieces⟩ := List.forall_mem_cons.mp hne
    have hpos : 0 < piece.length := List.length_pos_iff.mpr hpiece
    obtain ⟨hcount, hlength⟩ := ih hpieces
    cases pieces with
    | nil => exact ⟨hpos, fun other h ↦ (List.mem_singleton.mp h).symm ▸ Nat.le_refl _⟩
    | cons next pieces =>
      have hjoin : (joinWith [',', ' '] (piece :: next :: pieces)).length =
          piece.length + 2 + (joinWith [',', ' '] (next :: pieces)).length := by
        change (piece ++ [',', ' '] ++ joinWith [',', ' '] (next :: pieces)).length = _
        simp
        omega
      rw [hjoin, List.length_cons]
      refine ⟨by omega, List.forall_mem_cons.mpr ⟨by omega, fun other hother ↦ ?_⟩⟩
      have hother := hlength other hother
      omega

/-- The same with one bound for the number of the items and for reading each of them. -/
theorem readItems_joined (rest : List Char) {piece : α → List Char} {found : α → β} {ok : α → Bool}
    {parts : List α}
    (hclosing : closing = ']' ∨ closing = '\x7d')
    (hstart : ∀ a, ∃ c cs, piece a = c :: cs ∧ Json.StartsValue c)
    (hread : ∀ a ∈ parts, (piece a).length < fuel → ∀ rest, EndsExpression rest →
      item (piece a ++ rest) = if ok a then some (found a, rest) else none)
    (hfuel : (joinWith [',', ' '] (parts.map piece)).length < fuel) :
    readItems item closing fuel (joinWith [',', ' '] (parts.map piece) ++ closing :: rest) =
      if parts.all ok then some (parts.map found, rest) else none := by
  have hne : ∀ chars ∈ parts.map piece, chars ≠ [] := by
    refine List.forall_mem_map.mpr fun a _ ↦ ?_
    obtain ⟨c, cs, hpiece, -⟩ := hstart a
    exact hpiece ▸ List.cons_ne_nil c cs
  obtain ⟨hcount, hlength⟩ := length_le_joinWith hne
  rw [List.length_map] at hcount
  refine readItems_text hclosing (fun a ha ↦ ⟨hstart a, hread a ha ?_⟩)
    (Nat.lt_of_le_of_lt hcount hfuel)
  exact Nat.lt_of_le_of_lt (hlength _ (List.mem_map_of_mem ha)) hfuel

end Items

/-! ### Values -/

section Values

variable {value : Json} {elements : List Json} {members : List (String × Json)}

/-- A value that is read from what is displayed for it, whatever follows. -/
def ReadsBack (value : Json) : Prop :=
  ∀ fuel rest, EndsExpression rest → value.displayChars.length < fuel →
    read fuel (value.displayChars ++ rest) =
      if value.excess?.isNone then some (ofJson value, rest) else none

/-- What is displayed for a value begins as a value. -/
theorem exists_displayChars_eq_cons (value : Json) :
    ∃ c cs, value.displayChars = c :: cs ∧ Json.StartsValue c := by
  cases value with
  | null => exact ⟨'N', _, rfl, by decide⟩
  | bool b =>
    cases b with
    | true => exact ⟨'T', _, rfl, by decide⟩
    | false => exact ⟨'F', _, rfl, by decide⟩
  | int n => exact Json.exists_toString_eq_cons n
  | float x => exact Json.exists_text_eq_cons Decimal.Layout.display (.ofFloat x) (by decide)
  | str s =>
    refine ⟨displayQuote s.toList, _, rfl, ?_⟩
    rcases displayQuote_cases s.toList with hquote | hquote
    · rw [hquote]
      decide
    · rw [hquote]
      decide
  | arr elements => exact ⟨'[', _, rfl, by decide⟩
  | obj members => exact ⟨'\x7b', _, rfl, by decide⟩

theorem ofElements_eq_map (elements : List Json) : ofElements elements = elements.map ofJson := by
  induction elements with
  | nil => rfl
  | cons e elements ih => rw [ofElements, ih, List.map_cons]

theorem ofMembers_eq_map (members : List (String × Json)) :
    ofMembers members = members.map fun m ↦ (.text m.1, ofJson m.2) := by
  induction members with
  | nil => rfl
  | cons m members ih => rw [ofMembers, ih, List.map_cons]

theorem isNone_findSome? {α β : Type} (f : α → Option β) (parts : List α) :
    (parts.findSome? f).isNone = parts.all fun a ↦ (f a).isNone := by
  induction parts with
  | nil => rfl
  | cons a parts ih =>
    rw [List.all_cons, ← ih, List.findSome?_cons]
    cases f a <;> rfl

theorem readsBack_arr (h : ∀ e ∈ elements, ReadsBack e) : ReadsBack (.arr elements) := by
  intro fuel rest hrest hfuel
  obtain ⟨fuel, rfl⟩ := Nat.exists_eq_succ_of_ne_zero (Nat.ne_zero_of_lt hfuel)
  rw [Json.displayChars, displayElements_eq_map] at hfuel ⊢
  rw [List.length_cons, List.length_append] at hfuel
  have hread := readItems_joined rest (.inl rfl) exists_displayChars_eq_cons
    (fun e he hlength rest hrest ↦ h e he fuel rest hrest hlength)
    (show (joinWith [',', ' '] (elements.map Json.displayChars)).length < fuel by omega)
  rw [List.cons_append, List.append_assoc, List.singleton_append, read, if_pos rfl, hread,
    Json.excess?, Json.excessIn?_eq, isNone_findSome?, ofJson, ofElements_eq_map]
  split <;> rfl

/-- A member is read as its key and its value. -/
theorem readMember_memberChars (m : String × Json) (h : ReadsBack m.2)
    (hlength : (memberChars m).length < fuel) (hrest : EndsExpression rest) :
    readMember (read fuel) (memberChars m ++ rest) =
      if m.2.excess?.isNone then some ((.text m.1, ofJson m.2), rest) else none := by
  obtain ⟨c, cs, hvalue, hc⟩ := exists_displayChars_eq_cons m.2
  have hshort : m.2.displayChars.length < fuel := by
    rw [memberChars, List.length_append, List.length_cons, List.length_cons] at hlength
    omega
  have hread := h fuel rest hrest hshort
  obtain ⟨fuel, rfl⟩ := Nat.exists_eq_succ_of_ne_zero (Nat.ne_zero_of_lt hlength)
  have hcolon : Json.skipBlanks (':' :: ' ' :: (m.2.displayChars ++ rest)) =
      ':' :: ' ' :: (m.2.displayChars ++ rest) := rfl
  have hskip : Json.skipBlanks (' ' :: (m.2.displayChars ++ rest)) = m.2.displayChars ++ rest := by
    rw [hvalue]
    exact Json.skipBlanks_append (List.forall_mem_singleton.mpr rfl) hc.1 (cs ++ rest)
  rw [memberChars, List.append_assoc, List.cons_append, List.cons_append, readMember,
    read_displayQuoted, Option.bind_some]
  dsimp only
  rw [hcolon]
  dsimp only
  rw [if_pos rfl, hskip, hread]
  split <;> rfl

theorem readsBack_obj (h : ∀ m ∈ members, ReadsBack m.2) : ReadsBack (.obj members) := by
  intro fuel rest hrest hfuel
  obtain ⟨fuel, rfl⟩ := Nat.exists_eq_succ_of_ne_zero (Nat.ne_zero_of_lt hfuel)
  rw [Json.displayChars, displayMembers_eq_map] at hfuel ⊢
  rw [List.length_cons, List.length_append] at hfuel
  have hstart (m : String × Json) : ∃ c cs, memberChars m = c :: cs ∧ Json.StartsValue c := by
    obtain ⟨c, cs, htext, hc⟩ := exists_displayChars_eq_cons (.str m.1)
    exact ⟨c, _, congrArg (· ++ _) htext, hc⟩
  have hread := readItems_joined rest (.inr rfl) hstart
    (fun m hm hlength rest hrest ↦ readMember_memberChars m (h m hm) hlength hrest)
    (show (joinWith [',', ' '] (members.map memberChars)).length < fuel by omega)
  rw [List.cons_append, List.append_assoc, List.singleton_append, read, if_neg (by decide),
    if_pos rfl, hread, Json.excess?, Json.excessInMembers?_eq, isNone_findSome?, ofJson,
    ofMembers_eq_map]
  split <;> rfl

/-- **A displayed value is read** as the expression that it is written as, unless a whole number in
it has too many digits. -/
theorem readsBack (value : Json) : ReadsBack value := by
  have htwo {fuel : ℕ} {value : Json} (hfuel : value.displayChars.length < fuel) :
      ∃ k, fuel = k + 2 := by
    obtain ⟨c, cs, hchars, -⟩ := exists_displayChars_eq_cons value
    rw [hchars, List.length_cons] at hfuel
    exact ⟨fuel - 2, by omega⟩
  induction value using Json.induction with
  | null =>
    intro fuel rest hrest hfuel
    obtain ⟨fuel, rfl⟩ := htwo hfuel
    exact read_word rfl (by decide) rfl hrest
  | bool b =>
    intro fuel rest hrest hfuel
    obtain ⟨fuel, rfl⟩ := htwo hfuel
    cases b with
    | true => exact read_word rfl (by decide) rfl hrest
    | false => exact read_word rfl (by decide) rfl hrest
  | int n =>
    intro fuel rest hrest hfuel
    obtain ⟨fuel, rfl⟩ := htwo hfuel
    exact read_int n hrest
  | float x =>
    intro fuel rest hrest hfuel
    obtain ⟨fuel, rfl⟩ := htwo hfuel
    exact read_float x hrest
  | str s =>
    intro fuel rest hrest hfuel
    obtain ⟨fuel, rfl⟩ := htwo hfuel
    exact read_displayQuoted s
  | arr elements ih => exact readsBack_arr ih
  | obj members ih => exact readsBack_obj ih

/-- What is displayed for a value, read as a whole. -/
theorem parse_displayChars (value : Json) :
    parse value.displayChars = if value.excess?.isNone then some (ofJson value) else none := by
  have hread := readsBack value (value.displayChars.length + 1) [] (fun _ h ↦ absurd h nofun)
    (Nat.lt_succ_self _)
  rw [List.append_nil] at hread
  rw [parse, hread]
  by_cases hexcess : value.excess?.isNone
  · rw [if_pos hexcess, if_pos hexcess]
  · rw [if_neg hexcess, if_neg hexcess]

/-- A text between double quotes, read as a whole. -/
theorem parse_doubleQuoted (s : String) : parse (doubleQuoted s.toList) = some (.text s) := by
  have hread : read ((doubleQuoted s.toList).length + 1) (doubleQuoted s.toList ++ []) =
      some (.text s, []) := read_doubleQuoted s
  rw [List.append_nil] at hread
  rw [parse, hread]

end Values

end Reading

end Expression

end SchemaTree
