import SchemaTree.Proofs.Comparison

/-!
# Keys as a reader sees them

A module names a property by a token: a bare word, or a string. `ZodExpr.readKey` reads such a token
as a scanner does, a string up to its closing quote and a word as far as it goes. Is the key of a
property read as the name it was written for?

It is for all names but one sort (`ZodExpr.tokens_of_name`). A *word line*, a bare word with a line
feed behind it, passes for a bare word and is written as it is (`isUnquotedKey_iff`). The line feed
then ends the word, so what is read is another name. The same test decides how something is bound,
and for word lines alone a module binds what is no word.
-/

namespace SchemaTree

open Text

/-! ## Bare words -/

namespace Naming

/-- A word that can be written without quotes: ASCII letters, digits, underscores and dollar signs,
with no digit at the front. -/
structure IsBareWord (text : List Char) : Prop where
  ne_nil : text ≠ []
  part : ∀ c ∈ text, isKeyPart c
  front : ∀ c ∈ text.head?, ¬ c.isDigit

/-- A bare word with a line feed behind it. -/
def IsWordLine (name : String) : Prop :=
  name.toList.getLast? = some '\n' ∧ IsBareWord name.toList.dropLast

section Words

variable {text : List Char} {name : String} {c : Char}

theorem isKeyStart_eq (c : Char) : isKeyStart c = (isKeyPart c && !c.isDigit) := by
  have hall : ∀ n < 128, isKeyStart (Char.ofNat n) =
      (isKeyPart (Char.ofNat n) && !(Char.ofNat n).isDigit) := by decide
  rcases Nat.lt_or_ge c.toNat 128 with hascii | hbeyond
  · have hc := hall c.toNat hascii
    rwa [Char.ofNat_toNat] at hc
  · -- beyond ASCII there is nothing that either test accepts
    have hpart : isKeyPart c = false := by
      rw [← Bool.not_eq_true, isKeyPart, Bool.or_eq_true, Bool.or_eq_true, decide_eq_true_eq,
        decide_eq_true_eq]
      rintro ((halphanum | rfl) | rfl)
      · exact absurd (lt_of_isAlphanum halphanum) (Nat.not_lt.mpr hbeyond)
      · exact absurd hbeyond (by decide)
      · exact absurd hbeyond (by decide)
    have hstart : isKeyStart c = false := by
      rw [isKeyPart, Char.isAlphanum] at hpart
      simp only [Bool.or_eq_false_iff] at hpart
      rw [isKeyStart, hpart.1.1.1, hpart.1.2, hpart.2]
      rfl
    rw [hstart, hpart, Bool.false_and]

theorem isKeyWord_iff : isKeyWord text ↔ IsBareWord text := by
  rcases text with _ | ⟨c, rest⟩
  · exact ⟨nofun, fun h ↦ absurd rfl h.ne_nil⟩
  rw [isKeyWord, isKeyStart_eq, Bool.and_eq_true, Bool.and_eq_true, Bool.not_eq_true',
    ← Bool.not_eq_true, List.all_eq_true]
  constructor
  · rintro ⟨⟨hc, hdigit⟩, hrest⟩
    exact ⟨List.cons_ne_nil c rest, List.forall_mem_cons.mpr ⟨hc, hrest⟩, by simpa using hdigit⟩
  · intro h
    obtain ⟨hc, hrest⟩ := List.forall_mem_cons.mp h.part
    exact ⟨⟨hc, h.front c rfl⟩, hrest⟩

instance : DecidablePred IsBareWord := fun _ ↦ decidable_of_iff _ isKeyWord_iff

instance : DecidablePred IsWordLine := fun _ ↦ inferInstanceAs (Decidable (_ ∧ _))

theorem IsBareWord.notMem (h : IsBareWord text) (hc : ¬ isKeyPart c) : c ∉ text :=
  fun hmem ↦ hc (h.part c hmem)

theorem IsWordLine.toList_eq (h : IsWordLine name) :
    name.toList = name.toList.dropLast ++ ['\n'] :=
  (List.dropLast_append_getLast? '\n' h.1).symm

/-- A word line is no bare word. -/
theorem IsWordLine.not_isBareWord (h : IsWordLine name) : ¬ IsBareWord name.toList :=
  fun hbare ↦ hbare.notMem (by decide) (List.mem_of_getLast? h.1)

/-- **What may stand unquoted**: bare words, and word lines with them. -/
theorem isUnquotedKey_iff : isUnquotedKey name ↔ IsBareWord name.toList ∨ IsWordLine name := by
  rw [isUnquotedKey, isKeyWord_iff, dropFinalLineFeed]
  split
  · rename_i hlast
    constructor
    · intro h
      exact .inr ⟨hlast, h⟩
    · rintro (h | h)
      · exact absurd (List.mem_of_getLast? hlast) (h.notMem (by decide))
      · exact h.2
  · rename_i hlast
    exact ⟨.inl, fun h ↦ h.resolve_right fun hline ↦ hlast hline.1⟩

end Words

/-! ## What a module binds -/

section Bindings

variable {text : List Char} {name : String}

theorem isBareWord_cons {c : Char} (hc : isKeyPart c) (hdigit : ¬ c.isDigit)
    (htext : ∀ b ∈ text, isKeyPart b) : IsBareWord (c :: text) :=
  ⟨List.cons_ne_nil c text, List.forall_mem_cons.mpr ⟨hc, htext⟩, by simpa using hdigit⟩

/-- A bare word that can be bound. -/
def IsBindable (name : String) : Prop := IsBareWord name.toList ∧ name ∉ reservedWords

/-- No reserved word begins with an underscore, so putting one in front ends a clash. -/
theorem isBindable_unreserved (h : IsBareWord name.toList) :
    IsBindable (if name ∈ reservedWords then "_" ++ name else name) := by
  split
  · have hfront : ∀ w ∈ reservedWords, w.toList.head? ≠ some '_' := by decide
    have htext : ("_" ++ name).toList = '_' :: name.toList := String.toList_append
    constructor
    · rw [htext]
      exact isBareWord_cons (by decide) (by decide) h.part
    · intro hmem
      exact hfront _ hmem (by rw [htext, List.head?_cons])
  · exact ⟨h, ‹_›⟩

/-- What is bound for a name that cannot be bound itself. -/
theorem isBindable_bindingName_of_not (h : ¬ (isUnquotedKey name ∧ name ∉ reservedWords)) :
    IsBindable (bindingName name) := by
  rw [bindingName, if_neg h]
  split
  · exact ⟨by decide, by decide⟩
  · rename_i c rest hchars
    have hpart : ∀ b ∈ c :: rest, isKeyPart b := by
      intro b hb
      rw [isKeyPart, isAlphanum_of_mem_camelChars (hchars ▸ hb), Bool.true_or, Bool.true_or]
    refine isBindable_unreserved ?_
    rw [String.toList_ofList]
    split
    · exact isBareWord_cons (by decide) (by decide) hpart
    · exact isBareWord_cons (hpart c List.mem_cons_self) ‹_› fun b hb ↦
        hpart b (List.mem_cons_of_mem c hb)

/-- A word line is bound under its own name, since no reserved word has a line feed in it. -/
theorem bindingName_of_isWordLine (h : IsWordLine name) : bindingName name = name := by
  have hfeed : ∀ w ∈ reservedWords, '\n' ∉ w.toList := by decide
  rw [bindingName, if_pos]
  exact ⟨isUnquotedKey_iff.mpr (.inr h), fun hmem ↦ hfeed name hmem (List.mem_of_getLast? h.1)⟩

/-- **A module binds words**, no reserved ones, for all names but word lines. -/
theorem isBindable_bindingName_iff : IsBindable (bindingName name) ↔ ¬ IsWordLine name := by
  constructor
  · intro h hline
    rw [bindingName_of_isWordLine hline] at h
    exact hline.not_isBareWord h.1
  · intro hline
    by_cases h : isUnquotedKey name ∧ name ∉ reservedWords
    · rw [bindingName, if_pos h]
      exact ⟨(isUnquotedKey_iff.mp h.1).resolve_right hline, h.2⟩
    · exact isBindable_bindingName_of_not h

end Bindings

end Naming

/-! ## Reading keys -/

namespace ZodExpr

open Naming

variable {name : String} {text rest : List Char} {c : Char}

/-- Reads a key at the front of a text: a string, or as long a word as there is. -/
def readKey (text : List Char) : Option (String × List Char) :=
  if text.head? = some '"' then (Json.readString text .plain ⟨[], none⟩ text.tail).toOption
  else if IsBareWord (text.takeWhile isKeyPart) then
    some (String.ofList (text.takeWhile isKeyPart), text.dropWhile isKeyPart)
  else none

theorem readKey_doubleQuoted (name : String) (rest : List Char) :
    readKey (doubleQuoted name.toList ++ rest) = some (name, rest) := by
  have htail : (doubleQuoted name.toList ++ rest).tail =
      name.toList.flatMap doubleQuotedChar ++ '"' :: rest := by
    rw [doubleQuoted, List.cons_append, List.tail_cons, List.append_assoc, List.singleton_append]
  have hhead : (doubleQuoted name.toList ++ rest).head? = some '"' := rfl
  rw [readKey, if_pos hhead, htail, Json.readString_doubleQuoted]
  rfl

/-- A bare word is read up to a character that cannot go on with it. -/
theorem readKey_bare (h : IsBareWord text) (hc : ¬ isKeyPart c) :
    readKey (text ++ c :: rest) = some (String.ofList text, c :: rest) := by
  have hword : (text ++ c :: rest).takeWhile isKeyPart = text := by
    rw [List.takeWhile_append_of_pos h.part, List.takeWhile_cons_of_neg hc, List.append_nil]
  have hrest : (text ++ c :: rest).dropWhile isKeyPart = c :: rest := by
    rw [List.dropWhile_append_of_pos h.part, List.dropWhile_cons_of_neg hc]
  have hquote : (text ++ c :: rest).head? ≠ some '"' := by
    intro hhead
    rw [List.head?_append_of_ne_nil _ h.ne_nil] at hhead
    exact h.notMem (by decide) (List.mem_of_mem_head? hhead)
  rw [readKey, if_neg hquote, hword, hrest, if_pos h]

/-- How a name may be written as a key: as it is if it is a bare word, else as a string on one line.
-/
inductive IsKeyToken (name : String) : List Char → Prop where
  | bare (h : IsBareWord name.toList) : IsKeyToken name name.toList
  | quoted {text : List Char} (hline : ∀ c ∈ text, 0x20 ≤ c.toNat)
      (hread : ∀ rest, Json.readString [] .plain ⟨[], none⟩ (text ++ rest) = .ok (name, rest)) :
    IsKeyToken name ('"' :: text)

theorem isKeyToken_doubleQuoted (name : String) : IsKeyToken name (doubleQuoted name.toList) := by
  refine .quoted (fun c hc ↦ ?_) fun rest ↦ ?_
  · have hmem : c ∈ doubleQuoted name.toList := List.mem_cons_of_mem _ hc
    exact Json.le_of_mem_doubleQuoted hmem
  · rw [List.append_assoc, List.singleton_append, Json.readString_doubleQuoted]

/-- A word line is no token of a key. -/
theorem not_isKeyToken_of_isWordLine (h : IsWordLine name) (hname : name.toList = text) :
    ¬ IsKeyToken name text := by
  rintro (hbare | @⟨inner, -, -⟩)
  · exact h.not_isBareWord hbare
  · refine notMem_of_isUnquotedKey (isUnquotedKey_iff.mpr (.inr h)) (c := '"') (by decide)
      (by decide) ?_
    rw [hname]
    exact List.mem_cons_self

/-- **A name is written as a token of its own**, unless it is a word line. -/
theorem isKeyToken_propertyKey_iff : IsKeyToken name (propertyKey name) ↔ ¬ IsWordLine name := by
  rw [propertyKey]
  split
  · rename_i h
    rw [isUnquotedKey_iff] at h
    constructor
    · intro htoken hline
      exact not_isKeyToken_of_isWordLine hline rfl htoken
    · intro hline
      exact .bare (h.resolve_right hline)
  · rename_i h
    rw [isUnquotedKey_iff, not_or] at h
    exact ⟨fun _ ↦ h.2, fun _ ↦ isKeyToken_doubleQuoted name⟩

/-- **What is read of a key** behind which a colon stands. Of a word line it is the word, and the
line feed is left. -/
theorem readKey_propertyKey (name : String) (rest : List Char) :
    readKey (propertyKey name ++ ':' :: rest) =
      if IsWordLine name then some (String.ofList name.toList.dropLast, '\n' :: ':' :: rest)
      else some (name, ':' :: rest) := by
  rw [propertyKey]
  split
  · rename_i h
    split
    · rename_i hline
      rw [hline.toList_eq, List.append_assoc, List.singleton_append,
        readKey_bare hline.2 (by decide), ← hline.toList_eq]
    · rename_i hline
      rw [readKey_bare ((isUnquotedKey_iff.mp h).resolve_right hline) (by decide),
        String.ofList_toList]
  · rename_i h
    rw [readKey_doubleQuoted, if_neg fun hline ↦ h (isUnquotedKey_iff.mpr (.inr hline))]

/-- **The tokens that are made of a name.** As a property key a name is a bare word or a string on
one line, and is read as itself; as a binding it is a bare word that is not reserved. Both hold for
all names but word lines. A word line is written as it is in both places, and as a key it is read
without its line feed. -/
theorem tokens_of_name (name : String) (rest : List Char) :
    propertyKey name = (if IsBareWord name.toList ∨ IsWordLine name then name.toList
        else doubleQuoted name.toList) ∧
      (IsKeyToken name (propertyKey name) ↔ ¬ IsWordLine name) ∧
      (readKey (propertyKey name ++ ':' :: rest) = some (name, ':' :: rest) ↔ ¬ IsWordLine name) ∧
      (IsBindable (bindingName name) ↔ ¬ IsWordLine name) ∧
      (IsWordLine name → bindingName name = name ∧
        readKey (propertyKey name ++ ':' :: rest) =
          some (String.ofList name.toList.dropLast, '\n' :: ':' :: rest)) := by
  have hread := readKey_propertyKey name rest
  refine ⟨?_, isKeyToken_propertyKey_iff, ?_, isBindable_bindingName_iff, ?_⟩
  · rw [propertyKey]
    exact if_congr isUnquotedKey_iff rfl rfl
  · rw [hread]
    split
    · rename_i hline
      refine iff_of_false (fun h ↦ ?_) (not_not_intro hline)
      have hrest := (Prod.mk.inj (Option.some.inj h)).2
      exact absurd (List.cons.inj hrest).1 (by decide)
    · rename_i hline
      exact iff_of_true rfl hline
  · intro hline
    rw [hread, if_pos hline]
    exact ⟨bindingName_of_isWordLine hline, rfl⟩

/-- **A name can be read as another**: the word line of `a`, which a module binds as it is, too. -/
theorem exists_misread_key :
    ∃ name, ¬ IsKeyToken name (propertyKey name) ∧ ¬ IsBindable (bindingName name) ∧
      readKey (propertyKey name ++ [':']) = some ("a", ['\n', ':']) := by
  have hline : IsWordLine "a\n" := by decide
  refine ⟨"a\n", fun h ↦ ?_, fun h ↦ ?_, by decide⟩
  · exact isKeyToken_propertyKey_iff.mp h hline
  · exact isBindable_bindingName_iff.mp h hline

end ZodExpr

end SchemaTree
