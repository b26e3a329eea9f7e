import SchemaTree.Proofs.Legibility

/-!
# Names given out

The classes and aliases of a document, and the class of the root at last, get their names one after
the other (`Document.givenNames`). Each is made from a base, which is a name in Pascal case. The
names are what `giveNames` makes of the bases in their order, so everything about them is an
induction over a list of bases, with the names that are taken as its state.

Main statement (`Document.givenNames_legal`): names are told apart, they consist of letters and
digits after a capital letter or an underscore, and none is reserved. A word that is a keyword, or a
builtin that helpers use, is given out if and only if it is a base, and only four of these words can
be one: bases have capital letters in front. The search for a free name ends at the first that is
free.

That a base can be one of the four words is not looked at when names are given out
(`Document.exists_keyword_name`).
-/

namespace SchemaTree

open Json Text

/-! ## Bases -/

/-- A base of names with a capital letter or a digit in front. -/
structure IsCapitalBase (base : String) : Prop where
  isNameBase : IsNameBase base
  head : ∀ c ∈ base.toList.head?, c.isUpper ∨ c.isDigit

/-- A capital letter or an underscore, and letters and digits behind it. -/
def IsCapitalized (name : String) : Prop :=
  ∃ c rest, name.toList = c :: rest ∧ (c.isUpper ∨ c = '_') ∧ ∀ b ∈ rest, b.isAlphanum

section Bases

variable {base name fallback : String} {c : Char}

theorem isUpper_or_isDigit_toUpper (h : c.isAlphanum) : c.toUpper.isUpper ∨ c.toUpper.isDigit :=
  of_isAlphanum (P := fun c ↦ c.toUpper.isUpper ∨ c.toUpper.isDigit) (by decide) h

/-- Words that are joined have a capital letter or a digit in front. -/
theorem head_flatMap_capitalize {words : List (List Char)}
    (h : ∀ word ∈ words, word.all Char.isAlphanum) :
    ∀ c ∈ (words.flatMap Naming.capitalize).head?, c.isUpper ∨ c.isDigit := by
  induction words with
  | nil => exact nofun
  | cons word words ih =>
    obtain ⟨hword, hwords⟩ := List.forall_mem_cons.mp h
    cases word with
    | nil => exact ih hwords
    | cons b word =>
      rintro c ⟨⟩
      exact isUpper_or_isDigit_toUpper (List.all_eq_true.mp hword b List.mem_cons_self)

theorem isCapitalBase_of_letters (hletters : base.toList.all Char.isAlphanum)
    (hfirst : ∃ c rest, base.toList = c :: rest ∧ c.isUpper) : IsCapitalBase base := by
  obtain ⟨c, rest, hbase, hc⟩ := hfirst
  refine ⟨⟨?_, List.all_eq_true.mp hletters⟩, ?_⟩
  · rintro rfl
    cases hbase
  · rw [hbase]
    rintro b ⟨⟩
    exact .inl hc

theorem isCapitalBase_nameBase (hfallback : IsCapitalBase fallback) (name : String) :
    IsCapitalBase (nameBase fallback name) where
  isNameBase := isNameBase_nameBase hfallback.isNameBase name
  head := by
    rw [nameBase]
    split
    · exact hfallback.head
    · rw [Naming.pascalCase, String.toList_ofList]
      exact head_flatMap_capitalize fun word hword ↦ (List.mem_filter.mp hword).2

theorem isCapitalized_withoutLeadingDigit (h : IsCapitalBase base) :
    IsCapitalized (withoutLeadingDigit base) := by
  obtain ⟨⟨hne, hall⟩, hhead⟩ := h
  rw [withoutLeadingDigit]
  cases hbase : base.toList with
  | nil => exact absurd (String.toList_eq_nil_iff.mp hbase) hne
  | cons c rest =>
    rw [hbase] at hall hhead
    dsimp only
    split
    · have hunderscore : "_".toList = ['_'] := by decide
      refine ⟨'_', c :: rest, ?_, .inr rfl, hall⟩
      rw [String.toList_append, hunderscore, hbase, List.singleton_append]
    · rename_i hdigit
      refine ⟨c, rest, hbase, .inl ?_, fun b hb ↦ hall b (List.mem_cons_of_mem c hb)⟩
      exact (hhead c rfl).resolve_right hdigit

theorem isCapitalized_numbered (h : IsCapitalized name) (n : Nat) :
    IsCapitalized (numbered name n) := by
  obtain ⟨c, rest, hname, hc, hrest⟩ := h
  cases n with
  | zero => exact ⟨c, rest, hname, hc, hrest⟩
  | succ n =>
    refine ⟨c, rest ++ (toString (n + 2)).toList, ?_, hc, List.forall_mem_append.mpr ⟨hrest, ?_⟩⟩
    · rw [numbered.eq_2 name (n + 1) (by omega), String.toList_append, hname, List.cons_append]
    · intro b hb
      rw [Nat.toString_eq_repr, Nat.toList_repr] at hb
      rw [Char.isAlphanum, Decimal.isDigit_of_mem_toDigits hb, Bool.or_true]

end Bases

/-! ## The first free name -/

section FreeName

variable {taken : List String} {base name : String}

/-- A word that ends with no digit and does not begin with a digit or an underscore. -/
structure IsPlain (word : String) : Prop where
  head : ∀ c ∈ word.toList.head?, ¬ c.isDigit ∧ c ≠ '_'
  last : ∀ c ∈ word.toList.getLast?, ¬ c.isDigit

-- Decided as a check of two characters, never as a statement about all characters.
instance (word : String) : Decidable (IsPlain word) :=
  decidable_of_iff (word.toList.head?.all (fun c ↦ ¬ c.isDigit ∧ c ≠ '_') ∧
      word.toList.getLast?.all fun c ↦ ¬ c.isDigit) <| by
    simp only [Option.all_eq_true, decide_eq_true_eq]
    exact ⟨fun h ↦ ⟨h.1, h.2⟩, fun h ↦ ⟨h.head, h.last⟩⟩

theorem IsPlain.withoutLeadingDigit {word : String} (h : IsPlain word) :
    withoutLeadingDigit word = word := by
  have hhead := h.head
  rw [SchemaTree.withoutLeadingDigit]
  cases hword : word.toList with
  | nil => rfl
  | cons c rest =>
    rw [hword] at hhead
    exact if_neg (hhead c rfl).1

theorem withoutLeadingDigit_cases (base : String) :
    withoutLeadingDigit base = base ∨ withoutLeadingDigit base = "_" ++ base := by
  rw [withoutLeadingDigit]
  split
  · split
    · exact .inr rfl
    · exact .inl rfl
  · exact .inl rfl

/-- A plain word is the free name of no other base. -/
theorem IsPlain.base_eq (h : IsPlain name) (hname : freeName taken base = name) : base = name := by
  obtain ⟨n, hn, -⟩ := exists_first_free taken base
  rw [hname] at hn
  cases n with
  | zero =>
    rw [numbered] at hn
    rcases withoutLeadingDigit_cases base with hbase | hbase
    · rw [hn, hbase]
    · have hunderscore : ("_" ++ base).toList = '_' :: base.toList := String.toList_append
      have hhead := h.head
      rw [hn, hbase, hunderscore] at hhead
      exact absurd rfl (hhead '_' rfl).2
  | succ n =>
    have hlast := h.last
    rw [hn, numbered.eq_2 _ (n + 1) (by omega), String.toList_append, Nat.toString_eq_repr,
      Nat.toList_repr, List.getLast?_append_of_ne_nil _ Nat.toDigits_ne_nil] at hlast
    have hne : Nat.toDigits 10 (n + 1 + 1) ≠ [] := Nat.toDigits_ne_nil
    have hdigit := Decimal.isDigit_of_mem_toDigits (List.getLast_mem hne)
    exact absurd hdigit (hlast _ (List.getLast?_eq_some_getLast hne))

/-- A plain word is given out for itself where it is free. -/
theorem IsPlain.freeName_self {word : String} (h : IsPlain word) (htaken : word ∉ taken)
    (hreserved : word ∉ reservedNames) : freeName taken word = word := by
  obtain ⟨n, hn, -, hbefore⟩ := exists_first_free taken word
  rw [h.withoutLeadingDigit] at hn hbefore
  cases n with
  | zero => exact hn
  | succ n =>
    have hblocked : word ∈ taken ++ reservedNames := hbefore 0 n.succ_pos
    exact absurd hblocked (by simp [htaken, hreserved])

end FreeName

/-! ## Giving out names -/

/-- The names that bases get one after the other, where some names are taken already. -/
def giveNames : List String → List String → List String
  | _, [] => []
  | taken, base :: rest => freeName taken base :: giveNames (freeName taken base :: taken) rest

section GiveNames

variable {taken bases : List String} {name : String}

theorem giveNames_append (taken bases : List String) (base : String) :
    giveNames taken (bases ++ [base]) =
      giveNames taken bases ++ [freeName ((giveNames taken bases).reverse ++ taken) base] := by
  induction bases generalizing taken with
  | nil => rfl
  | cons first bases ih =>
    rw [List.cons_append, giveNames, ih, giveNames, List.reverse_cons, List.append_assoc,
      List.singleton_append, List.cons_append]

/-- **Names are told apart**, from each other and from those that are taken. -/
theorem giveNames_fresh (taken bases : List String) :
    (giveNames taken bases).Nodup ∧ ∀ name ∈ giveNames taken bases, name ∉ taken := by
  induction bases generalizing taken with
  | nil => exact ⟨List.nodup_nil, nofun⟩
  | cons base bases ih =>
    obtain ⟨hnodup, hfresh⟩ := ih (freeName taken base :: taken)
    rw [giveNames]
    refine ⟨List.nodup_cons.mpr ⟨fun h ↦ hfresh _ h List.mem_cons_self, hnodup⟩, ?_⟩
    refine List.forall_mem_cons.mpr ⟨(freeName_notMem taken base).1, fun name hname ↦ ?_⟩
    exact fun h ↦ hfresh name hname (List.mem_cons_of_mem _ h)

/-- A name is made from a base, and it is not reserved. -/
theorem exists_base_of_mem_giveNames (h : name ∈ giveNames taken bases) :
    ∃ base ∈ bases, ∃ n, name = numbered (withoutLeadingDigit base) n ∧ name ∉ reservedNames := by
  induction bases generalizing taken with
  | nil => cases h
  | cons base bases ih =>
    rcases List.mem_cons.mp h with rfl | h
    · obtain ⟨n, hn, -⟩ := exists_first_free taken base
      exact ⟨base, List.mem_cons_self, n, hn, (freeName_notMem taken base).2⟩
    · obtain ⟨other, hother, hname⟩ := ih h
      exact ⟨other, List.mem_cons_of_mem base hother, hname⟩

/-- **Which words are given out.** A plain word that is free is a name if and only if it is a base.
-/
theorem mem_giveNames_iff (h : IsPlain name) (htaken : name ∉ taken)
    (hreserved : name ∉ reservedNames) :
    name ∈ giveNames taken bases ↔ name ∈ bases := by
  induction bases generalizing taken with
  | nil => exact Iff.rfl
  | cons base bases ih =>
    rw [giveNames, List.mem_cons, List.mem_cons]
    by_cases hbase : name = base
    · subst hbase
      exact iff_of_true (.inl (h.freeName_self htaken hreserved).symm) (.inl rfl)
    · have hne : name ≠ freeName taken base := fun heq ↦ hbase (h.base_eq heq.symm).symm
      rw [or_iff_right hne, or_iff_right hbase]
      refine ih fun hmem ↦ ?_
      exact (List.mem_cons.mp hmem).elim hne htaken

end GiveNames

/-! ## The names of a document -/

/-- The builtins that the texts of helpers use. -/
def helperBuiltins : List String := ["ValueError", "isinstance", "str", "bool"]

/-- The base of the name of an item, if it gets one. -/
def Item.nameBase? (referredTo : List String) (x : Item) : Option String :=
  if x.attributes.target?.isSome then none
  else if x.isObject then some (nameBase "Object" x.name)
  else if x.isUnion ∧ x.id ∈ referredTo then some (nameBase "Union" x.name)
  else none

theorem DefinitionNames.taken_add (referredTo : List String) (names : DefinitionNames) (x : Item) :
    (names.add referredTo x).taken =
      ((x.nameBase? referredTo).map (freeName names.taken)).toList ++ names.taken := by
  rw [add, Item.nameBase?]
  dsimp only [nameBase]
  split
  · rfl
  split
  · rfl
  split
  · rfl
  · rfl

theorem DefinitionNames.reverse_taken_addAll (referredTo : List String) (names : DefinitionNames)
    (xs : List Item) :
    (xs.foldl (add referredTo) names).taken.reverse =
      names.taken.reverse ++ giveNames names.taken (xs.filterMap (Item.nameBase? referredTo)) := by
  induction xs generalizing names with
  | nil => exact (List.append_nil _).symm
  | cons x xs ih =>
    rw [List.foldl_cons, ih, taken_add, List.filterMap_cons]
    cases x.nameBase? referredTo with
    | none => rfl
    | some base =>
      change (freeName names.taken base :: names.taken).reverse ++ _ = _
      rw [List.reverse_cons, List.append_assoc]
      rfl

namespace Document

/-- The names that are given out for a document, in their order: those of its items, and that of the
class of the root. -/
def givenNames (d : Document) (typeName : String) : List String :=
  d.definitionNames.taken.reverse ++ [d.definitionNames.rootName typeName]

/-- The bases of the names that are given out for a document, in their order. -/
def nameBases (d : Document) (typeName : String) : List String :=
  d.items.filterMap (Item.nameBase? d.referredTo) ++ [nameBase "Schema" typeName]

theorem givenNames_eq (d : Document) (typeName : String) :
    d.givenNames typeName = giveNames [] (d.nameBases typeName) := by
  have htaken : d.definitionNames.taken.reverse =
      giveNames [] (d.items.filterMap (Item.nameBase? d.referredTo)) :=
    DefinitionNames.reverse_taken_addAll d.referredTo {} d.items
  rw [givenNames, nameBases, giveNames_append, ← htaken, List.reverse_reverse, List.append_nil]
  rfl

theorem isCapitalBase_of_mem_nameBases {d : Document} {typeName base : String}
    (h : base ∈ d.nameBases typeName) : IsCapitalBase base := by
  rcases List.mem_append.mp h with h | h
  · obtain ⟨x, -, hx⟩ := List.mem_filterMap.mp h
    rw [Item.nameBase?] at hx
    split at hx
    · cases hx
    split at hx
    · obtain rfl := Option.some_inj.mp hx
      exact isCapitalBase_nameBase (isCapitalBase_of_letters rfl ⟨'O', _, rfl, rfl⟩) x.name
    split at hx
    · obtain rfl := Option.some_inj.mp hx
      exact isCapitalBase_nameBase (isCapitalBase_of_letters rfl ⟨'U', _, rfl, rfl⟩) x.name
    · cases hx
  · rw [List.mem_singleton.mp h]
    exact isCapitalBase_nameBase (isCapitalBase_of_letters rfl ⟨'S', _, rfl, rfl⟩) typeName

/-- Names begin with a capital letter or an underscore, and none of them is reserved. -/
theorem isCapitalized_of_mem_givenNames {d : Document} {typeName name : String}
    (h : name ∈ d.givenNames typeName) : IsCapitalized name ∧ name ∉ reservedNames := by
  rw [givenNames_eq] at h
  obtain ⟨base, hbase, n, rfl, hreserved⟩ := exists_base_of_mem_giveNames h
  have hcapital := isCapitalized_withoutLeadingDigit (isCapitalBase_of_mem_nameBases hbase)
  exact ⟨isCapitalized_numbered hcapital n, hreserved⟩

/-- **The names given out for a document are legal**, whatever is in the document and the type name.
They are told apart, they consist of letters and digits behind a capital letter or an underscore,
and none of them is reserved. A keyword or a builtin that helpers use is given out if and only if it
is a base, which is so for four of these words at most. Each search for a free name ends at the
first candidate that is free. -/
theorem givenNames_legal (d : Document) (typeName : String) :
    (d.givenNames typeName).Nodup ∧
      (∀ name ∈ d.givenNames typeName, IsCapitalized name ∧ name ∉ reservedNames) ∧
      (∀ word ∈ Naming.keywords ++ helperBuiltins,
        (word ∈ d.givenNames typeName ↔ word ∈ d.nameBases typeName) ∧
          (word ∈ d.givenNames typeName → word ∈ ["None", "True", "False", "ValueError"])) ∧
      ∀ taken base, ∃ n, freeName taken base = numbered (withoutLeadingDigit base) n ∧
        numbered (withoutLeadingDigit base) n ∉ taken ++ reservedNames ∧
        ∀ m < n, numbered (withoutLeadingDigit base) m ∈ taken ++ reservedNames := by
  have hwords : ∀ word ∈ Naming.keywords ++ helperBuiltins, IsPlain word ∧ word ∉ reservedNames ∧
      (IsCapitalBase word → word ∈ ["None", "True", "False", "ValueError"]) := by
    have hall : ∀ word ∈ Naming.keywords ++ helperBuiltins, IsPlain word ∧ word ∉ reservedNames ∧
        ((word.toList.head?.all fun c ↦ c.isUpper ∨ c.isDigit) →
          word ∈ ["None", "True", "False", "ValueError"]) := by decide
    intro word hword
    obtain ⟨hplain, hreserved, hcapital⟩ := hall word hword
    refine ⟨hplain, hreserved, fun h ↦ hcapital ((Option.all_eq_true _ _).mpr fun c hc ↦ ?_)⟩
    exact decide_eq_true (h.head c hc)
  refine ⟨?_, fun name ↦ isCapitalized_of_mem_givenNames, fun word hword ↦ ?_, exists_first_free⟩
  · rw [givenNames_eq]
    exact (giveNames_fresh _ _).1
  · obtain ⟨hplain, hreserved, hcapital⟩ := hwords word hword
    have hiff : word ∈ giveNames [] (d.nameBases typeName) ↔ word ∈ d.nameBases typeName :=
      mem_giveNames_iff hplain List.not_mem_nil hreserved
    rw [givenNames_eq]
    exact ⟨hiff, fun hgiven ↦ hcapital (isCapitalBase_of_mem_nameBases (hiff.mp hgiven))⟩

/-- A document whose names are all made of digits, separators or other letters than those of ASCII,
or run into numbers that are given out. -/
def nameless : Document where
  fields := [
    Item.new "a" .object "2nd item", Item.new "b" .object "", Item.new "c" .object "--",
    Item.new "d" .object "Ünï", Item.new "e" .object "object 2", Item.new "f" .object "any",
    Item.new "g" .object "object"]

example : nameless.givenNames "Object" =
    ["_2NdItem", "Object", "Object2", "N", "Object22", "Any2", "Object3", "Object4"] := by decide

/-- A document with a field whose name becomes a keyword, and one whose name becomes a builtin. -/
def wordy : Document where
  fields := [Item.new "a" .object "none", Item.new "b" .object "value error"]

/-- **A keyword can be the name of a class**, and so can a builtin that a helper uses. -/
theorem exists_keyword_name :
    wordy.givenNames "Schema" = ["None", "ValueError", "Schema"] ∧ "None" ∈ Naming.keywords ∧
      "ValueError" ∈ helperBuiltins := by decide

end Document

end SchemaTree
