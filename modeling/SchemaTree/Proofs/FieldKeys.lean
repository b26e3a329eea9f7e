import SchemaTree.Proofs.Legibility

/-!
# Keys of fields

A field is kept under its name if that can be a key, and otherwise under a positional key, which
begins with `field_`. Names are not told apart from positional keys: a field can be called `field_0`
itself, and then one of the two gets underscores at its end. Such a clash is the only way in which a
name that can be a key is not taken as it is, so every key is a name or begins like a positional one
(`Naming.fieldKeys_cases`).

The invariant of the keys given out so far is that each is none of the names to come, or begins like
a positional key. The other way round, a key is none of the names before it
(`Naming.pairwise_fieldKeys`): a name that can be a key is taken from its field on, by the field
itself or by one that came first. -/

namespace SchemaTree

namespace Naming

/-- A key that begins like those made from positions. -/
def IsPositional (key : String) : Prop := "field_".toList <+: key.toList

instance (key : String) : Decidable (IsPositional key) :=
  inferInstanceAs (Decidable ("field_".toList <+: key.toList))

section Keys

variable {taken names : List String} {key name : String}

/-! ### Free keys -/

/-- A key with some underscores at its end. -/
def underscored (key : String) : ℕ → String
  | 0 => key
  | n + 1 => underscored (key ++ "_") n

theorem toList_underscored (key : String) (n : ℕ) :
    (underscored key n).toList = key.toList ++ List.replicate n '_' := by
  have hunderscore : "_".toList = ['_'] := by decide
  induction n generalizing key with
  | zero => rw [underscored, List.replicate_zero, List.append_nil]
  | succ n ih =>
    rw [underscored, ih, String.toList_append, hunderscore, List.append_assoc,
      List.singleton_append, List.replicate_succ]

theorem underscored_injective (key : String) : Function.Injective (underscored key) := by
  intro m n h
  have hlength := congrArg (fun s ↦ s.toList.length) h
  simpa [toList_underscored] using hlength

/-- A free key is the key that it is made from, with underscores if that is taken. -/
theorem exists_freeKey_eq (taken : List String) (key : String) :
    ∃ n, freeKey taken key = underscored key n := by
  have hgo (bound : ℕ) : ∃ n, freeKey.go taken bound key = underscored key n := by
    induction bound generalizing key with
    | zero => exact ⟨0, rfl⟩
    | succ bound ih =>
      rw [freeKey.go]
      split
      · obtain ⟨n, hn⟩ := ih (key ++ "_")
        exact ⟨n + 1, hn⟩
      · exact ⟨0, rfl⟩
  exact hgo taken.length

/-- A free key begins with the key that it is made from. -/
theorem prefix_freeKey (taken : List String) (key : String) :
    key.toList <+: (freeKey taken key).toList := by
  obtain ⟨n, hn⟩ := exists_freeKey_eq taken key
  rw [hn, toList_underscored]
  exact List.prefix_append _ _

/-- A key that is free already stays as it is. -/
theorem freeKey_of_notMem (h : key ∉ taken) : freeKey taken key = key := by
  rw [freeKey]
  cases taken.length with
  | zero => rfl
  | succ bound => rw [freeKey.go, if_neg h]

/-- **A free key is free.** Otherwise more candidates than there are taken keys would all be taken.
-/
theorem freeKey_notMem (taken : List String) (key : String) : freeKey taken key ∉ taken := by
  have hgo (bound : ℕ) (h : freeKey.go taken bound key ∈ taken) :
      ∀ n ≤ bound, underscored key n ∈ taken := by
    induction bound generalizing key with
    | zero =>
      intro n hn
      rw [Nat.le_zero.mp hn]
      exact h
    | succ bound ih =>
      rw [freeKey.go] at h
      split at h
      · rename_i hkey
        intro n hn
        match n with
        | 0 => exact hkey
        | n + 1 => exact ih (key ++ "_") h n (Nat.le_of_succ_le_succ hn)
      · rename_i hfree
        exact absurd h hfree
  intro hmem
  -- one candidate more than there are taken keys
  have hsub : (List.range (taken.length + 1)).map (underscored key) ⊆ taken := by
    intro candidate hcandidate
    obtain ⟨n, hn, rfl⟩ := List.mem_map.mp hcandidate
    exact hgo taken.length hmem n (Nat.le_of_lt_succ (List.mem_range.mp hn))
  have hnodup : ((List.range (taken.length + 1)).map (underscored key)).Nodup :=
    List.nodup_range.map (underscored_injective key)
  have hlength := (List.subperm_of_subset hnodup hsub).length_le
  rw [List.length_map, List.length_range] at hlength
  omega

/-! ### Keys of fields -/

theorem IsPositional.extend (h : IsPositional name) (hbegins : name.toList <+: key.toList) :
    IsPositional key := h.trans hbegins

theorem isPositional_fieldKey (h : ¬ isAttributeName name) (position : Int) :
    IsPositional (fieldKey name position) := by
  rw [fieldKey, if_neg h, IsPositional, String.toList_append]
  exact List.prefix_append _ _

/-- What the key of a field can be: its name, or a key that begins like a positional one. -/
def IsKeyOf (name key : String) : Prop := key = name ∧ isAttributeName name ∨ IsPositional key

/-- The key of a field, where its name is not taken unless it begins like a positional key. -/
theorem isKeyOf_freeKey (htaken : name ∈ taken → IsPositional name) (position : Int) :
    IsKeyOf name (freeKey taken (fieldKey name position)) := by
  by_cases hname : isAttributeName name
  · rw [fieldKey, if_pos hname]
    by_cases hmem : name ∈ taken
    · exact .inr ((htaken hmem).extend (prefix_freeKey taken name))
    · exact .inl ⟨freeKey_of_notMem hmem, hname⟩
  · exact .inr ((isPositional_fieldKey hname position).extend (prefix_freeKey taken _))

/-- **Every key is the name of its field or begins like a positional one**, where no two fields
share a name. -/
theorem fieldKeys_cases (h : names.Nodup) :
    ∀ m ∈ (fieldKeys names).zip names, IsKeyOf m.2 m.1 := by
  have hgo (taken : List String) (position : ℕ)
      (htaken : ∀ key ∈ taken, key ∈ names → IsPositional key) :
      ∀ m ∈ (fieldKeys.go taken position names).zip names, IsKeyOf m.2 m.1 := by
    induction names generalizing taken position with
    | nil => exact fun m hm ↦ absurd hm List.not_mem_nil
    | cons name names ih =>
      obtain ⟨hname, hnames⟩ := List.nodup_cons.mp h
      have hkey : IsKeyOf name (freeKey taken (fieldKey name position)) :=
        isKeyOf_freeKey (fun hmem ↦ htaken name hmem List.mem_cons_self) position
      rw [fieldKeys.go, List.zip_cons_cons]
      refine List.forall_mem_cons.mpr ⟨hkey, ih hnames _ _ ?_⟩
      refine List.forall_mem_cons.mpr ⟨fun hmem ↦ ?_, fun key hmem hlater ↦ ?_⟩
      · -- the new key is a name to come only if it is not the name of its field
        rcases hkey with ⟨heq, -⟩ | hpositional
        · exact absurd (heq ▸ hmem) hname
        · exact hpositional
      · exact htaken key hmem (List.mem_cons_of_mem name hlater)
  exact hgo [] 0 fun key hmem ↦ absurd hmem List.not_mem_nil

/-! ### Keys given out before -/

/-- No key is taken from those that were given out before. -/
theorem notMem_of_mem_fieldKeys_go {taken : List String} {position : ℕ}
    (h : key ∈ fieldKeys.go taken position names) : key ∉ taken := by
  induction names generalizing taken position with
  | nil => exact absurd h List.not_mem_nil
  | cons name names ih =>
    rcases List.mem_cons.mp h with rfl | h
    · exact freeKey_notMem taken _
    · exact fun hmem ↦ ih h (List.mem_cons_of_mem _ hmem)

/-- A name that can be a key is taken once its field has one. -/
theorem mem_freeKey_cons (h : isAttributeName name) (taken : List String) (position : Int) :
    name ∈ freeKey taken (fieldKey name position) :: taken := by
  rw [fieldKey, if_pos h]
  by_cases hmem : name ∈ taken
  · exact List.mem_cons_of_mem _ hmem
  · rw [freeKey_of_notMem hmem]
    exact List.mem_cons_self

/-- **No key is a name before it**, if the name can be a key. -/
theorem pairwise_fieldKeys (names : List String) :
    ((fieldKeys names).zip names).Pairwise fun m n ↦ isAttributeName m.2 → n.1 ≠ m.2 := by
  have hgo (taken : List String) (position : ℕ) :
      ((fieldKeys.go taken position names).zip names).Pairwise
        fun m n ↦ isAttributeName m.2 → n.1 ≠ m.2 := by
    induction names generalizing taken position with
    | nil => exact List.Pairwise.nil
    | cons name names ih =>
      rw [fieldKeys.go, List.zip_cons_cons, List.pairwise_cons]
      refine ⟨fun n hn hname heq ↦ ?_, ih _ _⟩
      have htaken := mem_freeKey_cons hname taken position
      exact notMem_of_mem_fieldKeys_go (List.of_mem_zip hn).1 (heq ▸ htaken)
  exact hgo [] 0

/-! ### Keys are names that can be keys -/

theorem isIdentifier_append {text more : List Char} (h : Text.isIdentifier text)
    (hmore : ∀ c ∈ more, Text.isIdentifierPart c) : Text.isIdentifier (text ++ more) := by
  match text with
  | [] => exact absurd h (by decide)
  | c :: text =>
    rw [Text.isIdentifier, Bool.and_eq_true, List.all_eq_true] at h
    rw [List.cons_append, Text.isIdentifier, Bool.and_eq_true, List.all_append, Bool.and_eq_true,
      List.all_eq_true, List.all_eq_true]
    exact ⟨h.1, h.2, hmore⟩

theorem isIdentifier_of_isAttributeName (h : isAttributeName name) :
    Text.isIdentifier name.toList := by
  simp only [isAttributeName, Bool.and_eq_true] at h
  exact h.1.1.1.1

/-- What begins like a positional key can be a key if it is an identifier at all. -/
theorem IsPositional.isAttributeName_eq (h : IsPositional key) :
    isAttributeName key = Text.isIdentifier key.toList := by
  have hkeyword : ∀ word ∈ keywords, ¬ IsPositional word := by decide
  have hmodel : ∀ word ∈ modelAttributes, ¬ IsPositional word := by decide
  have hk : keywords.contains key = false := by
    simpa using fun hmem ↦ hkeyword key hmem h
  have hm : modelAttributes.contains key = false := by
    simpa using fun hmem ↦ hmodel key hmem h
  obtain ⟨rest, hrest⟩ := h
  have hunderscore : "_".toList.isPrefixOf key.toList = false := by
    rw [← hrest]
    rfl
  have hprefix : "model_".toList.isPrefixOf key.toList = false := by
    rw [← hrest]
    rfl
  rw [isAttributeName, hk, hm, hunderscore, hprefix]
  simp

theorem isIdentifier_fieldKey (name : String) (position : ℕ) :
    Text.isIdentifier (fieldKey name position).toList := by
  rw [fieldKey]
  split
  · rename_i h
    exact isIdentifier_of_isAttributeName h
  · rw [String.toList_append]
    refine isIdentifier_append (by decide) fun c hc ↦ isIdentifierPart_of_isAlphanum ?_
    have hdigits : (toString (position : ℤ)).toList = Nat.toDigits 10 position := Nat.toList_repr
    rw [hdigits] at hc
    rw [Char.isAlphanum, Decimal.isDigit_of_mem_toDigits hc, Bool.or_true]

theorem isIdentifier_freeKey (h : Text.isIdentifier key.toList) (taken : List String) :
    Text.isIdentifier (freeKey taken key).toList := by
  obtain ⟨n, hn⟩ := exists_freeKey_eq taken key
  rw [hn, toList_underscored]
  refine isIdentifier_append h fun c hc ↦ ?_
  rw [List.eq_of_mem_replicate hc]
  decide

theorem isIdentifier_of_mem_fieldKeys (h : key ∈ fieldKeys names) :
    Text.isIdentifier key.toList := by
  have hgo (names taken : List String) (position : ℕ)
      (h : key ∈ fieldKeys.go taken position names) : Text.isIdentifier key.toList := by
    induction names generalizing taken position with
    | nil => exact absurd h List.not_mem_nil
    | cons name names ih =>
      rcases List.mem_cons.mp h with rfl | h
      · exact isIdentifier_freeKey (isIdentifier_fieldKey name position) taken
      · exact ih _ _ h
  exact hgo names [] 0 h

/-- **Every key can be a key**, where no two fields share a name. -/
theorem isAttributeName_of_mem_fieldKeys (h : names.Nodup) {m : String × String}
    (hm : m ∈ (fieldKeys names).zip names) : isAttributeName m.1 := by
  rcases fieldKeys_cases h m hm with ⟨heq, hname⟩ | hpositional
  · rw [heq]
    exact hname
  · rw [hpositional.isAttributeName_eq]
    exact isIdentifier_of_mem_fieldKeys (List.of_mem_zip hm).1

/-- No key is a keyword. -/
theorem IsKeyOf.notMem_keywords (h : IsKeyOf name key) : key ∉ keywords := by
  rcases h with ⟨rfl, hname⟩ | hpositional
  · rw [isAttributeName, Bool.and_eq_true, Bool.and_eq_true, Bool.and_eq_true,
      Bool.and_eq_true] at hname
    simpa using hname.1.1.1.2
  · have hall : ∀ word ∈ keywords, ¬ IsPositional word := by decide
    exact fun hkeyword ↦ hall key hkeyword hpositional

end Keys

end Naming

section Fields

variable {xs : List Item} {m : String × Item}

/-- The fields that count, with their names: the names beside their keys. -/
theorem map_name_keyedFields (xs : List Item) :
    (keyedFields xs).map (fun m ↦ (m.1, m.2.name)) =
      (Naming.fieldKeys ((lastFields xs).map Item.name)).zip ((lastFields xs).map Item.name) := by
  rw [List.zip_map_right]
  rfl

theorem mem_zip_of_mem_keyedFields (h : m ∈ keyedFields xs) :
    (m.1, m.2.name) ∈
      (Naming.fieldKeys ((lastFields xs).map Item.name)).zip ((lastFields xs).map Item.name) := by
  rw [← map_name_keyedFields]
  exact List.mem_map_of_mem h

/-- The keys of the fields that count are their names or begin like positional keys. -/
theorem isKeyOf_of_mem_keyedFields (h : m ∈ keyedFields xs) : Naming.IsKeyOf m.2.name m.1 :=
  Naming.fieldKeys_cases (nodup_map_name_lastFields xs) _ (mem_zip_of_mem_keyedFields h)

theorem isAttributeName_of_mem_keyedFields (h : m ∈ keyedFields xs) :
    Naming.isAttributeName m.1 := by
  have hkey := Naming.isAttributeName_of_mem_fieldKeys (nodup_map_name_lastFields xs)
    (mem_zip_of_mem_keyedFields h)
  exact hkey

/-- No key is the name of a field in front of it. -/
theorem pairwise_keyedFields (xs : List Item) :
    (keyedFields xs).Pairwise fun m n ↦ n.1 ≠ m.2.name := by
  have hpairs := Naming.pairwise_fieldKeys ((lastFields xs).map Item.name)
  rw [← map_name_keyedFields, List.pairwise_map] at hpairs
  refine hpairs.imp_of_mem fun _ hn himp heq ↦ ?_
  exact himp (heq ▸ isAttributeName_of_mem_keyedFields hn) heq

end Fields

end SchemaTree
