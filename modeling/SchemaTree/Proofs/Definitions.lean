import SchemaTree.Proofs.Collecting

/-!
# The names of definitions

Names are given out one after the other, and each is one that has not been given out before:
`freeName_notMem` says that among the numbered candidates there always is one. What the names of a
document are is said by an invariant of giving them out (`DefinitionNames.Fits`): of the items seen
so far, exactly the objects have a class name and exactly the unions that are referred to have an
alias, and no name belongs to two ids (`DefinitionNames.fits_add`).

For a document without a repeated id this means that every object and every union that is referred
to has a name of its own (`Document.definition?_injective`), and that the class of the root has yet
another one. It is the name that the block of the item defines, if the item is rendered
(`Document.definition_block?`). -/

namespace SchemaTree

open Json

/-! ## Free names -/

theorem numbered_injective (base : String) : Function.Injective (numbered base) := by
  have hsuffix {n : Nat} {s : String} (h : base ++ toString n = base ++ s) :
      (toString n).toList = s.toList := by
    have hlist := congrArg String.toList h
    rw [String.toList_append, String.toList_append] at hlist
    exact List.append_cancel_left hlist
  have hdigits {m n : Nat} (h : (toString m).toList = (toString n).toList) : m = n := by
    have hread := congrArg (fun digits ↦ Nat.ofDigitChars 10 digits 0) h
    simpa [Nat.toString_eq_repr, Nat.toList_repr] using hread
  have hne {n : Nat} : base ≠ base ++ toString n := by
    intro h
    have hnil : (toString n).toList = [] := hsuffix (s := "") (by simpa using h.symm)
    simp [Nat.toString_eq_repr, Nat.toList_repr] at hnil
  intro m n h
  match m, n with
  | 0, 0 => rfl
  | 0, n + 1 => exact absurd h hne
  | m + 1, 0 => exact absurd h.symm hne
  | m + 1, n + 1 => exact Nat.succ.inj (hdigits (hsuffix h))

/-- Of one more candidates than there are blocked names, one is not blocked. -/
theorem exists_numbered_notMem (blocked : List String) (base : String) :
    ∃ name ∈ (List.range (blocked.length + 1)).map (numbered base), name ∉ blocked := by
  by_contra hall
  push Not at hall
  have hnodup : ((List.range (blocked.length + 1)).map (numbered base)).Nodup :=
    List.nodup_range.map (numbered_injective base)
  have hlength := (List.subperm_of_subset hnodup hall).length_le
  rw [List.length_map, List.length_range] at hlength
  omega

/-- **The search for a free name ends** at the first candidate that is free. -/
theorem exists_first_free (taken : List String) (base : String) :
    ∃ n, freeName taken base = numbered (withoutLeadingDigit base) n ∧
      numbered (withoutLeadingDigit base) n ∉ taken ++ reservedNames ∧
      ∀ m < n, numbered (withoutLeadingDigit base) m ∈ taken ++ reservedNames := by
  obtain ⟨name, hname, hfree⟩ :=
    exists_numbered_notMem (taken ++ reservedNames) (withoutLeadingDigit base)
  rw [freeName, List.find?_map]
  cases hfind : (List.range ((taken ++ reservedNames).length + 1)).find?
      ((· ∉ taken ++ reservedNames) ∘ numbered (withoutLeadingDigit base)) with
  -- the search finds something, so the base itself is never the fallback
  | none =>
    obtain ⟨n, hn, rfl⟩ := List.mem_map.mp hname
    exact absurd hfree (by simpa using List.find?_eq_none.mp hfind n hn)
  | some n =>
    obtain ⟨hfound, -, hbefore⟩ := List.find?_range_eq_some.mp hfind
    refine ⟨n, rfl, of_decide_eq_true hfound, fun m hm ↦ ?_⟩
    simpa using hbefore m hm

/-- **A free name is free.** -/
theorem freeName_notMem (taken : List String) (base : String) :
    freeName taken base ∉ taken ∧ freeName taken base ∉ reservedNames := by
  obtain ⟨n, hn, hfree, -⟩ := exists_first_free taken base
  rwa [← hn, List.mem_append, not_or] at hfree

/-! ## Names given out -/

/-- An item that gets a class. -/
def Item.DefinesClass (x : Item) : Prop := x.target? = none ∧ x.kind = .object

/-- An item that gets an alias: a union that is referred to. -/
def Item.DefinesAlias (referredTo : List String) (x : Item) : Prop :=
  x.target? = none ∧ x.kind = .union ∧ x.id ∈ referredTo

/-- The base that a name is made from: the name in Pascal case, unless it has no letters or digits.
-/
def nameBase (fallback name : String) : String :=
  if Naming.pascalCase name = "" then fallback else Naming.pascalCase name

namespace DefinitionNames

/-- A name is the class name or the alias of an id. -/
def Gives (names : DefinitionNames) (id name : String) : Prop :=
  Members.find? id names.classes = some name ∨ Members.find? id names.aliases = some name

/-- The names are those of the given items. -/
structure Fits (referredTo : List String) (names : DefinitionNames) (xs : List Item) : Prop where
  class_iff : ∀ id, (Members.find? id names.classes).isSome ↔
    ∃ x ∈ xs, x.id = id ∧ x.DefinesClass
  alias_iff : ∀ id, (Members.find? id names.aliases).isSome ↔
    ∃ x ∈ xs, x.id = id ∧ x.DefinesAlias referredTo
  taken : ∀ {id name}, names.Gives id name → name ∈ names.taken
  injective : ∀ {id id' name}, names.Gives id name → names.Gives id' name → id = id'

variable {referredTo : List String} {names : DefinitionNames} {xs : List Item} {x : Item}

/-! ### One more name -/

theorem add_of_class (hx : x.DefinesClass) :
    names.add referredTo x =
      { names with
        classes :=
          Members.insert x.id (freeName names.taken (nameBase "Object" x.name)) names.classes
        taken := freeName names.taken (nameBase "Object" x.name) :: names.taken } := by
  have ht : x.attributes.target? = none := hx.1
  have ho : x.isObject := decide_eq_true hx.2
  rw [add, ht, if_neg (by simp), if_pos ho]
  rfl

theorem add_of_alias (hx : x.DefinesAlias referredTo) :
    names.add referredTo x =
      { names with
        aliases :=
          Members.insert x.id (freeName names.taken (nameBase "Union" x.name)) names.aliases
        taken := freeName names.taken (nameBase "Union" x.name) :: names.taken } := by
  have ht : x.attributes.target? = none := hx.1
  have ho : ¬ x.isObject := by simp [Item.isObject, hx.2.1]
  have hu : x.isUnion ∧ x.id ∈ referredTo := ⟨decide_eq_true hx.2.1, hx.2.2⟩
  rw [add, ht, if_neg (by simp), if_neg ho, if_pos hu]
  rfl

theorem add_of_neither (hclass : ¬ x.DefinesClass) (halias : ¬ x.DefinesAlias referredTo) :
    names.add referredTo x = names := by
  rw [add]
  split
  · rfl
  rename_i ht
  replace ht : x.target? = none := Option.not_isSome_iff_eq_none.mp ht
  have ho : ¬ x.isObject := fun ho ↦ hclass ⟨ht, of_decide_eq_true ho⟩
  have hu : ¬ (x.isUnion ∧ x.id ∈ referredTo) := fun hu ↦
    halias ⟨ht, of_decide_eq_true hu.1, hu.2⟩
  rw [if_neg ho, if_neg hu]

/-! ### What the names fit -/

theorem fits_empty : Fits referredTo {} [] where
  class_iff := by simp [Members.find?]
  alias_iff := by simp [Members.find?]
  taken := by simp [Gives, Members.find?]
  injective := by simp [Gives, Members.find?]

/-- A new name belongs to one id only, and so do the names from before. -/
theorem Fits.gives_new (h : Fits referredTo names xs) (names' : DefinitionNames)
    {key name : String} (hname : name ∉ names.taken) (htaken : names'.taken = name :: names.taken)
    (hgives : ∀ {id found}, names'.Gives id found →
      id = key ∧ found = name ∨ names.Gives id found) :
    (∀ {id found}, names'.Gives id found → found ∈ names'.taken) ∧
      ∀ {id id' found}, names'.Gives id found → names'.Gives id' found → id = id' := by
  constructor
  · intro id found hfound
    rw [htaken]
    rcases hgives hfound with ⟨-, rfl⟩ | hold
    · exact List.mem_cons_self
    · exact List.mem_cons_of_mem _ (h.taken hold)
  · intro id id' found hfound hfound'
    rcases hgives hfound with ⟨rfl, rfl⟩ | hold <;> rcases hgives hfound' with ⟨rfl, hnew⟩ | hold'
    · rfl
    · exact absurd (h.taken hold') hname
    · exact absurd (h.taken hold) (hnew ▸ hname)
    · exact h.injective hold hold'

/-- An item that defines nothing changes nothing. -/
theorem Fits.skip (h : Fits referredTo names xs) (hclass : ¬ x.DefinesClass)
    (halias : ¬ x.DefinesAlias referredTo) : Fits referredTo names (xs ++ [x]) where
  class_iff id := by
    rw [h.class_iff]
    simp [List.mem_append, or_and_right, exists_or, hclass]
  alias_iff id := by
    rw [h.alias_iff]
    simp [List.mem_append, or_and_right, exists_or, halias]
  taken := h.taken
  injective := h.injective

/-- An object gets a class name. -/
theorem Fits.addClass (h : Fits referredTo names xs) (hx : x.DefinesClass) {name : String}
    (hname : name ∉ names.taken) :
    Fits referredTo
      { names with
        classes := Members.insert x.id name names.classes
        taken := name :: names.taken } (xs ++ [x]) := by
  obtain ⟨htaken, hinjective⟩ := h.gives_new
    { names with classes := Members.insert x.id name names.classes, taken := name :: names.taken }
    hname rfl (by
      rintro id found (hfound | hfound)
      · exact (Members.find?_insert_cases hfound).imp_right .inl
      · exact .inr (.inr hfound))
  refine ⟨fun id ↦ ?_, fun id ↦ ?_, htaken, hinjective⟩
  · rw [Members.isSome_find?_insert, h.class_iff]
    simp [hx, or_and_right, exists_or, or_comm]
  · rw [h.alias_iff]
    simp [Item.DefinesAlias, hx.2, or_and_right, exists_or]

/-- A union that is referred to gets an alias. -/
theorem Fits.addAlias (h : Fits referredTo names xs) (hx : x.DefinesAlias referredTo)
    {name : String} (hname : name ∉ names.taken) :
    Fits referredTo
      { names with
        aliases := Members.insert x.id name names.aliases
        taken := name :: names.taken } (xs ++ [x]) := by
  obtain ⟨htaken, hinjective⟩ := h.gives_new
    { names with aliases := Members.insert x.id name names.aliases, taken := name :: names.taken }
    hname rfl (by
      rintro id found (hfound | hfound)
      · exact .inr (.inl hfound)
      · exact (Members.find?_insert_cases hfound).imp_right .inr)
  refine ⟨fun id ↦ ?_, fun id ↦ ?_, htaken, hinjective⟩
  · rw [h.class_iff]
    simp [Item.DefinesClass, hx.2.1, or_and_right, exists_or]
  · rw [Members.isSome_find?_insert, h.alias_iff]
    simp [hx, or_and_right, exists_or, or_comm]

/-- **Naming one more item** keeps the names in order. -/
theorem fits_add (h : Fits referredTo names xs) (x : Item) :
    Fits referredTo (names.add referredTo x) (xs ++ [x]) := by
  by_cases hclass : x.DefinesClass
  · rw [add_of_class hclass]
    exact h.addClass hclass (freeName_notMem names.taken _).1
  by_cases halias : x.DefinesAlias referredTo
  · rw [add_of_alias halias]
    exact h.addAlias halias (freeName_notMem names.taken _).1
  · rw [add_of_neither hclass halias]
    exact h.skip hclass halias

/-- Naming items one after the other keeps the names in order. -/
theorem fits_addAll (h : Fits referredTo names xs) (ys : List Item) :
    Fits referredTo (ys.foldl (add referredTo) names) (xs ++ ys) := by
  induction ys generalizing names xs with
  | nil =>
    rw [List.append_nil]
    exact h
  | cons y ys ih =>
    rw [List.foldl_cons, List.append_cons]
    exact ih (fits_add h y)

end DefinitionNames

/-! ## The names of a document -/

/-- The names that a module defines, in the order of its blocks. -/
def ClassModule.definitions (m : ClassModule) : List String := m.blocks.map Block.definition

namespace Document

variable {d : Document} {x y : Item} {name : String}

/-- The names of a document are those of its items. -/
theorem fits_definitionNames (d : Document) :
    d.definitionNames.Fits d.referredTo d.items := by
  have hempty : DefinitionNames.Fits d.referredTo {} [] := DefinitionNames.fits_empty
  exact List.nil_append d.items ▸ DefinitionNames.fits_addAll hempty d.items

theorem mem_referredTo_iff {id : String} :
    id ∈ d.referredTo ↔ ∃ y ∈ d.items, y.target? = some id :=
  List.mem_filterMap

/-- The name of the definition of an item, if it has one. -/
def definition? (d : Document) (x : Item) : Option String :=
  (Members.find? x.id d.definitionNames.classes).or (Members.find? x.id d.definitionNames.aliases)

theorem gives_of_definition? (h : d.definition? x = some name) :
    d.definitionNames.Gives x.id name := by
  rcases Option.or_eq_some_iff.mp h with hclass | ⟨-, halias⟩
  · exact .inl hclass
  · exact .inr halias

/-- The class of the root has a name that no item has. -/
theorem definition?_ne_rootName (x : Item) (typeName : String) :
    d.definition? x ≠ some (d.definitionNames.rootName typeName) := by
  intro h
  have htaken := d.fits_definitionNames.taken (gives_of_definition? h)
  exact (freeName_notMem _ _).1 htaken

section Ids

variable (hids : (d.items.map Item.id).Nodup) (hx : x ∈ d.items)
include hids hx

/-- The item with an id has what some item with that id has. -/
theorem exists_mem_id_iff {P : Item → Prop} : (∃ y ∈ d.items, y.id = x.id ∧ P y) ↔ P x := by
  constructor
  · rintro ⟨y, hy, hid, h⟩
    rwa [List.inj_on_of_nodup_map hids hy hx hid] at h
  · intro h
    exact ⟨x, hx, rfl, h⟩

/-- An item has a class name exactly if it is an object. -/
theorem isSome_class_iff :
    (Members.find? x.id d.definitionNames.classes).isSome ↔ x.DefinesClass := by
  rw [d.fits_definitionNames.class_iff, exists_mem_id_iff hids hx]

/-- An item has an alias exactly if it is a union that is referred to. -/
theorem isSome_alias_iff :
    (Members.find? x.id d.definitionNames.aliases).isSome ↔ x.DefinesAlias d.referredTo := by
  rw [d.fits_definitionNames.alias_iff, exists_mem_id_iff hids hx]

theorem class_eq_none (h : ¬ x.DefinesClass) :
    Members.find? x.id d.definitionNames.classes = none := by
  rw [← Option.not_isSome_iff_eq_none, isSome_class_iff hids hx]
  exact h

theorem alias_eq_none (h : ¬ x.DefinesAlias d.referredTo) :
    Members.find? x.id d.definitionNames.aliases = none := by
  rw [← Option.not_isSome_iff_eq_none, isSome_alias_iff hids hx]
  exact h

/-- An object has a class name, and it is the name of its definition. -/
theorem exists_class (h : x.DefinesClass) :
    ∃ name, Members.find? x.id d.definitionNames.classes = some name ∧
      d.definition? x = some name := by
  obtain ⟨name, hname⟩ := Option.isSome_iff_exists.mp ((isSome_class_iff hids hx).mpr h)
  refine ⟨name, hname, ?_⟩
  rw [definition?, hname, Option.some_or]

/-- The name of what is no object is its alias. -/
theorem definition?_of_other (h : ¬ x.DefinesClass) :
    d.definition? x = Members.find? x.id d.definitionNames.aliases := by
  rw [definition?, class_eq_none hids hx h, Option.none_or]

/-- An item has a definition if it is an object or a union that is referred to, and only then. -/
theorem isSome_definition?_iff :
    (d.definition? x).isSome ↔ x.DefinesClass ∨ x.DefinesAlias d.referredTo := by
  rw [definition?, Option.isSome_or, Bool.or_eq_true, isSome_class_iff hids hx,
    isSome_alias_iff hids hx]

/-- **Names are told apart**: no two items have a definition of the same name. -/
theorem definition?_injective (hy : y ∈ d.items) (hname : d.definition? x = some name)
    (hname' : d.definition? y = some name) : x = y := by
  have hid : x.id = y.id := d.fits_definitionNames.injective (gives_of_definition? hname)
    (gives_of_definition? hname')
  exact List.inj_on_of_nodup_map hids hx hy hid

/-- **The block of an item defines its name.** -/
theorem definition_block? :
    (d.renderContext.block? x).map Block.definition = d.definition? x := by
  cases ht : x.target? with
  | some id =>
    have hclass : ¬ x.DefinesClass := fun h ↦ by simpa [ht] using h.1
    have halias : ¬ x.DefinesAlias d.referredTo := fun h ↦ by simpa [ht] using h.1
    rw [block?_of_target _ ht, definition?, class_eq_none hids hx hclass,
      alias_eq_none hids hx halias]
    rfl
  | none =>
    by_cases ho : x.kind = .object
    · obtain ⟨name, hname, hdefinition⟩ := exists_class hids hx ⟨ht, ho⟩
      rw [block?_of_object _ ht ho, hdefinition, renderContext, hname]
      rfl
    · have hclass : ¬ x.DefinesClass := fun h ↦ ho h.2
      rw [block?_of_other _ ht ho, definition?_of_other hids hx hclass, Option.map_map]
      exact Option.map_id'

end Ids

/-- **What a module defines**: the names of the rendered items that have one, in their order, and
the class of the root. -/
theorem definitions_classModule (hids : (d.items.map Item.id).Nodup) (typeName : String) :
    (d.classModule typeName).definitions =
      d.rendered.filterMap d.definition? ++ [d.definitionNames.rootName typeName] := by
  have hblocks : (d.rendered.filterMap d.renderContext.block?).map Block.definition =
      d.rendered.filterMap d.definition? := by
    rw [List.map_filterMap]
    exact List.filterMap_congr fun x hx ↦ definition_block? hids (mem_items_of_mem_rendered hx)
  rw [ClassModule.definitions, blocks_classModule, List.map_append, hblocks]
  rfl

theorem mem_definitions_iff (hids : (d.items.map Item.id).Nodup) {typeName : String} :
    name ∈ (d.classModule typeName).definitions ↔
      (∃ x ∈ d.rendered, d.definition? x = some name) ∨
        name = d.definitionNames.rootName typeName := by
  rw [definitions_classModule hids, List.mem_append, List.mem_filterMap, List.mem_singleton]

/-- **No name is defined twice.** -/
theorem nodup_definitions (hids : (d.items.map Item.id).Nodup) (typeName : String) :
    (d.classModule typeName).definitions.Nodup := by
  have hnames : (d.rendered.filterMap d.definition?).Nodup := by
    rw [List.Nodup, List.pairwise_filterMap]
    refine ((List.pairwise_map.mp (nodup_rendered hids)).imp_of_mem ?_)
    rintro x y hx hy hne name hname _ hname' rfl
    exact hne (congrArg Item.id (definition?_injective hids (mem_items_of_mem_rendered hx)
      (mem_items_of_mem_rendered hy) hname hname'))
  rw [definitions_classModule hids, List.nodup_append]
  refine ⟨hnames, List.nodup_singleton _, ?_⟩
  rintro name hname _ hroot rfl
  obtain ⟨x, -, hx⟩ := List.mem_filterMap.mp hname
  rw [List.mem_singleton.mp hroot] at hx
  exact definition?_ne_rootName x typeName hx

end Document

end SchemaTree
