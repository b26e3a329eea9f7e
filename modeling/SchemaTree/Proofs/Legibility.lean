import SchemaTree.Proofs.Definitions
import SchemaTree.Proofs.Identifiers
import SchemaTree.Proofs.References
import SchemaTree.RuntimeType.Acceptance

/-!
# Legible modules

What a reader needs to be able to tell the identifiers in the types of a module: all definitions are
named by words (`Document.isWord_definitionNames`), and no literal is a number without digits, which
would be written as a word. The first always holds, since names are made of the letters and digits
of item names; the second is a condition on the document (`Attributes.IsLegible`), as is that
descriptions are texts. -/

namespace SchemaTree

open Json Text

/-! ## Names are words -/

section Words

variable {name : String}

theorem isWordPart_of_isAlphanum {c : Char} (h : c.isAlphanum) : isWordPart c := by
  rw [isWordPart, h]
  rfl

theorem lt_of_isAlphanum {c : Char} (h : c.isAlphanum) : c.toNat < 128 := by
  have hranges : (c.isUpper || c.isLower) || c.isDigit := h
  rw [Bool.or_eq_true, Bool.or_eq_true] at hranges
  rcases hranges with (hupper | hlower) | hdigit
  · have hle : c.val ≤ 'Z'.val := (of_decide_eq_true hupper).2
    exact Nat.lt_of_le_of_lt (UInt32.le_iff_toNat_le.mp hle) (by decide)
  · have hle : c.val ≤ 'z'.val := of_decide_eq_true ((Bool.and_eq_true _ _).mp hlower).2
    exact Nat.lt_of_le_of_lt (UInt32.le_iff_toNat_le.mp hle) (by decide)
  · have hle : c.val ≤ '9'.val := of_decide_eq_true ((Bool.and_eq_true _ _).mp hdigit).2
    exact Nat.lt_of_le_of_lt (UInt32.le_iff_toNat_le.mp hle) (by decide)

/-- What can be checked of the letters and digits among the first 128 characters holds of all. -/
theorem of_isAlphanum {P : Char → Prop} {c : Char}
    (hall : ∀ n < 128, (Char.ofNat n).isAlphanum → P (Char.ofNat n)) (h : c.isAlphanum) : P c := by
  have hc := hall c.toNat (lt_of_isAlphanum h)
  rw [Char.ofNat_toNat] at hc
  exact hc h

theorem isIdentifierPart_of_isAlphanum {c : Char} (h : c.isAlphanum) : isIdentifierPart c := by
  rw [isIdentifierPart, if_pos (lt_of_isAlphanum h), h, Bool.true_or]

/-- Letters and digits have small and capital forms that are letters and digits. -/
theorem isAlphanum_cases {c : Char} (h : c.isAlphanum) :
    c.toUpper.isAlphanum ∧ c.toLower.isAlphanum :=
  of_isAlphanum (P := fun c ↦ c.toUpper.isAlphanum ∧ c.toLower.isAlphanum) (by decide) h

theorem isAlphanum_of_mem_pascalChars {text : List Char} {c : Char}
    (h : c ∈ Naming.pascalChars text) : c.isAlphanum := by
  obtain ⟨word, hword, hc⟩ := List.mem_flatMap.mp h
  have hall : ∀ b ∈ word, b.isAlphanum := List.all_eq_true.mp (List.mem_filter.mp hword).2
  cases word with
  | nil => cases hc
  | cons b word =>
    rw [Naming.capitalize, List.mem_cons, List.mem_map] at hc
    rcases hc with rfl | ⟨b', hb', rfl⟩
    · exact (isAlphanum_cases (hall b List.mem_cons_self)).1
    · exact (isAlphanum_cases (hall b' (List.mem_cons_of_mem b hb'))).2

/-- A base of names: letters and digits, and at least one of them. -/
def IsNameBase (base : String) : Prop := base ≠ "" ∧ ∀ c ∈ base.toList, c.isAlphanum

theorem isNameBase_nameBase {fallback : String} (hfallback : IsNameBase fallback) (name : String) :
    IsNameBase (nameBase fallback name) := by
  rw [nameBase]
  split
  · exact hfallback
  · rename_i hne
    refine ⟨hne, fun c hc ↦ ?_⟩
    rw [Naming.pascalCase, String.toList_ofList] at hc
    exact isAlphanum_of_mem_pascalChars hc

theorem isWord_withoutLeadingDigit {base : String} (h : IsNameBase base) :
    isWord (withoutLeadingDigit base).toList := by
  obtain ⟨hne, hall⟩ := h
  have hparts : ∀ c ∈ base.toList, isWordPart c := fun c hc ↦ isWordPart_of_isAlphanum (hall c hc)
  rw [withoutLeadingDigit]
  cases hbase : base.toList with
  | nil => exact absurd (String.toList_eq_nil_iff.mp hbase) hne
  | cons c rest =>
    rw [hbase] at hparts
    dsimp only
    split
    · have hunderscore : "_".toList = ['_'] := by decide
      have hsign : isWordPart '_' := by decide
      rw [String.toList_append, hunderscore, List.singleton_append, isWord, hbase, Bool.and_eq_true]
      exact ⟨by decide, List.all_eq_true.mpr (List.forall_mem_cons.mpr ⟨hsign, hparts⟩)⟩
    · rename_i hdigit
      rw [hbase, isWord, Bool.and_eq_true]
      exact ⟨by simpa using hdigit, List.all_eq_true.mpr hparts⟩

theorem isWord_append {text more : List Char} (h : isWord text)
    (hmore : ∀ c ∈ more, isWordPart c) : isWord (text ++ more) := by
  cases text with
  | nil => cases h
  | cons c text =>
    have hall := isWordPart_of_isWord h
    rw [isWord, Bool.and_eq_true] at h
    rw [List.cons_append, isWord, Bool.and_eq_true]
    refine ⟨h.1, List.all_eq_true.mpr fun b hb ↦ ?_⟩
    rw [← List.cons_append] at hb
    exact (List.mem_append.mp hb).elim (hall b) (hmore b)

theorem isWord_numbered (h : isWord name.toList) (n : Nat) : isWord (numbered name n).toList := by
  cases n with
  | zero => exact h
  | succ n =>
    rw [numbered.eq_2 name (n + 1) (by omega), String.toList_append]
    refine isWord_append h fun c hc ↦ isWordPart_of_isAlphanum ?_
    rw [Nat.toString_eq_repr, Nat.toList_repr] at hc
    rw [Char.isAlphanum, Decimal.isDigit_of_mem_toDigits hc, Bool.or_true]

/-- **A free name is a word.** -/
theorem isWord_freeName (taken : List String) {base : String} (h : IsNameBase base) :
    isWord (freeName taken base).toList := by
  obtain ⟨n, hn, -⟩ := exists_first_free taken base
  rw [hn]
  exact isWord_numbered (isWord_withoutLeadingDigit h) n

namespace DefinitionNames

variable {referredTo : List String} {names : DefinitionNames} {id : String}

/-- An item that is named gets a free name. -/
theorem gives_add {x : Item} (h : (names.add referredTo x).Gives id name) :
    names.Gives id name ∨ ∃ base, IsNameBase base ∧ name = freeName names.taken base := by
  have hobject : IsNameBase "Object" := ⟨by decide, List.all_eq_true.mp (by decide)⟩
  have hunion : IsNameBase "Union" := ⟨by decide, List.all_eq_true.mp (by decide)⟩
  by_cases hclass : x.DefinesClass
  · rw [add_of_class hclass] at h
    rcases h with h | h
    · rcases Members.find?_insert_cases h with ⟨-, hnew⟩ | hold
      · exact .inr ⟨_, isNameBase_nameBase hobject x.name, hnew⟩
      · exact .inl (.inl hold)
    · exact .inl (.inr h)
  by_cases halias : x.DefinesAlias referredTo
  · rw [add_of_alias halias] at h
    rcases h with h | h
    · exact .inl (.inl h)
    · rcases Members.find?_insert_cases h with ⟨-, hnew⟩ | hold
      · exact .inr ⟨_, isNameBase_nameBase hunion x.name, hnew⟩
      · exact .inl (.inr hold)
  · rw [add_of_neither hclass halias] at h
    exact .inl h

/-- Where the names are words, those that are given out further are. -/
theorem isWord_addAll (hnames : ∀ {id name}, names.Gives id name → isWord name.toList)
    (xs : List Item) (h : (xs.foldl (add referredTo) names).Gives id name) :
    isWord name.toList := by
  induction xs generalizing names with
  | nil => exact hnames h
  | cons x xs ih =>
    refine ih (fun hgives ↦ ?_) h
    rcases gives_add hgives with hold | ⟨base, hbase, rfl⟩
    · exact hnames hold
    · exact isWord_freeName _ hbase

end DefinitionNames

/-- The names of a document are words. -/
theorem Document.isWord_definitionNames {d : Document} {id : String}
    (h : d.definitionNames.Gives id name) : isWord name.toList :=
  DefinitionNames.isWord_addAll (by simp [DefinitionNames.Gives, Members.find?]) d.items h

end Words

/-! ## Legible types -/

/-- The types in a block. -/
def Block.types : Block → List TypeExpr
  | cls _ _ fields => fields.map FieldLine.type
  | typeAlias _ type => [type]

theorem Json.exists_of_isText {value : Json} (h : value.isText) : ∃ s, value = .str s := by
  cases value with
  | str s => exact ⟨s, rfl⟩
  | _ => cases h

/-- Whether a value is neither infinite nor NaN. -/
def Json.isBounded : Json → Bool
  | .float x => (Decimal.Binary.ofFloat x).isFinite
  | _ => true

/-- A description is a text, if there is one, and a literal is not infinite or NaN. -/
structure Attributes.IsLegible (a : Attributes) : Prop where
  description : a.description.truthy → a.description.isText
  literal : a.literal.isBounded

instance (a : Attributes) : Decidable a.IsLegible :=
  decidable_of_iff ((a.description.truthy → a.description.isText) ∧ a.literal.isBounded)
    ⟨fun h ↦ ⟨h.1, h.2⟩, fun h ↦ ⟨h.description, h.literal⟩⟩

section Legible

variable {d : Document} {x : Item}

theorem isLegible_leaf {a : Attributes} (h : a.IsLegible) : (TypeExpr.leaf a).IsLegible := by
  rw [TypeExpr.leaf]
  cases a.kind.scalarType? with
  | some type => trivial
  | none =>
    dsimp only
    split
    · have hbounded := h.literal
      rw [Attributes.scalar]
      cases hliteral : a.literal with
      | float x =>
        rw [hliteral] at hbounded
        exact hbounded
      | _ => trivial
    · trivial

theorem isLegible_describedBy {a : Attributes} (h : a.IsLegible) {type : TypeExpr}
    (htype : type.IsLegible) : (type.describedBy a.description).IsLegible :=
  TypeExpr.describedBy_induction (fun htruthy hinner ↦
    ⟨hinner, Json.exists_of_isText (h.description htruthy)⟩) htype

theorem isLegible_reference {context : RenderContext} {a : Attributes}
    (h : ∀ target, context.table.resolve a = some target → target.attributes.IsLegible) :
    (context.reference a).IsLegible := by
  cases hresolve : context.table.resolve a with
  | none =>
    rw [reference_of_none context hresolve]
    trivial
  | some target =>
    rw [reference_of_some context hresolve]
    cases (Members.find? target.id context.names.classes).or
        (Members.find? target.id context.names.aliases) with
    | some name => trivial
    | none => exact isLegible_leaf (h target hresolve)

theorem isLegible_ownType {context : RenderContext} (ht : x.target? = none)
    (h : x.attributes.IsLegible)
    (hparts : ∀ y ∈ x.renderedParts, (y.render context).type.IsLegible) :
    (x.ownType context).IsLegible := by
  by_cases hu : x.kind = .union
  · rw [ownType_of_union context ht hu]
    refine isLegible_describedBy h ?_
    split
    · trivial
    · refine TypeExpr.areLegible_iff.mpr fun type htype ↦ ?_
      obtain ⟨y, hy, rfl⟩ := List.mem_map.mp htype
      exact Rendered.asOption_induction (fun _ ↦ id) (hparts y hy) y.attributes
  · rw [ownType_of_leaf context hu]
    exact isLegible_describedBy h (isLegible_leaf h)

variable (hids : (d.items.map Item.id).Nodup) (hlegible : ∀ x ∈ d.items, x.attributes.IsLegible)
include hids hlegible

/-- The types of a document are legible. -/
theorem Document.isLegible_type (hx : x ∈ d.rendered) :
    (x.render d.renderContext).type.IsLegible := by
  induction x using Item.renderedInduction with
  | step x ih =>
    have hmem : x ∈ d.items := mem_items_of_mem_rendered hx
    cases ht : x.target? with
    | some ref =>
      rw [type_of_target _ ht]
      refine isLegible_reference fun target htarget ↦ hlegible target ?_
      exact ((resolve_eq_some_iff hids hmem ht).mp htarget).2.1
    | none =>
      by_cases ho : x.kind = .object
      · obtain ⟨name, hname, -⟩ := exists_class hids hmem ⟨ht, ho⟩
        have hword : isWord name.toList := isWord_definitionNames (.inl hname)
        rw [type_of_object _ ht ho, renderContext, hname]
        exact hword
      · have hown : (x.ownType d.renderContext).IsLegible :=
          isLegible_ownType ht (hlegible x hmem) fun y hy ↦
            ih y hy (mem_rendered_of_mem_renderedParts hx hy)
        rw [type_of_other _ ht ho]
        cases halias : Members.find? x.id d.renderContext.names.aliases with
        | none => exact hown
        | some name =>
          have hword : isWord name.toList := isWord_definitionNames (.inr halias)
          exact hword

/-- The fields of a class have legible types if those that count are rendered. -/
theorem Document.isLegible_lines {xs : List Item} (hxs : ∀ y ∈ lastFields xs, y ∈ d.rendered)
    {line : FieldLine} (hline : line ∈ d.renderContext.lines xs) : line.type.IsLegible := by
  have htype : line.type ∈ (d.renderContext.lines xs).map FieldLine.type :=
    List.mem_map_of_mem hline
  rw [map_type_lines] at htype
  obtain ⟨y, hy, hfield⟩ := List.mem_map.mp htype
  rw [← hfield]
  exact Rendered.asField_induction (P := TypeExpr.IsLegible) (fun _ ↦ id) (fun _ ↦ id)
    (isLegible_type hids hlegible (hxs y hy)) y.attributes

/-- **The modules of a document are legible**: every type in a block is. -/
theorem Document.isLegible_block {typeName : String} {b : Block}
    (hb : b ∈ (d.classModule typeName).blocks) {type : TypeExpr} (htype : type ∈ b.types) :
    type.IsLegible := by
  rcases mem_blocks_iff.mp hb with ⟨x, hx, hblock⟩ | rfl
  · have hmem : x ∈ d.items := mem_items_of_mem_rendered hx
    obtain ⟨ht, ⟨ho, rfl⟩ | ⟨-, name, -, rfl⟩⟩ := block?_cases _ hblock
    · obtain ⟨line, hline, rfl⟩ := List.mem_map.mp htype
      refine isLegible_lines hids hlegible (fun y hy ↦ ?_) hline
      rw [← Item.renderedParts_of_object ht ho] at hy
      exact mem_rendered_of_mem_renderedParts hx hy
    · rw [List.mem_singleton.mp htype]
      exact isLegible_ownType ht (hlegible x hmem) fun y hy ↦
        isLegible_type hids hlegible (mem_rendered_of_mem_renderedParts hx hy)
  · obtain ⟨line, hline, rfl⟩ := List.mem_map.mp htype
    exact isLegible_lines hids hlegible (fun y ↦ mem_rendered_of_mem_lastFields) hline

end Legible

end SchemaTree
