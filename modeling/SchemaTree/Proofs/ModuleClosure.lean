import SchemaTree.Proofs.GivenNames
import SchemaTree.Proofs.Words

/-!
# Closed modules

A class module is read from the top, so whatever a type in it names has to stand further up: in the
imports, among the helpers or in an earlier block. That it does follows the way an item is rendered,
in which the blocks of the parts come before the block that is made of them: a type only names what
the blocks it comes with define (`within_type`), so that blocks stay in an order in which they can
be read (`ordered_render`).

That nothing is imported or put in front in vain is a matter of what was noted while the blocks were
rendered: it is what the finished blocks need (`Document.noted_classModule`), and these use in their
text the identifiers that they are said to use (`Block.exists_mem_code`).

Both need a module that a reader understands, and so the document must not have literals that are
infinite or NaN. These are written as `inf` and `nan`, which no module defines
(`Document.exists_unbound_identifier`).
-/

namespace SchemaTree

open Json Text

/-! ## Bound identifiers -/

/-- The identifiers that types have in common: all but the names of definitions. -/
def typeVocabulary : List String :=
  "list" :: (typingImports ++ validationImports ++ Helper.all.map Helper.definition)

/-- Besides the common identifiers, a type only uses names that are defined. -/
def TypeExpr.Within (defined : List String) (type : TypeExpr) : Prop :=
  ∀ name ∈ type.identifiers, name ∈ typeVocabulary ∨ name ∈ defined

/-- Besides the common identifiers, a block only uses names that are defined. -/
def Block.Within (defined : List String) (b : Block) : Prop :=
  ∀ name ∈ b.identifiers, name ∈ typeVocabulary ∨ name ∈ defined

namespace TypeExpr

variable {defined more : List String} {type : TypeExpr}

theorem Within.mono (h : type.Within defined) (hsub : defined ⊆ more) : type.Within more :=
  fun name hname ↦ (h name hname).imp_right fun hdefined ↦ hsub hdefined

theorem within_of_vocabulary (h : ∀ name ∈ type.identifiers, name ∈ typeVocabulary) :
    type.Within defined := fun name hname ↦ .inl (h name hname)

theorem Within.list (h : type.Within defined) : (TypeExpr.list type).Within defined := by
  intro name hname
  rw [identifiers, List.mem_cons] at hname
  rcases hname with rfl | hname
  · exact .inl (by decide)
  · exact h name hname

theorem Within.optional (h : type.Within defined) : (TypeExpr.optional type).Within defined := by
  intro name hname
  rw [identifiers, List.mem_cons] at hname
  rcases hname with rfl | hname
  · exact .inl (by decide)
  · exact h name hname

theorem Within.described (h : type.Within defined) (description : Json) :
    (TypeExpr.described type description).Within defined := by
  intro name hname
  rw [identifiers, List.mem_cons, List.mem_cons] at hname
  rcases hname with rfl | rfl | hname
  · exact .inl (by decide)
  · exact .inl (by decide)
  · exact h name hname

theorem within_union {options : List TypeExpr} (h : ∀ a ∈ options, a.Within defined) :
    (TypeExpr.union options).Within defined := by
  intro name hname
  rw [identifiers, identifiersAll_eq, List.mem_cons, List.mem_flatMap] at hname
  rcases hname with rfl | ⟨a, ha, hname⟩
  · exact .inl (by decide)
  · exact h a ha name hname

theorem within_name {definition : String} (h : definition ∈ defined) :
    (TypeExpr.name definition).Within defined := by
  intro name hname
  rw [identifiers, List.mem_singleton] at hname
  exact .inr (hname ▸ h)

theorem within_any : any.Within defined := within_of_vocabulary (by decide)

theorem within_scalar (type : ScalarType) : (scalar type).Within defined := by
  apply within_of_vocabulary
  cases type <;> decide

theorem within_ofScalar (value : Scalar) : (ofScalar value).Within defined := by
  apply within_of_vocabulary
  have hliteral : ∀ name ∈ ["Literal"], name ∈ typeVocabulary := by decide
  have hguarded : ∀ name ∈ ["Annotated", "Literal", "BeforeValidator", "_exact_literal"],
      name ∈ typeVocabulary := by decide
  cases value with
  | text s => exact hliteral
  | _ => exact hguarded

theorem within_leaf (a : Attributes) : (leaf a).Within defined := by
  rw [leaf]
  cases a.kind.scalarType? with
  | some type => exact within_scalar type
  | none =>
    dsimp only
    split
    · exact within_ofScalar a.scalar
    · exact within_any

end TypeExpr

section Render

variable (context : RenderContext) {x : Item} {defined : List String}

theorem within_reference (a : Attributes) : (context.reference a).Within defined := by
  cases hresolve : context.table.resolve a with
  | none =>
    rw [reference_of_none context hresolve]
    exact TypeExpr.within_any
  | some target =>
    rw [reference_of_some context hresolve]
    cases (Members.find? target.id context.names.classes).or
        (Members.find? target.id context.names.aliases) with
    | some name => exact TypeExpr.within_of_vocabulary (by simp [TypeExpr.identifiers])
    | none => exact TypeExpr.within_leaf _

/-- The names that the blocks of the parts of an item define. -/
def Item.definedBefore (x : Item) : List String :=
  (x.renderedParts.flatMap fun y ↦ (y.render context).blocks).map Block.definition

/-- The types of the parts only name what the blocks of the parts define. -/
theorem within_definedBefore (hx : ∀ y ∈ x.renderedParts,
      (y.render context).type.Within ((y.render context).blocks.map Block.definition))
    {y : Item} (hy : y ∈ x.renderedParts) :
    (y.render context).type.Within (x.definedBefore context) := by
  refine (hx y hy).mono fun name hname ↦ ?_
  obtain ⟨b, hb, rfl⟩ := List.mem_map.mp hname
  exact List.mem_map_of_mem (List.mem_flatMap.mpr ⟨y, hy, hb⟩)

theorem within_ownType (ht : x.target? = none)
    (h : ∀ y ∈ x.renderedParts, (y.render context).type.Within defined) :
    (x.ownType context).Within defined := by
  by_cases hu : x.kind = .union
  · rw [ownType_of_union context ht hu]
    refine TypeExpr.describedBy_induction (fun _ hinner ↦ hinner.described _) ?_
    split
    · exact TypeExpr.within_any
    · refine TypeExpr.within_union fun type htype ↦ ?_
      obtain ⟨y, hy, rfl⟩ := List.mem_map.mp htype
      exact Rendered.asOption_induction (P := TypeExpr.Within defined)
        (fun _ ↦ TypeExpr.Within.list) (h y hy) y.attributes
  · rw [ownType_of_leaf context hu]
    exact TypeExpr.describedBy_induction (fun _ hinner ↦ hinner.described _)
      (TypeExpr.within_leaf _)

/-- **A type only names what the blocks it comes with define.** -/
theorem within_type (x : Item) :
    (x.render context).type.Within ((x.render context).blocks.map Block.definition) := by
  induction x using Item.renderedInduction with
  | step x ih =>
    cases ht : x.target? with
    | some ref =>
      rw [type_of_target context ht]
      exact within_reference context _
    | none =>
      have hblocks := blocks_render_eq_parts context x
      by_cases ho : x.kind = .object
      · -- the class of an object is its last block
        rw [hblocks, type_of_object context ht ho, block?_of_object context ht ho]
        apply TypeExpr.within_name
        simp [Block.definition]
      · rw [hblocks, type_of_other context ht ho, block?_of_other context ht ho, List.map_append]
        cases Members.find? x.id context.names.aliases with
        | none =>
          have hown := within_ownType context ht fun y hy ↦ within_definedBefore context ih hy
          exact hown.mono (List.subset_append_left _ _)
        | some name =>
          apply TypeExpr.within_name
          simp [Block.definition]

/-- The class of some fields only names what their blocks define. -/
theorem within_cls (name : String) (description : Json) {xs : List Item}
    (h : ∀ y ∈ lastFields xs, (y.render context).type.Within defined) :
    (Block.cls name description (context.lines xs)).Within defined := by
  intro i hi
  rw [Block.identifiers, List.mem_cons, List.mem_flatMap] at hi
  rcases hi with rfl | ⟨line, hline, hi⟩
  · exact .inl (by decide)
  rw [FieldLine.identifiers, List.mem_append] at hi
  rcases hi with hi | hi
  · have htype : line.type ∈ (context.lines xs).map FieldLine.type := List.mem_map_of_mem hline
    rw [map_type_lines] at htype
    obtain ⟨y, hy, hfield⟩ := List.mem_map.mp htype
    have hwithin : ((y.render context).asField y.attributes).type.Within defined :=
      Rendered.asField_induction (P := TypeExpr.Within defined) (fun _ ↦ TypeExpr.Within.list)
        (fun _ ↦ TypeExpr.Within.optional) (h y hy) y.attributes
    exact hwithin i (hfield ▸ hi)
  · split at hi
    · rw [List.mem_singleton.mp hi]
      exact .inl (by decide)
    · cases hi

/-- The block of an item only names what the blocks of its parts define. -/
theorem within_block? {b : Block} (hb : context.block? x = some b) :
    b.Within (x.definedBefore context) := by
  have hparts : ∀ y ∈ x.renderedParts, (y.render context).type.Within (x.definedBefore context) :=
    fun y hy ↦ within_definedBefore context (fun y _ ↦ within_type context y) hy
  obtain ⟨ht, ⟨ho, rfl⟩ | ⟨-, name, -, rfl⟩⟩ := block?_cases context hb
  · rw [Item.renderedParts_of_object ht ho] at hparts
    exact within_cls context _ _ hparts
  · exact within_ownType context ht hparts

end Render

/-! ## Blocks in order -/

/-- Every block only names what earlier blocks define. -/
def Ordered (blocks : List Block) : Prop :=
  ∀ before b after, blocks = before ++ b :: after → b.Within (before.map Block.definition)

section Ordered

variable {blocks more : List Block} {b : Block}

theorem Block.Within.mono {defined defined' : List String} (h : b.Within defined)
    (hsub : defined ⊆ defined') : b.Within defined' :=
  fun name hname ↦ (h name hname).imp_right fun hdefined ↦ hsub hdefined

theorem ordered_nil : Ordered [] := by
  intro before b after h
  simp at h

theorem Ordered.append (h : Ordered blocks) (hmore : Ordered more) : Ordered (blocks ++ more) := by
  intro before b after heq
  rcases List.append_eq_append_iff.mp heq with ⟨middle, rfl, htail⟩ | ⟨middle, rfl, htail⟩
  -- the block stands in the second list, or else in the first unless that ends right before it
  · refine (hmore middle b after htail).mono ?_
    rw [List.map_append]
    exact List.subset_append_right _ _
  · cases middle with
    | nil =>
      refine (hmore [] b after htail.symm).mono ?_
      exact List.nil_subset _
    | cons c middle =>
      obtain ⟨rfl, -⟩ := List.cons.inj htail
      exact h before b middle rfl

/-- A block may follow all blocks that it needs. -/
theorem Ordered.concat (h : Ordered blocks) (hb : b.Within (blocks.map Block.definition)) :
    Ordered (blocks ++ [b]) := by
  intro before c after heq
  -- the block is the new one if nothing comes after it
  rcases List.eq_nil_or_concat' after with rfl | ⟨after, d, rfl⟩
  · obtain ⟨rfl, hc⟩ := List.append_inj' heq rfl
    rw [List.singleton_inj] at hc
    exact hc ▸ hb
  · rw [← List.cons_append, ← List.append_assoc] at heq
    obtain ⟨hblocks, -⟩ := List.append_inj' heq rfl
    exact h before c after hblocks

theorem ordered_flatMap {α : Type _} {xs : List α} {f : α → List Block}
    (h : ∀ x ∈ xs, Ordered (f x)) : Ordered (xs.flatMap f) := by
  induction xs with
  | nil => exact ordered_nil
  | cons x xs ih =>
    obtain ⟨hx, hxs⟩ := List.forall_mem_cons.mp h
    rw [List.flatMap_cons]
    exact hx.append (ih hxs)

/-- **The blocks of an item can be read in their order.** -/
theorem ordered_render (context : RenderContext) (x : Item) :
    Ordered (x.render context).blocks := by
  induction x using Item.renderedInduction with
  | step x ih =>
    rw [blocks_render_eq_parts]
    cases hb : context.block? x with
    | none =>
      rw [Option.toList_none, List.append_nil]
      exact ordered_flatMap ih
    | some b => exact (ordered_flatMap ih).concat (within_block? context hb)

/-- The blocks of a document can be read in their order. -/
theorem Document.ordered_classModule (d : Document) (typeName : String) :
    Ordered (d.classModule typeName).blocks := by
  rw [blocks_classModule_eq_fields]
  refine (ordered_flatMap fun x _ ↦ ordered_render d.renderContext x).concat ?_
  refine within_cls d.renderContext _ _ fun y hy ↦ (within_type _ y).mono fun name hname ↦ ?_
  obtain ⟨b, hb, rfl⟩ := List.mem_map.mp hname
  exact List.mem_map_of_mem (List.mem_flatMap.mpr ⟨y, hy, hb⟩)

end Ordered

/-! ## What the text of a block uses -/

/-- The texts in a block that name types: the base class and the annotations of a class, and what an
alias stands for. -/
def Block.annotations : Block → List (List Char)
  | cls _ _ fields => "BaseModel".toList :: fields.map fun f ↦ f.type.write
  | typeAlias _ type => [type.write]

/-- The texts in a block that can use identifiers: with its annotation, what follows it. -/
def Block.code : Block → List (List Char)
  | cls _ _ fields => "BaseModel".toList :: fields.map fun f ↦ f.type.write ++ f.value
  | typeAlias _ type => [type.write]

section Code

variable {b : Block} {text : List Char} {name : String}

theorem mem_spoken_iff {words : List String} :
    name ∈ spoken words ↔ name ∈ words ∧ name ∉ Naming.keywords := by
  rw [spoken, List.mem_filter, decide_eq_true_eq]

theorem identifiersIn_baseModel : identifiersIn "BaseModel".toList = ["BaseModel"] := by decide

/-- The arguments of the call that an attribute with an external name is bound to. -/
def FieldLine.arguments (default : Option Json) (external : String) : List Char :=
  match default with
  | some value => "default".toList ++ '=' :: value.displayChars ++ ',' :: ' ' ::
      ("alias".toList ++ '=' :: doubleQuoted external.toList)
  | none => "alias".toList ++ '=' :: doubleQuoted external.toList

/-- An attribute with an external name is bound to a call. -/
theorem FieldLine.value_of_external {f : FieldLine} {external : String}
    (h : f.external = some external) :
    f.value = ' ' :: '=' :: ' ' :: enclosed "Field" '(' ')' (arguments f.default external) := by
  have hopen : " = Field(".toList = ' ' :: '=' :: ' ' :: ("Field".toList ++ ['(']) := by decide
  have hdefault : " = Field(default=".toList = " = Field(".toList ++ "default=".toList := by decide
  have halias : " = Field(alias=".toList = " = Field(".toList ++ "alias=".toList := by decide
  unfold arguments enclosed
  rw [value, h]
  cases f.default with
  | some value =>
    dsimp only
    rw [hdefault, hopen]
    simp only [List.append_assoc]
    rfl
  | none =>
    dsimp only
    rw [halias, hopen]
    rfl

/-- The call that an attribute is bound to uses the words of its default, keywords apart. -/
theorem FieldLine.uses_value_of_external {f : FieldLine} {external : String}
    (h : f.external = some external) :
    Uses f.value (spoken ("Field" :: (f.default.map (wordsIn .displayed)).getD [])) := by
  have hexternal := (Uses.quoted external.toList).argument (w := "alias") (by decide)
  have harguments : Uses (arguments f.default external)
      (spoken ((f.default.map (wordsIn .displayed)).getD [])) := by
    unfold arguments
    cases f.default with
    | none => exact hexternal
    | some value =>
      have hvalue := (isLineForm_displayChars.uses value).argument (w := "default") (by decide)
      have hall := hvalue.separated hexternal
      rwa [List.append_nil] at hall
  rw [value_of_external h]
  exact ((harguments.call (w := "Field") (by decide)).mark (by decide)).equals.mark (by decide)

/-- What follows a type ends its last word. -/
theorem FieldLine.endsWord_value (f : FieldLine) : EndsWord f.value := by
  cases h : f.external with
  | some external =>
    rw [value_of_external h]
    exact endsWord_cons (by decide)
  | none =>
    have hequals : " = ".toList = ' ' :: ['=', ' '] := by decide
    rw [value, h]
    cases f.default with
    | some value =>
      dsimp only
      rw [hequals]
      exact endsWord_cons (by decide)
    | none => exact endsWord_nil

theorem FieldLine.mem_identifiersIn_value {f : FieldLine} (h : f.external.isSome) :
    "Field" ∈ identifiersIn f.value := by
  obtain ⟨external, hexternal⟩ := Option.isSome_iff_exists.mp h
  rw [(uses_value_of_external hexternal).perm.mem_iff]
  exact List.mem_cons_self

/-- The text of a legible annotation uses what the block is said to use. -/
theorem Block.mem_identifiers (hb : ∀ type ∈ b.types, type.IsLegible) (htext : text ∈ b.annotations)
    (hname : name ∈ identifiersIn text) : name ∈ b.identifiers := by
  have htype {type : TypeExpr} (h : type ∈ b.types) (hname : name ∈ identifiersIn type.write) :
      name ∈ type.identifiers :=
    (mem_spoken_iff.mp ((TypeExpr.uses_write type (hb type h)).perm.mem_iff.mp hname)).1
  cases b with
  | cls definition description fields =>
    rw [annotations, List.mem_cons, List.mem_map] at htext
    rw [identifiers, List.mem_cons, List.mem_flatMap]
    rcases htext with rfl | ⟨f, hf, rfl⟩
    · rw [identifiersIn_baseModel, List.mem_singleton] at hname
      exact .inl hname
    · exact .inr ⟨f, hf, List.mem_append_left _ (htype (List.mem_map_of_mem hf) hname)⟩
  | typeAlias definition type =>
    rw [List.mem_singleton.mp htext] at hname
    exact htype List.mem_cons_self hname

/-- **What a block is said to use, its text uses**, keywords apart. -/
theorem Block.exists_mem_code (hb : ∀ type ∈ b.types, type.IsLegible) (hname : name ∈ b.identifiers)
    (hkeyword : name ∉ Naming.keywords) : ∃ text ∈ b.code, name ∈ identifiersIn text := by
  have hspoken {words : List String} (h : name ∈ words) : name ∈ spoken words :=
    mem_spoken_iff.mpr ⟨h, hkeyword⟩
  cases b with
  | cls definition description fields =>
    rw [identifiers, List.mem_cons, List.mem_flatMap] at hname
    rcases hname with rfl | ⟨f, hf, hname⟩
    · refine ⟨"BaseModel".toList, List.mem_cons_self, ?_⟩
      rw [identifiersIn_baseModel]
      exact List.mem_singleton_self _
    refine ⟨f.type.write ++ f.value, List.mem_cons_of_mem _ (List.mem_map_of_mem hf), ?_⟩
    have huses := TypeExpr.uses_write f.type (hb _ (List.mem_map_of_mem hf)) _ f.endsWord_value
    rw [huses.mem_iff, List.mem_append]
    rw [FieldLine.identifiers, List.mem_append] at hname
    rcases hname with hname | hname
    · exact .inl (hspoken hname)
    · split at hname
      · rename_i hexternal
        rw [List.mem_singleton.mp hname]
        exact .inr (FieldLine.mem_identifiersIn_value hexternal)
      · cases hname
  | typeAlias definition type =>
    refine ⟨type.write, List.mem_cons_self, ?_⟩
    have huses := TypeExpr.uses_write type (hb type List.mem_cons_self)
    rw [huses.perm.mem_iff]
    exact hspoken hname

/-- The text of a helper uses what the helper is said to use. -/
theorem Helper.mem_identifiersIn (h : Helper) (hname : name ∈ h.identifiers) :
    name ∈ identifiersIn h.text.toList := by
  have hall : ∀ name ∈ h.identifiers, name ∈ identifiersIn h.text.toList := by
    cases h with
    | exactLiteral => exact List.forall_mem_nil _
    | finiteFloat => decide +kernel
    | isoDatetime =>
      -- the pieces of a long text are spelled out one by one, since all at once takes long
      change ∀ name ∈ _, name ∈ identifiersIn (String.toList (_ ++ _ ++ _ ++ _ ++ _ ++ _ ++ _))
      rw [String.toList_append, String.toList_append, String.toList_append,
        String.toList_append, String.toList_append, String.toList_append]
      decide +kernel
  exact hall name hname

end Code

/-! ## Imports and helpers -/

namespace ClassModule

/-- The names that a module imports, in the order of its import lines. -/
def importedNames (m : ClassModule) : List String :=
  m.imported ["re"] ++ m.imported dateImports ++ m.imported typingImports ++
    m.imported validationImports

/-- The identifiers that the blocks of a module use. -/
def blockIdentifiers (m : ClassModule) : List String := m.blocks.flatMap Block.identifiers

/-- What was noted while a module was made is what its finished blocks need. -/
structure Noted (m : ClassModule) : Prop where
  helpers : ∀ h : Helper, h ∈ m.usedHelpers ↔ h.definition ∈ m.blockIdentifiers
  names : ∀ name ∈ importableNames, (name ∈ m.usedNames ↔ Needs m.blockIdentifiers name)

/-- A module that can be read from its top, and in which nothing stands in vain. -/
structure Closed (m : ClassModule) : Prop where
  /-- No name is defined twice. -/
  nodup : m.definitions.Nodup
  /-- An identifier in an annotation is a builtin, imported, a helper or defined further up. -/
  bound : ∀ before b after, m.blocks = before ++ b :: after → ∀ text ∈ b.annotations,
    ∀ name ∈ identifiersIn text, name = "list" ∨ name ∈ m.importedNames ∨
      (∃ h ∈ m.helpers, h.definition = name) ∨ name ∈ before.map Block.definition
  /-- What is imported is used by a helper or a block. -/
  imports : ∀ name ∈ m.importedNames,
    (∃ h ∈ m.helpers, name ∈ identifiersIn h.text.toList) ∨
      ∃ b ∈ m.blocks, ∃ text ∈ b.code, name ∈ identifiersIn text
  /-- The helpers are used by blocks. -/
  helpers : ∀ h ∈ m.helpers, ∃ b ∈ m.blocks, ∃ text ∈ b.code, h.definition ∈ identifiersIn text

variable {m : ClassModule} {name : String}

theorem mem_importedNames_iff :
    name ∈ m.importedNames ↔ name ∈ importableNames ∧ name ∈ m.usedNames := by
  simp only [importedNames, importableNames, imported, List.mem_append, List.mem_filter,
    decide_eq_true_eq, ← or_and_right]

theorem Noted.mem_importedNames_iff (hm : m.Noted) :
    name ∈ m.importedNames ↔ name ∈ importableNames ∧ Needs m.blockIdentifiers name := by
  rw [ClassModule.mem_importedNames_iff]
  exact and_congr_right (hm.names name)

theorem Noted.mem_helpers_iff (hm : m.Noted) {h : Helper} :
    h ∈ m.helpers ↔ h.definition ∈ m.blockIdentifiers := by
  have hall : h ∈ Helper.all := by cases h <;> decide
  rw [ClassModule.helpers, List.mem_filter, decide_eq_true_eq, and_iff_right hall, hm.helpers]

/-- A common identifier that the blocks use is a builtin, or comes with the module. -/
theorem provided_of_vocabulary (hm : m.Noted) (hvocabulary : name ∈ typeVocabulary)
    (hname : name ∈ m.blockIdentifiers) : name = "list" ∨ name ∈ m.importedNames ∨
      ∃ h ∈ m.helpers, h.definition = name := by
  rw [typeVocabulary, List.mem_cons, List.mem_append, List.mem_append, List.mem_map] at hvocabulary
  have himported (h : name ∈ typingImports ∨ name ∈ validationImports) :
      name ∈ m.importedNames := by
    refine hm.mem_importedNames_iff.mpr ⟨?_, .inl hname⟩
    rw [importableNames, List.append_assoc]
    exact List.mem_append_right _ (List.mem_append.mpr h)
  rcases hvocabulary with hlist | himport | ⟨h, -, rfl⟩
  · exact .inl hlist
  · exact .inr (.inl (himported himport))
  · exact .inr (.inr ⟨h, hm.mem_helpers_iff.mpr hname, rfl⟩)

/-- A module of legible types in a readable order is closed if what was noted is what is needed. -/
theorem closed_of_ordered (hm : m.Noted) (hnodup : m.definitions.Nodup)
    (hordered : Ordered m.blocks)
    (hlegible : ∀ b ∈ m.blocks, ∀ type ∈ b.types, type.IsLegible) : m.Closed where
  nodup := hnodup
  bound := by
    intro before b after hblocks text htext name hname
    have hb : b ∈ m.blocks := by
      rw [hblocks]
      exact List.mem_append_right _ List.mem_cons_self
    have hidentifier : name ∈ b.identifiers := Block.mem_identifiers (hlegible b hb) htext hname
    rcases hordered before b after hblocks name hidentifier with hvocabulary | hdefined
    · have hprovided := provided_of_vocabulary hm hvocabulary
        (List.mem_flatMap.mpr ⟨b, hb, hidentifier⟩)
      exact hprovided.imp_right fun h ↦ h.imp_right .inl
    · exact .inr (.inr (.inr hdefined))
  imports := by
    intro name hname
    obtain ⟨hcandidate, hneeds⟩ := hm.mem_importedNames_iff.mp hname
    have hkeyword : name ∉ Naming.keywords := by
      have hall : ∀ name ∈ importableNames, name ∉ Naming.keywords := by decide
      exact hall name hcandidate
    rcases hneeds with hname | ⟨h, hh, hname⟩
    · obtain ⟨b, hb, hname⟩ := List.mem_flatMap.mp hname
      exact .inr ⟨b, hb, Block.exists_mem_code (hlegible b hb) hname hkeyword⟩
    · exact .inl ⟨h, hm.mem_helpers_iff.mpr hh, h.mem_identifiersIn hname⟩
  helpers := by
    intro h hh
    have hkeyword : h.definition ∉ Naming.keywords := by cases h <;> decide
    obtain ⟨b, hb, hname⟩ := List.mem_flatMap.mp (hm.mem_helpers_iff.mp hh)
    exact ⟨b, hb, Block.exists_mem_code (hlegible b hb) hname hkeyword⟩

/-- A module without faults is written, and ends with the lines that rebuild its classes. -/
theorem exists_write_eq (h : m.faults = []) :
    ∃ front, m.write = .ok (front ++ "\n\n\n".toList ++ m.rebuilds) := by
  rw [write, h]
  exact ⟨_, rfl⟩

end ClassModule

/-! ## Documents -/

instance (x : Item) : Decidable x.DefinesClass :=
  inferInstanceAs (Decidable (x.target? = none ∧ x.kind = .object))

/-- A literal with a value. -/
def Item.literal (id : String) (value : Json) : Item :=
  .mk { (Item.new id .literal id).attributes with literal := value } none none

namespace Document

variable {d : Document} {x : Item}

/-- What is read off classes, and off no alias, is read off the objects among some items. -/
theorem filterMap_block? (context : RenderContext) {α : Type} (read : Block → Option α)
    {f : Item → α} (halias : ∀ name type, read (.typeAlias name type) = none)
    (hclass : ∀ x : Item, read (.cls ((Members.find? x.id context.names.classes).getD "")
      x.attributes.description (context.lines (x.fields.getD []))) = some (f x))
    (xs : List Item) :
    (xs.filterMap context.block?).filterMap read =
      (xs.filter fun x ↦ x.DefinesClass).map f := by
  rw [List.filterMap_filterMap, ← List.filterMap_eq_filter, List.map_filterMap]
  refine List.filterMap_congr fun x _ ↦ ?_
  by_cases hx : x.DefinesClass
  · rw [block?_of_object context hx.1 hx.2, Option.bind_some, hclass]
    simp [Option.guard, hx]
  · cases hblock : context.block? x with
    | none => simp [Option.guard, hx]
    | some b =>
      obtain ⟨ht, ⟨ho, -⟩ | ⟨-, name, -, rfl⟩⟩ := block?_cases context hblock
      · exact absurd ⟨ht, ho⟩ hx
      · simp [Option.guard, hx, halias]

/-- **Every rendered object has one class**, in the order in which they are rendered, and so has the
root. -/
theorem classNames_classModule (hids : (d.items.map Item.id).Nodup) (typeName : String) :
    (d.classModule typeName).classNames.map some =
      (d.rendered.filter fun x ↦ x.DefinesClass).map d.definition? ++
        [some (d.definitionNames.rootName typeName)] := by
  have hblocks : (d.rendered.filterMap d.renderContext.block?).filterMap Block.className? =
      (d.rendered.filter fun x ↦ x.DefinesClass).map fun x ↦
        (Members.find? x.id d.definitionNames.classes).getD "" :=
    filterMap_block? d.renderContext Block.className? (fun _ _ ↦ rfl) (fun _ ↦ rfl) d.rendered
  have hnames : ∀ x ∈ d.rendered.filter fun x ↦ x.DefinesClass,
      some ((Members.find? x.id d.definitionNames.classes).getD "") = d.definition? x := by
    intro x hx
    obtain ⟨hx, hclass⟩ := List.mem_filter.mp hx
    obtain ⟨name, hname, hdefinition⟩ :=
      exists_class hids (mem_items_of_mem_rendered hx) (of_decide_eq_true hclass)
    rw [hdefinition, hname, Option.getD_some]
  rw [classNames_eq, blocks_classModule, List.filterMap_append, hblocks, List.map_append,
    List.map_map, ← List.map_congr_left hnames]
  rfl

/-- No name that is given out is one that comes with a module. -/
theorem notMem_providedNames {name typeName : String} (h : name ∈ d.givenNames typeName) :
    name ∉ providedNames := by
  obtain ⟨hcapital, hreserved⟩ := isCapitalized_of_mem_givenNames h
  intro hprovided
  have hall : ∀ name ∈ providedNames, name ∈ reservedNames ∨ name = "_exact_literal" := by decide
  rcases hall name hprovided with hmem | rfl
  · exact hreserved hmem
  · obtain ⟨c, rest, hname, -, hrest⟩ := hcapital
    have hunderscore : '_' ∈ rest := by
      obtain ⟨rfl, rfl⟩ := List.cons.inj hname.symm
      decide
    exact absurd (hrest '_' hunderscore) (by decide)

/-- The definitions of a document are not named like what comes with its module. -/
theorem areFree_definitionNames (d : Document) : d.definitionNames.AreFree := by
  intro id name hgives
  have hgiven : name ∈ d.givenNames "" :=
    List.mem_append_left _ (List.mem_reverse.mpr (d.fits_definitionNames.taken hgives))
  exact notMem_providedNames hgiven

/-- **What was noted is what is needed**, whatever the document. -/
theorem noted_classModule (d : Document) (typeName : String) : (d.classModule typeName).Noted := by
  have hadds := d.adds_classModule typeName
  have hidentifiers : (d.classModule typeName).blockIdentifiers =
      (d.renderContext.objectBlocks (d.definitionNames.rootName typeName) .null
        d.fields).flatMap Block.identifiers := by
    rw [ClassModule.blockIdentifiers, hadds.blocks]
    rfl
  refine ⟨fun h ↦ ?_, fun name hname ↦ ?_⟩
  · rw [hidentifiers, hadds.helpers d.areFree_definitionNames h]
    exact or_iff_right (List.not_mem_nil)
  · have hbase : "BaseModel" ∈ (d.classStart typeName).usedNames := by simp [classStart]
    rw [hidentifiers, hadds.names d.areFree_definitionNames hbase name hname]
    refine or_iff_right_of_imp fun hstart ↦ .inl ?_
    -- of the names with which rendering begins, only that of the base class can be imported
    have hgiven (h : name ∈ d.givenNames typeName) : False :=
      notMem_providedNames h (List.mem_append_left _ hname)
    rcases List.mem_cons.mp hstart with rfl | hstart
    · exact (hgiven (List.mem_append_right _ (List.mem_singleton_self _))).elim
    rcases List.mem_cons.mp hstart with rfl | htaken
    · rw [RenderContext.objectBlocks, List.flatMap_append]
      exact List.mem_append_right _ (List.mem_append_left _ List.mem_cons_self)
    · exact (hgiven (List.mem_append_left _ (List.mem_reverse.mpr htaken))).elim

variable (hids : (d.items.map Item.id).Nodup) (hlegible : ∀ x ∈ d.items, x.attributes.IsLegible)

include hids hlegible in
/-- **The module of a document is closed.** Where no id is repeated, all descriptions are texts and
no literal is infinite or NaN, the module of a document can be read from its top and has nothing in
it in vain: what was noted while it was rendered is what its finished blocks need. It has one class
for each rendered object and one for the root, and if nothing keeps it from being written, it ends
with one line for each class, in the same order. -/
theorem classModule_closed (typeName : String) :
    (d.classModule typeName).Noted ∧ (d.classModule typeName).Closed ∧
      (d.classModule typeName).classNames =
        (d.classModule typeName).blocks.filterMap Block.className? ∧
      (d.classModule typeName).classNames.map some =
        (d.rendered.filter fun x ↦ x.DefinesClass).map d.definition? ++
          [some (d.definitionNames.rootName typeName)] ∧
      (d.classFaults = [] → ∃ front, (d.classModule typeName).write =
        .ok (front ++ "\n\n\n".toList ++ (d.classModule typeName).rebuilds)) := by
  have hnoted := d.noted_classModule typeName
  have hordered := d.ordered_classModule typeName
  refine ⟨hnoted, ClassModule.closed_of_ordered hnoted (nodup_definitions hids typeName)
    hordered ?_,
    classNames_eq d typeName, classNames_classModule hids typeName, fun hfaults ↦ ?_⟩
  · intro b hb type htype
    exact isLegible_block hids hlegible hb htype
  · exact ClassModule.exists_write_eq ((faults_classModule d typeName).trans hfaults)

omit hids hlegible

/-- A document with two fields of one name, a field that cannot keep its name, a union that is
referred to and one whose only option is an object. -/
def catalogue : Document where
  fields := [
    .mk (Item.new "item" .object "item").attributes
      (some [Item.new "net" .number "price", Item.new "gross" .number "price",
        Item.new "class" .string "class", .literal "version" (.int 1), .referring "next" "item",
        .referring "content" "value"]) none,
    .mk { (Item.new "value" .union "value").attributes with description := .str "any value" } none
      (some [Item.new "text" .string "text",
        .mk { (Item.new "times" .datetime "times").attributes with isArray := true } none none]),
    .mk (Item.new "choice" .union "choice").attributes none
      (some [Item.new "hidden" .object "item"])]

theorem classModule_closed_catalogue :
    (catalogue.items.map Item.id).Nodup ∧ (∀ x ∈ catalogue.items, x.attributes.IsLegible) ∧
      (catalogue.classModule "Schema").definitions = ["Item", "Value", "Schema"] ∧
      (catalogue.classModule "Schema").Closed := by
  have hids : (catalogue.items.map Item.id).Nodup := by decide
  have hlegible : ∀ x ∈ catalogue.items, x.attributes.IsLegible := by decide
  exact ⟨hids, hlegible, by decide, (classModule_closed hids hlegible "Schema").2.1⟩

/-- A document with a literal that is infinite. -/
def boundless : Document where
  fields := [.literal "limit" (.float (Float.ofBits 0x7ff0000000000000))]

/-- An infinite literal is written as a word that nothing in the module defines. -/
theorem exists_unbound_identifier :
    (boundless.items.map Item.id).Nodup ∧
      ∃ b ∈ (boundless.classModule "Schema").blocks, ∃ text ∈ b.annotations,
        "inf" ∈ identifiersIn text ∧ "inf" ∉ (boundless.classModule "Schema").importedNames ∧
          (∀ h ∈ (boundless.classModule "Schema").helpers, h.definition ≠ "inf") ∧
          "inf" ∉ (boundless.classModule "Schema").definitions := by
  have hblocks : (boundless.classModule "Schema").blocks =
      [.cls "Schema" .null
        [⟨"limit", .guarded (.real (Float.ofBits 0x7ff0000000000000)), none, none⟩]] := rfl
  refine ⟨by decide, _, hblocks ▸ List.mem_cons_self, _, List.mem_cons_of_mem _ List.mem_cons_self,
    ?_⟩
  decide

end Document

end SchemaTree
