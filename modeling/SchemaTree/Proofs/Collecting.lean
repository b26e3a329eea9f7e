import SchemaTree.Proofs.Rendering

/-!
# What rendering collects

Rendering keeps a module on the way and changes it in many places. `Renders` says of a piece of it
what it comes to and what it adds to whatever module there is: blocks at the end, faults at the end,
and the names and helpers that some identifiers call for. It is closed under sequences, so that what
an item adds follows from what its parts add (`renders_item`), in the order in which they are
rendered.

Two facts come out of this. The blocks of a document are those of its rendered items and the class
of the root (`Document.blocks_classModule`). And what was noted on the way is what the finished
blocks call for: a module has noted an importable name or a helper exactly if the identifiers in its
blocks need it (`Document.adds_classModule`, `Document.noted_classModule`), no matter where in a
document they come from. This needs that no definition has the name of something that can be
imported or that a helper defines. -/

namespace SchemaTree

open Json

/-! ## Identifiers -/

/-- The identifiers that the text of an attribute uses. -/
def FieldLine.identifiers (f : FieldLine) : List String :=
  f.type.identifiers ++ if f.external.isSome then ["Field"] else []

/-- The identifiers that the text of a block uses. -/
def Block.identifiers : Block → List String
  | cls _ _ fields => "BaseModel" :: fields.flatMap FieldLine.identifiers
  | typeAlias _ type => type.identifiers

/-- The identifiers that what was rendered uses. -/
def Rendered.identifiers (r : Rendered) : List String :=
  r.blocks.flatMap Block.identifiers ++ r.type.identifiers

theorem TypeExpr.identifiersAll_eq (types : List TypeExpr) :
    identifiersAll types = types.flatMap identifiers := by
  induction types with
  | nil => rfl
  | cons a types ih => rw [identifiersAll, ih, List.flatMap_cons]

/-- What was rendered piece by piece uses the identifiers of all blocks and of all types. -/
theorem mem_flatMap_identifiers {α : Type} {xs : List α} {r : α → Rendered} {name : String} :
    name ∈ xs.flatMap (fun x ↦ (r x).identifiers) ↔
      name ∈ (xs.flatMap fun x ↦ (r x).blocks).flatMap Block.identifiers ∨
        name ∈ xs.flatMap fun x ↦ (r x).type.identifiers := by
  rw [List.flatMap_assoc]
  simp only [Rendered.identifiers, List.mem_flatMap, List.mem_append, and_or_left, exists_or]

/-- The identifiers that come with a module: those it can import and those its helpers define. -/
def providedNames : List String := importableNames ++ Helper.all.map Helper.definition

/-- Some identifiers need a name to be imported: it is one of them, or a helper that one of them
stands for uses it. -/
def Needs (words : List String) (name : String) : Prop :=
  name ∈ words ∨ ∃ h : Helper, h.definition ∈ words ∧ name ∈ h.identifiers

section Needs

variable {words words' : List String} {name : String}

theorem needs_append : Needs (words ++ words') name ↔ Needs words name ∨ Needs words' name := by
  simp only [Needs, List.mem_append, or_and_right, exists_or]
  exact or_or_or_comm

theorem Helper.definition_notMem_importable (h : Helper) : h.definition ∉ importableNames := by
  cases h <;> decide

theorem Helper.definition_mem_provided (h : Helper) : h.definition ∈ providedNames :=
  List.mem_append_right _ (List.mem_map_of_mem (by cases h <;> decide))

theorem Helper.definition_injective : Function.Injective Helper.definition := by
  intro h h'
  cases h <;> cases h' <;> simp [Helper.definition, ScalarType.identifier]

/-- What is needed depends on the provided names alone. -/
theorem needs_congr (h : ∀ name ∈ providedNames, name ∈ words ↔ name ∈ words')
    (hname : name ∈ importableNames) : Needs words name ↔ Needs words' name := by
  rw [Needs, Needs, h name (List.mem_append_left _ hname)]
  simp only [fun helper : Helper ↦ h helper.definition helper.definition_mem_provided]

end Needs

/-! ## Faults -/

/-- What keeps the value of a literal from being written. -/
def Attributes.literalFaults (a : Attributes) : List WriteFault :=
  if a.kind = .literal then WriteFault.ofValue a.scalar.toJson else []

/-- What keeps the description of an item that is no object from being written. A description that
counts as false is not written. -/
def Attributes.descriptionFaults (a : Attributes) : List WriteFault :=
  if a.description.truthy then WriteFault.ofValue a.description else []

/-- What keeps the default of a field from being written. -/
def Attributes.defaultFaults (a : Attributes) : List WriteFault :=
  if a.hasDefault then WriteFault.ofValue a.defaultValue else []

/-- What keeps the type of an item that refers to another one from being written. Only a copied leaf
has something in it that is written. -/
def RenderContext.referenceFaults (context : RenderContext) (a : Attributes) : List WriteFault :=
  match context.table.resolve a with
  | none => []
  | some target =>
    match Members.find? target.id context.names.classes,
        Members.find? target.id context.names.aliases with
    | none, none => target.attributes.literalFaults
    | _, _ => []

mutual

/-- What keeps the text that an item is rendered to from being written, in the order in which
rendering comes to it. -/
def Item.classFaults (context : RenderContext) : Item → List WriteFault
  | .mk a fields options =>
    match a.target?, a.kind with
    | some _, _ => context.referenceFaults a
    | none, .object =>
      (Members.ofList (Item.classFaultsOfFields context fields)).flatMap Prod.snd ++
        WriteFault.ofDocumentation a.description
    | none, .union =>
      let groups := Item.classFaultsOfOptions context options
      (if groups.length < 2 then [] else groups.flatten) ++ a.descriptionFaults
    | none, _ => a.literalFaults ++ a.descriptionFaults

/-- The faults of each field of an object, by name. -/
def Item.classFaultsOfFields (context : RenderContext) :
    Option (List Item) → List (String × List WriteFault)
  | none => []
  | some xs => Item.classFaultsOfFieldList context xs

/-- The faults of each field in a list, by name. -/
def Item.classFaultsOfFieldList (context : RenderContext) :
    List Item → List (String × List WriteFault)
  | [] => []
  | x :: rest =>
    (x.name, x.classFaults context ++ x.attributes.defaultFaults) ::
      Item.classFaultsOfFieldList context rest

/-- The faults of each option of a union. -/
def Item.classFaultsOfOptions (context : RenderContext) :
    Option (List Item) → List (List WriteFault)
  | none => []
  | some xs => Item.classFaultsOfOptionList context xs

/-- The faults of each option in a list. -/
def Item.classFaultsOfOptionList (context : RenderContext) : List Item → List (List WriteFault)
  | [] => []
  | x :: rest => x.classFaults context :: Item.classFaultsOfOptionList context rest

end

namespace Item

variable (context : RenderContext)

theorem classFaultsOfFields_eq (slot : Option (List Item)) :
    classFaultsOfFields context slot = (slot.getD []).map fun x ↦
      (x.name, x.classFaults context ++ x.attributes.defaultFaults) := by
  have hlist (xs : List Item) : classFaultsOfFieldList context xs =
      xs.map fun x ↦ (x.name, x.classFaults context ++ x.attributes.defaultFaults) := by
    induction xs with
    | nil => rfl
    | cons x xs ih => rw [classFaultsOfFieldList, ih, List.map_cons]
  cases slot with
  | none => rfl
  | some xs => exact hlist xs

theorem classFaultsOfOptions_eq (slot : Option (List Item)) :
    classFaultsOfOptions context slot = (slot.getD []).map fun x ↦ x.classFaults context := by
  have hlist (xs : List Item) :
      classFaultsOfOptionList context xs = xs.map fun x ↦ x.classFaults context := by
    induction xs with
    | nil => rfl
    | cons x xs ih => rw [classFaultsOfOptionList, ih, List.map_cons]
  cases slot with
  | none => rfl
  | some xs => exact hlist xs

variable {x : Item}

theorem classFaults_of_target {id : String} (h : x.target? = some id) :
    x.classFaults context = context.referenceFaults x.attributes := by
  obtain ⟨a, fields, options⟩ := x
  rw [target?, attributes] at h
  rw [classFaults, h, attributes]

theorem classFaults_of_object (ht : x.target? = none) (hk : x.kind = .object) :
    x.classFaults context =
      (lastFields (x.fields.getD [])).flatMap (fun y ↦
        y.classFaults context ++ y.attributes.defaultFaults) ++
        WriteFault.ofDocumentation x.attributes.description := by
  obtain ⟨a, fields, options⟩ := x
  rw [target?, attributes] at ht
  rw [kind, attributes] at hk
  rw [classFaults, ht, hk, attributes, Item.fields]
  dsimp only
  rw [classFaultsOfFields_eq, ofList_map_fields, List.flatMap_map]

theorem classFaults_of_union (ht : x.target? = none) (hk : x.kind = .union) :
    x.classFaults context =
      (if (x.options.getD []).length < 2 then []
        else (x.options.getD []).flatMap fun y ↦ y.classFaults context) ++
        x.attributes.descriptionFaults := by
  obtain ⟨a, fields, options⟩ := x
  rw [target?, attributes] at ht
  rw [kind, attributes] at hk
  rw [classFaults, ht, hk, attributes, Item.options]
  dsimp only
  rw [classFaultsOfOptions_eq, List.length_map, List.flatMap_def]

theorem classFaults_of_leaf (ht : x.target? = none) (ho : x.kind ≠ .object)
    (hu : x.kind ≠ .union) :
    x.classFaults context = x.attributes.literalFaults ++ x.attributes.descriptionFaults := by
  obtain ⟨a, fields, options⟩ := x
  rw [target?, attributes] at ht
  rw [kind, attributes] at ho hu
  rw [classFaults, ht, attributes]
  cases hk : a.kind <;> first | rfl | contradiction

end Item

/-! ## Additions -/

/-- One module comes from another by adding blocks, the names and helpers that some identifiers need
and faults. What is said about names holds if no definition has a provided name. -/
structure Adds (free : Prop) (m m' : ClassModule) (bs : List Block) (words : List String)
    (fs : List WriteFault) : Prop where
  blocks : m'.blocks = m.blocks ++ bs
  classNames : m'.classNames = m.classNames ++ bs.filterMap Block.className?
  faults : m'.faults = m.faults ++ fs
  helpers : free → ∀ h : Helper, h ∈ m'.usedHelpers ↔ h ∈ m.usedHelpers ∨ h.definition ∈ words
  names : free → "BaseModel" ∈ m.usedNames → ∀ name ∈ importableNames,
    (name ∈ m'.usedNames ↔ name ∈ m.usedNames ∨ Needs words name)

namespace Adds

variable {free : Prop} {m m' m'' : ClassModule} {bs bs' : List Block}
  {words words' : List String} {fs fs' : List WriteFault}

theorem refl (m : ClassModule) : Adds free m m [] [] [] where
  blocks := (List.append_nil _).symm
  classNames := (List.append_nil _).symm
  faults := (List.append_nil _).symm
  helpers := by simp
  names := by simp [Needs]

theorem trans (h : Adds free m m' bs words fs)
    (h' : Adds free m' m'' bs' words' fs') :
    Adds free m m'' (bs ++ bs') (words ++ words') (fs ++ fs') where
  blocks := by rw [h'.blocks, h.blocks, List.append_assoc]
  classNames := by rw [h'.classNames, h.classNames, List.filterMap_append, List.append_assoc]
  faults := by rw [h'.faults, h.faults, List.append_assoc]
  helpers := by
    intro hfree helper
    rw [h'.helpers hfree, h.helpers hfree, List.mem_append, or_assoc]
  names := by
    intro hfree hbase name hname
    have hbase' : "BaseModel" ∈ m'.usedNames :=
      (h.names hfree hbase _ (by decide)).mpr (.inl hbase)
    rw [h'.names hfree hbase' name hname, h.names hfree hbase name hname, needs_append, or_assoc]

/-- Identifiers count for the provided names among them. -/
theorem congr (h : Adds free m m' bs words fs)
    (hwords : free → ∀ name ∈ providedNames, name ∈ words ↔ name ∈ words') :
    Adds free m m' bs words' fs where
  blocks := h.blocks
  classNames := h.classNames
  faults := h.faults
  helpers := by
    intro hfree helper
    rw [h.helpers hfree, hwords hfree _ helper.definition_mem_provided]
  names := by
    intro hfree hbase name hname
    rw [h.names hfree hbase name hname, needs_congr (hwords hfree) hname]

end Adds

/-- A piece of rendering comes to `a`, and adds the same to every module. -/
def Renders {α : Type} (free : Prop) (action : Rendering α) (a : α) (bs : List Block)
    (words : List String) (fs : List WriteFault) : Prop :=
  ∀ m : ClassModule, ∃ m', action.run m = (a, m') ∧ Adds free m m' bs words fs

namespace Renders

variable {α β : Type} {free : Prop} {action : Rendering α} {a : α} {b : β}
  {bs bs' : List Block} {words words' : List String} {fs fs' : List WriteFault}

theorem pure (a : α) : Renders free (Pure.pure a) a [] [] [] := fun m ↦ ⟨m, rfl, .refl m⟩

/-- Two pieces in sequence add what each of them adds. -/
theorem bind {next : α → Rendering β} (h : Renders free action a bs words fs)
    (h' : Renders free (next a) b bs' words' fs') :
    Renders free (action >>= next) b (bs ++ bs') (words ++ words') (fs ++ fs') := by
  intro m
  obtain ⟨m', hrun, hadds⟩ := h m
  obtain ⟨m'', hrun', hadds'⟩ := h' m'
  refine ⟨m'', ?_, hadds.trans hadds'⟩
  rw [StateT.run_bind, hrun]
  exact hrun'

/-- A piece whose outcome is changed adds the same. -/
theorem map (f : α → β) (h : Renders free action a bs words fs) :
    Renders free (f <$> action) (f a) bs words fs := by
  intro m
  obtain ⟨m', hrun, hadds⟩ := h m
  refine ⟨m', ?_, hadds⟩
  rw [StateT.run_map, hrun]
  rfl

/-- A piece whose outcome is thrown away adds the same. -/
theorem returning (h : Renders free action a bs words fs) (b : β) :
    Renders free (do let _ ← action; Pure.pure b) b bs words fs :=
  h.map fun _ ↦ b

theorem congr (h : Renders free action a bs words fs)
    (hwords : free → ∀ name ∈ providedNames, name ∈ words ↔ name ∈ words') :
    Renders free action a bs words' fs := by
  intro m
  obtain ⟨m', hrun, hadds⟩ := h m
  exact ⟨m', hrun, hadds.congr hwords⟩

/-- Pieces for the members of a list, one after the other. -/
theorem mapM {γ : Type} {xs : List γ} {f : γ → Rendering β} {g : γ → β} {bs : γ → List Block}
    {words : γ → List String} {fs : γ → List WriteFault}
    (h : ∀ x ∈ xs, Renders free (f x) (g x) (bs x) (words x) (fs x)) :
    Renders free (xs.mapM f) (xs.map g) (xs.flatMap bs) (xs.flatMap words) (xs.flatMap fs) := by
  induction xs with
  | nil => exact Renders.pure []
  | cons x xs ih =>
    obtain ⟨hx, hxs⟩ := List.forall_mem_cons.mp h
    rw [List.mapM_cons, List.map_cons, List.flatMap_cons, List.flatMap_cons, List.flatMap_cons]
    have hrest : Renders free (do let bs ← xs.mapM f; Pure.pure (g x :: bs)) (g x :: xs.map g)
        (xs.flatMap bs) (xs.flatMap words) (xs.flatMap fs) := (ih hxs).map (g x :: ·)
    exact hx.bind hrest

end Renders

/-! ## Notes -/

section Notes

variable {free : Prop}

theorem mem_foldr_insert {names used : List String} {name : String} :
    name ∈ names.foldr List.insert used ↔ name ∈ names ∨ name ∈ used := by
  induction names with
  | nil => simp
  | cons other names ih => rw [List.foldr_cons, List.mem_insert_iff, ih, List.mem_cons, or_assoc]

/-- Of the names that are used, those that can be imported count. -/
theorem renders_use (names : List String) :
    Renders free (Rendering.use names) () [] (names.filter (· ∈ importableNames)) [] := by
  have hdefinition (h : Helper) : h.definition ∉ names.filter (· ∈ importableNames) := by
    rw [List.mem_filter, decide_eq_true_eq]
    exact fun hmem ↦ h.definition_notMem_importable hmem.2
  refine fun m ↦ ⟨_, rfl, ?_⟩
  refine ⟨(List.append_nil _).symm, (List.append_nil _).symm, (List.append_nil _).symm, ?_, ?_⟩
  · intro _ h
    exact (or_iff_left (hdefinition h)).symm
  · intro _ _ name hname
    simp only [Needs, hdefinition, false_and, exists_false, or_false, List.mem_filter, hname,
      decide_true, and_true]
    rw [mem_foldr_insert, or_comm]

theorem renders_useHelper (h : Helper) :
    Renders free (Rendering.useHelper h) () [] [h.definition] [] := by
  refine fun m ↦ ⟨_, rfl, ?_⟩
  refine ⟨(List.append_nil _).symm, (List.append_nil _).symm, (List.append_nil _).symm, ?_, ?_⟩
  · intro _ helper
    change helper ∈ m.usedHelpers.insert h ↔ _
    rw [List.mem_insert_iff, List.mem_singleton, or_comm, Helper.definition_injective.eq_iff]
  · intro _ _ name hname
    have hne : name ≠ h.definition := fun heq ↦ h.definition_notMem_importable (heq ▸ hname)
    change name ∈ h.identifiers.foldr List.insert m.usedNames ↔ _
    rw [mem_foldr_insert, or_comm]
    simp only [Needs, List.mem_singleton, hne, false_or, Helper.definition_injective.eq_iff,
      exists_eq_left]

theorem renders_note (faults : List WriteFault) :
    Renders free (Rendering.note faults) () [] [] faults := by
  refine fun m ↦ ⟨_, rfl, ?_⟩
  refine ⟨(List.append_nil _).symm, (List.append_nil _).symm, rfl, ?_, ?_⟩
  · simp
  · simp [Needs]

/-- What is done under a condition is added under this condition. -/
theorem renders_onlyIf {action : Rendering Unit} {bs : List Block} {words : List String}
    {fs : List WriteFault} (condition : Bool) (h : Renders free action () bs words fs) :
    Renders free (Rendering.onlyIf condition action) () (if condition then bs else [])
      (if condition then words else []) (if condition then fs else []) := by
  cases condition with
  | false => exact Renders.pure ()
  | true => exact h

/-- A class is derived from a name that every module imports. -/
theorem renders_define (b : Block) :
    Renders free (Rendering.define b) () [b]
      (if b.className?.isSome then ["BaseModel"] else []) [] := by
  refine fun m ↦ ⟨_, rfl, ?_⟩
  refine ⟨rfl, by cases b <;> rfl, (List.append_nil _).symm, ?_, ?_⟩
  · intro _ h
    refine (or_iff_left fun hmem ↦ ?_).symm
    split at hmem
    · rw [List.mem_singleton] at hmem
      exact h.definition_notMem_importable (hmem ▸ by decide)
    · cases hmem
  · intro _ hbase name hname
    refine (or_iff_left_of_imp fun hneeds ↦ ?_).symm
    split at hneeds
    · rcases hneeds with hmem | ⟨h, hmem, -⟩
      · exact List.mem_singleton.mp hmem ▸ hbase
      · exact absurd (List.mem_singleton.mp hmem ▸ by decide) h.definition_notMem_importable
    · rcases hneeds with hmem | ⟨h, hmem, -⟩
      · cases hmem
      · cases hmem

end Notes

/-! ## Types -/

namespace TypeExpr

variable {type : TypeExpr}

/-- The head of a type is the word before its first bracket. -/
theorem head_eq {rest : List Char} (word : List Char) (hword : '[' ∉ word)
    (h : type.write = word ++ '[' :: rest) :
    type.head = String.ofList word := by
  have hall : ∀ c ∈ word, decide (c ≠ '[') = true :=
    fun c hc ↦ decide_eq_true fun heq ↦ hword (heq ▸ hc)
  rw [head, h, List.takeWhile_append_of_pos hall, List.takeWhile_cons_of_neg (by simp),
    List.append_nil]

theorem head_literal (text : String) : (literal text).head = "Literal" :=
  head_eq "Literal".toList (by decide) rfl

theorem head_guarded (value : Scalar) : (guarded value).head = "Annotated" :=
  head_eq "Annotated".toList (by decide) rfl

theorem head_union (options : List TypeExpr) : (union options).head = "Union" :=
  head_eq "Union".toList (by decide) rfl

/-- Identifiers that lack nothing of those of a type, next to those of some blocks, but its head. -/
def LackHead (words : List String) (bs : List Block) (type : TypeExpr) : Prop :=
  ∀ name ∈ providedNames, (name ∈ words ∨ name = type.head ∧ name ∈ importableNames) ↔
    name ∈ Rendered.identifiers ⟨bs, type⟩

instance (words : List String) (bs : List Block) (type : TypeExpr) :
    Decidable (LackHead words bs type) := by
  unfold LackHead
  infer_instance

end TypeExpr

section Types

variable {free : Prop}

theorem kind_ne_literal_of_scalarType? {kind : Kind} {type : ScalarType}
    (h : kind.scalarType? = some type) : kind ≠ .literal := by
  rintro rfl
  cases h

theorem renders_guarded (value : Scalar) :
    Renders free (Rendering.guarded value) (.guarded value) []
      ["_exact_literal", "Literal", "BeforeValidator"] [] :=
  (renders_useHelper .exactLiteral).bind
    ((renders_use ["Literal", "BeforeValidator"]).bind (Renders.pure (TypeExpr.guarded value)))

theorem lackHead_guarded (value : Scalar) :
    TypeExpr.LackHead ["_exact_literal", "Literal", "BeforeValidator"] [] (.guarded value) := by
  rw [TypeExpr.LackHead, TypeExpr.head_guarded]
  change ∀ name ∈ providedNames, _ ↔
    name ∈ ["Annotated", "Literal", "BeforeValidator", "_exact_literal"]
  decide

theorem renders_literal (value : Scalar) :
    ∃ words, Renders free (Rendering.literal value) (.ofScalar value) [] words
        (WriteFault.ofValue value.toJson) ∧
      TypeExpr.LackHead words [] (.ofScalar value) := by
  have hnote : Renders free _ _ _ _ _ := renders_note (WriteFault.ofValue value.toJson)
  rw [← List.append_nil (WriteFault.ofValue value.toJson)]
  cases value with
  | text s =>
    refine ⟨[], hnote.bind (Renders.pure (TypeExpr.literal s)), ?_⟩
    change TypeExpr.LackHead [] [] (.literal s)
    rw [TypeExpr.LackHead, TypeExpr.head_literal]
    change ∀ name ∈ providedNames, _ ↔ name ∈ ["Literal"]
    decide
  | whole _ | real _ | flag _ =>
    exact ⟨_, hnote.bind (renders_guarded _), lackHead_guarded _⟩

theorem renders_scalar (type : ScalarType) :
    ∃ words, Renders free (Rendering.scalar type) (.scalar type) [] words [] ∧
      TypeExpr.LackHead words [] (.scalar type) := by
  have hreturn : Renders free _ _ _ _ _ := Renders.pure (TypeExpr.scalar type)
  cases type with
  | text | flag => exact ⟨[], (Renders.pure ()).bind hreturn, by decide⟩
  | number => exact ⟨_, (renders_useHelper .finiteFloat).bind hreturn, by decide⟩
  | moment => exact ⟨_, (renders_useHelper .isoDatetime).bind hreturn, by decide⟩

theorem renders_leaf (a : Attributes) :
    ∃ words, Renders free (Rendering.leaf a) (.leaf a) [] words a.literalFaults ∧
      TypeExpr.LackHead words [] (.leaf a) := by
  rw [Rendering.leaf, TypeExpr.leaf, Attributes.literalFaults]
  cases hkind : a.kind.scalarType? with
  | some type =>
    dsimp only
    rw [if_neg (kind_ne_literal_of_scalarType? hkind)]
    exact renders_scalar type
  | none =>
    dsimp only
    split
    · exact renders_literal a.scalar
    · exact ⟨[], Renders.pure TypeExpr.any, by decide⟩

/-- A type that was made and only lacks its head is described. -/
theorem renders_describe {action : Rendering TypeExpr} {type : TypeExpr} {bs : List Block}
    {words : List String} {fs : List WriteFault} (h : Renders free action type bs words fs)
    (hwords : free → TypeExpr.LackHead words bs type) (description : Json) :
    Renders free (action >>= Rendering.describe description) (type.describedBy description) bs
      (Rendered.identifiers ⟨bs, type.describedBy description⟩)
      (fs ++ if description.truthy then WriteFault.ofValue description else []) := by
  have hhead : Renders free _ _ _ _ _ := renders_use [type.head]
  have hmem {name : String} : name ∈ [type.head].filter (· ∈ importableNames) ↔
      name = type.head ∧ name ∈ importableNames := by
    rw [List.mem_filter, List.mem_singleton, decide_eq_true_eq]
  rw [TypeExpr.describedBy]
  by_cases htruthy : description.truthy
  · have hnames : ["Annotated", "Field"].filter (· ∈ importableNames) = ["Annotated", "Field"] := by
      decide
    have hattached : Renders free (Rendering.use ["Annotated", "Field"]) () []
        ["Annotated", "Field"] [] := hnames ▸ renders_use ["Annotated", "Field"]
    have hdescribe : Renders free (Rendering.describe description type)
        (.described type description) []
        ([type.head].filter (· ∈ importableNames) ++ ["Annotated", "Field"])
        (WriteFault.ofValue description) := by
      rw [Rendering.describe, if_pos htruthy]
      exact hhead.bind (hattached.bind
        ((renders_note (WriteFault.ofValue description)).returning
          (TypeExpr.described type description)))
    rw [if_pos htruthy, if_pos htruthy]
    have hrun := h.bind hdescribe
    rw [List.append_nil] at hrun
    refine hrun.congr fun hfree name hname ↦ ?_
    have hlack := hwords hfree name hname
    rw [Rendered.identifiers, List.mem_append] at hlack ⊢
    rw [TypeExpr.identifiers, List.mem_append, List.mem_append, hmem, ← or_assoc, hlack]
    simp only [List.mem_cons, List.not_mem_nil, or_false]
    tauto
  · have hdescribe : Renders free (Rendering.describe description type) type []
        ([type.head].filter (· ∈ importableNames)) [] := by
      rw [Rendering.describe, if_neg htruthy]
      exact hhead.returning type
    rw [if_neg htruthy, if_neg htruthy]
    have hrun := h.bind hdescribe
    rw [List.append_nil] at hrun
    refine hrun.congr fun hfree name hname ↦ ?_
    rw [List.mem_append, hmem]
    exact hwords hfree name hname

end Types

/-! ## Items -/

/-- No definition has the name of something that comes with a module. -/
def DefinitionNames.AreFree (names : DefinitionNames) : Prop :=
  ∀ id name,
    Members.find? id names.classes = some name ∨ Members.find? id names.aliases = some name →
    name ∉ providedNames

/-- A piece of rendering comes to a type with blocks, and notes what its identifiers need. -/
def RendersTo (context : RenderContext) (action : Rendering TypeExpr) (r : Rendered)
    (fs : List WriteFault) : Prop :=
  Renders context.names.AreFree action r.type r.blocks r.identifiers fs

section Items

variable (context : RenderContext) {fs : List WriteFault}

theorem renders_alias {action : Rendering TypeExpr} {r : Rendered}
    (h : RendersTo context action r fs)
    (id : String) :
    RendersTo context (action >>= Rendering.aliased context id) (context.aliased id r) fs := by
  rw [RendersTo, RenderContext.aliased]
  cases hname : Members.find? id context.names.aliases with
  | none =>
    have halias : Renders context.names.AreFree (Rendering.aliased context id r.type) r.type
        [] [] [] := by
      rw [Rendering.aliased, hname]
      exact Renders.pure r.type
    have hrun := h.bind halias
    rw [List.append_nil, List.append_nil, List.append_nil] at hrun
    exact hrun
  | some name =>
    have halias : Renders context.names.AreFree (Rendering.aliased context id r.type) (.name name)
        [.typeAlias name r.type] [] [] := by
      rw [Rendering.aliased, hname]
      exact (renders_define (.typeAlias name r.type)).returning (TypeExpr.name name)
    have hrun := h.bind halias
    rw [List.append_nil, List.append_nil] at hrun
    refine hrun.congr fun hfree other hother ↦ ?_
    -- the alias itself is no provided name
    have hne : other ≠ name := fun heq ↦ hfree id name (.inr hname) (heq ▸ hother)
    rw [Rendered.identifiers, Rendered.identifiers, List.flatMap_append, List.flatMap_singleton]
    simp [Block.identifiers, TypeExpr.identifiers, hne]

/-- A copied leaf has no description. -/
theorem renders_copy (a : Attributes) :
    RendersTo context (Rendering.leaf a >>= Rendering.describe .null) ⟨[], .leaf a⟩
      a.literalFaults := by
  obtain ⟨words, hleaf, hlack⟩ := @renders_leaf context.names.AreFree a
  have hrun := renders_describe hleaf (fun _ ↦ hlack) .null
  have hfaults : a.literalFaults ++
      (if Json.null.truthy then WriteFault.ofValue .null else []) = a.literalFaults :=
    List.append_nil _
  rw [hfaults] at hrun
  exact hrun

theorem renders_reference (a : Attributes) :
    RendersTo context (Rendering.reference context a) ⟨[], context.reference a⟩
      (context.referenceFaults a) := by
  rw [Rendering.reference, RenderContext.reference, RenderContext.referenceFaults]
  cases context.table.resolve a with
  | none => exact (renders_use ["Any"]).returning TypeExpr.any
  | some target =>
    dsimp only
    cases Members.find? target.id context.names.classes with
    | some name => exact Renders.pure (TypeExpr.forward name)
    | none =>
      cases Members.find? target.id context.names.aliases with
      | some name => exact Renders.pure (TypeExpr.forward name)
      | none => exact renders_copy context target.attributes

/-- That a type becomes a list needs no name. -/
theorem mem_identifiers_asOption {r : Rendered} {a : Attributes} {name : String}
    (hname : name ∈ providedNames) :
    name ∈ (r.asOption a).type.identifiers ↔ name ∈ r.type.identifiers := by
  have hlist : name ≠ "list" := by
    rintro rfl
    exact absurd hname (by decide)
  rw [Rendered.asOption]
  split
  · rw [TypeExpr.identifiers, List.mem_cons, or_iff_right hlist]
  · rfl

theorem mem_identifiers_asField {r : Rendered} {a : Attributes} {name : String}
    (hname : name ∈ providedNames) :
    name ∈ (r.asField a).type.identifiers ↔
      name ∈ r.type.identifiers ∨ a.required = false ∧ name = "Optional" := by
  have hfield : (r.asField a).type =
      if a.required then (r.asOption a).type else .optional (r.asOption a).type := rfl
  rw [hfield, ← mem_identifiers_asOption (a := a) hname]
  cases a.required with
  | false => simp [TypeExpr.identifiers, or_comm]
  | true => simp

/-- An option adds what its item adds. -/
theorem renders_option {x : Item}
    (h : RendersTo context (Rendering.item context x) (x.render context) fs) :
    RendersTo context
      ((fun type ↦ if x.attributes.isArray then .list type else type) <$> Rendering.item context x)
      ((x.render context).asOption x.attributes) fs := by
  refine (Renders.map _ h).congr fun _ name hname ↦ ?_
  rw [Rendered.identifiers, Rendered.identifiers, List.mem_append, List.mem_append,
    mem_identifiers_asOption hname]
  rfl

theorem optionList_eq (xs : List Item) : Rendering.optionList context xs = xs.map fun x ↦
    (fun type ↦ if x.attributes.isArray then .list type else type)
    <$> Rendering.item context x := by
  induction xs with
  | nil => rfl
  | cons x xs ih => rw [Rendering.optionList, ih, List.map_cons]

theorem optionsOf_eq (slot : Option (List Item)) :
    Rendering.optionsOf context slot = Rendering.optionList context (slot.getD []) := by
  cases slot <;> rfl

theorem fieldList_eq (xs : List Item) : Rendering.fieldList context xs = xs.map fun x ↦
    (x.name, fun key ↦ Rendering.field x.attributes key (Rendering.item context x)) := by
  induction xs with
  | nil => rfl
  | cons x xs ih => rw [Rendering.fieldList, ih, List.map_cons]

theorem fieldsOf_eq (slot : Option (List Item)) :
    Rendering.fieldsOf context slot = Rendering.fieldList context (slot.getD []) := by
  cases slot <;> rfl

/-- A union with enough options adds what they add, and needs a name of its own. -/
theorem renders_union {xs : List Item} {option : Item → Rendering TypeExpr} {r : Item → Rendered}
    {fs : Item → List WriteFault}
    (h : ¬ xs.length < 2 → ∀ x ∈ xs, RendersTo context (option x) (r x) (fs x)) :
    ∃ words, Renders context.names.AreFree (Rendering.union (xs.map option))
        (Rendered.union (xs.map r)).type (Rendered.union (xs.map r)).blocks words
        (if xs.length < 2 then [] else xs.flatMap fs) ∧
      TypeExpr.LackHead words (Rendered.union (xs.map r)).blocks
        (Rendered.union (xs.map r)).type := by
  have hany : TypeExpr.LackHead [] [] .any := by decide
  match xs, h with
  | [], _ => exact ⟨[], Renders.pure TypeExpr.any, hany⟩
  | [x], _ => exact ⟨[], Renders.pure TypeExpr.any, hany⟩
  | x :: y :: rest, h =>
    have hoptions := Renders.mapM (h (by simp))
    have hactions : ((x :: y :: rest).map option).mapM id = (x :: y :: rest).mapM option :=
      List.mapM_map
    rw [← hactions] at hoptions
    have hunion : Rendered.union ((x :: y :: rest).map r) =
        ⟨(x :: y :: rest).flatMap fun z ↦ (r z).blocks,
          .union ((x :: y :: rest).map fun z ↦ (r z).type)⟩ := by
      rw [Rendered.union_eq, if_neg (by simp), List.flatMap_map, List.map_map]
      rfl
    rw [hunion]
    refine ⟨_, hoptions.map TypeExpr.union, fun name hname ↦ ?_⟩
    rw [TypeExpr.head_union, mem_flatMap_identifiers, Rendered.identifiers, TypeExpr.identifiers,
      TypeExpr.identifiersAll_eq, List.flatMap_map, List.mem_append, List.mem_cons]
    have hname : name = "Union" → name ∈ importableNames := by
      rintro rfl
      decide
    tauto

/-- The attribute that a field becomes under a key. -/
theorem renders_field {x : Item}
    (h : RendersTo context (Rendering.item context x) (x.render context) fs) (key : String) :
    Renders context.names.AreFree
      (Rendering.field x.attributes key (Rendering.item context x)) (context.line key x)
      (x.render context).blocks
      ((x.render context).blocks.flatMap Block.identifiers ++ (context.line key x).identifiers)
      (fs ++ x.attributes.defaultFaults) := by
  have hoptional : Renders context.names.AreFree _ _ _ _ _ :=
    renders_onlyIf (!x.attributes.required) (renders_use ["Optional"])
  have hdefault : Renders context.names.AreFree _ _ _ _ _ :=
    renders_onlyIf x.attributes.hasDefault
      (renders_note (WriteFault.ofValue x.attributes.defaultValue))
  have hexternal : Renders context.names.AreFree _ _ _ _ _ :=
    renders_onlyIf (key ≠ x.attributes.name) (renders_use ["Field"])
  have hrun : Renders context.names.AreFree
      (Rendering.field x.attributes key (Rendering.item context x)) (context.line key x) _ _ _ :=
    h.bind (hoptional.bind (hdefault.bind (hexternal.returning (context.line key x))))
  simp only [ite_self, List.append_nil, List.nil_append] at hrun
  refine Renders.congr hrun fun _ name hname ↦ ?_
  have hnames (condition : Bool) (word : String) (hword : word ∈ importableNames) :
      (name ∈ if condition then [word].filter (· ∈ importableNames) else []) ↔
        condition ∧ name = word := by
    cases condition <;> simp [hword]
  have hline : name ∈ (context.line key x).identifiers ↔
      (name ∈ (x.render context).type.identifiers ∨
        x.attributes.required = false ∧ name = "Optional") ∨ key ≠ x.name ∧ name = "Field" := by
    rw [FieldLine.identifiers, List.mem_append, RenderContext.line, mem_identifiers_asField hname]
    by_cases hkey : key = x.name <;> simp [hkey]
  rw [Rendered.identifiers, List.mem_append, List.mem_append, List.mem_append, List.mem_append,
    hnames _ _ (by decide), hnames _ _ (by decide), hline, Bool.not_eq_true', decide_eq_true_eq,
    or_assoc, or_assoc]
  rfl

theorem snd_mem_lastFields {xs : List Item} {m : String × Item} (h : m ∈ keyedFields xs) :
    m.2 ∈ lastFields xs := by
  rw [← map_snd_keyedFields]
  exact List.mem_map_of_mem h

/-- The attributes of a class are rendered one after the other, those of fields that count. -/
theorem renders_lines {xs : List Item} {fs : Item → List WriteFault}
    (h : ∀ x ∈ lastFields xs,
      RendersTo context (Rendering.item context x) (x.render context) (fs x)) :
    Renders context.names.AreFree
      ((keyedFields xs).mapM fun m ↦
        Rendering.field m.2.attributes m.1 (Rendering.item context m.2))
      (context.lines xs) ((lastFields xs).flatMap fun x ↦ (x.render context).blocks)
      (((lastFields xs).flatMap fun x ↦ (x.render context).blocks).flatMap Block.identifiers ++
        (context.lines xs).flatMap FieldLine.identifiers)
      ((lastFields xs).flatMap fun x ↦ fs x ++ x.attributes.defaultFaults) := by
  have hrun := Renders.mapM fun m hm ↦ renders_field context (h _ (snd_mem_lastFields hm)) m.1
  have hflatMap {β : Type} (f : Item → List β) :
      (keyedFields xs).flatMap (fun m ↦ f m.2) = (lastFields xs).flatMap f := by
    rw [← map_snd_keyedFields, List.flatMap_map]
  rw [hflatMap fun x ↦ (x.render context).blocks,
    hflatMap fun x ↦ fs x ++ x.attributes.defaultFaults] at hrun
  refine Renders.congr hrun fun _ name _ ↦ ?_
  rw [← hflatMap fun x ↦ (x.render context).blocks, List.mem_append, List.flatMap_assoc,
    RenderContext.lines, List.flatMap_map]
  simp only [List.mem_flatMap, List.mem_append, and_or_left, exists_or]

/-- The blocks of an object: those that its fields need, and its class. -/
def RenderContext.objectBlocks (name : String) (description : Json) (xs : List Item) :
    List Block :=
  (lastFields xs).flatMap (fun x ↦ (x.render context).blocks) ++
    [.cls name description (context.lines xs)]

theorem renders_cls (name : String) (description : Json) {xs : List Item}
    {fs : Item → List WriteFault}
    (h : ∀ x ∈ lastFields xs,
      RendersTo context (Rendering.item context x) (x.render context) (fs x)) :
    Renders context.names.AreFree
      (Rendering.cls name description (Rendering.fieldList context xs)) ()
      (context.objectBlocks name description xs)
      ((context.objectBlocks name description xs).flatMap Block.identifiers)
      ((lastFields xs).flatMap (fun x ↦ fs x ++ x.attributes.defaultFaults) ++
        WriteFault.ofDocumentation description) := by
  have hshape := zip_fieldKeys_ofList (fun x : Item ↦ fun key ↦
      Rendering.field x.attributes key (Rendering.item context x))
    (fun key _ (line : String → Rendering FieldLine) ↦ line key) xs
  rw [← fieldList_eq] at hshape
  -- rendering goes through the lines of the fields that count
  have hlines := renders_lines context h
  have hactions {α : Type} (f : α → Rendering FieldLine) (ms : List α) :
      (ms.map f).mapM id = ms.mapM f := List.mapM_map
  rw [← hactions, ← hshape, hactions] at hlines
  have hrun : Renders context.names.AreFree
      (Rendering.cls name description (Rendering.fieldList context xs)) () _ _ _ :=
    hlines.bind ((renders_note (WriteFault.ofDocumentation description)).bind (renders_define
      (.cls name description (context.lines xs))))
  rw [List.append_nil] at hrun
  refine Renders.congr hrun fun _ word _ ↦ ?_
  rw [RenderContext.objectBlocks, List.flatMap_append, List.flatMap_singleton, Block.identifiers]
  simp only [List.nil_append, Block.className?, Option.isSome_some, if_true, List.mem_append,
    List.mem_cons, List.not_mem_nil, or_false]
  tauto

variable {context} {x : Item}

theorem item_of_target {id : String} (h : x.target? = some id) :
    Rendering.item context x = Rendering.reference context x.attributes := by
  obtain ⟨a, fields, options⟩ := x
  rw [Item.target?, Item.attributes] at h
  rw [Rendering.item, h]
  rfl

theorem item_of_object (ht : x.target? = none) (hk : x.kind = .object) :
    Rendering.item context x = do
      Rendering.cls ((Members.find? x.id context.names.classes).getD "") x.attributes.description
        (Rendering.fieldList context (x.fields.getD []))
      return .name ((Members.find? x.id context.names.classes).getD "") := by
  rw [← fieldsOf_eq]
  obtain ⟨a, fields, options⟩ := x
  rw [Item.target?, Item.attributes] at ht
  rw [Item.kind, Item.attributes] at hk
  rw [Rendering.item, ht, hk]
  rfl

theorem item_of_union (ht : x.target? = none) (hk : x.kind = .union) :
    Rendering.item context x =
      Rendering.union (Rendering.optionList context (x.options.getD [])) >>=
      Rendering.describe x.attributes.description >>= Rendering.aliased context x.id := by
  rw [← optionsOf_eq, bind_assoc]
  obtain ⟨a, fields, options⟩ := x
  rw [Item.target?, Item.attributes] at ht
  rw [Item.kind, Item.attributes] at hk
  rw [Rendering.item, ht, hk]
  rfl

theorem item_of_leaf (ht : x.target? = none) (ho : x.kind ≠ .object) (hu : x.kind ≠ .union) :
    Rendering.item context x = Rendering.leaf x.attributes >>=
      Rendering.describe x.attributes.description >>= Rendering.aliased context x.id := by
  rw [bind_assoc]
  obtain ⟨a, fields, options⟩ := x
  rw [Item.target?, Item.attributes] at ht
  rw [Item.kind, Item.attributes] at ho hu
  rw [Rendering.item, ht]
  cases hk : a.kind <;> first | rfl | contradiction

theorem render_eq_aliased_union (ht : x.target? = none) (hk : x.kind = .union) :
    x.render context = context.aliased x.id
      ⟨(Rendered.union ((x.options.getD []).map fun y ↦
          (y.render context).asOption y.attributes)).blocks,
        (Rendered.union ((x.options.getD []).map fun y ↦
          (y.render context).asOption y.attributes)).type.describedBy
            x.attributes.description⟩ := by
  rw [← Item.renderOptions_eq]
  obtain ⟨a, fields, options⟩ := x
  rw [Item.target?, Item.attributes] at ht
  rw [Item.kind, Item.attributes] at hk
  rw [Item.render, ht, hk]
  rfl

/-- **What rendering an item adds**: the type and the blocks that it is rendered to, what their
identifiers need, and the faults that it has. -/
theorem renders_item (x : Item) :
    RendersTo context (Rendering.item context x) (x.render context) (x.classFaults context) := by
  induction x using Item.renderedInduction with
  | step x ih =>
    cases x.role with
    | reference ht =>
      rw [item_of_target ht, render_of_target context ht, Item.classFaults_of_target context ht]
      exact renders_reference context x.attributes
    | object ht hk =>
      rw [Item.renderedParts_of_object ht hk] at ih
      have hrun := (renders_cls context ((Members.find? x.id context.names.classes).getD "")
        x.attributes.description ih).returning
          (TypeExpr.name ((Members.find? x.id context.names.classes).getD ""))
      rw [item_of_object ht hk, Item.classFaults_of_object context ht hk,
        render_of_object context ht hk, Item.renderedParts_of_object ht hk,
        block?_of_object context ht hk]
      refine Renders.congr hrun fun hfree word hword ↦ ?_
      -- the class itself is no provided name
      have hne : word ≠ (Members.find? x.id context.names.classes).getD "" := by
        rintro rfl
        cases hname : Members.find? x.id context.names.classes with
        | none =>
          rw [hname] at hword
          exact absurd hword (by decide)
        | some name =>
          rw [hname] at hword
          exact hfree x.id name (.inl hname) hword
      rw [Rendered.identifiers, TypeExpr.identifiers, List.mem_append, List.mem_singleton,
        or_iff_left hne]
      rfl
    | union ht hk =>
      have hoptions (hlength : ¬ (x.options.getD []).length < 2) (y : Item)
          (hy : y ∈ x.options.getD []) := renders_option context (ih y (by
        rw [Item.renderedParts_of_union ht hk, if_neg hlength]
        exact hy))
      obtain ⟨words, hunion, hlack⟩ := renders_union context hoptions
      have hdescribed : RendersTo context _ ⟨_, _⟩ _ :=
        renders_describe hunion (fun _ ↦ hlack) x.attributes.description
      rw [item_of_union ht hk, optionList_eq, Item.classFaults_of_union context ht hk,
        render_eq_aliased_union ht hk]
      exact renders_alias context hdescribed x.id
    | leaf ht ho hu =>
      obtain ⟨words, hleaf, hlack⟩ := @renders_leaf context.names.AreFree x.attributes
      have hdescribed : RendersTo context _ ⟨[], _⟩ _ :=
        renders_describe hleaf (fun _ ↦ hlack) x.attributes.description
      rw [item_of_leaf ht ho hu, Item.classFaults_of_leaf context ht ho hu,
        render_of_leaf context ht ho hu, ownType_of_leaf context hu]
      exact renders_alias context hdescribed x.id

end Items

/-! ## Documents -/

namespace Document

variable {d : Document} {typeName : String}

/-- The faults of a document, in the order in which rendering comes to them. -/
def classFaults (d : Document) : List WriteFault :=
  (lastFields d.fields).flatMap fun x ↦
    x.classFaults d.renderContext ++ x.attributes.defaultFaults

/-- The module with which rendering begins. -/
def classStart (d : Document) (typeName : String) : ClassModule :=
  { usedNames := d.definitionNames.rootName typeName :: "BaseModel" :: d.definitionNames.taken }

/-- What the module of a document adds to the one with which rendering begins. -/
theorem adds_classModule (d : Document) (typeName : String) :
    Adds d.definitionNames.AreFree (d.classStart typeName) (d.classModule typeName)
      (d.renderContext.objectBlocks (d.definitionNames.rootName typeName) .null d.fields)
      ((d.renderContext.objectBlocks (d.definitionNames.rootName typeName) .null
        d.fields).flatMap Block.identifiers) d.classFaults := by
  have hcls : Renders d.definitionNames.AreFree
      (Rendering.cls (d.definitionNames.rootName typeName) .null
        (Rendering.fieldList d.renderContext d.fields)) () _ _ _ :=
    renders_cls d.renderContext _ .null fun x _ ↦ renders_item x
  obtain ⟨m, hrun, hadds⟩ := hcls (d.classStart typeName)
  have hmodule : d.classModule typeName = m := congrArg Prod.snd hrun
  have hfaults : d.classFaults ++ WriteFault.ofDocumentation .null = d.classFaults :=
    List.append_nil _
  rw [hmodule, ← hfaults]
  exact hadds

/-- The class of the root comes behind the blocks of its fields. -/
theorem blocks_classModule_eq_fields (d : Document) (typeName : String) :
    (d.classModule typeName).blocks =
      (lastFields d.fields).flatMap (fun x ↦ (x.render d.renderContext).blocks) ++
        [.cls (d.definitionNames.rootName typeName) .null (d.renderContext.lines d.fields)] := by
  rw [(d.adds_classModule typeName).blocks]
  rfl

/-- **The blocks of a document** are those of its rendered items, and the class of the root. -/
theorem blocks_classModule (d : Document) (typeName : String) :
    (d.classModule typeName).blocks =
      d.rendered.filterMap d.renderContext.block? ++
        [.cls (d.definitionNames.rootName typeName) .null (d.renderContext.lines d.fields)] := by
  have hblocks : (lastFields d.fields).flatMap (fun x ↦ (x.render d.renderContext).blocks) =
      d.rendered.filterMap d.renderContext.block? := by
    rw [rendered, List.filterMap_flatMap]
    exact List.flatMap_congr fun x _ ↦ blocks_render d.renderContext x
  rw [blocks_classModule_eq_fields, hblocks]

/-- A block of a document is that of a rendered item or the class of the root. -/
theorem mem_blocks_iff {typeName : String} {b : Block} :
    b ∈ (d.classModule typeName).blocks ↔
      (∃ x ∈ d.rendered, d.renderContext.block? x = some b) ∨
        b = .cls (d.definitionNames.rootName typeName) .null (d.renderContext.lines d.fields) := by
  rw [blocks_classModule, List.mem_append, List.mem_filterMap, List.mem_singleton]

/-- The classes of a document are named in the order of their blocks. -/
theorem classNames_eq (d : Document) (typeName : String) :
    (d.classModule typeName).classNames =
      (d.classModule typeName).blocks.filterMap Block.className? := by
  rw [(d.adds_classModule typeName).classNames, blocks_classModule_eq_fields]
  rfl

/-- What keeps the module of a document from being written. -/
theorem faults_classModule (d : Document) (typeName : String) :
    (d.classModule typeName).faults = d.classFaults := by
  rw [(d.adds_classModule typeName).faults]
  rfl

end Document

end SchemaTree
