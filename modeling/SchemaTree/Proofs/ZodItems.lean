import SchemaTree.Emission.Emit
import SchemaTree.Proofs.Nodes

/-!
# The items of a zod module

The expression that an item becomes is the one for its shape, then the one for its description and
then what its position asks for. A module writes an item as a field of an object or as an option of
a union, wherever it comes to it (`Document.Writes`); it comes to every field, but to the options of
a union only if there are at least two.

What keeps a module from being written is one of the items that are written, or the indentation
(`Document.mem_faults_iff`). With the indentation that is the default, only whole numbers with too
many digits are left, in a literal, a description or the default of a field. -/

namespace SchemaTree

open Json

/-! ## Shapes -/

namespace Item

/-- An item of a kind that does not stand for another item. -/
def IsOf (kind : Kind) (x : Item) : Prop := x.target? = none ∧ x.kind = kind

/-- An item that is no reference and of which a module says nothing: of an unknown kind, or a union
with fewer than two options. -/
def IsOpen (x : Item) : Prop :=
  x.target? = none ∧ (x.kind.isKnown = false ∨ x.kind = .union ∧ (x.options.getD []).length < 2)

end Item

namespace ZodExpr

/-- The description of an item, attached. -/
def described (a : Attributes) (e : ZodExpr) : ZodExpr :=
  if a.description.truthy then .describe e a.description else e

/-- **Of the two places where descriptions are attached, each item has one.** -/
theorem describedOutside_describedInside (a : Attributes) (e : ZodExpr) :
    describedOutside a (describedInside a e) = described a e := by
  rw [describedOutside, describedInside, described]
  by_cases hobject : a.kind = .object
  · simp only [hobject, ne_eq, not_true_eq_false, and_false, if_false, and_true]
  · simp only [hobject, ne_eq, not_false_eq_true, and_true, and_false, if_false]

end ZodExpr

/-- The expression of a scalar type. -/
def ScalarType.zodExpr : ScalarType → ZodExpr
  | .text => .string
  | .number => .number
  | .flag => .boolean
  | .moment => .datetime

namespace Item

variable {table table' : ItemTable} {x y : Item}

/-- The expression of an item before its description. -/
def zodShape (table : ItemTable) (x : Item) : ZodExpr :=
  if x.target?.isSome then
    .reference ((table.resolve x.attributes).map fun target ↦ Naming.bindingName target.name)
  else
    match x.kind with
    | .object => .object (zodFields table x.fields)
    | .union =>
      match zodOptions table x.options with
      | first :: second :: rest => .union (first :: second :: rest)
      | _ => .unknown
    | _ => .leaf x.attributes

theorem zodItem_eq (table : ItemTable) (x : Item) :
    x.zodItem table = ZodExpr.describedInside x.attributes (x.zodShape table) := by
  obtain ⟨a, fields, options⟩ := x
  rw [zodItem, zodShape]
  rfl

/-- The expression of an item with its description, wherever that is attached. -/
def zodExpr (table : ItemTable) (x : Item) : ZodExpr :=
  (x.zodItem table).describedOutside x.attributes

theorem zodExpr_eq (table : ItemTable) (x : Item) :
    x.zodExpr table = ZodExpr.described x.attributes (x.zodShape table) := by
  rw [zodExpr, zodItem_eq, ZodExpr.describedOutside_describedInside]

/-- The property of a field. -/
def zodField (table : ItemTable) (x : Item) : String × ZodExpr :=
  (x.name, (x.zodExpr table).asField x.attributes)

/-- The expression of an option. -/
def zodOption (table : ItemTable) (x : Item) : ZodExpr := (x.zodExpr table).arrayed x.attributes

theorem zodFieldList_eq_map (table : ItemTable) (xs : List Item) :
    zodFieldList table xs = xs.map (zodField table) := by
  induction xs with
  | nil => rfl
  | cons x xs ih => rw [zodFieldList, ih, List.map_cons, zodField, zodExpr]

theorem zodOptionList_eq_map (table : ItemTable) (xs : List Item) :
    zodOptionList table xs = xs.map (zodOption table) := by
  induction xs with
  | nil => rfl
  | cons x xs ih => rw [zodOptionList, ih, List.map_cons, zodOption, zodExpr]

theorem zodFields_eq_map (table : ItemTable) (slot : Option (List Item)) :
    zodFields table slot = (slot.getD []).map (zodField table) := by
  cases slot with
  | none => rfl
  | some xs => exact zodFieldList_eq_map table xs

theorem zodOptions_eq_map (table : ItemTable) (slot : Option (List Item)) :
    zodOptions table slot = (slot.getD []).map (zodOption table) := by
  cases slot with
  | none => rfl
  | some xs => exact zodOptionList_eq_map table xs

theorem zodShape_of_isSome (h : x.target?.isSome) :
    x.zodShape table =
      .reference ((table.resolve x.attributes).map fun target ↦
        Naming.bindingName target.name) := by
  rw [zodShape, if_pos h]

theorem zodShape_of_scalar {type : ScalarType} (h : x.IsOf type.kind) :
    x.zodShape table = type.zodExpr := by
  rw [zodShape, h.1, h.2, ZodExpr.leaf, show x.attributes.kind = type.kind from h.2]
  cases type <;> rfl

theorem zodShape_of_literal (h : x.IsOf .literal) :
    x.zodShape table = .literal x.attributes.scalar := by
  rw [zodShape, h.1, h.2, ZodExpr.leaf, show x.attributes.kind = .literal from h.2]
  rfl

theorem zodShape_of_object (h : x.IsOf .object) :
    x.zodShape table = .object ((x.fields.getD []).map (zodField table)) := by
  rw [zodShape, h.1, h.2, zodFields_eq_map]
  rfl

theorem zodShape_of_union (h : x.IsOf .union) (htwo : 2 ≤ (x.options.getD []).length) :
    x.zodShape table = .union ((x.options.getD []).map (zodOption table)) := by
  rw [zodShape, h.1, h.2, zodOptions_eq_map]
  match hoptions : x.options.getD [] with
  | first :: second :: rest => rfl
  | [] | [_] => simp [hoptions] at htwo

theorem zodShape_of_isOpen (h : x.IsOpen) : x.zodShape table = .unknown := by
  obtain ⟨ht, hunknown | ⟨hunion, hfew⟩⟩ := h
  · rw [zodShape, ht]
    match hk : x.kind with
    | .other name unknown =>
      rw [ZodExpr.leaf, show x.attributes.kind = .other name unknown from hk]
      rfl
    | .string | .number | .boolean | .datetime | .literal | .object | .union =>
      rw [hk] at hunknown
      exact absurd hunknown nofun
  · rw [zodShape, ht, hunion, zodOptions_eq_map]
    match hoptions : x.options.getD [] with
    | [] | [_] => rfl
    | first :: second :: rest =>
      rw [hoptions, List.length_cons, List.length_cons] at hfew
      omega

/-- What the expression of an item's shape is, by what the item is. -/
inductive HasZodShape (table : ItemTable) (x : Item) : ZodExpr → Prop where
  | scalar {type : ScalarType} (h : x.IsOf type.kind) : HasZodShape table x type.zodExpr
  | literal (h : x.IsOf .literal) : HasZodShape table x (.literal x.attributes.scalar)
  | object (h : x.IsOf .object) :
    HasZodShape table x (.object ((x.fields.getD []).map (zodField table)))
  | union (h : x.IsOf .union) (htwo : 2 ≤ (x.options.getD []).length) :
    HasZodShape table x (.union ((x.options.getD []).map (zodOption table)))
  | anything (h : x.IsOpen) : HasZodShape table x .unknown
  | reference (h : x.target?.isSome) : HasZodShape table x
      (.reference ((table.resolve x.attributes).map fun target ↦ Naming.bindingName target.name))

theorem hasZodShape (table : ItemTable) (x : Item) : x.HasZodShape table (x.zodShape table) := by
  by_cases ht : x.target?.isSome
  · rw [zodShape_of_isSome ht]
    exact .reference ht
  rw [Option.not_isSome_iff_eq_none] at ht
  have hscalar (type : ScalarType) (h : x.IsOf type.kind) :
      x.HasZodShape table (x.zodShape table) := by
    rw [zodShape_of_scalar h]
    exact .scalar h
  have hopen (h : x.IsOpen) : x.HasZodShape table (x.zodShape table) := by
    rw [zodShape_of_isOpen h]
    exact .anything h
  match hk : x.kind with
  | .string => exact hscalar .text ⟨ht, hk⟩
  | .number => exact hscalar .number ⟨ht, hk⟩
  | .boolean => exact hscalar .flag ⟨ht, hk⟩
  | .datetime => exact hscalar .moment ⟨ht, hk⟩
  | .literal =>
    rw [zodShape_of_literal ⟨ht, hk⟩]
    exact .literal ⟨ht, hk⟩
  | .object =>
    rw [zodShape_of_object ⟨ht, hk⟩]
    exact .object ⟨ht, hk⟩
  | .union =>
    rcases Nat.lt_or_ge (x.options.getD []).length 2 with hfew | htwo
    · exact hopen ⟨ht, .inr ⟨hk, hfew⟩⟩
    · rw [zodShape_of_union ⟨ht, hk⟩ htwo]
      exact .union ⟨ht, hk⟩ htwo
  | .other name unknown => exact hopen ⟨ht, .inl (by rw [hk]; rfl)⟩

end Item

/-! ## Positions -/

/-- Where a module writes an item. -/
inductive ZodPosition where
  /-- As a field of an object, or of the root. -/
  | field
  /-- As an option of a union. -/
  | option

/-- The expression of an item at a position. -/
def ZodPosition.expr (position : ZodPosition) (table : ItemTable) (x : Item) : ZodExpr :=
  match position with
  | .field => (x.zodField table).2
  | .option => x.zodOption table

/-- The places where the module of a document writes an item. -/
inductive Document.Writes (d : Document) : ZodPosition → ℕ → Item → Prop where
  | root {x : Item} (h : x ∈ d.fields) : d.Writes .field 1 x
  | field {position : ZodPosition} {depth : ℕ} {x y : Item} (hx : d.Writes position depth x)
    (hobject : x.IsOf .object) (hy : y ∈ x.fields.getD []) : d.Writes .field (depth + 1) y
  | option {position : ZodPosition} {depth : ℕ} {x y : Item} (hx : d.Writes position depth x)
    (hunion : x.IsOf .union) (htwo : 2 ≤ (x.options.getD []).length)
    (hy : y ∈ x.options.getD []) : d.Writes .option depth y

/-! ## Faults -/

namespace WriteFault

variable {value unit : Json} {fault : WriteFault} {depth : ℕ}

theorem mem_ofValue_iff : fault ∈ ofValue value ↔ fault = tooLong ∧ value.excess?.isSome := by
  rw [ofValue]
  split
  · next h => rw [List.mem_singleton, and_iff_left h]
  · next h => exact iff_of_false List.not_mem_nil fun hmem ↦ h hmem.2

theorem ofValue_eq_nil_iff : ofValue value = [] ↔ value.excess? = none := by
  rw [ofValue, ← Option.not_isSome_iff_eq_none]
  split
  · next h => exact iff_of_false (List.cons_ne_nil _ _) (not_not_intro h)
  · next h => exact iff_of_true rfl h

end WriteFault

/-- What an item adds at a position to what keeps a module from being written, its fields and
options apart: values with a number that is too long and, for an object with fields, the
indentation. -/
inductive ZodPosition.HasFault (position : ZodPosition) (unit : Json) (depth : ℕ) (x : Item) :
    WriteFault → Prop where
  | literal (hliteral : x.IsOf .literal) (hlong : x.attributes.scalar.toJson.excess?.isSome) :
    HasFault position unit depth x .tooLong
  | description (htruthy : x.attributes.description.truthy)
    (hlong : x.attributes.description.excess?.isSome) : HasFault position unit depth x .tooLong
  | default (hfield : position = .field) (hdefault : x.attributes.hasDefault)
    (hlong : x.attributes.defaultValue.excess?.isSome) : HasFault position unit depth x .tooLong
  | indent {fault : WriteFault} (hobject : x.IsOf .object) (hfields : x.fields.getD [] ≠ [])
    (h : fault ∈ WriteFault.ofIndent unit depth ∨ fault ∈ WriteFault.ofValue unit) :
    HasFault position unit depth x fault

namespace ZodExpr

variable {unit : Json} {depth : ℕ} {fault : WriteFault} {a : Attributes} {e : ZodExpr}

theorem mem_faults_described_iff : fault ∈ (described a e).faults unit depth ↔
    fault ∈ e.faults unit depth ∨
      fault = .tooLong ∧ a.description.truthy ∧ a.description.excess?.isSome := by
  rw [described]
  split
  · next h => rw [faults, List.mem_append, WriteFault.mem_ofValue_iff, and_iff_right h]
  · next h => exact (or_iff_left fun hmem ↦ h hmem.2.1).symm

theorem faults_arrayed : (arrayed a e).faults unit depth = e.faults unit depth := by
  rw [arrayed]
  split <;> rfl

theorem mem_faults_asField_iff : fault ∈ (e.asField a).faults unit depth ↔
    fault ∈ e.faults unit depth ∨
      fault = .tooLong ∧ a.hasDefault ∧ a.defaultValue.excess?.isSome := by
  have hoptional : (if a.required then arrayed a e else .optional (arrayed a e)).faults unit depth =
      e.faults unit depth := by
    split
    · exact faults_arrayed
    · exact faults_arrayed
  have hfield : e.asField a =
      if a.hasDefault then
        .default (if a.required then arrayed a e else .optional (arrayed a e)) a.defaultValue
      else if a.required then arrayed a e else .optional (arrayed a e) := rfl
  rw [hfield]
  split
  · next h => rw [faults, List.mem_append, hoptional, WriteFault.mem_ofValue_iff, and_iff_right h]
  · next h =>
    rw [hoptional]
    exact (or_iff_left fun hmem ↦ h hmem.2.1).symm

theorem faultsOfProperties_eq (properties : List (String × ZodExpr)) :
    faultsOfProperties unit depth properties =
      properties.flatMap fun p ↦ WriteFault.ofValue unit ++ p.2.faults unit (depth + 1) := by
  induction properties with
  | nil => rfl
  | cons p properties ih =>
    obtain ⟨name, e⟩ := p
    rw [faultsOfProperties, ih, List.flatMap_cons]

theorem faultsOfOptions_eq (options : List ZodExpr) :
    faultsOfOptions unit depth options = options.flatMap fun e ↦ e.faults unit depth := by
  induction options with
  | nil => rfl
  | cons e options ih => rw [faultsOfOptions, ih, List.flatMap_cons]

theorem mem_faults_object_iff {properties : List (String × ZodExpr)} :
    fault ∈ (object properties).faults unit depth ↔
      properties ≠ [] ∧ (fault ∈ WriteFault.ofIndent unit depth ∨ fault ∈ WriteFault.ofValue unit) ∨
        ∃ p ∈ properties, fault ∈ p.2.faults unit (depth + 1) := by
  cases properties with
  | nil => simp [faults]
  | cons p properties =>
    rw [faults, faultsOfProperties_eq, List.mem_append, List.mem_flatMap,
      and_iff_right (List.cons_ne_nil _ _)]
    simp only [List.mem_append, and_or_left, exists_or, ← or_assoc]
    refine or_congr_left (or_congr_right ?_)
    exact ⟨fun ⟨_, _, h⟩ ↦ h, fun h ↦ ⟨p, List.mem_cons_self, h⟩⟩

end ZodExpr

section Items

variable {table : ItemTable} {unit : Json} {depth : ℕ} {fault : WriteFault} {x y : Item}
  {position : ZodPosition}

theorem ZodPosition.mem_faults_expr_iff : fault ∈ (position.expr table x).faults unit depth ↔
    (fault ∈ (x.zodShape table).faults unit depth ∨
      fault = .tooLong ∧ x.attributes.description.truthy ∧
        x.attributes.description.excess?.isSome) ∨
    fault = .tooLong ∧ position = .field ∧ x.attributes.hasDefault ∧
      x.attributes.defaultValue.excess?.isSome := by
  cases position with
  | field =>
    rw [expr, Item.zodField, ZodExpr.mem_faults_asField_iff, Item.zodExpr_eq,
      ZodExpr.mem_faults_described_iff, and_iff_right rfl]
  | option =>
    rw [expr, Item.zodOption, ZodExpr.faults_arrayed, Item.zodExpr_eq,
      ZodExpr.mem_faults_described_iff]
    exact (or_iff_left fun h ↦ nomatch h.2.1).symm

theorem ZodPosition.mem_faults_of_zodShape (h : fault ∈ (x.zodShape table).faults unit depth) :
    fault ∈ (position.expr table x).faults unit depth := mem_faults_expr_iff.mpr (.inl (.inl h))

theorem Item.exists_mem_faults_zodField_iff {xs : List Item} :
    (∃ p ∈ xs.map (zodField table), fault ∈ p.2.faults unit depth) ↔
      ∃ y ∈ xs, fault ∈ (ZodPosition.field.expr table y).faults unit depth :=
  ⟨fun ⟨_, hp, h⟩ ↦ by obtain ⟨y, hy, rfl⟩ := List.mem_map.mp hp; exact ⟨y, hy, h⟩,
    fun ⟨y, hy, h⟩ ↦ ⟨_, List.mem_map_of_mem hy, h⟩⟩

theorem Item.mem_faults_object_iff (h : x.IsOf .object) :
    fault ∈ (x.zodShape table).faults unit depth ↔
      x.fields.getD [] ≠ [] ∧
        (fault ∈ WriteFault.ofIndent unit depth ∨ fault ∈ WriteFault.ofValue unit) ∨
      ∃ y ∈ x.fields.getD [],
        fault ∈ (ZodPosition.field.expr table y).faults unit (depth + 1) := by
  rw [zodShape_of_object h, ZodExpr.mem_faults_object_iff, exists_mem_faults_zodField_iff, ne_eq,
    List.map_eq_nil_iff]

theorem Item.mem_faults_union_iff (h : x.IsOf .union) (htwo : 2 ≤ (x.options.getD []).length) :
    fault ∈ (x.zodShape table).faults unit depth ↔
      ∃ y ∈ x.options.getD [], fault ∈ (ZodPosition.option.expr table y).faults unit depth := by
  rw [zodShape_of_union h htwo, ZodExpr.faults, ZodExpr.faultsOfOptions_eq, List.flatMap_map,
    List.mem_flatMap]
  rfl

/-- What an item adds itself is among its faults. -/
theorem ZodPosition.HasFault.mem (h : position.HasFault unit depth x fault) :
    fault ∈ (position.expr table x).faults unit depth := by
  cases h with
  | literal hliteral hlong =>
    refine mem_faults_of_zodShape ?_
    rw [Item.zodShape_of_literal hliteral]
    exact WriteFault.mem_ofValue_iff.mpr ⟨rfl, hlong⟩
  | description htruthy hlong => exact mem_faults_expr_iff.mpr (.inl (.inr ⟨rfl, htruthy, hlong⟩))
  | default hfield hdefault hlong =>
    exact mem_faults_expr_iff.mpr (.inr ⟨rfl, hfield, hdefault, hlong⟩)
  | indent hobject hfields h =>
    exact mem_faults_of_zodShape ((Item.mem_faults_object_iff hobject).mpr (.inl ⟨hfields, h⟩))

/-- A fault of an item is one that the item adds itself, or one of its fields or its options. -/
theorem ZodPosition.hasFault_or (h : fault ∈ (position.expr table x).faults unit depth) :
    position.HasFault unit depth x fault ∨
      (x.IsOf .object ∧ ∃ y ∈ x.fields.getD [],
        fault ∈ (ZodPosition.field.expr table y).faults unit (depth + 1)) ∨
      x.IsOf .union ∧ 2 ≤ (x.options.getD []).length ∧ ∃ y ∈ x.options.getD [],
        fault ∈ (ZodPosition.option.expr table y).faults unit depth := by
  rcases mem_faults_expr_iff.mp h with
    (hshape | ⟨rfl, htruthy, hlong⟩) | ⟨rfl, hfield, hdefault, hlong⟩
  · have hview := x.hasZodShape table
    generalize hs : x.zodShape table = e at hview
    cases hview with
    | object hobject =>
      rcases (Item.mem_faults_object_iff hobject).mp hshape with ⟨hfields, h⟩ | h
      · exact .inl (.indent hobject hfields h)
      · exact .inr (.inl ⟨hobject, h⟩)
    | union hunion htwo =>
      exact .inr (.inr ⟨hunion, htwo, (Item.mem_faults_union_iff hunion htwo).mp hshape⟩)
    | literal hliteral =>
      rw [hs, ZodExpr.faults, WriteFault.mem_ofValue_iff] at hshape
      obtain ⟨rfl, hlong⟩ := hshape
      exact .inl (.literal hliteral hlong)
    | @scalar type h =>
      rw [hs] at hshape
      cases type <;> exact absurd hshape List.not_mem_nil
    | anything | reference =>
      rw [hs] at hshape
      exact absurd hshape List.not_mem_nil
  · exact .inl (.description htruthy hlong)
  · exact .inl (.default hfield hdefault hlong)

end Items

namespace Document

variable {d : Document} {unit : Json} {depth : ℕ} {fault : WriteFault} {x : Item}
  {position : ZodPosition}

theorem mem_faults_iff_of_fields {exportName typeName : String} :
    fault ∈ (d.zodModule exportName typeName).faults unit ↔
      d.fields ≠ [] ∧ fault ∈ WriteFault.ofValue unit ∨
        ∃ x ∈ d.fields, fault ∈ (ZodPosition.field.expr d.index x).faults unit 1 := by
  have hproperties : (d.zodModule exportName typeName).properties =
      d.fields.map (Item.zodField d.index) := Item.zodFieldList_eq_map d.index d.fields
  rw [ZodModule.faults, hproperties, List.flatMap_map, List.mem_flatMap]
  simp only [List.mem_append, and_or_left, exists_or]
  refine or_congr_left ?_
  constructor
  · rintro ⟨x, hx, h⟩
    exact ⟨List.ne_nil_of_mem hx, h⟩
  · rintro ⟨hne, h⟩
    obtain ⟨x, hx⟩ := List.exists_mem_of_ne_nil _ hne
    exact ⟨x, hx, h⟩

/-- What is at fault in a written item is in the module. -/
theorem Writes.faults_subset {exportName typeName : String} (h : d.Writes position depth x)
    (hfault : fault ∈ (position.expr d.index x).faults unit depth) :
    fault ∈ (d.zodModule exportName typeName).faults unit := by
  induction h with
  | root hx => exact mem_faults_iff_of_fields.mpr (.inr ⟨_, hx, hfault⟩)
  | field _ hobject hy ih =>
    exact ih (ZodPosition.mem_faults_of_zodShape
      ((Item.mem_faults_object_iff hobject).mpr (.inr ⟨_, hy, hfault⟩)))
  | option _ hunion htwo hy ih =>
    exact ih (ZodPosition.mem_faults_of_zodShape
      ((Item.mem_faults_union_iff hunion htwo).mpr ⟨_, hy, hfault⟩))

/-- A fault of a written item is one that an item adds which is written for it. -/
theorem Writes.exists_hasFault (h : d.Writes position depth x)
    (hfault : fault ∈ (position.expr d.index x).faults unit depth) :
    ∃ position depth y, d.Writes position depth y ∧ position.HasFault unit depth y fault := by
  induction x using Item.childrenInduction generalizing position depth with
  | step x ih =>
    rcases ZodPosition.hasFault_or hfault with hown | ⟨hobject, y, hy, hmem⟩ |
      ⟨hunion, htwo, y, hy, hmem⟩
    · exact ⟨position, depth, x, h, hown⟩
    · exact ih y (List.mem_append_left _ hy) (h.field hobject hy) hmem
    · exact ih y (List.mem_append_right _ hy) (h.option hunion htwo hy) hmem

/-- **What keeps a module from being written** is the unit of indentation, if the module has fields,
or an item that is written. -/
theorem mem_faults_iff {exportName typeName : String} :
    fault ∈ (d.zodModule exportName typeName).faults unit ↔
      d.fields ≠ [] ∧ fault ∈ WriteFault.ofValue unit ∨
        ∃ position depth x, d.Writes position depth x ∧ position.HasFault unit depth x fault := by
  constructor
  · intro h
    rcases mem_faults_iff_of_fields.mp h with h | ⟨x, hx, h⟩
    · exact .inl h
    · exact .inr ((Writes.root hx).exists_hasFault h)
  · rintro (h | ⟨position, depth, x, hwrites, h⟩)
    · exact mem_faults_iff_of_fields.mpr (.inl h)
    · exact hwrites.faults_subset h.mem

end Document

end SchemaTree
