import SchemaTree.Import.Read
import SchemaTree.Proofs.Nodes
import SchemaTree.Text.Documentation

/-!
# What an import keeps

A document that is built and imported again comes back with fresh ids, and without whatever has no
say in it: `Document.normal` is what is left, with the ids blanked. A description that counts as
false is none; only objects have fields, only unions have options and only literals have a value;
null is no default of a field that is not required; and the options of a union are numbered, and
required without a default.

Not every document comes back: `Item.Importable` says which items do.
-/

namespace SchemaTree

open Json

/-! ## Values -/

/-- A value, or null if it counts as false. -/
def Json.orNull (v : Json) : Json := if v.truthy then v else .null

/-- Whether a value is null. -/
def Json.isNull : Json → Bool
  | .null => true
  | _ => false

/-- A value that counts as false, or a text that cleaning as documentation leaves alone. -/
def Json.IsCleaned : Json → Prop
  | .str s => Text.cleanDocumentation s.toList = s.toList
  | v => v.truthy = false

instance : DecidablePred Json.IsCleaned
  | .str s => inferInstanceAs (Decidable (Text.cleanDocumentation s.toList = s.toList))
  | .null | .bool _ | .int _ | .float _ | .arr _ | .obj _ => inferInstanceAs (Decidable (_ = false))

/-! ## Attributes -/

/-- The attributes of an item of which only the kind and a literal are known. -/
def Attributes.blank (name : String) (kind : Kind) (literal : Json) : Attributes where
  id := ""
  name := name
  kind := kind
  required := true
  isArray := false
  description := .null
  defaultValue := .null
  hasDefault := false
  literal := literal
  reference := none

/-- What is left of attributes, apart from what they say about the position of the item. -/
def Attributes.core (name : String) (a : Attributes) : Attributes :=
  { blank name a.kind (if a.kind = .literal then a.literal else .null) with
    description := a.description.orNull }

/-- A value that is a scalar is the value of its literal. -/
theorem Attributes.toJson_scalar {a : Attributes} (h : (Scalar.ofJson? a.literal).isSome) :
    a.scalar.toJson = a.literal := by
  rw [scalar]
  cases hv : a.literal <;> first | rfl | simp [hv, Scalar.ofJson?] at h

/-- Whether a default is kept. -/
def Attributes.keepsDefault (a : Attributes) : Bool :=
  a.hasDefault && (a.required || !a.defaultValue.isNull)

/-- What is left of the attributes of a field. -/
def Attributes.normalField (a : Attributes) : Attributes :=
  { a.core a.name with
    required := a.required
    isArray := a.isArray
    hasDefault := a.keepsDefault
    defaultValue := if a.keepsDefault then a.defaultValue else .null }

theorem Attributes.normalField_of_keepsDefault {a : Attributes} (h : a.keepsDefault) :
    a.normalField = { a.core a.name with
      required := a.required
      isArray := a.isArray
      hasDefault := true
      defaultValue := a.defaultValue } := by
  rw [normalField, h, if_pos rfl]

theorem Attributes.normalField_of_not_keepsDefault {a : Attributes} (h : a.keepsDefault = false) :
    a.normalField = { a.core a.name with required := a.required, isArray := a.isArray } := by
  rw [normalField, h, if_neg Bool.false_ne_true]
  rfl

/-- What is left of the attributes of an option at an index. -/
def Attributes.normalOption (index : Nat) (a : Attributes) : Attributes :=
  { a.core (optionName index) with isArray := a.isArray }

/-! ## Items -/

namespace Item

mutual

/-- What is left of an item, with attributes `b`. -/
def normalWith (b : Attributes) : Item → Item
  | .mk a fields options =>
    .mk b (if a.kind = .object then some (normalFields fields) else none)
      (if a.kind = .union then some (normalOptions options) else none)

/-- What is left of optional fields. -/
def normalFields : Option (List Item) → List Item
  | none => []
  | some xs => normalFieldList xs

/-- What is left of fields. -/
def normalFieldList : List Item → List Item
  | [] => []
  | x :: rest => x.normalWith x.attributes.normalField :: normalFieldList rest

/-- What is left of optional options. -/
def normalOptions : Option (List Item) → List Item
  | none => []
  | some xs => normalOptionList 0 xs

/-- What is left of options from an index on. -/
def normalOptionList (index : Nat) : List Item → List Item
  | [] => []
  | x :: rest =>
    x.normalWith (x.attributes.normalOption index) :: normalOptionList (index + 1) rest

end

theorem normalFields_eq (slot : Option (List Item)) :
    normalFields slot = normalFieldList (slot.getD []) := by
  cases slot <;> rfl

theorem normalOptions_eq (slot : Option (List Item)) :
    normalOptions slot = normalOptionList 0 (slot.getD []) := by
  cases slot <;> rfl

theorem normalWith_eq (b : Attributes) (x : Item) :
    x.normalWith b = .mk b
      (if x.kind = .object then some (normalFieldList (x.fields.getD [])) else none)
      (if x.kind = .union then some (normalOptionList 0 (x.options.getD [])) else none) := by
  obtain ⟨a, fields, options⟩ := x
  rw [normalWith, normalFields_eq, normalOptions_eq]
  rfl

/-! ## Blank ids -/

mutual

/-- An item with its id and all ids below it blanked. -/
def eraseIds : Item → Item
  | .mk a fields options => .mk { a with id := "" } (eraseSlot fields) (eraseSlot options)

/-- An optional list of items with all ids blanked. -/
def eraseSlot : Option (List Item) → Option (List Item)
  | none => none
  | some xs => some (eraseList xs)

/-- A list of items with all ids blanked. -/
def eraseList : List Item → List Item
  | [] => []
  | x :: rest => x.eraseIds :: eraseList rest

end

/-! ## Importable items -/

/-- What an item has to be like for an import to bring it back. -/
structure Importable (x : Item) : Prop where
  noReference : x.target? = none
  known : x.kind.isKnown
  /-- An empty name would be lost, and of a repeated one all but the last. -/
  names : x.kind = .object →
    "" ∉ (x.fields.getD []).map name ∧ ((x.fields.getD []).map name).Nodup
  options : x.kind = .union → 2 ≤ (x.options.getD []).length
  literal : x.kind = .literal → (Scalar.ofJson? x.attributes.literal).isSome
  documentation : x.kind = .object → x.attributes.description.IsCleaned

instance (x : Item) : Decidable x.Importable :=
  decidable_of_iff (x.target? = none ∧ x.kind.isKnown ∧
      (x.kind = .object →
        "" ∉ (x.fields.getD []).map name ∧ ((x.fields.getD []).map name).Nodup) ∧
      (x.kind = .union → 2 ≤ (x.options.getD []).length) ∧
      (x.kind = .literal → (Scalar.ofJson? x.attributes.literal).isSome) ∧
      (x.kind = .object → x.attributes.description.IsCleaned))
    ⟨fun ⟨h₁, h₂, h₃, h₄, h₅, h₆⟩ ↦ ⟨h₁, h₂, h₃, h₄, h₅, h₆⟩,
      fun h ↦ ⟨h.noReference, h.known, h.names, h.options, h.literal, h.documentation⟩⟩

/-- An importable item has no parts or is an object or a union. -/
theorem Importable.kind_cases {x : Item} (h : x.Importable) :
    x.kind = .object ∨ x.kind = .union ∨ x.kind = .literal ∨
      ∃ type : ScalarType, x.kind = type.kind := by
  have hknown := h.known
  cases hk : x.kind with
  | string => exact .inr (.inr (.inr ⟨.text, rfl⟩))
  | number => exact .inr (.inr (.inr ⟨.number, rfl⟩))
  | boolean => exact .inr (.inr (.inr ⟨.flag, rfl⟩))
  | datetime => exact .inr (.inr (.inr ⟨.moment, rfl⟩))
  | other name unknown => simp [hk, Kind.isKnown] at hknown
  | _ => simp

end Item

/-! ## Documents -/

/-- What is left of a document. -/
def Document.normal (d : Document) : Document where
  fields := Item.normalFieldList d.fields

/-- A document with all ids blanked. -/
def Document.eraseIds (d : Document) : Document where
  fields := Item.eraseList d.fields

/-- What a document has to be like for an import to bring it back. -/
structure Document.Importable (d : Document) : Prop where
  names : "" ∉ d.fields.map Item.name ∧ (d.fields.map Item.name).Nodup
  items : ∀ x ∈ d.built, x.Importable

end SchemaTree
