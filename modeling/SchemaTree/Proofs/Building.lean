import SchemaTree.Proofs.Members
import SchemaTree.Proofs.Nodes
import SchemaTree.Proofs.Steps
import SchemaTree.Shape.Build

/-!
# What building yields

Building threads a registry through the tree, but the shape of an item depends on the item alone.
`Item.shape` is that shape, and `Document.build_value` says what building comes to: the root's shape
is made of the shapes of the fields, and the registry is that of the built items, registered in
their order. Building fails only where a setting does not name a model, so settings enter as names.

Of the registry only two things matter to those who look something up: the entry of an id is the
shape of the first built item with that id, and there is a link from an id exactly if that item has
a reference (`Document.entry_registry`, `Document.link_registry`).
-/

namespace SchemaTree

/-! ## Shapes -/

/-- The shape of a leaf. -/
def Attributes.leafShape (a : Attributes) : Shape :=
  match a.kind.scalarType? with
  | some type => .scalar type
  | none => if a.kind = .literal then .literal a.scalar else .anything

theorem Attributes.leafShape_of_scalarType {a : Attributes} {type : ScalarType}
    (hk : a.kind.scalarType? = some type) : a.leafShape = .scalar type := by
  rw [leafShape, hk]

theorem Attributes.leafShape_of_literal {a : Attributes} (hk : a.kind = .literal) :
    a.leafShape = .literal a.scalar := by
  rw [leafShape, hk]
  rfl

theorem Attributes.leafShape_of_unknown {a : Attributes} (hk : a.kind.isKnown = false) :
    a.leafShape = .anything := by
  rw [leafShape]
  cases hkind : a.kind with
  | other name unknown => rfl
  | _ => simp [hkind, Kind.isKnown] at hk

theorem ScalarType.kind_ne_object (type : ScalarType) : type.kind ≠ .object := by
  cases type <;> decide

theorem ScalarType.kind_ne_union (type : ScalarType) : type.kind ≠ .union := by
  cases type <;> decide

/-- The kinds that a leaf can have. -/
inductive Kind.IsLeaf (kind : Kind) : Prop where
  | scalar {type : ScalarType} (hk : kind.scalarType? = some type)
  | literal (hk : kind = .literal)
  | unknown (hk : kind.isKnown = false)

theorem Kind.isLeaf {kind : Kind} (ho : kind ≠ .object) (hu : kind ≠ .union) : kind.IsLeaf := by
  cases kind with
  | object => exact absurd rfl ho
  | union => exact absurd rfl hu
  | literal => exact .literal rfl
  | other name unknown => exact .unknown rfl
  | _ => exact .scalar rfl

/-- The shape of a union with options; with fewer than two it accepts anything. -/
def Shape.ofOptions (options : List Shape) : Shape :=
  if options.length < 2 then .anything else .union options

/-- The name of the record of an object, where `anonymous` stands for a name without words. -/
def recordTitle (anonymous : String) (a : Attributes) : String :=
  if Naming.pascalCase a.name = "" then anonymous else Naming.pascalCase a.name

mutual

/-- The shape of an item. -/
def Item.shape (anonymous : String) : Item → Shape
  | .mk a fields options =>
    match a.target?, a.kind with
    | some target, _ => .reference target
    | none, .object =>
      .record (recordTitle anonymous a) a.description
        (recordFields (Item.fieldShapes anonymous fields))
    | none, .union =>
      (Shape.ofOptions (Item.optionShapes anonymous options)).describedBy a.description
    | none, _ => a.leafShape.describedBy a.description

/-- The shapes of the fields of an object, by name. -/
def Item.fieldShapes (anonymous : String) :
    Option (List Item) → List (String × Option Json × Shape)
  | none => []
  | some xs => Item.fieldListShapes anonymous xs

/-- The shapes of a list of fields, by name. -/
def Item.fieldListShapes (anonymous : String) : List Item → List (String × Option Json × Shape)
  | [] => []
  | x :: rest =>
    (x.name, (x.shape anonymous).asField x.attributes) :: Item.fieldListShapes anonymous rest

/-- The shapes of the options of a union. -/
def Item.optionShapes (anonymous : String) : Option (List Item) → List Shape
  | none => []
  | some xs => Item.optionListShapes anonymous xs

/-- The shapes of a list of options. -/
def Item.optionListShapes (anonymous : String) : List Item → List Shape
  | [] => []
  | x :: rest =>
    (x.shape anonymous).asOption x.attributes :: Item.optionListShapes anonymous rest

end

variable {anonymous : String}

namespace Item

theorem fieldListShapes_eq (xs : List Item) :
    fieldListShapes anonymous xs =
      xs.map fun x ↦ (x.name, (x.shape anonymous).asField x.attributes) := by
  induction xs with
  | nil => rfl
  | cons x xs ih => rw [fieldListShapes, ih, List.map_cons]

theorem fieldShapes_eq (slot : Option (List Item)) :
    fieldShapes anonymous slot = fieldListShapes anonymous (slot.getD []) := by
  cases slot <;> rfl

theorem optionListShapes_eq (xs : List Item) :
    optionListShapes anonymous xs =
      xs.map fun x ↦ (x.shape anonymous).asOption x.attributes := by
  induction xs with
  | nil => rfl
  | cons x xs ih => rw [optionListShapes, ih, List.map_cons]

theorem optionShapes_eq (slot : Option (List Item)) :
    optionShapes anonymous slot = optionListShapes anonymous (slot.getD []) := by
  cases slot <;> rfl

theorem shape_of_target {x : Item} {id : String} (h : x.target? = some id) :
    x.shape anonymous = .reference id := by
  obtain ⟨a, fields, options⟩ := x
  rw [target?, attributes] at h
  rw [shape, h]

theorem shape_of_object {x : Item} (ht : x.target? = none) (hk : x.kind = .object) :
    x.shape anonymous = .record (recordTitle anonymous x.attributes) x.attributes.description
      (recordFields (fieldListShapes anonymous (x.fields.getD []))) := by
  obtain ⟨a, fields, options⟩ := x
  rw [target?, attributes] at ht
  rw [kind, attributes] at hk
  rw [shape, ht, hk, fieldShapes_eq, Item.fields, attributes]

theorem shape_of_union {x : Item} (ht : x.target? = none) (hk : x.kind = .union) :
    x.shape anonymous = (Shape.ofOptions (optionListShapes anonymous
      (x.options.getD []))).describedBy x.attributes.description := by
  obtain ⟨a, fields, options⟩ := x
  rw [target?, attributes] at ht
  rw [kind, attributes] at hk
  rw [shape, ht, hk, optionShapes_eq, Item.options, attributes]

theorem shape_of_leaf {x : Item} (ht : x.target? = none) (ho : x.kind ≠ .object)
    (hu : x.kind ≠ .union) :
    x.shape anonymous = x.attributes.leafShape.describedBy x.attributes.description := by
  obtain ⟨a, fields, options⟩ := x
  rw [target?, attributes] at ht
  rw [kind, attributes] at ho hu
  rw [shape, ht, attributes]
  cases hk : a.kind <;> simp_all

theorem shape_of_scalar {x : Item} {type : ScalarType} (ht : x.target? = none)
    (hk : x.kind = type.kind) :
    x.shape anonymous = (Shape.scalar type).describedBy x.attributes.description := by
  have hscalar : x.attributes.kind.scalarType? = some type := by
    rw [← Item.kind, hk, Kind.scalarType?_kind]
  have ho : x.kind ≠ .object := hk ▸ type.kind_ne_object
  have hu : x.kind ≠ .union := hk ▸ type.kind_ne_union
  rw [shape_of_leaf ht ho hu, Attributes.leafShape_of_scalarType hscalar]

theorem shape_of_literal {x : Item} (ht : x.target? = none) (hk : x.kind = .literal) :
    x.shape anonymous =
      (Shape.literal x.attributes.scalar).describedBy x.attributes.description := by
  rw [shape_of_leaf ht (by simp [hk]) (by simp [hk]), Attributes.leafShape_of_literal hk]

end Item

/-! ## Fields of records -/

theorem length_fieldKeys (names : List String) :
    (Naming.fieldKeys names).length = names.length := by
  have hgo (taken : List String) (position : Nat) :
      (Naming.fieldKeys.go taken position names).length = names.length := by
    induction names generalizing taken position with
    | nil => rfl
    | cons name rest ih => rw [Naming.fieldKeys.go, List.length_cons, List.length_cons, ih]
  exact hgo [] 0

/-- Apart from their keys, the fields of a record are those that it is made of. -/
theorem map_recordFields (fields : List (String × Option Json × Shape)) :
    (recordFields fields).map (fun f ↦ (f.1.name, f.1.default, f.2)) =
      Json.Members.ofList fields := by
  have hlength := length_fieldKeys ((Json.Members.ofList fields).map (·.1))
  rw [List.length_map] at hlength
  rw [recordFields, List.map_map]
  exact List.map_snd_zip (Nat.le_of_eq hlength.symm)

theorem nodup_names_recordFields (fields : List (String × Option Json × Shape)) :
    ((recordFields fields).map (·.1.name)).Nodup := by
  have hnodup := Json.Members.nodup_keys_ofList fields
  rwa [← map_recordFields, Json.Members.keys, List.map_map] at hnodup

/-! ## Positions -/

theorem snd_asField (a : Attributes) (shape : Shape) :
    (shape.asField a).2 = if a.required then shape.asOption a else .optional (shape.asOption a) :=
  rfl

/-! ## Building -/

/-- The registry after an item has been registered with its shape. -/
def Registry.record (anonymous : String) (r : Registry Shape) (x : Item) : Registry Shape :=
  r.register x.id (x.shape anonymous) x.attributes.reference

/-- The registry after the items of a list have been registered. -/
def Registry.recordAll (anonymous : String) (r : Registry Shape) (xs : List Item) :
    Registry Shape := xs.foldl (Registry.record anonymous) r

theorem Registry.recordAll_append (r : Registry Shape) (xs ys : List Item) :
    r.recordAll anonymous (xs ++ ys) = (r.recordAll anonymous xs).recordAll anonymous ys :=
  List.foldl_append

/-- A value names records: it is a text without the character zero. -/
structure Json.Names (value : Json) (name : String) : Prop where
  text : value = .str name
  zeroless : '\x00' ∉ name.toList

section Yields

variable {settings : BuilderSettings} {r : Registry Shape}

theorem yields_recordName {value : Json} {name : String} (h : value.Names name) :
    Yields (recordName value) r name r := by
  obtain ⟨rfl, hzero⟩ := h
  rw [recordName, if_neg hzero]
  exact .pure name r

theorem yields_buildLiteral (a : Attributes) : Yields (buildLiteral a) r (.literal a.scalar) r := by
  rw [buildLiteral]
  split
  · exact .bind (.report _ r) (.pure _ r)
  · exact .pure _ r

theorem yields_buildLeaf (a : Attributes) : Yields (buildLeaf a) r a.leafShape r := by
  rw [buildLeaf, Attributes.leafShape]
  cases a.kind.scalarType? with
  | some type => exact .pure _ r
  | none =>
    by_cases hk : a.kind = .literal
    · simp only [if_pos hk]
      exact yields_buildLiteral a
    · simp only [if_neg hk]
      exact .bind (.report _ r) (.pure _ r)

theorem yields_buildUnion (a : Attributes) (options : List Shape) :
    Yields (buildUnion a options) r (.ofOptions options) r := by
  rw [buildUnion, Shape.ofOptions]
  split
  · exact .bind (.report _ r) (.pure _ r)
  · exact .pure _ r

theorem yields_buildRecord (hs : settings.anonymousModelName.Names anonymous) (a : Attributes)
    (fields : List (String × Option Json × Shape)) :
    Yields (buildRecord settings a fields) r
      (.record (recordTitle anonymous a) a.description (recordFields fields)) r := by
  rw [buildRecord, recordTitle]
  split
  · exact .bind (yields_recordName hs) (.pure _ r)
  · exact .bind (.pure _ r) (.pure _ r)

theorem yields_register (a : Attributes) (shape : Shape) :
    Yields (Building.register a shape) r () (r.register a.id shape a.reference) :=
  yields_modifyGet_iff.mpr rfl

/-- An item yields its shape and registers what is built for it. -/
def Item.BuildsFaithfully (settings : BuilderSettings) (anonymous : String) (x : Item) : Prop :=
  ∀ r, Yields (x.build settings) r (x.shape anonymous) (r.recordAll anonymous x.built)

/-- The items of a list are built one after the other. -/
theorem yields_buildList {α : Type} (build : List Item → Building (List α))
    (use : Item → Shape → α) (hnil : build [] = pure [])
    (hcons : ∀ x xs, build (x :: xs) = (do
      let shape ← x.build settings
      let rest ← build xs
      return use x shape :: rest))
    {xs : List Item} (h : ∀ x ∈ xs, x.BuildsFaithfully settings anonymous) (r : Registry Shape) :
    Yields (build xs) r (xs.map fun x ↦ use x (x.shape anonymous))
      (r.recordAll anonymous (Item.builtList xs)) := by
  induction xs generalizing r with
  | nil =>
    rw [hnil]
    exact .pure _ r
  | cons x xs ih =>
    rw [hcons, Item.builtList, Registry.recordAll_append]
    obtain ⟨hx, hxs⟩ := List.forall_mem_cons.mp h
    exact .bind (hx r) (.bind (ih hxs _) (.pure _ _))

theorem yields_buildFieldList {xs : List Item}
    (h : ∀ x ∈ xs, x.BuildsFaithfully settings anonymous) (r : Registry Shape) :
    Yields (Item.buildFieldList settings xs) r (Item.fieldListShapes anonymous xs)
      (r.recordAll anonymous (Item.builtList xs)) := by
  rw [Item.fieldListShapes_eq]
  exact yields_buildList (Item.buildFieldList settings)
    (fun x shape ↦ (x.name, shape.asField x.attributes)) rfl (fun _ _ ↦ rfl) h r

theorem yields_buildOptionList {xs : List Item}
    (h : ∀ x ∈ xs, x.BuildsFaithfully settings anonymous) (r : Registry Shape) :
    Yields (Item.buildOptionList settings xs) r (Item.optionListShapes anonymous xs)
      (r.recordAll anonymous (Item.builtList xs)) := by
  rw [Item.optionListShapes_eq]
  exact yields_buildList (Item.buildOptionList settings)
    (fun x shape ↦ shape.asOption x.attributes) rfl (fun _ _ ↦ rfl) h r

theorem yields_buildFields {slot : Option (List Item)}
    (h : ∀ x ∈ slot.getD [], x.BuildsFaithfully settings anonymous) (r : Registry Shape) :
    Yields (Item.buildFields settings slot) r (Item.fieldShapes anonymous slot)
      (r.recordAll anonymous (Item.builtSlot slot)) := by
  cases slot with
  | none => exact .pure _ r
  | some xs => exact yields_buildFieldList h r

theorem yields_buildOptions {slot : Option (List Item)}
    (h : ∀ x ∈ slot.getD [], x.BuildsFaithfully settings anonymous) (r : Registry Shape) :
    Yields (Item.buildOptions settings slot) r (Item.optionShapes anonymous slot)
      (r.recordAll anonymous (Item.builtSlot slot)) := by
  cases slot with
  | none => exact .pure _ r
  | some xs => exact yields_buildOptionList h r

/-- **What building an item yields**, whatever the registry was before. -/
theorem Item.buildsFaithfully (hs : settings.anonymousModelName.Names anonymous) (x : Item) :
    x.BuildsFaithfully settings anonymous := by
  induction x using Item.induction with
  | step a fields options ihf iho =>
    intro r
    -- the item itself is registered last, whatever its shape
    have last (r' : Registry Shape) (shape : Shape)
        (h : (mk a fields options).shape anonymous = shape) :
        Yields (do Building.register a shape; pure shape) r' shape
          (r'.recordAll anonymous [mk a fields options]) := by
      subst h
      exact .bind (yields_register a _) (.pure _ _)
    rw [Item.build, Item.built, Registry.recordAll_append]
    rw [Item.shape] at last ⊢
    cases ht : a.target? with
    | some target =>
      rw [ht] at last
      exact .bind (.pure _ r) (last r _ rfl)
    | none =>
      rw [ht] at last
      cases hk : a.kind with
      | object =>
        rw [hk] at last
        exact .bind (yields_buildFields ihf r) (.bind (yields_buildRecord hs a _) (last _ _ rfl))
      | union =>
        rw [hk] at last
        exact .bind (yields_buildOptions iho r)
          (.bind (yields_buildUnion a _) (.bind (.pure _ _) (last _ _ rfl)))
      | _ =>
        rw [hk] at last
        exact .bind (yields_buildLeaf a) (.bind (.pure _ _) (last _ _ rfl))

end Yields

/-! ## Models -/

/-- The settings that name models do name them. -/
structure BuilderSettings.NameModels (settings : BuilderSettings) (root anonymous : String) :
    Prop where
  root : settings.rootModelName.Names root
  anonymous : settings.anonymousModelName.Names anonymous

/-- The default settings name models. -/
theorem BuilderSettings.nameModels_default :
    BuilderSettings.NameModels {} "Schema" "Object" :=
  ⟨⟨rfl, by decide⟩, ⟨rfl, by decide⟩⟩

/-- The registry of a built document. -/
def Document.registry (d : Document) (anonymous : String) : Registry Shape :=
  Registry.recordAll anonymous {} d.built

/-- The model of a document. -/
def Document.model (d : Document) (root anonymous : String) : Model where
  shape := .record root .null (recordFields (Item.fieldListShapes anonymous d.fields))
  registry := d.registry anonymous

/-- **Building a document** comes to its model. -/
theorem Document.build_value {settings : BuilderSettings} {root : String}
    (hs : settings.NameModels root anonymous) (d : Document) :
    (d.build settings).value = .ok (d.model root anonymous) := by
  have hroot : Yields (d.buildRoot settings) {} (d.model root anonymous).shape
      (d.registry anonymous) := by
    rw [buildRoot]
    refine .bind (yields_buildFieldList (fun x _ ↦ x.buildsFaithfully hs.anonymous) {}) ?_
    exact .bind (yields_recordName hs.root) (.pure _ _)
  have hrun : ((d.buildRoot settings).run {}).value =
      (.ok (d.model root anonymous).shape, d.registry anonymous) := hroot
  rw [build, Logged.value_bind, hrun]
  rfl

end SchemaTree
