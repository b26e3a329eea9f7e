import SchemaTree.Proofs.Definitions
import SchemaTree.Proofs.References

/-!
# Names between quotes

An item that refers to an object or a union is rendered to the name of that item's definition,
between quotes, since the definition may come later in the module. It need not come at all: names
are given to all items of a document, but only the rendered ones have a block. What a quoted name
needs is therefore that the item at the end of the chain is rendered
(`Document.forwards_defined_iff`).

All items are rendered if each is in its place, no two fields share a name and no union has a single
option (`Document.forwards_defined_of_tidy`). The option of a union with no other one is the case
where this fails most easily: it keeps its name, while the union that holds it becomes `Any`
(`Document.exists_undefined_forward`).
-/

namespace SchemaTree

open Json Relation

/-- The definitions that a block names between quotes. -/
def Block.forwards : Block → List String
  | cls _ _ fields => fields.flatMap fun f ↦ f.type.forwards
  | typeAlias _ type => type.forwards

/-- The definitions that a module names between quotes. -/
def ClassModule.forwards (m : ClassModule) : List String := m.blocks.flatMap Block.forwards

/-! ## Quoted names of a type -/

section Types

variable {a : Attributes}

theorem forwards_describedBy (description : Json) (type : TypeExpr) :
    (type.describedBy description).forwards = type.forwards :=
  TypeExpr.describedBy_induction (P := fun described ↦ described.forwards = type.forwards)
    (fun _ h ↦ by rw [TypeExpr.forwards, h]) rfl

theorem forwards_asOption (r : Rendered) : (r.asOption a).type.forwards = r.type.forwards :=
  Rendered.asOption_induction (P := fun type ↦ type.forwards = r.type.forwards)
    (fun _ h ↦ by rw [TypeExpr.forwards, h]) rfl a

theorem forwards_asField (r : Rendered) : (r.asField a).type.forwards = r.type.forwards :=
  Rendered.asField_induction (P := fun type ↦ type.forwards = r.type.forwards)
    (fun _ h ↦ by rw [TypeExpr.forwards, h]) (fun _ h ↦ by rw [TypeExpr.forwards, h]) rfl a

theorem forwardsAll_eq (types : List TypeExpr) :
    TypeExpr.forwardsAll types = types.flatMap TypeExpr.forwards := by
  induction types with
  | nil => rfl
  | cons type types ih => rw [TypeExpr.forwardsAll, ih, List.flatMap_cons]

theorem forwards_leaf (a : Attributes) : (TypeExpr.leaf a).forwards = [] := by
  rw [TypeExpr.leaf]
  cases a.kind.scalarType? with
  | some type => rfl
  | none =>
    dsimp only
    split
    · rw [TypeExpr.ofScalar.eq_def]
      split <;> rfl
    · rfl

end Types

/-! ## Quoted names of an item -/

section Items

variable (context : RenderContext) {x : Item} {name : String}

theorem forwards_reference_of_none {a : Attributes} (h : context.table.resolve a = none) :
    (context.reference a).forwards = [] := by
  rw [reference_of_none context h]
  rfl

/-- A reference to an item with a definition names it, and no other reference names anything. -/
theorem forwards_reference_of_some {a : Attributes} (h : context.table.resolve a = some x) :
    (context.reference a).forwards =
      ((Members.find? x.id context.names.classes).or
        (Members.find? x.id context.names.aliases)).toList := by
  rw [reference_of_some context h]
  cases (Members.find? x.id context.names.classes).or
      (Members.find? x.id context.names.aliases) with
  | some name => rfl
  | none => exact forwards_leaf _

/-- The definitions that an item names by its reference. -/
def Item.forwards (x : Item) : List String :=
  if x.target?.isSome then (context.reference x.attributes).forwards else []

/-- The definitions that the blocks and the type of an item name between quotes. -/
def Rendered.forwards (r : Rendered) : List String :=
  r.blocks.flatMap Block.forwards ++ r.type.forwards

/-- The type of an item that is no object names what the types of its parts name. -/
theorem forwards_ownType (ht : x.target? = none) (ho : x.kind ≠ .object) :
    (x.ownType context).forwards =
      x.renderedParts.flatMap fun y ↦ (y.render context).type.forwards := by
  by_cases hu : x.kind = .union
  · rw [ownType_of_union context ht hu, forwards_describedBy]
    split
    · rename_i hparts
      rw [hparts]
      rfl
    · rw [TypeExpr.forwards, forwardsAll_eq, List.flatMap_map]
      exact List.flatMap_congr fun y _ ↦ forwards_asOption _
  · rw [ownType_of_leaf context hu, forwards_describedBy, forwards_leaf,
      Item.renderedParts_of_leaf ho hu]
    rfl

/-- The attributes of a class name what the types of its fields name. -/
theorem forwards_lines (xs : List Item) :
    ((context.lines xs).flatMap fun f ↦ f.type.forwards) =
      (lastFields xs).flatMap fun y ↦ (y.render context).type.forwards := by
  have htypes : ((context.lines xs).flatMap fun f ↦ f.type.forwards) =
      ((context.lines xs).map FieldLine.type).flatMap TypeExpr.forwards := by
    rw [List.flatMap_map]
  rw [htypes, map_type_lines, List.flatMap_map]
  exact List.flatMap_congr fun y _ ↦ forwards_asField _

/-- Without a reference of its own, an item names what its parts name. -/
theorem forwards_render (ht : x.target? = none) :
    (x.render context).forwards =
      (x.renderedParts.flatMap fun y ↦ (y.render context).blocks.flatMap Block.forwards) ++
        x.renderedParts.flatMap fun y ↦ (y.render context).type.forwards := by
  rw [Rendered.forwards, blocks_render_eq_parts, List.flatMap_append, List.flatMap_assoc]
  by_cases ho : x.kind = .object
  · rw [block?_of_object context ht ho, type_of_object context ht ho,
      Item.renderedParts_of_object ht ho, ← forwards_lines]
    simp [Block.forwards, TypeExpr.forwards]
  · -- what the type of an item with an alias names, its block names instead
    rw [block?_of_other context ht ho, type_of_other context ht ho,
      ← forwards_ownType context ht ho]
    cases Members.find? x.id context.names.aliases <;> simp [Block.forwards, TypeExpr.forwards]

/-- **The quoted names of an item** are those that the items rendered for it refer to. -/
theorem mem_forwards_render_iff :
    name ∈ (x.render context).forwards ↔ ∃ y ∈ x.rendered, name ∈ y.forwards context := by
  induction x using Item.renderedInduction with
  | step x ih =>
    cases ht : x.target? with
    | some id =>
      have hrendered : x.rendered = [x] := by
        rw [Item.rendered_eq, Item.renderedParts_of_target ht]
        rfl
      rw [render_of_target context ht, hrendered]
      simp [Rendered.forwards, Item.forwards, ht]
    | none =>
      have hown : x.forwards context = [] := by simp [Item.forwards, ht]
      have hparts : name ∈ (x.render context).forwards ↔
          ∃ y ∈ x.renderedParts, name ∈ (y.render context).forwards := by
        rw [forwards_render context ht, List.mem_append, List.mem_flatMap, List.mem_flatMap,
          ← exists_or]
        simp only [← and_or_left, ← List.mem_append, Rendered.forwards]
      rw [hparts, Item.rendered_eq]
      constructor
      · rintro ⟨y, hy, hname⟩
        obtain ⟨z, hz, hzname⟩ := (ih y hy).mp hname
        exact ⟨z, List.mem_append_left _ (List.mem_flatMap.mpr ⟨y, hy, hz⟩), hzname⟩
      · rintro ⟨z, hz, hzname⟩
        rcases List.mem_append.mp hz with hz | hz
        · obtain ⟨y, hy, hzy⟩ := List.mem_flatMap.mp hz
          exact ⟨y, hy, (ih y hy).mpr ⟨z, hzy, hzname⟩⟩
        · rw [List.mem_singleton.mp hz, hown] at hzname
          cases hzname

end Items

/-! ## Quoted names of a document -/

namespace Document

variable {d : Document} {n x : Item} {name typeName : String}

theorem mem_forwards_classModule_iff :
    name ∈ (d.classModule typeName).forwards ↔
      ∃ n ∈ d.rendered, name ∈ n.forwards d.renderContext := by
  have hfields : name ∈ (d.classModule typeName).forwards ↔
      ∃ y ∈ lastFields d.fields, name ∈ (y.render d.renderContext).forwards := by
    rw [ClassModule.forwards, blocks_classModule_eq_fields, List.flatMap_append, List.flatMap_assoc,
      List.flatMap_singleton, Block.forwards, forwards_lines, List.mem_append, List.mem_flatMap,
      List.mem_flatMap, ← exists_or]
    simp only [← and_or_left, ← List.mem_append, Rendered.forwards]
  rw [hfields]
  simp only [mem_forwards_render_iff, rendered, List.mem_flatMap]
  constructor
  · rintro ⟨y, hy, n, hn, hname⟩
    exact ⟨n, ⟨y, hy, hn⟩, hname⟩
  · rintro ⟨n, ⟨y, hy, hn⟩, hname⟩
    exact ⟨y, hy, n, hn, hname⟩

variable (hids : (d.items.map Item.id).Nodup)
include hids

/-- A reference names the definition of the item at the end of its chain. -/
theorem mem_forwards_iff (hn : n ∈ d.items) :
    name ∈ n.forwards d.renderContext ↔
      n.target?.isSome ∧ ∃ x, LeadsTo d.items n.id x ∧ d.definition? x = some name := by
  rw [Item.forwards]
  cases ht : n.target? with
  | none => simp
  | some ref =>
    rw [Option.isSome_some, if_pos rfl]
    simp only [true_and, ← resolve_eq_some_iff hids hn ht]
    cases hresolve : d.index.resolve n.attributes with
    | none =>
      rw [forwards_reference_of_none _ hresolve]
      simp
    | some x =>
      rw [forwards_reference_of_some _ hresolve]
      simp [definition?, renderContext]

/-- A chain of at least one reference ends at an item that some item refers to. -/
theorem mem_referredTo_of_leadsTo (hn : n ∈ d.items) (ht : n.target?.isSome)
    (hx : LeadsTo d.items n.id x) : x.id ∈ d.referredTo := by
  obtain ⟨hchain, hmem, hend⟩ := hx
  rw [mem_referredTo_iff]
  rcases ReflTransGen.cases_tail hchain with hid | ⟨b, -, y, hy, -, htarget⟩
  · -- the chain has no link only if it ends where it began
    have hsame : x = n := List.inj_on_of_nodup_map hids hmem hn hid
    rw [← hsame, hend] at ht
    cases ht
  · exact ⟨y, hy, htarget⟩

/-- An object or a union at the end of a chain has a definition. -/
theorem exists_definition_of_leadsTo (hn : n ∈ d.items) (ht : n.target?.isSome)
    (hx : LeadsTo d.items n.id x) (hcontainer : x ∈ d.referenceTargets) :
    ∃ name, d.definition? x = some name := by
  rw [← Option.isSome_iff_exists, isSome_definition?_iff hids hx.2.1]
  have hkind : x.kind = .object ∨ x.kind = .union := by
    simpa [referenceTargets, Item.isContainer, Item.isObject, Item.isUnion, hx.2.1]
      using hcontainer
  refine hkind.imp (fun ho ↦ ⟨hx.2.2, ho⟩) fun hu ↦ ?_
  exact ⟨hx.2.2, hu, mem_referredTo_of_leadsTo hids hn ht hx⟩

/-- What has a definition is an object or a union. -/
theorem mem_referenceTargets_of_definition? (hx : x ∈ d.items)
    (hname : d.definition? x = some name) :
    x ∈ d.referenceTargets := by
  have hsome : (d.definition? x).isSome := Option.isSome_of_eq_some hname
  have hkind : x.kind = .object ∨ x.kind = .union :=
    ((isSome_definition?_iff hids hx).mp hsome).imp (·.2) (·.2.1)
  simpa [referenceTargets, Item.isContainer, Item.isObject, Item.isUnion, hx] using hkind

/-- The name of an item is defined in the module exactly if the item is rendered. -/
theorem definition?_mem_definitions_iff (hx : x ∈ d.items) (hname : d.definition? x = some name) :
    name ∈ (d.classModule typeName).definitions ↔ x ∈ d.rendered := by
  rw [mem_definitions_iff hids]
  constructor
  · rintro (⟨y, hy, hyname⟩ | hroot)
    · have hsame : x = y :=
        definition?_injective hids hx (mem_items_of_mem_rendered hy) hname hyname
      exact hsame ▸ hy
    · exact absurd (hroot ▸ hname) (definition?_ne_rootName x typeName)
  · intro hrendered
    exact .inl ⟨x, hrendered, hname⟩

/-- **When no quoted name dangles.** Where no id is repeated, every definition that a module names
between quotes is one of its own exactly if every object and every union that a rendered item leads
to is rendered. -/
theorem forwards_defined_iff (typeName : String) :
    (∀ name ∈ (d.classModule typeName).forwards, name ∈ (d.classModule typeName).definitions) ↔
      ∀ n ∈ d.rendered, ∀ x ∈ d.referenceTargets, LeadsTo d.items n.id x → x ∈ d.rendered := by
  constructor
  · intro hdefined n hn x hcontainer hx
    have hmem : n ∈ d.items := mem_items_of_mem_rendered hn
    by_cases ht : n.target?.isSome
    · obtain ⟨name, hname⟩ := exists_definition_of_leadsTo hids hmem ht hx hcontainer
      have hforward : name ∈ n.forwards d.renderContext :=
        (mem_forwards_iff hids hmem).mpr ⟨ht, x, hx, hname⟩
      have hdefinition := hdefined name (mem_forwards_classModule_iff.mpr ⟨n, hn, hforward⟩)
      exact (definition?_mem_definitions_iff hids hx.2.1 hname).mp hdefinition
    · -- an item without a reference leads to itself
      have hself : LeadsTo d.items n.id n :=
        leadsTo_self hmem (Option.not_isSome_iff_eq_none.mp ht)
      exact LeadsTo.unique hids hself hx ▸ hn
  · intro hrendered name hname
    obtain ⟨n, hn, hforward⟩ := mem_forwards_classModule_iff.mp hname
    obtain ⟨-, x, hx, hdefinition⟩ :=
      (mem_forwards_iff hids (mem_items_of_mem_rendered hn)).mp hforward
    have hcontainer := mem_referenceTargets_of_definition? hids hx.2.1 hdefinition
    exact (definition?_mem_definitions_iff hids hx.2.1 hdefinition).mpr
      (hrendered n hn x hcontainer hx)

omit hids

/-- A tree whose branches are trees, or values that are a text or a tree again; one more field
refers to the values by a chain of two references. -/
def forest : Document where
  fields := [
    .mk (Item.new "tree" .object "tree").attributes
      (some [.referring "branches" "tree", .referring "content" "value"]) none,
    .mk (Item.new "value" .union "value").attributes none
      (some [Item.new "text" .string "text", .referring "nested" "tree"]),
    .referring "first" "second", .referring "second" "value"]

theorem tidy_forest : forest.Tidy := ⟨by decide, by decide⟩

theorem forwards_defined_iff_forest :
    (forest.items.map Item.id).Nodup ∧ (forest.classModule "Schema").forwards ≠ [] ∧
      ∀ name ∈ (forest.classModule "Schema").forwards,
        name ∈ (forest.classModule "Schema").definitions := by
  have hids : (forest.items.map Item.id).Nodup := by decide
  refine ⟨hids, ?_, ?_⟩
  · decide
  · refine (forwards_defined_iff hids "Schema").mpr fun n _ x _ hx ↦ ?_
    exact tidy_forest.mem_rendered hx.2.1

/-- A union with a single option, and a reference to the option. -/
def solitary : Document where
  fields := [
    .mk (Item.new "choice" .union "choice").attributes none
      (some [Item.new "thing" .object "thing"]),
    .referring "again" "thing"]

/-- The only option of a union is named where it is referred to, and defined nowhere. -/
theorem exists_undefined_forward :
    (solitary.items.map Item.id).Nodup ∧
      (∃ x ∈ solitary.referenceTargets, LeadsTo solitary.items "again" x) ∧
      "Thing" ∈ (solitary.classModule "Schema").forwards ∧
      "Thing" ∉ (solitary.classModule "Schema").definitions := by
  have hthing : Item.new "thing" .object "thing" ∈ solitary.items := by
    simp [items, solitary, Item.descendantsList, Item.descendants, Item.descendantsSlot]
  have hagain : Item.referring "again" "thing" ∈ solitary.items := by
    simp [items, solitary, Item.descendantsList]
  have hlink : LinksTo solitary.items "again" "thing" := ⟨_, hagain, rfl, rfl⟩
  have hchain : LeadsTo solitary.items "again" (Item.new "thing" .object "thing") :=
    LeadsTo.head hlink (leadsTo_self hthing rfl)
  refine ⟨by decide, ⟨_, ?_, hchain⟩, by decide, by decide⟩
  exact List.mem_filter.mpr ⟨hthing, rfl⟩

variable (hids : (d.items.map Item.id).Nodup)
include hids

/-- In a tidy document no quoted name dangles. -/
theorem forwards_defined_of_tidy (htidy : d.Tidy)
    (hname : name ∈ (d.classModule typeName).forwards) :
    name ∈ (d.classModule typeName).definitions := by
  obtain ⟨n, hn, hforward⟩ := mem_forwards_classModule_iff.mp hname
  obtain ⟨-, x, hx, hdefinition⟩ :=
    (mem_forwards_iff hids (mem_items_of_mem_rendered hn)).mp hforward
  exact (definition?_mem_definitions_iff hids hx.2.1 hdefinition).mpr (htidy.mem_rendered hx.2.1)

end Document

end SchemaTree
