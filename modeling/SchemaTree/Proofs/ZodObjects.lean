import SchemaTree.Proofs.KeyTokens
import SchemaTree.Proofs.Rendering

/-!
# The objects of a zod module and the records of a model

A zod module spells an item out where it comes to it: with an object its fields, with a union of at
least two options its options (`Item.Spells`). So its objects are those of the items that are
objects and are spelled out (`Document.exists_hasObject_iff`), and for each of them, as for the
root, building makes a record.

Both begin with the same list of fields, in which a name may be repeated. The record keeps of every
name the last field at the place of the first one. The module writes a property for every field, and
leaves it to whoever evaluates the object to let the last one count. So as texts the two agree only
if no name is repeated, and only if every key is read as the name it was written for
(`Document.zodObjects_match_records`). -/

namespace SchemaTree

open Json Naming

/-! ## Objects in expressions -/

namespace ZodExpr

/-- An expression has an object with the properties `ps` in it. -/
inductive HasObject (ps : List (String × ZodExpr)) : ZodExpr → Prop where
  | self : HasObject ps (.object ps)
  | property {qs : List (String × ZodExpr)} {p : String × ZodExpr} (hp : p ∈ qs)
      (h : HasObject ps p.2) : HasObject ps (.object qs)
  | option {es : List ZodExpr} {e : ZodExpr} (he : e ∈ es) (h : HasObject ps e) :
    HasObject ps (.union es)
  | describe {e : ZodExpr} (h : HasObject ps e) (description : Json) :
    HasObject ps (.describe e description)
  | array {e : ZodExpr} (h : HasObject ps e) : HasObject ps (.array e)
  | optional {e : ZodExpr} (h : HasObject ps e) : HasObject ps (.optional e)
  | default {e : ZodExpr} (h : HasObject ps e) (value : Json) : HasObject ps (.default e value)

section HasObject

variable {ps qs : List (String × ZodExpr)} {es : List ZodExpr} {a : Attributes} {e F : ZodExpr}

theorem hasObject_object_iff :
    HasObject ps (.object qs) ↔ ps = qs ∨ ∃ p ∈ qs, HasObject ps p.2 := by
  constructor
  · rintro (_ | ⟨hp, h⟩)
    · exact .inl rfl
    · exact .inr ⟨_, hp, h⟩
  · rintro (rfl | ⟨p, hp, h⟩)
    · exact .self
    · exact .property hp h

theorem hasObject_union_iff : HasObject ps (.union es) ↔ ∃ e ∈ es, HasObject ps e := by
  constructor
  · rintro ⟨⟩
    exact ⟨_, ‹_›, ‹_›⟩
  · rintro ⟨e, he, h⟩
    exact .option he h

theorem hasObject_describe_iff {description : Json} :
    HasObject ps (.describe e description) ↔ HasObject ps e := by
  refine ⟨?_, fun h ↦ .describe h description⟩
  rintro ⟨⟩
  assumption

theorem hasObject_array_iff : HasObject ps (.array e) ↔ HasObject ps e := by
  refine ⟨?_, .array⟩
  rintro ⟨⟩
  assumption

theorem hasObject_optional_iff : HasObject ps (.optional e) ↔ HasObject ps e := by
  refine ⟨?_, .optional⟩
  rintro ⟨⟩
  assumption

theorem hasObject_default_iff {value : Json} :
    HasObject ps (.default e value) ↔ HasObject ps e := by
  refine ⟨?_, fun h ↦ .default h value⟩
  rintro ⟨⟩
  assumption

/-- A suffix, if there is one, hides no object. -/
theorem hasObject_ite_iff {p : Prop} [Decidable p] (hF : HasObject ps F ↔ HasObject ps e) :
    HasObject ps (if p then F else e) ↔ HasObject ps e := by
  split
  · exact hF
  · rfl

theorem hasObject_described_iff : HasObject ps (described a e) ↔ HasObject ps e :=
  hasObject_ite_iff hasObject_describe_iff

theorem hasObject_arrayed_iff : HasObject ps (arrayed a e) ↔ HasObject ps e :=
  hasObject_ite_iff hasObject_array_iff

theorem hasObject_asField_iff : HasObject ps (e.asField a) ↔ HasObject ps e := by
  have hoptional : HasObject ps (if a.required then arrayed a e else .optional (arrayed a e)) ↔
      HasObject ps e := by
    rw [← ite_not, hasObject_ite_iff hasObject_optional_iff, hasObject_arrayed_iff]
  rw [asField, hasObject_ite_iff hasObject_default_iff, hoptional]

end HasObject

/-- The properties of an object as they are read: the key of every property by its text. -/
def readProperties (indent : Indent) (depth : ℕ) (ps : List (String × ZodExpr)) :
    List (Option String × ZodExpr) :=
  ps.map fun p ↦ ((readKey (propertyText indent depth p)).map Prod.fst, p.2)

/-- The key of a property is read as its name, unless the name is a word line. -/
theorem map_readKey_propertyText_iff {indent : Indent} {depth : ℕ} {name : String} {e : ZodExpr} :
    (readKey (propertyText indent depth (name, e))).map Prod.fst = some name ↔
      ¬ IsWordLine name := by
  rw [propertyText, readKey_propertyKey]
  split
  · rename_i hline
    refine iff_of_false (fun h ↦ ?_) (not_not_intro hline)
    have hname := congrArg String.toList (Option.some.inj h)
    rw [String.toList_ofList] at hname
    have hfeed : '\n' ∈ name.toList := List.mem_of_getLast? hline.1
    rw [← hname] at hfeed
    exact hline.2.notMem (by decide) hfeed
  · rename_i hline
    exact iff_of_true rfl hline

end ZodExpr

/-! ## What a module spells out -/

namespace Item

open ZodExpr

/-- Where an item is spelled out, so are its parts, unless nothing is said of it. -/
inductive Spells : Item → Item → Prop where
  | self (x : Item) : Spells x x
  | part {x y z : Item} (hopen : ¬ x.IsOpen) (hy : y ∈ x.parts) (h : Spells y z) : Spells x z

/-- An item is an object, and `ps` are the properties of its expression. -/
def HasProperties (table : ItemTable) (x : Item) (ps : List (String × ZodExpr)) : Prop :=
  x.IsOf .object ∧ ps = (x.fields.getD []).map (zodField table)

variable {table : ItemTable} {ps : List (String × ZodExpr)} {x : Item}

theorem IsOf.not_isOpen (h : x.IsOf .object) : ¬ x.IsOpen := by
  rintro ⟨-, hunknown | ⟨hunion, -⟩⟩
  · rw [h.2] at hunknown
    exact absurd hunknown (by decide)
  · rw [h.2] at hunion
    exact absurd hunion (by decide)

/-- A union with two options or more is not open. -/
theorem IsOf.not_isOpen_of_two (h : x.IsOf .union) (htwo : 2 ≤ (x.options.getD []).length) :
    ¬ x.IsOpen := by
  rintro ⟨-, hunknown | ⟨-, hfew⟩⟩
  · rw [h.2] at hunknown
    exact absurd hunknown (by decide)
  · exact absurd htwo (Nat.not_le.mpr hfew)

/-- One step of spelling out: the objects in the expression of an item are its own, if it is one,
and those of its parts. -/
theorem hasObject_zodShape_iff (x : Item) : HasObject ps (x.zodShape table) ↔
    x.HasProperties table ps ∨ ¬ x.IsOpen ∧ ∃ y ∈ x.parts, HasObject ps (y.zodExpr table) := by
  -- what is not spelled out has no object on either side
  have hleaf {e : ZodExpr} (he : ¬ HasObject ps e) (ho : ¬ x.IsOf .object)
      (hparts : ¬ x.IsOpen → x.parts = []) : HasObject ps e ↔
        x.HasProperties table ps ∨ ¬ x.IsOpen ∧ ∃ y ∈ x.parts, HasObject ps (y.zodExpr table) := by
    refine iff_of_false he ?_
    rintro (h | ⟨hopen, y, hy, -⟩)
    · exact ho h.1
    · rw [hparts hopen] at hy
      exact absurd hy List.not_mem_nil
  have hview := hasZodShape table x
  generalize x.zodShape table = e at hview ⊢
  cases hview with
  | @scalar type h =>
    have ho : x.kind ≠ .object := h.2 ▸ type.kind_ne_object
    have hu : x.kind ≠ .union := h.2 ▸ type.kind_ne_union
    refine hleaf ?_ (fun hobject ↦ ho hobject.2) fun _ ↦ parts_of_leaf ho hu
    cases type <;> exact nofun
  | literal h =>
    have ho : x.kind ≠ .object := by simp [h.2]
    have hu : x.kind ≠ .union := by simp [h.2]
    exact hleaf nofun (fun hobject ↦ ho hobject.2) fun _ ↦ parts_of_leaf ho hu
  | object h =>
    rw [hasObject_object_iff, parts_of_object h.1 h.2]
    refine or_congr (iff_and_self.mpr fun _ ↦ h) ?_
    simp only [List.mem_map, exists_exists_and_eq_and, and_iff_right h.not_isOpen]
    exact exists_congr fun y ↦ and_congr_right' hasObject_asField_iff
  | union h htwo =>
    have ho : ¬ x.IsOf .object := by simp [IsOf, h.2]
    rw [hasObject_union_iff, parts_of_union h.1 h.2, and_iff_right (h.not_isOpen_of_two htwo),
      or_iff_right fun hobject ↦ ho hobject.1]
    simp only [List.mem_map, exists_exists_and_eq_and]
    exact exists_congr fun y ↦ and_congr_right' hasObject_arrayed_iff
  | anything h => exact hleaf nofun (fun ho ↦ ho.not_isOpen h) (absurd h)
  | reference h =>
    obtain ⟨id, ht⟩ := Option.isSome_iff_exists.mp h
    exact hleaf nofun (fun ho ↦ by simp [IsOf, ht] at ho) fun _ ↦ parts_of_target ht

/-- **The objects in the expression of an item** are those of the objects that are spelled out with
it. -/
theorem hasObject_zodExpr_iff (x : Item) : HasObject ps (x.zodExpr table) ↔
    ∃ y, x.Spells y ∧ y.HasProperties table ps := by
  induction x using partsInduction with
  | step x ih =>
    rw [zodExpr_eq, hasObject_described_iff, hasObject_zodShape_iff]
    constructor
    · rintro (hx | ⟨hopen, y, hy, h⟩)
      · exact ⟨x, .self x, hx⟩
      · obtain ⟨z, hz, hps⟩ := (ih y hy).mp h
        exact ⟨z, .part hopen hy hz, hps⟩
    · rintro ⟨z, _ | ⟨hopen, hy, hz⟩, hps⟩
      · exact .inl hps
      · exact .inr ⟨hopen, _, hy, (ih _ hy).mpr ⟨z, hz, hps⟩⟩

end Item

/-! ## Objects and records -/

/-- How an object with the properties `ps` and a record with the fields `fields` compare, both made
of the fields `xs`: the object has all of them, the record the last one of each name, at the place
of the first. Evaluated, so that the last property of a name counts, the object has the names of the
record and what is said of its fields. Read as it is written, it does if no name is repeated and
none is a word line. -/
structure Matches (table : ItemTable) (anonymous : String) (xs : List Item)
    (ps : List (String × ZodExpr)) (fields : List (FieldHead × Shape)) : Prop where
  properties : ps = xs.map (Item.zodField table)
  record : fields.map (fun f ↦ (f.1.name, f.1.default, f.2)) =
    (lastFields xs).map fun x ↦ (x.name, (x.shape anonymous).asField x.attributes)
  evaluated : Members.ofList ps = (lastFields xs).map (Item.zodField table)
  read_iff : ∀ indent depth, ZodExpr.readProperties indent depth ps =
      ((lastFields xs).map fun x ↦ (some x.name, (x.zodField table).2)) ↔
    (xs.map Item.name).Nodup ∧ ∀ x ∈ xs, ¬ IsWordLine x.name

section Matches

variable {xs : List Item}

/-- Only without a repeated name do all fields count. -/
theorem nodup_of_length_eq (h : xs.length = (lastFields xs).length) :
    (xs.map Item.name).Nodup := by
  have hperm := (lastFields_subperm xs).perm_of_length_le h.le
  rw [← (hperm.map Item.name).nodup_iff]
  exact nodup_map_name_lastFields xs

theorem readProperties_eq_iff (table : ItemTable) (indent : Indent) (depth : ℕ) :
    ZodExpr.readProperties indent depth (xs.map (Item.zodField table)) =
        ((lastFields xs).map fun x ↦ (some x.name, (x.zodField table).2)) ↔
      (xs.map Item.name).Nodup ∧ ∀ x ∈ xs, ¬ IsWordLine x.name := by
  have hread : ZodExpr.readProperties indent depth (xs.map (Item.zodField table)) =
        (xs.map fun x ↦ (some x.name, (x.zodField table).2)) ↔ ∀ x ∈ xs, ¬ IsWordLine x.name := by
    rw [ZodExpr.readProperties, List.map_map, List.map_inj_left]
    refine forall₂_congr fun x _ ↦ ?_
    rw [← @ZodExpr.map_readKey_propertyText_iff indent depth, Prod.mk.injEq]
    exact and_iff_left rfl
  constructor
  · intro h
    have hlength := congrArg List.length h
    rw [ZodExpr.readProperties, List.length_map, List.length_map, List.length_map] at hlength
    -- the module has a property for every field, so as many fields count as there are
    have hnames := nodup_of_length_eq hlength
    rw [lastFields_of_nodup hnames] at h
    exact ⟨hnames, hread.mp h⟩
  · rintro ⟨hnames, hlines⟩
    rw [lastFields_of_nodup hnames]
    exact hread.mpr hlines

theorem matches_recordFields (table : ItemTable) (anonymous : String) (xs : List Item) :
    Matches table anonymous xs (xs.map (Item.zodField table))
      (recordFields (Item.fieldListShapes anonymous xs)) := by
  exact ⟨rfl, map_recordFields_lastFields anonymous xs,
    ofList_map_fields (fun x ↦ (x.zodField table).2) xs, readProperties_eq_iff table⟩

end Matches

namespace Document

/-- A module spells an item out. -/
def Spells (d : Document) (x : Item) : Prop := ∃ y ∈ d.fields, y.Spells x

/-- **The objects within a module**, below its root. -/
theorem exists_hasObject_iff (d : Document) (ps : List (String × ZodExpr)) :
    (∃ p ∈ d.zodProperties, ZodExpr.HasObject ps p.2) ↔
      ∃ x, d.Spells x ∧ x.HasProperties d.index ps := by
  rw [zodProperties, Item.zodFieldList_eq_map]
  constructor
  · rintro ⟨p, hp, h⟩
    obtain ⟨y, hy, rfl⟩ := List.mem_map.mp hp
    obtain ⟨x, hx, hps⟩ := (Item.hasObject_zodExpr_iff y).mp (ZodExpr.hasObject_asField_iff.mp h)
    exact ⟨x, ⟨y, hy, hx⟩, hps⟩
  · rintro ⟨x, ⟨y, hy, hx⟩, hps⟩
    refine ⟨y.zodField d.index, List.mem_map_of_mem hy, ?_⟩
    exact ZodExpr.hasObject_asField_iff.mpr ((Item.hasObject_zodExpr_iff y).mpr ⟨x, hx, hps⟩)

/-- **The objects of a module and the records of a model.** A document is built, and its root is a
record that matches the object which the module exports. The other objects of the module are those
of the objects it spells out, and each of these is built into a record that matches it, whatever has
been built before. -/
theorem zodObjects_match_records {settings : BuilderSettings} {root anonymous : String}
    (hs : settings.NameModels root anonymous) (d : Document) :
    (∃ m fields, (d.build settings).value = .ok m ∧ m.shape = .record root .null fields ∧
        Matches d.index anonymous d.fields d.zodProperties fields) ∧
      (∀ ps, (∃ p ∈ d.zodProperties, ZodExpr.HasObject ps p.2) ↔
        ∃ x, d.Spells x ∧ x.HasProperties d.index ps) ∧
      ∀ (x : Item) ps, x.HasProperties d.index ps → ∃ fields,
        (∀ r, ∃ r', Yields (x.build settings) r
          (.record (recordTitle anonymous x.attributes) x.attributes.description fields) r') ∧
        Matches d.index anonymous (x.fields.getD []) ps fields := by
  refine ⟨⟨d.model root anonymous, _, build_value hs d, rfl, ?_⟩, d.exists_hasObject_iff, ?_⟩
  · rw [zodProperties, Item.zodFieldList_eq_map]
    exact matches_recordFields d.index anonymous d.fields
  · rintro x ps ⟨ho, rfl⟩
    refine ⟨_, fun r ↦ ?_, matches_recordFields d.index anonymous _⟩
    rw [← Item.shape_of_object ho.1 ho.2]
    exact ⟨_, x.buildsFaithfully hs.anonymous r⟩

/-- An object with two fields of the same name. -/
def circle : Item :=
  .mk (Item.new "circle" .object "circle").attributes
    (some [
      Item.new "radius" .string "radius", Item.new "centre" .string "centre",
      Item.new "length" .number "radius"]) none

/-- A document with a name that is repeated at its root, and with another one that is repeated
within a union. -/
def twofold : Document where
  fields := [
    Item.new "size" .string "size",
    .mk (Item.new "form" .union "form").attributes none
      (some [Item.new "point" .string "point", circle]),
    Item.new "area" .number "size"]

theorem spells_twofold_circle : twofold.Spells circle := by
  have hopen : ¬ (twofold.fields[1]).IsOpen := by
    rintro ⟨-, hunknown | ⟨-, hfew⟩⟩
    · exact absurd hunknown (by decide)
    · exact absurd hfew (by decide)
  refine ⟨twofold.fields[1], List.getElem_mem _, .part hopen ?_ (.self circle)⟩
  exact List.mem_cons_of_mem _ List.mem_cons_self

theorem zodObjects_match_records_twofold :
    BuilderSettings.NameModels {} "Schema" "Object" ∧
      (∃ m fields, (twofold.build {}).value = .ok m ∧ m.shape = .record "Schema" .null fields ∧
        Matches twofold.index "Object" twofold.fields twofold.zodProperties fields) ∧
      ∃ ps fields, (∃ p ∈ twofold.zodProperties, ZodExpr.HasObject ps p.2) ∧
        ps.map Prod.fst = ["radius", "centre", "radius"] ∧
        (lastFields (circle.fields.getD [])).map Item.id = ["length", "centre"] ∧
        Matches twofold.index "Object" (circle.fields.getD []) ps fields := by
  obtain ⟨hroot, hobjects, hmatches⟩ :=
    zodObjects_match_records BuilderSettings.nameModels_default twofold
  have hproperties : circle.HasProperties twofold.index _ := ⟨⟨rfl, rfl⟩, rfl⟩
  obtain ⟨fields, -, hfields⟩ := hmatches circle _ hproperties
  refine ⟨BuilderSettings.nameModels_default, hroot, _, fields,
    (hobjects _).mpr ⟨circle, spells_twofold_circle, hproperties⟩, rfl, by decide, hfields⟩

/-- **A module can repeat a property** that the model has once. -/
theorem exists_repeated_property :
    ∃ (d : Document) (m : Model) (fields : List (FieldHead × Shape)), (d.build {}).value = .ok m ∧
      m.shape = .record "Schema" .null fields ∧ fields.map (fun f ↦ f.1.name) = ["x"] ∧
      (ZodExpr.readProperties (.ofText "  ".toList) 1 d.zodProperties).map Prod.fst =
        [some "x", some "x"] :=
  ⟨{ fields := [Item.new "a" .string "x", Item.new "b" .number "x"] }, _, _,
    build_value BuilderSettings.nameModels_default _, rfl, by decide, by decide⟩

end Document

end SchemaTree
