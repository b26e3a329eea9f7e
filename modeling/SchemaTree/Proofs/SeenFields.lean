import SchemaTree.Proofs.FieldKeys
import SchemaTree.Proofs.Reimport

/-!
# Fields as an introspector sees them

A record keeps a field under an attribute key, and under an external name beside it. To an
introspector the record shows its fields by name, but a name that counts as false is taken for no
name, and the field is then shown by its key. Only the empty name does. So everything is seen as it
was built unless a field has the empty name (`SeesFields.own_iff`), and then it depends on the
fields behind that one: none of them may be called like its key.

That no field in front is called like the key is what the invariant of keys is for
(`Naming.pairwise_fieldKeys`). So at most two fields are seen under one name, and of these the later
one stands in the place of the field with the empty name, which is lost.
-/

namespace SchemaTree

open Json

/-! ## Fields and their properties -/

/-- What an introspector gets hold of for a field. -/
def seenField (f : FieldHead × Shape) : SchemaView :=
  f.2.view.withDefault f.2.admitsNull f.1.default

/-- A field as it is seen under its own name. -/
def ownProperty (f : FieldHead × Shape) : String × SchemaView := (f.1.name, seenField f)

/-- Fields with different names, none of which has an empty key or is kept under the name of a field
in front of it. -/
structure WellKeyed (fields : List (FieldHead × Shape)) : Prop where
  names : (fields.map fun f ↦ f.1.name).Nodup
  keys : ∀ f ∈ fields, f.1.key ≠ ""
  earlier : fields.Pairwise fun f g ↦ g.1.key ≠ f.1.name

theorem WellKeyed.sublist {fields kept : List (FieldHead × Shape)} (h : WellKeyed fields)
    (hsub : kept.Sublist fields) : WellKeyed kept where
  names := h.names.sublist (hsub.map _)
  keys f hf := h.keys f (hsub.subset hf)
  earlier := h.earlier.sublist hsub

section Fields

variable {before after middle rest : List (FieldHead × Shape)} {e g : FieldHead × Shape}
  {fields : List (FieldHead × Shape)}

theorem fieldViews_of_named (h : ∀ f ∈ fields, f.1.name ≠ "") :
    Shape.fieldViews fields = fields.map ownProperty := by
  rw [fieldViews_eq]
  refine List.map_congr_left fun f hf ↦ ?_
  rw [FieldHead.viewName, if_neg (h f hf)]
  rfl

/-- A field with the empty name is seen under its key, all others under their names. -/
theorem fieldViews_of_unnamed (h : WellKeyed (before ++ e :: after)) (he : e.1.name = "") :
    Shape.fieldViews (before ++ e :: after) =
      before.map ownProperty ++ (e.1.key, seenField e) :: after.map ownProperty := by
  have hnames := h.names
  rw [List.map_append, List.map_cons, he, List.nodup_middle, List.nodup_cons,
    ← List.map_append] at hnames
  have hothers : ∀ f ∈ before ++ after, f.1.name ≠ "" := fun f hf hempty ↦
    hnames.1 (hempty ▸ List.mem_map_of_mem hf)
  have hbefore := fieldViews_of_named fun f hf ↦ hothers f (List.mem_append_left _ hf)
  have hafter := fieldViews_of_named fun f hf ↦ hothers f (List.mem_append_right _ hf)
  rw [fieldViews_eq] at hbefore hafter ⊢
  rw [List.map_append, List.map_cons, hbefore, hafter, FieldHead.viewName, if_pos he]
  rfl

/-- Where a field is seen under its key, no field in front of it is in the way. -/
theorem nodup_seen (h : WellKeyed (before ++ e :: after))
    (hafter : ∀ f ∈ after, f.1.name ≠ e.1.key) :
    (Members.keys
      (before.map ownProperty ++ (e.1.key, seenField e) :: after.map ownProperty)).Nodup := by
  have hkeys : Members.keys
      (before.map ownProperty ++ (e.1.key, seenField e) :: after.map ownProperty) =
        before.map (fun f ↦ f.1.name) ++ e.1.key :: after.map fun f ↦ f.1.name := by
    rw [Members.keys, List.map_append, List.map_cons, List.map_map, List.map_map]
    rfl
  have hnames := h.names
  rw [List.map_append, List.map_cons, List.nodup_middle, List.nodup_cons] at hnames
  rw [hkeys, List.nodup_middle, List.nodup_cons]
  refine ⟨?_, hnames.2⟩
  intro hmem
  rcases List.mem_append.mp hmem with hmem | hmem
  · -- a field in front: its name was taken when the key was given out
    obtain ⟨f, hf, heq⟩ := List.mem_map.mp hmem
    exact (List.pairwise_append.mp h.earlier).2.2 f hf e List.mem_cons_self heq.symm
  · obtain ⟨f, hf, heq⟩ := List.mem_map.mp hmem
    exact hafter f hf heq

/-- **What is seen of a record**: all fields under their names if and only if no name is empty. -/
theorem ofList_fieldViews_eq_iff (h : WellKeyed fields) :
    Members.ofList (Shape.fieldViews fields) = fields.map ownProperty ↔
      ∀ f ∈ fields, f.1.name ≠ "" := by
  constructor
  · intro heq f hf hempty
    have hseen : "" ∈ Members.keys (Shape.fieldViews fields) := by
      rw [← Members.mem_keys_ofList_iff, heq, Members.keys, List.map_map]
      exact List.mem_map.mpr ⟨f, hf, hempty⟩
    -- nothing is seen under the empty name, since no key is empty
    rw [fieldViews_eq, Members.keys, List.map_map] at hseen
    obtain ⟨g, hg, hview⟩ := List.mem_map.mp hseen
    change g.1.viewName = "" at hview
    rw [FieldHead.viewName] at hview
    split at hview
    · exact h.keys g hg hview
    · exact absurd hview ‹_›
  · intro hnamed
    rw [fieldViews_of_named hnamed, Members.ofList_of_nodup]
    rw [Members.keys, List.map_map]
    exact h.names

/-- A field with the empty name is renamed if no field behind it has its key for a name. -/
theorem ofList_fieldViews_renamed (h : WellKeyed (before ++ e :: after)) (he : e.1.name = "")
    (hafter : ∀ f ∈ after, f.1.name ≠ e.1.key) :
    Members.ofList (Shape.fieldViews (before ++ e :: after)) =
      before.map ownProperty ++ (e.1.key, seenField e) :: after.map ownProperty := by
  rw [fieldViews_of_unnamed h he, Members.ofList_of_nodup (nodup_seen h hafter)]

/-- A field with the empty name is lost if a field behind it has its key for a name. -/
theorem ofList_fieldViews_lost (h : WellKeyed (before ++ e :: (middle ++ g :: rest)))
    (he : e.1.name = "") (hg : g.1.name = e.1.key) :
    Members.ofList (Shape.fieldViews (before ++ e :: (middle ++ g :: rest))) =
      before.map ownProperty ++ (e.1.key, seenField g) :: (middle ++ rest).map ownProperty := by
  have hnames := h.names
  have hmove : before ++ e :: (middle ++ g :: rest) =
      (before ++ e :: middle) ++ g :: rest := by simp
  rw [hmove, List.map_append, List.map_cons, List.nodup_middle, List.nodup_cons,
    ← List.map_append] at hnames
  have hothers : ∀ f ∈ middle ++ rest, f.1.name ≠ e.1.key := by
    intro f hf hname
    refine hnames.1 (hg.trans hname.symm ▸ List.mem_map_of_mem ?_)
    simp only [List.mem_append, List.mem_cons] at hf ⊢
    tauto
  have hsub : (before ++ e :: (middle ++ rest)).Sublist (before ++ e :: (middle ++ g :: rest)) := by
    simp
  -- without the later field the key would be seen once, so that field only replaces a view
  have hseen := nodup_seen (h.sublist hsub) hothers
  rw [List.map_append] at hseen
  rw [fieldViews_of_unnamed h he, List.map_append, List.map_cons, ownProperty, hg, List.map_append]
  exact Members.ofList_of_repeated hseen

end Fields

/-! ## Records -/

/-- The fields of a record have different keys and names, and no field has the name of one in front
of it for a key. -/
theorem wellKeyed_recordFields (anonymous : String) (xs : List Item) :
    WellKeyed (recordFields (Item.fieldListShapes anonymous xs)) where
  names := nodup_names_recordFields _
  keys := by
    rw [recordFields_eq, List.forall_mem_map]
    intro m hm hempty
    have hkey := isAttributeName_of_mem_keyedFields hm
    change m.1 = "" at hempty
    rw [hempty] at hkey
    exact absurd hkey (by decide)
  earlier := by
    rw [recordFields_eq, List.pairwise_map]
    exact pairwise_keyedFields xs

/-- How a record with the fields `fields`, made of the fields `xs`, shows them as `properties`. It
has a field for every name, in the order of their first occurrence, made of the last one of that
name. All are seen under their own names exactly if no name is empty. A field with the empty name is
seen under its key, or not at all if a field behind it is called like that key; all others are seen
in any case. -/
structure SeesFields (anonymous : String) (xs : List Item) (fields : List (FieldHead × Shape))
    (properties : List (String × SchemaView)) : Prop where
  record : fields.map (fun f ↦ (f.1.name, f.1.default, f.2)) =
    (lastFields xs).map fun x ↦ (x.name, (x.shape anonymous).asField x.attributes)
  own_iff : properties = fields.map ownProperty ↔ "" ∉ xs.map Item.name
  renamed : ∀ before e after, fields = before ++ e :: after → e.1.name = "" →
    (∀ f ∈ after, f.1.name ≠ e.1.key) →
      properties = before.map ownProperty ++ (e.1.key, seenField e) :: after.map ownProperty
  lost : ∀ before e middle g rest, fields = before ++ e :: (middle ++ g :: rest) → e.1.name = "" →
    g.1.name = e.1.key →
      properties = before.map ownProperty ++
        (e.1.key, seenField g) :: (middle ++ rest).map ownProperty

theorem seesFields_recordFields (anonymous : String) (xs : List Item) :
    SeesFields anonymous xs (recordFields (Item.fieldListShapes anonymous xs))
      (Members.ofList (Shape.fieldViews (recordFields (Item.fieldListShapes anonymous xs)))) := by
  have hkeyed := wellKeyed_recordFields anonymous xs
  have hrecord := map_recordFields_lastFields anonymous xs
  have hnames : (recordFields (Item.fieldListShapes anonymous xs)).map (fun f ↦ f.1.name) =
      (lastFields xs).map Item.name := by
    have hfirst := congrArg (List.map Prod.fst) hrecord
    rwa [List.map_map, List.map_map] at hfirst
  generalize recordFields (Item.fieldListShapes anonymous xs) = fields at hkeyed hrecord hnames ⊢
  refine ⟨hrecord, ?_, ?_, ?_⟩
  · rw [ofList_fieldViews_eq_iff hkeyed, ← mem_map_name_lastFields_iff, ← hnames, List.mem_map]
    simp
  · rintro before e after rfl he hafter
    exact ofList_fieldViews_renamed hkeyed he hafter
  · rintro before e middle g rest rfl he hg
    exact ofList_fieldViews_lost hkeyed he hg

/-! ## Documents -/

namespace Document

/-- **Which fields are seen.** A document is built, and its root is a record that shows the fields
of the document, as far as `SeesFields` says. The same holds of the record that any object is built
into, whatever has been built before. -/
theorem fields_seen {settings : BuilderSettings} {root anonymous : String}
    (hs : settings.NameModels root anonymous) (d : Document) :
    (∃ m fields properties, (d.build settings).value = .ok m ∧
      m.shape = .record root .null fields ∧ m.shape.view.form = .object properties ∧
      SeesFields anonymous d.fields fields properties) ∧
    ∀ x : Item, x.target? = none → x.kind = .object → ∃ shape fields properties,
      (∀ r, ∃ r', Yields (x.build settings) r shape r') ∧
      shape = .record (recordTitle anonymous x.attributes) x.attributes.description fields ∧
      shape.view.form = .object properties ∧
      SeesFields anonymous (x.fields.getD []) fields properties := by
  constructor
  · exact ⟨d.model root anonymous, _, _, build_value hs d, rfl, rfl,
      seesFields_recordFields anonymous d.fields⟩
  · intro x ht ho
    have hshape := @Item.shape_of_object anonymous x ht ho
    refine ⟨x.shape anonymous, _, _, fun r ↦ ⟨_, x.buildsFaithfully hs.anonymous r⟩, hshape, ?_,
      seesFields_recordFields anonymous _⟩
    rw [hshape]
    rfl

/-- An object with a repeated name, one that is not an identifier, and one like a key. -/
def person : Item :=
  .mk (Item.new "person" .object "person").attributes
    (some [
      Item.new "old" .string "first name", Item.new "age" .number "field_0",
      Item.new "new" .string "first name"]) none

/-- A document in which a field has no name yet. -/
def unnamed : Document where
  fields := [Item.new "draft" .string "", person]

theorem fields_seen_unnamed :
    BuilderSettings.NameModels {} "Schema" "Object" ∧
      (∃ m fields properties, (unnamed.build {}).value = .ok m ∧
        m.shape = .record "Schema" .null fields ∧ m.shape.view.form = .object properties ∧
        properties.map Prod.fst = ["field_0", "person"] ∧
        SeesFields "Object" unnamed.fields fields properties) ∧
      ∃ (shape : Shape) (fields : List (FieldHead × Shape)),
        (∀ r, ∃ r', Yields (person.build {}) r shape r') ∧
        shape.view.form = .object (fields.map ownProperty) ∧
        fields.map (fun f ↦ f.1.name) = ["first name", "field_0"] := by
  obtain ⟨⟨m, fields, properties, hm, hrecord, hseen, hsees⟩, hobjects⟩ :=
    fields_seen BuilderSettings.nameModels_default unnamed
  have hproperties : properties.map Prod.fst = ["field_0", "person"] := by
    rw [build_value BuilderSettings.nameModels_default, Except.ok.injEq] at hm
    subst hm
    obtain rfl := SchemaForm.object.inj hseen
    decide
  obtain ⟨shape, inner, properties', hbuilt, -, hform, hinner⟩ := hobjects person rfl rfl
  have hown : properties' = inner.map ownProperty := hinner.own_iff.mpr (by decide)
  have hnames : inner.map (fun f ↦ f.1.name) = ["first name", "field_0"] := by
    have hfirst := congrArg (List.map Prod.fst) hinner.record
    rw [List.map_map, List.map_map] at hfirst
    exact hfirst
  exact ⟨BuilderSettings.nameModels_default,
    ⟨m, fields, properties, hm, hrecord, hseen, hproperties, hsees⟩,
    shape, inner, hbuilt, hown ▸ hform, hnames⟩

/-- **A field can be lost to an introspector** that the record has. -/
theorem exists_unseen_field :
    ∃ (d : Document) (m : Model) (fields : List (FieldHead × Shape)), (d.build {}).value = .ok m ∧
      m.shape = .record "Schema" .null fields ∧
      fields.map (fun f ↦ f.1.name) = ["", "field_0"] ∧
      m.shape.view.form = .object [("field_0", .plain (.scalar .number))] :=
  ⟨{ fields := [Item.new "a" .string "", Item.new "b" .number "field_0"] }, _, _,
    build_value BuilderSettings.nameModels_default _, rfl, by decide, rfl⟩

end Document

end SchemaTree
