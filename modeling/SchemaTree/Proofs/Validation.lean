import SchemaTree.Proofs.Values
import SchemaTree.Proofs.Verdicts

/-!
# Validation decides acceptance

Validation against the model of a guarded document always comes to a verdict, and the verdict is
good exactly if the document accepts the data (`validate_isOk_iff`).

Rules of acceptance, shapes and references go round in circles, so neither the tree nor the value
can carry the induction. It is on the bound of the validation, and inside on the tree. The invariant
is a trail of references: all that were followed since the last step into the data, none of them
twice because the document is guarded. Whenever the data gets smaller a new trail begins, and by
then at least as many references are left as there are items (`decides_item`).
-/

namespace SchemaTree

open Relation Json

variable {items xs : List Item} {anonymous : String} {look : String → Json → Validating Verdict}

/-! ## Positions -/

theorem isSome_fst_asField {a : Attributes} {shape : Shape} :
    (shape.asField a).1.isSome ↔ a.required = false ∨ a.hasDefault = true := by
  rw [Shape.asField]
  cases a.hasDefault <;> cases a.required <;> simp

theorem acceptsHere_iff {x : Item} {v : Json} :
    AcceptsHere items x v ↔
      if x.attributes.isArray then ∃ elements, v = .arr elements ∧ ∀ e ∈ elements, Accepts items x e
      else Accepts items x v := by
  constructor
  · intro h
    cases h with
    | single ha hv =>
      rw [if_neg (by simp [ha])]
      exact hv
    | array ha hv =>
      rw [if_pos ha]
      exact ⟨_, rfl, hv⟩
  · intro h
    split at h
    · rename_i ha
      obtain ⟨elements, rfl, hv⟩ := h
      exact .array ha hv
    · rename_i ha
      exact .single (by simpa using ha) h

/-- What an item decides where it stands: about the data itself, or about the elements of a list. -/
theorem decides_asOption {x : Item} {shape : Shape} {v : Json}
    (hsingle : x.attributes.isArray = false → Decides (shape.validate look v) (Accepts items x v))
    (harray : ∀ elements, v = .arr elements → ∀ e ∈ elements,
      Decides (shape.validate look e) (Accepts items x e)) :
    Decides ((shape.asOption x.attributes).validate look v) (AcceptsHere items x v) := by
  simp only [acceptsHere_iff, Shape.asOption]
  cases ha : x.attributes.isArray with
  | false => simpa using hsingle ha
  | true => simpa using decides_list harray

/-! ## Fields -/

/-- A present member agrees with a field if it is null for a field that is not required. -/
def AcceptsPresent (items : List Item) (f : Item) (v : Json) : Prop :=
  f.attributes.required = false ∧ v = .null ∨ AcceptsHere items f v

theorem decides_asField {f : Item} {shape : Shape} {v : Json}
    (h : ∀ w, w.depth ≤ v.depth → Decides (shape.validate look w) (Accepts items f w)) :
    Decides ((shape.asField f.attributes).2.validate look v) (AcceptsPresent items f v) := by
  have hhere : Decides ((shape.asOption f.attributes).validate look v) (AcceptsHere items f v) := by
    refine decides_asOption (fun _ ↦ h v le_rfl) fun elements hv e he ↦ h e ?_
    rw [hv]
    exact (depth_lt_of_mem he).le
  rw [snd_asField, AcceptsPresent]
  cases f.attributes.required with
  | true => simpa using hhere
  | false => simpa using decides_optional fun _ ↦ hhere

theorem acceptsMember_iff {f : Item} (shape : Shape) {head : FieldHead} {present : Option Json}
    (hdefault : head.default = (shape.asField f.attributes).1) :
    AcceptsMember items f present ↔ head.Agrees (AcceptsPresent items f) present := by
  cases present with
  | none =>
    rw [FieldHead.Agrees, hdefault, isSome_fst_asField]
    refine ⟨fun h ↦ ?_, .absent⟩
    cases h with
    | absent h => exact h
  | some v =>
    rw [FieldHead.Agrees, AcceptsPresent]
    constructor
    · intro h
      cases h with
      | null hr => exact .inl ⟨hr, rfl⟩
      | value hv => exact .inr hv
    · rintro (⟨hr, rfl⟩ | hv)
      · exact .null hr
      · exact .value hv

/-- The fields of the record of an object are made of the last fields of each name. -/
theorem mem_ofList_fieldListShapes_iff {m : String × Option Json × Shape} :
    m ∈ Members.ofList (Item.fieldListShapes anonymous xs) ↔
      ∃ f : Item, f.LastIn xs ∧ (f.name, (f.shape anonymous).asField f.attributes) = m := by
  obtain ⟨name, value⟩ := m
  rw [Members.mem_ofList_iff, Members.find?_reverse_eq_some_iff, Item.fieldListShapes_eq]
  constructor
  · rintro ⟨before, after, happend, hafter⟩
    obtain ⟨ys, zs, rfl, rfl, hzs⟩ := List.map_eq_append_iff.mp happend
    obtain ⟨f, zs', rfl, hf, rfl⟩ := List.map_eq_cons_iff.mp hzs
    refine ⟨f, ⟨ys, zs', rfl, fun y hy hname ↦ hafter ?_⟩, hf⟩
    rw [← (Prod.mk.inj hf).1, ← hname]
    simpa [Members.keys] using ⟨y, hy, rfl⟩
  · rintro ⟨f, ⟨before, after, rfl, hafter⟩, hf⟩
    obtain ⟨rfl, rfl⟩ := Prod.mk.inj hf
    refine ⟨_, _, by rw [List.map_append, List.map_cons], ?_⟩
    simpa [Members.keys] using hafter

/-- A field of the record of an object is made of an item. -/
theorem mem_recordFields_iff {name : String} {default : Option Json} {shape : Shape} :
    (∃ key, (⟨key, name, default⟩, shape) ∈ recordFields (Item.fieldListShapes anonymous xs)) ↔
      ∃ f : Item, f.LastIn xs ∧
        (f.name, (f.shape anonymous).asField f.attributes) = (name, default, shape) := by
  rw [← mem_ofList_fieldListShapes_iff, ← map_recordFields, List.mem_map]
  constructor
  · rintro ⟨key, hkey⟩
    exact ⟨_, hkey, rfl⟩
  · rintro ⟨⟨⟨key, _, _⟩, _⟩, hf, heq⟩
    cases heq
    exact ⟨key, hf⟩

/-- What a field of the record of an object accepts: what the item that it is made of does. -/
def AcceptsField (items xs : List Item) (p : FieldHead × Shape) (v : Json) : Prop :=
  ∃ f : Item, f.LastIn xs ∧ f.name = p.1.name ∧ AcceptsPresent items f v

theorem acceptsField_eq {f : Item} {p : FieldHead × Shape} (hlast : f.LastIn xs)
    (hname : f.name = p.1.name) : AcceptsField items xs p = AcceptsPresent items f := by
  funext v
  refine propext ⟨?_, fun hv ↦ ⟨f, hlast, hname, hv⟩⟩
  rintro ⟨g, hg, hgname, hv⟩
  exact hg.unique hlast (hgname.trans hname.symm) ▸ hv

/-- The fields of the record of an object agree with members exactly if the items do. -/
theorem agrees_recordFields_iff {members : List (String × Json)} :
    (∀ p ∈ recordFields (Item.fieldListShapes anonymous xs),
        p.1.Agrees (AcceptsField items xs p) (Members.find? p.1.name members)) ↔
      ∀ f : Item, f.LastIn xs → AcceptsMember items f (Members.find? f.name members) := by
  constructor
  · intro hagrees f hlast
    obtain ⟨key, hmem⟩ := mem_recordFields_iff.mpr ⟨f, hlast, rfl⟩
    have hf := hagrees _ hmem
    rw [acceptsField_eq hlast rfl] at hf
    exact (acceptsMember_iff (f.shape anonymous) rfl).mpr hf
  · intro haccepts p hp
    obtain ⟨f, hlast, hf⟩ := mem_recordFields_iff.mp ⟨p.1.key, hp⟩
    obtain ⟨hname, hf⟩ := Prod.mk.inj hf
    rw [acceptsField_eq hlast hname, ← hname]
    exact (acceptsMember_iff (f.shape anonymous) (Prod.mk.inj hf).1.symm).mp (haccepts f hlast)

/-- The record of an object asks each of its fields about a member. -/
theorem decides_fields {name : String} {documentation v : Json}
    (h : ∀ f ∈ xs, ∀ w, w.depth < v.depth →
      Decides ((f.shape anonymous).validate look w) (Accepts items f w)) :
    Decides ((Shape.record name documentation
        (recordFields (Item.fieldListShapes anonymous xs))).validate look v)
      (∃ members, v = .obj members ∧ ∀ f : Item, f.LastIn xs →
        AcceptsMember items f (Members.find? f.name members)) := by
  have hrecord : Decides ((Shape.record name documentation
      (recordFields (Item.fieldListShapes anonymous xs))).validate look v)
      (∃ members, v = .obj members ∧ ∀ p ∈ recordFields (Item.fieldListShapes anonymous xs),
        p.1.Agrees (AcceptsField items xs p) (Members.find? p.1.name members)) := by
    refine decides_record fun members hv p hp w hw ↦ ?_
    obtain ⟨f, hlast, hf⟩ := mem_recordFields_iff.mp ⟨p.1.key, hp⟩
    obtain ⟨hname, hf⟩ := Prod.mk.inj hf
    rw [acceptsField_eq hlast hname, ← (Prod.mk.inj hf).2]
    refine decides_asField fun u hu ↦ h f hlast.mem u (hu.trans_lt ?_)
    rw [hv]
    exact depth_lt_of_mem_members (Members.mem_of_find?_eq_some hw)
  exact hrecord.of_iff (exists_congr fun _ ↦ and_congr_right fun _ ↦ agrees_recordFields_iff)

/-! ## Items -/

theorem decides_leaf {x : Item} {v : Json} (ht : x.target? = none) (ho : x.kind ≠ .object)
    (hu : x.kind ≠ .union) :
    Decides (x.attributes.leafShape.validate look v) (Accepts items x v) := by
  cases Kind.isLeaf ho hu with
  | scalar hk =>
    rw [Attributes.leafShape_of_scalarType hk, Shape.validate]
    exact .pure (isOk_checkScalar_iff.trans (accepts_iff_of_scalarType ht hk).symm)
  | literal hk =>
    rw [Attributes.leafShape_of_literal hk, Shape.validate]
    exact .pure (isOk_checkLiteral_iff.trans (accepts_iff_of_literal ht hk).symm)
  | unknown hk =>
    rw [Attributes.leafShape_of_unknown hk]
    exact decides_anything.of_iff (iff_of_true trivial (.unknown ht hk))

/-- **What an item decides**, when its parts do about smaller data, the options of a union that are
no arrays about the same data, and references. -/
theorem decides_item_of_parts {x : Item} {v : Json}
    (href : ∀ id, x.target? = some id → Decides (look id v)
      ((∃ y, LeadsTo items id y ∧ Accepts items y v) ∨ Astray items id))
    (hhere : ∀ y ∈ x.parts, ShortStep items x y →
      Decides ((y.shape anonymous).validate look v) (Accepts items y v))
    (hinside : ∀ y ∈ x.parts, ∀ w, w.depth < v.depth →
      Decides ((y.shape anonymous).validate look w) (Accepts items y w)) :
    Decides ((x.shape anonymous).validate look v) (Accepts items x v) := by
  cases x.role with
  | reference ht =>
    rw [Item.shape_of_target ht, Shape.validate]
    exact (href _ ht).of_iff (accepts_iff_of_target ht).symm
  | object ht hk =>
    rw [Item.parts_of_object ht hk] at hinside
    rw [Item.shape_of_object ht hk]
    exact (decides_fields hinside).of_iff (accepts_iff_of_object ht hk).symm
  | union ht hk =>
    rw [Item.parts_of_union ht hk] at hhere hinside
    rw [Item.shape_of_union ht hk, validate_describedBy, Shape.ofOptions,
      Item.optionListShapes_eq, List.length_map]
    refine Decides.of_iff ?_ (accepts_iff_of_union ht hk).symm
    split
    · rename_i hlen
      exact decides_anything.of_iff (by simp [hlen])
    · rename_i hlen
      refine (decides_union fun y hy ↦ ?_).of_iff (or_iff_right hlen).symm
      -- an option sees the data of the union, unless it is an array
      refine decides_asOption (fun ha ↦ hhere y hy (.option ht hk hy ha)) ?_
      rintro elements rfl e he
      exact hinside y hy e (depth_lt_of_mem he)
  | leaf ht ho hu =>
    rw [Item.shape_of_leaf ht ho hu, validate_describedBy]
    exact decides_leaf ht ho hu

/-! ## References -/

variable {d : Document} {x : Item} {v : Json} {bound : Nat} {seen : List Item}

/-- **Following a reference** decides what the item at its end decides with one reference less. -/
theorem decides_follow (hids : (d.built.map Item.id).Nodup) {id : String}
    (h : ∀ y, LeadsTo d.built id y →
      Decides ((y.shape anonymous).validate ((d.registry anonymous).follow bound) v)
        (Accepts d.built y v)) :
    Decides ((d.registry anonymous).follow (bound + 1) id v)
      ((∃ y, LeadsTo d.built id y ∧ Accepts d.built y v) ∨ Astray d.built id) := by
  rw [Registry.follow]
  have hlookup : Validating.Ends _ _ := .lift ((d.registry anonymous).lookup id)
  cases hvalue : ((d.registry anonymous).lookup id).value with
  | none =>
    rw [hvalue] at hlookup
    have hastray := (astray_iff hids).mpr ((Document.lookup_value_eq_none_iff hids).mp hvalue)
    exact ⟨_, hlookup.bind (.bind (.report _) (.pure _)), by simp [hastray]⟩
  | some shape =>
    rw [hvalue] at hlookup
    obtain ⟨y, hy, rfl⟩ := (Document.lookup_value_eq_some_iff hids).mp hvalue
    obtain ⟨r, hr, hp⟩ := h y hy
    refine ⟨_, hlookup.bind (hr.bind (.pure _)), ?_⟩
    have hnot : ¬ Astray d.built id := fun hastray ↦ (astray_iff hids).mp hastray ⟨y, hy⟩
    rw [Checked.isOk_map, hp, or_iff_left hnot]
    refine ⟨fun hv ↦ ⟨y, hy, hv⟩, ?_⟩
    rintro ⟨z, hz, hv⟩
    exact LeadsTo.unique hids hz hy ▸ hv

/-- The bound suffices for a value at the end of a trail of references. -/
def Affords (items : List Item) (bound : Nat) (seen : List Item) (v : Json) : Prop :=
  v.depth * (items.length + 1) + items.length ≤ bound + seen.length

/-- Where the data gets smaller, a new trail begins. -/
theorem Affords.inside {R : Item → Item → Prop} (h : Affords items bound seen v)
    (htrail : Trail R items seen x) {w : Json} (hw : w.depth < v.depth) :
    Affords items bound [] w := by
  have hseen := htrail.length_le
  have hdepth := Nat.mul_le_mul_right (items.length + 1) (Nat.succ_le_of_lt hw)
  rw [Nat.succ_mul] at hdepth
  rw [Affords] at h ⊢
  rw [List.length_nil]
  omega

/-- What an item decides if following references from the trail does. -/
theorem decides_item_of_follow
    (hfollow : ∀ x ∈ d.built, ∀ id v seen, x.target? = some id →
      Trail (ShortStep d.built) d.built seen x → Affords d.built bound seen v →
      Decides ((d.registry anonymous).follow bound id v)
        ((∃ y, LeadsTo d.built id y ∧ Accepts d.built y v) ∨ Astray d.built id))
    (hx : x ∈ d.built) (htrail : Trail (ShortStep d.built) d.built seen x)
    (hv : Affords d.built bound seen v) :
    Decides ((x.shape anonymous).validate ((d.registry anonymous).follow bound) v)
      (Accepts d.built x v) := by
  induction x using Item.partsInduction generalizing seen v with
  | step x ih =>
    have hpart {y : Item} (hy : y ∈ x.parts) : y ∈ d.built := Document.mem_built_of_mem_parts hx hy
    refine decides_item_of_parts ?_ ?_ ?_
    · exact fun id ht ↦ hfollow x hx id v seen ht htrail hv
    · exact fun y hy hstep ↦ ih y hy (hpart hy) (htrail.step hstep) hv
    · exact fun y hy w hw ↦ ih y hy (hpart hy) (Trail.nil y) (hv.inside htrail hw)

/-- **Validation decides acceptance**, item by item. In a guarded document no item is on its own
trail, so a trail is never longer than there are items and the bound is not used up. -/
theorem decides_item (hd : d.Guarded) (hx : x ∈ d.built)
    (htrail : Trail (ShortStep d.built) d.built seen x) (hv : Affords d.built bound seen v) :
    Decides ((x.shape anonymous).validate ((d.registry anonymous).follow bound) v)
      (Accepts d.built x v) := by
  have hseen {x : Item} {seen : List Item} (hx : x ∈ d.built)
      (htrail : Trail (ShortStep d.built) d.built seen x) : x ∉ seen :=
    fun h ↦ hd.acyclic x hx (htrail.cycle h)
  induction bound generalizing x seen v with
  | zero =>
    -- with no references left, all items are on the trail, and so is `x`
    refine decides_item_of_follow (fun x hx id v seen _ htrail hv ↦ ?_) hx htrail hv
    have hlt := htrail.length_lt hx (hseen hx htrail)
    rw [Affords] at hv
    omega
  | succ bound ih =>
    refine decides_item_of_follow (fun x hx id v seen ht htrail hv ↦ ?_) hx htrail hv
    refine decides_follow hd.nodup_built fun y hy ↦ ?_
    -- a reference is followed at the cost of one, and the trail gets longer by one
    have hstep : ShortStep d.built x y := .reference ht hy
    refine ih hy.2.1 (htrail.cons hx (hseen hx htrail) (.single hstep)) ?_
    rw [Affords] at hv ⊢
    rw [List.length_cons]
    omega

/-! ## Models -/

/-- There is an entry for every item that is built. -/
theorem built_length_le_entries (hids : (d.built.map Item.id).Nodup) :
    d.built.length ≤ (d.registry anonymous).entries.length := by
  have hsub : d.built.map Item.id ⊆ Members.keys (d.registry anonymous).entries := by
    intro id hid
    obtain ⟨x, hx, rfl⟩ := List.mem_map.mp hid
    rw [← Members.isSome_find?_iff, Document.entry_registry, Option.isSome_map,
      (named_eq_some_iff hids).mpr ⟨hx, rfl⟩]
    rfl
  simpa [Members.keys] using (List.subperm_of_subset hids hsub).length_le

/-- The bound of the validation of a value suffices for whatever is in the value. -/
theorem affords_bound (hids : (d.built.map Item.id).Nodup) {w : Json} (hw : w.depth < v.depth) :
    Affords d.built ((d.registry anonymous).bound v) [] w := by
  have hentries : d.built.length ≤ (d.registry anonymous).entries.length :=
    built_length_le_entries hids
  have hmul : (w.depth + 1) * (d.built.length + 1) ≤
      (v.depth + 1) * ((d.registry anonymous).entries.length + 1) :=
    Nat.mul_le_mul (by omega) (by omega)
  rw [Nat.succ_mul] at hmul
  rw [Affords, Registry.bound, List.length_nil]
  omega

theorem Model.value_validate (m : Model) (v : Json) :
    (m.validate v).value =
      (m.shape.validate (m.registry.follow (m.registry.bound v)) v).run.value.map
        (·.map Accepted.datum) := rfl

/-- The model of a guarded document decides what the document accepts. -/
theorem decides_model (hd : d.Guarded) (root : String) (v : Json) :
    Decides ((d.model root anonymous).shape.validate
      ((d.registry anonymous).follow ((d.registry anonymous).bound v)) v) (d.Accepts v) :=
  decides_fields fun f hf _ hw ↦ decides_item hd (Document.mem_built_of_mem_fields hf)
    (Trail.nil f) (affords_bound hd.nodup_built hw)

/-- **Validation decides acceptance.** The model of a guarded document comes to a verdict on all
data, and the verdict is good exactly if the document accepts the data. -/
theorem validate_isOk_iff {settings : BuilderSettings} {root : String}
    (hs : settings.NameModels root anonymous) (hd : d.Guarded) :
    ∃ m, (d.build settings).value = .ok m ∧ ∀ v, ∃ verdict,
      (m.validate v).value = some verdict ∧ (verdict.isOk ↔ d.Accepts v) := by
  refine ⟨d.model root anonymous, Document.build_value hs d, fun v ↦ ?_⟩
  obtain ⟨r, hr, hp⟩ := decides_model hd root v
  refine ⟨r.map Accepted.datum, ?_, by rw [Checked.isOk_map, hp]⟩
  rw [Model.value_validate]
  exact congrArg (Option.map _) hr

/-- A list of numbers: each is followed by a list or by the empty text. -/
def Document.chained : Document where
  fields := [
    .mk (Item.new "list" .object "list").attributes (some [
      Item.new "head" .number "head",
      .mk (Item.new "rest" .union "rest").attributes none
        (some [.referring "more" "list", Item.new "end" .literal "end"])]) none]

theorem Document.guarded_chained : Document.chained.Guarded :=
  guarded_of_flat (by decide) (by decide) (by decide)

/-- The list of one number that goes on with some data. -/
def chainedData (rest : List (String × Json)) : Json :=
  .obj [("list", .obj (("head", .int 1) :: rest))]

/-- A list may end or go on with another list, but not break off. -/
theorem validate_isOk_iff_chained :
    Document.chained.Guarded ∧
      Document.chained.Accepts
        (chainedData [("rest", .obj [("head", .int 2), ("rest", .str "")])]) ∧
      ¬ Document.chained.Accepts (chainedData []) := by
  obtain ⟨m, hm, h⟩ := validate_isOk_iff BuilderSettings.nameModels_default
    Document.guarded_chained
  rw [Document.build_value BuilderSettings.nameModels_default] at hm
  obtain rfl := Except.ok.inj hm
  refine ⟨Document.guarded_chained, ?_, ?_⟩
  · obtain ⟨verdict, hverdict, haccepts⟩ :=
      h (chainedData [("rest", .obj [("head", .int 2), ("rest", .str "")])])
    rw [← haccepts, ← Option.some_inj.mp hverdict]
    rfl
  · obtain ⟨verdict, hverdict, haccepts⟩ := h (chainedData [])
    rw [← haccepts, ← Option.some_inj.mp hverdict]
    exact Bool.false_ne_true

end SchemaTree
