import SchemaTree.Proofs.Resubmission
import SchemaTree.Proofs.Validation

/-!
# What is accepted is accepted again

The value that is printed for validated data hardly ever is the value that was validated: members
that no field asks for are gone, missing ones are there as null or as the default, whole numbers are
binary64, and moments are written out. A guarded document accepts it all the same
(`validate_printed_isOk`), if its defaults are accepted and its literals are steady.

What an item makes can be submitted to the item again (`makes_item`), by the same two inductions by
which validation decides acceptance: on the bound of the validation, and inside on the tree. A
default is not validated, so what is written for it is accepted only because the default itself is.

A literal that is a whole number between two binary64 is not steady, and may be printed as a number
that it does not accept (`Document.exists_rejected_output`): a union prints data as those of the
first option that they fit, which need not be the one that accepted them.
-/

namespace SchemaTree

open Json

variable {d : Document} {x f : Item} {v : Json} {anonymous : String} {shape : Shape}
  {look : String → Json → Validating Verdict}

/-! ## Positions -/

section Positions

variable {items : List Item}

theorem makes_asOption (h : ∀ w, Makes (shape.validate look w) fun a ↦
      a.datum.Resubmits (Accepts items x) shape) :
    Makes ((shape.asOption x.attributes).validate look v) fun a ↦
      a.datum.Resubmits (AcceptsHere items x) (shape.asOption x.attributes) := by
  rw [Shape.asOption]
  cases ha : x.attributes.isArray with
  | false =>
    rw [if_neg Bool.false_ne_true]
    exact (h v).mono fun a hmade ↦ hmade.mono fun w hw ↦ .single ha hw
  | true =>
    rw [if_pos rfl]
    refine (makes_list fun _ _ e _ ↦ h e).mono fun a hmade ↦ hmade.mono ?_
    rintro w ⟨elements, rfl, helements⟩
    exact .array ha helements

theorem makes_asField (h : ∀ w, Makes (shape.validate look w) fun a ↦
      a.datum.Resubmits (Accepts items f) shape) :
    Makes ((shape.asField f.attributes).2.validate look v) fun a ↦
      a.datum.Resubmits (AcceptsPresent items f) (shape.asField f.attributes).2 := by
  rw [snd_asField]
  cases hr : f.attributes.required with
  | true =>
    rw [if_pos rfl]
    exact (makes_asOption h).mono fun a hmade ↦ hmade.mono fun w hw ↦ .inr hw
  | false =>
    rw [if_neg Bool.false_ne_true]
    refine (makes_optional fun _ ↦ makes_asOption h).mono fun a hmade ↦ hmade.mono fun w hw ↦ ?_
    exact hw.imp_left fun hnull ↦ ⟨hr, hnull⟩

end Positions

/-! ## Defaults -/

/-- Where a number is asked for, no accepted value is a flag. -/
theorem sparesFlags_of_accepts {items : List Item} (h : Accepts items x v) :
    (x.shape anonymous).SparesFlags (.ofJson v) := by
  cases x.role with
  | reference ht =>
    rw [Item.shape_of_target ht]
    trivial
  | object ht hk =>
    rw [Item.shape_of_object ht hk]
    trivial
  | union ht hk =>
    rw [Item.shape_of_union ht hk, sparesFlags_describedBy, Shape.ofOptions]
    split <;> trivial
  | leaf ht ho hu =>
    rw [Item.shape_of_leaf ht ho hu, sparesFlags_describedBy]
    cases Kind.isLeaf ho hu with
    | scalar hk =>
      rw [Attributes.leafShape_of_scalarType hk]
      cases (accepts_iff_of_scalarType ht hk).mp h <;> trivial
    | literal hk =>
      rw [Attributes.leafShape_of_literal hk]
      trivial
    | unknown hk =>
      rw [Attributes.leafShape_of_unknown hk]
      trivial

theorem sparesFlags_of_acceptsHere {items : List Item} (h : AcceptsHere items x v) :
    ((x.shape anonymous).asOption x.attributes).SparesFlags (.ofJson v) := by
  cases h with
  | single ha h =>
    rw [Shape.asOption, ha]
    exact sparesFlags_of_accepts h
  | array ha h =>
    rw [Shape.asOption, ha, Datum.ofJson, Datum.ofList_eq_map]
    intro e he
    obtain ⟨w, hw, rfl⟩ := List.mem_map.mp he
    exact sparesFlags_of_accepts (h w hw)

/-- **A default** that is accepted can be submitted. -/
theorem resubmits_ofJson (hd : d.Steady) (hf : f ∈ d.built) (h : AcceptsPresent d.built f v) :
    (Datum.ofJson v).Resubmits (AcceptsPresent d.built f)
      ((f.shape anonymous).asField f.attributes).2 := by
  rcases h with ⟨hr, rfl⟩ | h
  · exact Datum.resubmits_null (.inl ⟨hr, rfl⟩) _
  · refine ⟨Datum.coherent_ofJson v, ?_, fun w hw ↦ .inr ?_⟩
    · have hspares : ((f.shape anonymous).asOption f.attributes).SparesFlags (.ofJson v) :=
        sparesFlags_of_acceptsHere h
      rw [snd_asField]
      split
      · exact hspares
      · exact hspares
    · exact h.of_varies hd hf (Datum.varies_of_writes_ofJson hw)

/-- A field of the root or of an object that is built. Of several with one name only the last one
is a field. -/
inductive Document.HasField (d : Document) : Item → Prop where
  | root {f : Item} (hf : f.LastIn d.fields) : HasField d f
  | object {x f : Item} (hx : x ∈ d.built) (ht : x.target? = none) (hk : x.kind = .object)
      (hf : f.LastIn (x.fields.getD [])) : HasField d f

/-- The default of a field is accepted by the field. -/
def Document.DefaultsAccepted (d : Document) : Prop :=
  ∀ f, d.HasField f → f.attributes.hasDefault →
    AcceptsPresent d.built f f.attributes.defaultValue

theorem Document.HasField.mem_built (h : d.HasField f) : f ∈ d.built := by
  cases h with
  | root hf => exact mem_built_of_mem_fields hf.mem
  | object hx ht hk hf => exact mem_built_of_mem_parts hx (Item.parts_of_object ht hk ▸ hf.mem)

/-- Defaults are accepted if only fields with a scalar type have some and the types admit them. -/
theorem Document.defaultsAccepted_of_scalars (h : ∀ f ∈ d.built, f.attributes.hasDefault →
      f.target? = none ∧ f.attributes.isArray = false ∧
        ∃ type ∈ f.kind.scalarType?, (checkScalar type f.attributes.defaultValue).isOk) :
    d.DefaultsAccepted := by
  intro f hf hhas
  obtain ⟨ht, ha, type, hk, hok⟩ := h f hf.mem_built hhas
  exact .inr (.single ha (.scalar ht hk (isOk_checkScalar_iff.mp hok)))

/-! ## Objects -/

/-- What a field holds where there is no member of its name is accepted by the field. -/
theorem acceptsPresent_of_default (shape : Shape) (hdefault : f.attributes.hasDefault →
      AcceptsPresent d.built f f.attributes.defaultValue)
    (hv : (shape.asField f.attributes).1 = some v) : AcceptsPresent d.built f v := by
  rw [Shape.asField] at hv
  cases hhas : f.attributes.hasDefault with
  | true =>
    rw [hhas] at hv
    obtain rfl := Option.some_inj.mp hv
    exact hdefault hhas
  | false =>
    rw [hhas] at hv
    cases hr : f.attributes.required with
    | true =>
      rw [hr] at hv
      cases hv
    | false =>
      rw [hr] at hv
      obtain rfl := Option.some_inj.mp hv
      exact .inl ⟨hr, rfl⟩

/-- **An object** can be submitted again if the data of its fields can, and its defaults can. -/
theorem makes_fields {xs : List Item} (hd : d.Steady) (hxs : ∀ f ∈ xs, f ∈ d.built)
    (hdefault : ∀ f : Item, f.LastIn xs → f.attributes.hasDefault →
      AcceptsPresent d.built f f.attributes.defaultValue)
    (h : ∀ f ∈ xs, ∀ w, Makes ((f.shape anonymous).validate look w) fun a ↦
      a.datum.Resubmits (Accepts d.built f) (f.shape anonymous))
    {name : String} {documentation : Json} :
    Makes ((Shape.record name documentation
        (recordFields (Item.fieldListShapes anonymous xs))).validate look v) fun a ↦
      a.datum.Resubmits (fun w ↦ ∃ members, w = .obj members ∧ ∀ f : Item, f.LastIn xs →
        AcceptsMember d.built f (Members.find? f.name members))
        (.record name documentation (recordFields (Item.fieldListShapes anonymous xs))) := by
  -- a field of the record is made of the last item of its name, and accepts what that accepts
  have hmade : ∀ p ∈ recordFields (Item.fieldListShapes anonymous xs), ∀ w,
      Makes (p.2.validate look w) fun a ↦ a.datum.Resubmits (AcceptsField d.built xs p) p.2 := by
    intro p hp w
    obtain ⟨f, hlast, hf⟩ := mem_recordFields_iff.mp ⟨p.1.key, hp⟩
    obtain ⟨hname, hf⟩ := Prod.mk.inj hf
    rw [acceptsField_eq hlast hname, ← (Prod.mk.inj hf).2]
    exact makes_asField (h f hlast.mem)
  have hheld : ∀ p ∈ recordFields (Item.fieldListShapes anonymous xs), ∀ w,
      p.1.default = some w → (Datum.ofJson w).Resubmits (AcceptsField d.built xs p) p.2 := by
    intro p hp w hw
    obtain ⟨f, hlast, hf⟩ := mem_recordFields_iff.mp ⟨p.1.key, hp⟩
    obtain ⟨hname, hf⟩ := Prod.mk.inj hf
    rw [acceptsField_eq hlast hname, ← (Prod.mk.inj hf).2]
    refine resubmits_ofJson hd (hxs f hlast.mem) ?_
    exact acceptsPresent_of_default (f.shape anonymous) (hdefault f hlast)
      ((Prod.mk.inj hf).1.trans hw)
  refine (makes_record (nodup_names_recordFields _) (fun _ _ p hp w _ ↦ hmade p hp w) hheld).mono ?_
  refine fun a ha ↦ ha.mono ?_
  rintro w ⟨members, rfl, hagrees⟩
  exact ⟨members, rfl, agrees_recordFields_iff.mp hagrees⟩

/-! ## Items -/

theorem makes_leaf (hd : d.Steady) (hx : x ∈ d.built) (ht : x.target? = none)
    (ho : x.kind ≠ .object) (hu : x.kind ≠ .union) :
    Makes (x.attributes.leafShape.validate look v) fun a ↦
      a.datum.Resubmits (Accepts d.built x) x.attributes.leafShape := by
  cases Kind.isLeaf ho hu with
  | scalar hk =>
    rw [Attributes.leafShape_of_scalarType hk, Shape.validate]
    refine .pure fun a ha ↦ (resubmits_of_checkScalar ha).mono fun w hw ↦ ?_
    exact (accepts_iff_of_scalarType ht hk).mpr hw
  | literal hk =>
    rw [Attributes.leafShape_of_literal hk, Shape.validate]
    refine .pure fun a ha ↦ (resubmits_of_checkLiteral (hd x hx ht hk) ha).mono fun w hw ↦ ?_
    exact (accepts_iff_of_literal ht hk).mpr hw
  | unknown hk =>
    rw [Attributes.leafShape_of_unknown hk]
    exact makes_anything fun w ↦ .unknown ht hk

/-- **What an item makes** of data that it accepts can be submitted to it again, if that holds of
its parts and of references. -/
theorem makes_item_of_parts (hd : d.Steady) (hdefaults : d.DefaultsAccepted) (hx : x ∈ d.built)
    (href : ∀ id, x.target? = some id → Makes (look id v) fun a ↦
      a.datum.Resubmits (Accepts d.built x) (.reference id))
    (hparts : ∀ y ∈ x.parts, ∀ w, Makes ((y.shape anonymous).validate look w) fun a ↦
      a.datum.Resubmits (Accepts d.built y) (y.shape anonymous)) :
    Makes ((x.shape anonymous).validate look v) fun a ↦
      a.datum.Resubmits (Accepts d.built x) (x.shape anonymous) := by
  have hbuilt : ∀ y ∈ x.parts, y ∈ d.built := fun y hy ↦ Document.mem_built_of_mem_parts hx hy
  cases x.role with
  | reference ht =>
    rw [Item.shape_of_target ht, Shape.validate]
    exact href _ ht
  | object ht hk =>
    rw [Item.parts_of_object ht hk] at hparts hbuilt
    rw [Item.shape_of_object ht hk]
    have hdefault := fun f hf ↦ hdefaults f (.object hx ht hk hf)
    refine (makes_fields hd hbuilt hdefault hparts).mono fun a ha ↦ ha.mono fun w hw ↦ ?_
    exact (accepts_iff_of_object ht hk).mpr hw
  | union ht hk =>
    rw [Item.parts_of_union ht hk] at hparts
    rw [Item.shape_of_union ht hk]
    refine makes_describedBy ?_
    rw [Shape.ofOptions, Item.optionListShapes_eq, List.length_map]
    split
    · rename_i hlen
      exact makes_anything fun w ↦ .smallUnion ht hk hlen
    · refine (makes_union fun y hy ↦ makes_asOption (hparts y hy)).mono fun a ha ↦ ha.mono ?_
      intro w hw
      exact (accepts_iff_of_union ht hk).mpr (.inr hw)
  | leaf ht ho hu =>
    rw [Item.shape_of_leaf ht ho hu]
    exact makes_describedBy (makes_leaf hd hx ht ho hu)

/-- **Following a reference** makes what the item at its end makes. -/
theorem makes_follow (hids : (d.built.map Item.id).Nodup) {bound : Nat} {id : String}
    (ht : x.target? = some id)
    (h : ∀ y, LeadsTo d.built id y →
      Makes ((y.shape anonymous).validate ((d.registry anonymous).follow bound) v) fun a ↦
        a.datum.Resubmits (Accepts d.built y) (y.shape anonymous)) :
    Makes ((d.registry anonymous).follow (bound + 1) id v) fun a ↦
      a.datum.Resubmits (Accepts d.built x) (.reference id) := by
  intro a ha
  rw [Registry.follow] at ha
  obtain ⟨target, htarget, ha⟩ := ha.of_bind
  obtain rfl : ((d.registry anonymous).lookup id).value = target := Option.some_inj.mp htarget
  cases hvalue : ((d.registry anonymous).lookup id).value with
  | none =>
    -- the reference leads nowhere, and accepts whatever is written
    rw [hvalue] at ha
    obtain ⟨-, -, ha⟩ := ha.of_bind
    obtain rfl := Except.ok.inj ha.of_pure
    have hastray := (astray_iff hids).mpr ((Document.lookup_value_eq_none_iff hids).mp hvalue)
    exact ⟨Datum.coherent_ofJson v, trivial, fun w _ ↦ .astray ht hastray⟩
  | some shape =>
    rw [hvalue] at ha
    obtain ⟨y, hy, rfl⟩ := (Document.lookup_value_eq_some_iff hids).mp hvalue
    obtain ⟨verdict, hverdict, ha⟩ := ha.of_bind
    obtain ⟨b, rfl, rfl⟩ := exists_of_map_eq_ok ha.of_pure
    have hb := h y hy b hverdict
    exact ⟨hb.coherent, trivial, fun w hw ↦ .reference ht hy (hb.accepted w hw)⟩

/-- What an item makes if following references does. -/
theorem makes_item_of_follow (hd : d.Steady) (hdefaults : d.DefaultsAccepted) {bound : Nat}
    (hfollow : ∀ x ∈ d.built, ∀ id v, x.target? = some id →
      Makes ((d.registry anonymous).follow bound id v) fun a ↦
        a.datum.Resubmits (Accepts d.built x) (.reference id))
    (hx : x ∈ d.built) (v : Json) :
    Makes ((x.shape anonymous).validate ((d.registry anonymous).follow bound) v) fun a ↦
      a.datum.Resubmits (Accepts d.built x) (x.shape anonymous) := by
  induction x using Item.partsInduction generalizing v with
  | step x ih =>
    refine makes_item_of_parts hd hdefaults hx (fun id ↦ hfollow x hx id v) fun y hy w ↦ ?_
    exact ih y hy (Document.mem_built_of_mem_parts hx hy) w

/-- **What validation makes** of data that an item accepts can be submitted to the item again. The
induction is on the bound of the validation and inside on the tree. -/
theorem makes_item (hids : (d.built.map Item.id).Nodup) (hd : d.Steady)
    (hdefaults : d.DefaultsAccepted) (hx : x ∈ d.built) (bound : Nat) (v : Json) :
    Makes ((x.shape anonymous).validate ((d.registry anonymous).follow bound) v) fun a ↦
      a.datum.Resubmits (Accepts d.built x) (x.shape anonymous) := by
  induction bound generalizing x v with
  | zero =>
    refine makes_item_of_follow hd hdefaults (fun x _ id v _ a ha ↦ ?_) hx v
    cases ha
  | succ bound ih =>
    refine makes_item_of_follow hd hdefaults (fun x _ id v ht ↦ ?_) hx v
    exact makes_follow hids ht fun y hy ↦ ih hy.2.1 v

/-! ## Models -/

/-- What the model of a document makes of data that it accepts can be submitted to it again. -/
theorem makes_model (hids : (d.built.map Item.id).Nodup) (hd : d.Steady)
    (hdefaults : d.DefaultsAccepted) (root : String) (bound : Nat) (v : Json) :
    Makes ((d.model root anonymous).shape.validate ((d.registry anonymous).follow bound) v)
      fun a ↦ a.datum.Resubmits d.Accepts (d.model root anonymous).shape :=
  makes_fields hd (fun _ hf ↦ Document.mem_built_of_mem_fields hf)
    (fun f hf ↦ hdefaults f (.root hf)) fun _ hf ↦
      makes_item hids hd hdefaults (Document.mem_built_of_mem_fields hf) bound

/-- The value that is printed for validated data. -/
def Model.printed (m : Model) (datum : Datum) : Json := (m.shape.write .straight datum).printed

/-- **What is printed for accepted data is accepted again**, in a guarded document with steady
literals whose defaults are accepted. -/
theorem validate_printed_isOk {settings : BuilderSettings} {root : String}
    (hs : settings.NameModels root anonymous) (hd : d.Guarded) (hsteady : d.Steady)
    (hdefaults : d.DefaultsAccepted) :
    ∃ m, (d.build settings).value = .ok m ∧ ∀ v datum,
      (m.validate v).value = some (.ok datum) →
        (m.printed datum).print .pretty = (m.shape.write .straight datum).print .pretty ∧
          ∃ again, (m.validate (m.printed datum)).value = some (.ok again) := by
  refine ⟨d.model root anonymous, Document.build_value hs d, fun v datum hv ↦ ?_⟩
  refine ⟨print_printed _, ?_⟩
  rw [Model.value_validate, Option.map_eq_some_iff] at hv
  obtain ⟨verdict, hverdict, hmap⟩ := hv
  obtain ⟨a, rfl, rfl⟩ := exists_of_map_eq_ok hmap
  -- the document accepts what is printed, and so does its model
  have haccepts : d.Accepts ((d.model root anonymous).printed a.datum) :=
    (makes_model hd.nodup_built hsteady hdefaults root _ v a hverdict).accepts_write .straight
  obtain ⟨r, hr, hp⟩ := decides_model hd root ((d.model root anonymous).printed a.datum)
  cases r with
  | ok b =>
    refine ⟨b.datum, ?_⟩
    rw [Model.value_validate]
    exact congrArg (Option.map _) hr
  | error failures => cases hp.mpr haccepts

/-- A diary whose entry is blank or has a page, with a name that is no key, a default and fields
that may be missing. -/
def Document.diary : Document where
  fields := [
    .mk { (Item.new "class" .string "class").attributes with required := false } none none,
    Item.new "at" .datetime "at",
    .mk { (Item.new "count" .number "count").attributes with
      hasDefault := true, defaultValue := .int 1 } none none,
    .mk (Item.new "entry" .union "entry").attributes none (some [
      .mk { (Item.new "blank" .literal "blank").attributes with literal := .int 0 } none none,
      .referring "written" "page"]),
    .mk { (Item.new "page" .object "page").attributes with required := false }
      (some [Item.new "words" .number "words"]) none]

/-- An entry of the diary with a page. -/
def diaryData : Json :=
  .obj [("at", .str "2024-02-29T12:00:00.5+02:00"), ("entry", .obj [("words", .int 300)])]

/-- What is printed for the entry. -/
def diaryPrinted : Json :=
  .obj [("class", .null), ("at", .str "2024-02-29T12:00:00.500000+02:00"), ("count", .float 1),
    ("entry", .obj [("words", .float 300)]), ("page", .null)]

/-- What comes of accepted data comes of some datum. -/
theorem exists_of_bind_toOption {α : Type} {r : Option (Checked Datum)}
    {g : Datum → Option α} {a : α} (h : (r.bind fun c ↦ c.toOption.bind g) = some a) :
    ∃ datum, r = some (.ok datum) ∧ g datum = some a := by
  match r, h with
  | some (.ok datum), h => exact ⟨datum, rfl, h⟩
  | some (.error _), h | none, h => cases h

theorem validate_printed_isOk_diary :
    BuilderSettings.NameModels {} "Schema" "Object" ∧ Document.diary.Guarded ∧
      Document.diary.Steady ∧ Document.diary.DefaultsAccepted ∧
      ∃ m datum, (Document.diary.build {}).value = .ok m ∧
        (m.validate diaryData).value = some (.ok datum) ∧
        (m.shape.write .straight datum).print .pretty = diaryPrinted.print .pretty ∧
        ∃ again, (m.validate (m.printed datum)).value = some (.ok again) := by
  have hguarded : Document.diary.Guarded :=
    Document.guarded_of_flat (by decide) (by decide) (by decide)
  have hsteady : Document.diary.Steady := by decide +kernel
  have hdefaults : Document.diary.DefaultsAccepted :=
    Document.defaultsAccepted_of_scalars (by decide +kernel)
  obtain ⟨m, hm, h⟩ :=
    validate_printed_isOk BuilderSettings.nameModels_default hguarded hsteady hdefaults
  refine ⟨BuilderSettings.nameModels_default, hguarded, hsteady, hdefaults, ?_⟩
  rw [Document.build_value BuilderSettings.nameModels_default] at hm ⊢
  obtain rfl := Except.ok.inj hm
  obtain ⟨datum, hdatum, hprint⟩ := exists_of_bind_toOption
    (r := ((Document.diary.model "Schema" "Object").validate diaryData).value)
    (g := fun datum ↦
      some (((Document.diary.model "Schema" "Object").printed datum).print .pretty))
    (a := diaryPrinted.print .pretty) (by decide +kernel)
  obtain ⟨hsame, hagain⟩ := h _ datum hdatum
  exact ⟨_, datum, rfl, hdatum, hsame.symm.trans (Option.some_inj.mp hprint), hagain⟩

/-- A union of two kinds of arrays. The elements of one kind are numbers or arrays of what is named
`x`, those of the other one are a whole number between two binary64 or arrays of objects with a
default. -/
def Document.ambiguous : Document where
  fields := [
    .mk { (Item.new "x" .string "x").attributes with required := false } none none,
    .mk (Item.new "u" .union "u").attributes none (some [
      .mk { (Item.new "a" .union "a").attributes with isArray := true } none (some [
        Item.new "n" .number "n",
        .mk { (Item.referring "l" "x").attributes with isArray := true } none none]),
      .mk { (Item.new "b" .union "b").attributes with isArray := true } none (some [
        .mk { (Item.new "c" .literal "c").attributes with literal := .int (2 ^ 53 + 1) } none none,
        .mk { (Item.new "r" .object "r").attributes with isArray := true } (some [
          .mk { (Item.new "y" .number "y").attributes with
            hasDefault := true, defaultValue := .int 1 } none none]) none])])]

/-- Data of the second kind whose object has no members. -/
def ambiguousData : Json := .obj [("u", .arr [.int (2 ^ 53 + 1), .arr [.obj []]])]

/-- **What is printed may be rejected** where a literal is not steady. Data are printed as the first
kind that they fit, and the default of the object, which is no binary64, fits only laxly; then the
literal fits a number and is printed as the binary64 below. -/
theorem Document.exists_rejected_output :
    ∃ (d : Document) (m : Model) (v : Json) (datum : Datum) (failures : List Failure),
      d.Guarded ∧
      (∀ x ∈ d.built, x.target? = none → x.kind = .literal → ∀ y,
        x.attributes.scalar = .real y → isFinite y) ∧
      d.DefaultsAccepted ∧ (d.build {}).value = .ok m ∧
      (m.validate v).value = some (.ok datum) ∧
      (m.validate (m.printed datum)).value = some (.error failures) := by
  have hguarded : ambiguous.Guarded := guarded_of_flat (by decide) (by decide) (by decide)
  have hdefaults : ambiguous.DefaultsAccepted := defaultsAccepted_of_scalars (by decide +kernel)
  have hliterals : ∀ x ∈ ambiguous.built, x.kind = .literal →
      x.attributes.scalar.toJson.typeWord = "int" := by decide
  obtain ⟨datum, hdatum, hrejected⟩ := exists_of_bind_toOption
    (r := ((ambiguous.model "Schema" "Object").validate ambiguousData).value)
    (g := fun datum ↦ ((ambiguous.model "Schema" "Object").validate
      ((ambiguous.model "Schema" "Object").printed datum)).value.map Except.isOk)
    (a := false) (by decide +kernel)
  obtain ⟨verdict, hverdict, hbad⟩ := Option.map_eq_some_iff.mp hrejected
  cases verdict with
  | ok again => cases hbad
  | error failures =>
    refine ⟨ambiguous, ambiguous.model "Schema" "Object", ambiguousData, datum, failures, hguarded,
      fun x hx _ hk y hy ↦ ?_, hdefaults, build_value BuilderSettings.nameModels_default _, hdatum,
      hverdict⟩
    have hwhole := hliterals x hx hk
    have hreal : (Scalar.real y).toJson.typeWord = "float" := rfl
    rw [hy, hreal] at hwhole
    exact absurd hwhole (by decide)

end SchemaTree
