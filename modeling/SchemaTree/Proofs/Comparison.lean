import SchemaTree.Proofs.Emission
import SchemaTree.Proofs.Legibility
import SchemaTree.Proofs.ZodText

/-!
# What a zod module says of a document

Two documents that can be written have the same zod module exactly if their fields compare equal
(`Document.emit_eq_iff`). The comparison, `Item.SameField`, goes down both trees at once and looks
at what a reader of the module is to learn: names, marks, defaults, descriptions and shapes. Values
are compared by their JSON text. Ids are not compared, nor is what cannot be told from a schema: all
items of unknown kinds accept anything, as do unions with fewer than two options.

The texts are dealt with once and for all in the reading of expressions; what is left is to compare
two expression trees, where a suffix is a node of its own. An expression that has suffixes up to one
kind cannot be mistaken for one with a further suffix (`Method.rank`).
-/

namespace SchemaTree

open Text

/-! ## The comparison -/

/-- Whether descriptions count, and the JSON text of those that do. -/
def Attributes.SameDescription (a b : Attributes) : Prop :=
  a.description.truthy = b.description.truthy ∧
    (a.description.truthy → ZodExpr.valueText a.description = ZodExpr.valueText b.description)

namespace Item

mutual

/-- Items of the same shape. -/
inductive SameShape (table table' : ItemTable) : Item → Item → Prop where
  | scalar {x y : Item} (type : ScalarType) (hx : x.IsOf type.kind) (hy : y.IsOf type.kind) :
    SameShape table table' x y
  | literal {x y : Item} (hx : x.IsOf .literal) (hy : y.IsOf .literal)
      (h : ZodExpr.valueText x.attributes.scalar.toJson =
        ZodExpr.valueText y.attributes.scalar.toJson) : SameShape table table' x y
  | object {x y : Item} (hx : x.IsOf .object) (hy : y.IsOf .object)
      (h : List.Forall₂ (SameField table table') (x.fields.getD []) (y.fields.getD [])) :
    SameShape table table' x y
  | union {x y : Item} (hx : x.IsOf .union) (hy : y.IsOf .union)
      (htwo : 2 ≤ (x.options.getD []).length)
      (h : List.Forall₂ (SameOption table table') (x.options.getD []) (y.options.getD [])) :
    SameShape table table' x y
  | anything {x y : Item} (hx : x.IsOpen) (hy : y.IsOpen) : SameShape table table' x y
  /-- References are compared by whether they lead anywhere, and by the name that is bound there. -/
  | reference {x y : Item} (hx : x.target?.isSome) (hy : y.target?.isSome)
      (h : (table.resolve x.attributes).map (fun target ↦ Naming.bindingName target.name) =
        (table'.resolve y.attributes).map fun target ↦ Naming.bindingName target.name) :
    SameShape table table' x y

/-- Items that are the same as fields. -/
inductive SameField (table table' : ItemTable) : Item → Item → Prop where
  | mk {x y : Item} (hname : x.name = y.name)
      (hrequired : x.attributes.required = y.attributes.required)
      (harray : x.attributes.isArray = y.attributes.isArray)
      (hdefault : x.attributes.hasDefault = y.attributes.hasDefault)
      (hvalue : x.attributes.hasDefault →
        ZodExpr.valueText x.attributes.defaultValue = ZodExpr.valueText y.attributes.defaultValue)
      (hdescription : x.attributes.SameDescription y.attributes)
      (hshape : SameShape table table' x y) : SameField table table' x y

/-- Items that are the same as options of a union. -/
inductive SameOption (table table' : ItemTable) : Item → Item → Prop where
  | mk {x y : Item} (harray : x.attributes.isArray = y.attributes.isArray)
      (hdescription : x.attributes.SameDescription y.attributes)
      (hshape : SameShape table table' x y) : SameOption table table' x y

end

end Item

/-! ## Suffixes -/

/-- The place of a method among the suffixes of an expression. -/
def Method.rank : Method → ℕ
  | describe => 1
  | array => 2
  | optional => 3
  | default => 4
  | _ => 0

namespace ZodExpr

variable {a b : Attributes} {e f F G : ZodExpr} {m : Method} {p q : Bool}

/-- Expressions that may have a suffix are compared by whether they have it, by what it says and by
what is in front of it. -/
theorem alike_ite_iff {D : Prop} (hFG : F.Alike G ↔ e.Alike f ∧ D) (hF : F.method = m)
    (hG : G.method = m) (he : e.method.rank < m.rank) (hf : f.method.rank < m.rank) :
    (if p then F else e).Alike (if q then G else f) ↔ p = q ∧ (p → D) ∧ e.Alike f := by
  have hne {e : ZodExpr} (he : e.method.rank < m.rank) : m ≠ e.method := by
    rintro rfl
    exact absurd he (lt_irrefl _)
  cases p <;> cases q
  · simp
  · simpa using fun h ↦ hne he (hG ▸ (Alike.method_eq h).symm)
  · simpa using fun h ↦ hne hf (hF ▸ Alike.method_eq h)
  · simpa [and_comm] using hFG

theorem rank_ite_le (hF : F.method = m) (he : e.method.rank < m.rank) :
    (if p then F else e).method.rank ≤ m.rank := by
  split
  · rw [hF]
  · exact he.le

theorem rank_described_le (he : e.method.rank = 0) : (described a e).method.rank ≤ 1 :=
  rank_ite_le (m := .describe) rfl (he.trans_lt (by decide))

theorem rank_arrayed_le (he : e.method.rank ≤ 1) : (arrayed a e).method.rank ≤ 2 :=
  rank_ite_le (m := .array) rfl (he.trans_lt (by decide))

theorem alike_described_iff (he : e.method.rank = 0) (hf : f.method.rank = 0) :
    (described a e).Alike (described b f) ↔ a.SameDescription b ∧ e.Alike f := by
  have hdescribe : (describe e a.description).Alike (describe f b.description) ↔
      e.Alike f ∧ valueText a.description = valueText b.description := by
    constructor
    · intro h
      cases h with
      | describe h hd => exact ⟨h, hd⟩
    · rintro ⟨h, hd⟩
      exact .describe h hd
  rw [described, described, alike_ite_iff (m := .describe) hdescribe rfl rfl
    (he.trans_lt (by decide)) (hf.trans_lt (by decide)), Attributes.SameDescription, and_assoc]

theorem alike_arrayed_iff (he : e.method.rank ≤ 1) (hf : f.method.rank ≤ 1) :
    (arrayed a e).Alike (arrayed b f) ↔ a.isArray = b.isArray ∧ e.Alike f := by
  have harray : (array e).Alike (array f) ↔ e.Alike f ∧ True := by
    rw [and_true]
    constructor
    · intro h
      cases h with
      | array h => exact h
    · exact .array
  rw [arrayed, arrayed, alike_ite_iff (m := .array) harray rfl rfl (he.trans_lt (by decide))
    (hf.trans_lt (by decide))]
  simp

theorem alike_asField_iff (he : e.method.rank ≤ 1) (hf : f.method.rank ≤ 1) :
    (e.asField a).Alike (f.asField b) ↔
      a.hasDefault = b.hasDefault ∧
        (a.hasDefault → valueText a.defaultValue = valueText b.defaultValue) ∧
        a.required = b.required ∧ a.isArray = b.isArray ∧ e.Alike f := by
  have hoptional {e f : ZodExpr} : (optional e).Alike (optional f) ↔ e.Alike f ∧ True := by
    rw [and_true]
    constructor
    · intro h
      cases h with
      | optional h => exact h
    · exact .optional
  have hdefault {e f : ZodExpr} : (default e a.defaultValue).Alike (default f b.defaultValue) ↔
      e.Alike f ∧ valueText a.defaultValue = valueText b.defaultValue := by
    constructor
    · intro h
      cases h with
      | default h hv => exact ⟨h, hv⟩
    · rintro ⟨h, hv⟩
      exact .default h hv
  have hasField (a : Attributes) (e : ZodExpr) : e.asField a =
      if a.hasDefault then
        default (if !a.required then optional (arrayed a e) else arrayed a e) a.defaultValue
      else if !a.required then optional (arrayed a e) else arrayed a e := by
    rw [asField]
    cases a.required <;> rfl
  have hrank {e : ZodExpr} (he : e.method.rank ≤ 1) (a : Attributes) :
      (if !a.required then optional (arrayed a e) else arrayed a e).method.rank ≤ 3 :=
    rank_ite_le (m := .optional) rfl ((rank_arrayed_le he).trans_lt (by decide))
  rw [hasField, hasField, alike_ite_iff (m := .default) hdefault rfl rfl
      ((hrank he a).trans_lt (by decide)) ((hrank hf b).trans_lt (by decide)),
    alike_ite_iff (m := .optional) hoptional rfl rfl ((rank_arrayed_le he).trans_lt (by decide))
      ((rank_arrayed_le hf).trans_lt (by decide)), alike_arrayed_iff he hf]
  simp

end ZodExpr

/-! ## Shapes -/

namespace Item

variable {table table' : ItemTable} {x y : Item}

theorem rank_zodShape (table : ItemTable) (x : Item) : (x.zodShape table).method.rank = 0 := by
  have h := hasZodShape table x
  generalize x.zodShape table = e at h ⊢
  cases h with
  | @scalar type => cases type <;> rfl
  | _ => rfl

/-! ## Comparing shapes -/

theorem alike_zodExpr_iff :
    (x.zodExpr table).Alike (y.zodExpr table') ↔
      x.attributes.SameDescription y.attributes ∧ (x.zodShape table).Alike (y.zodShape table') := by
  rw [zodExpr_eq, zodExpr_eq, ZodExpr.alike_described_iff (rank_zodShape table x)
    (rank_zodShape table' y)]

theorem rank_zodExpr_le (table : ItemTable) (x : Item) : (x.zodExpr table).method.rank ≤ 1 := by
  rw [zodExpr_eq]
  exact ZodExpr.rank_described_le (rank_zodShape table x)

theorem alikeProperty_zodField_iff
    (hshape : (x.zodShape table).Alike (y.zodShape table') ↔ SameShape table table' x y) :
    ZodExpr.AlikeProperty (x.zodField table) (y.zodField table') ↔ SameField table table' x y := by
  have hfield : ((x.zodExpr table).asField x.attributes).Alike
      ((y.zodExpr table').asField y.attributes) ↔ _ :=
    ZodExpr.alike_asField_iff (rank_zodExpr_le table x) (rank_zodExpr_le table' y)
  rw [alike_zodExpr_iff, hshape] at hfield
  constructor
  · intro h
    generalize hp : x.zodField table = p at h
    generalize hq : y.zodField table' = q at h
    obtain ⟨h⟩ := h
    obtain ⟨hxname, rfl⟩ := Prod.mk.inj hp
    obtain ⟨hyname, rfl⟩ := Prod.mk.inj hq
    obtain ⟨hdefault, hvalue, hrequired, harray, hdescription, hsame⟩ := hfield.mp h
    exact .mk (hxname.trans hyname.symm) hrequired harray hdefault hvalue hdescription hsame
  · rintro ⟨hname, hrequired, harray, hdefault, hvalue, hdescription, hsame⟩
    rw [zodField, zodField, hname]
    exact .mk (hfield.mpr ⟨hdefault, hvalue, hrequired, harray, hdescription, hsame⟩)

theorem alike_zodOption_iff
    (hshape : (x.zodShape table).Alike (y.zodShape table') ↔ SameShape table table' x y) :
    (x.zodOption table).Alike (y.zodOption table') ↔ SameOption table table' x y := by
  rw [zodOption, zodOption,
    ZodExpr.alike_arrayed_iff (rank_zodExpr_le table x) (rank_zodExpr_le table' y),
    alike_zodExpr_iff, hshape]
  constructor
  · rintro ⟨harray, hdescription, hsame⟩
    exact .mk harray hdescription hsame
  · rintro ⟨harray, hdescription, hsame⟩
    exact ⟨harray, hdescription, hsame⟩

section Shapes

variable {e f : ZodExpr}
  (hfields : ∀ z ∈ x.fields.getD [], ∀ w, (z.zodShape table).Alike (w.zodShape table') ↔
    SameShape table table' z w)
  (hoptions : ∀ z ∈ x.options.getD [], ∀ w, (z.zodShape table).Alike (w.zodShape table') ↔
    SameShape table table' z w)

include hfields hoptions

theorem sameShape_of_alike (hx : x.HasZodShape table e) (hy : y.HasZodShape table' f)
    (h : e.Alike f) : SameShape table table' x y := by
  cases hx with
  | @scalar type hx =>
    cases hy with
    | @scalar type' hy =>
      have hmethod := h.method_eq
      obtain rfl : type = type' := by
        cases type <;> cases type' <;> first | rfl | exact absurd hmethod nofun
      exact .scalar type hx hy
    | _ => cases type <;> exact absurd h.method_eq nofun
  | literal hx =>
    cases hy with
    | literal hy =>
      cases h with
      | literal h => exact .literal hx hy h
    | @scalar type => cases type <;> exact absurd h.method_eq nofun
    | _ => exact absurd h.method_eq nofun
  | object hx =>
    cases hy with
    | object hy =>
      cases h with
      | object h =>
        exact .object hx hy ((forall₂_map_iff_of_mem fun z hz w _ ↦
          alikeProperty_zodField_iff (hfields z hz w)).mp h)
    | @scalar type => cases type <;> exact absurd h.method_eq nofun
    | _ => exact absurd h.method_eq nofun
  | union hx htwo =>
    cases hy with
    | union hy _ =>
      cases h with
      | union h =>
        exact .union hx hy htwo ((forall₂_map_iff_of_mem fun z hz w _ ↦
          alike_zodOption_iff (hoptions z hz w)).mp h)
    | @scalar type => cases type <;> exact absurd h.method_eq nofun
    | _ => exact absurd h.method_eq nofun
  | anything hx =>
    cases hy with
    | anything hy => exact .anything hx hy
    | @scalar type => cases type <;> exact absurd h.method_eq nofun
    | _ => exact absurd h.method_eq nofun
  | reference hx =>
    cases hy with
    | reference hy =>
      cases h with
      | reference h => exact .reference hx hy h
    | @scalar type => cases type <;> exact absurd h.method_eq nofun
    | _ => exact absurd h.method_eq nofun

theorem alike_of_sameShape (h : SameShape table table' x y) :
    (x.zodShape table).Alike (y.zodShape table') := by
  cases h with
  | scalar type hx hy =>
    rw [zodShape_of_scalar hx, zodShape_of_scalar hy]
    cases type <;> constructor
  | literal hx hy h =>
    rw [zodShape_of_literal hx, zodShape_of_literal hy]
    exact .literal h
  | object hx hy h =>
    rw [zodShape_of_object hx, zodShape_of_object hy]
    exact .object ((forall₂_map_iff_of_mem fun z hz w _ ↦
      alikeProperty_zodField_iff (hfields z hz w)).mpr h)
  | union hx hy htwo h =>
    rw [zodShape_of_union hx htwo, zodShape_of_union hy (h.length_eq ▸ htwo)]
    exact .union ((forall₂_map_iff_of_mem fun z hz w _ ↦
      alike_zodOption_iff (hoptions z hz w)).mpr h)
  | anything hx hy =>
    rw [zodShape_of_isOpen hx, zodShape_of_isOpen hy]
    exact .unknown
  | reference hx hy h =>
    rw [zodShape_of_isSome hx, zodShape_of_isSome hy]
    exact .reference h

end Shapes

/-- **The expressions of two items are alike exactly if the items have the same shape.** -/
theorem alike_zodShape_iff (table table' : ItemTable) (x y : Item) :
    (x.zodShape table).Alike (y.zodShape table') ↔ SameShape table table' x y := by
  induction x using Item.induction generalizing y with
  | step a fields options hfields hoptions =>
    exact ⟨sameShape_of_alike hfields hoptions (hasZodShape table _) (hasZodShape table' y),
      alike_of_sameShape hfields hoptions⟩

end Item

/-! ## Bindings -/

theorem isAlphanum_of_mem_camelChars {text : List Char} {c : Char}
    (h : c ∈ Naming.camelChars text) : c.isAlphanum := by
  have hpascal {c : Char} : c ∈ Naming.pascalChars text → c.isAlphanum :=
    isAlphanum_of_mem_pascalChars
  rw [Naming.camelChars] at h
  cases hchars : Naming.pascalChars text with
  | nil =>
    rw [hchars] at h
    cases h
  | cons b rest =>
    rw [hchars] at h hpascal
    rcases List.mem_cons.mp h with rfl | h
    · exact (isAlphanum_cases (hpascal List.mem_cons_self)).2
    · exact hpascal (List.mem_cons_of_mem b h)

/-- A name that a module binds has no bracket and no quote in it, whatever it is made from. -/
theorem isPlain_bindingName (name : String) : (Naming.bindingName name).toList.all isPlain := by
  have hunderscore {text : List Char} (h : text.all isPlain) : ('_' :: text).all isPlain := by
    rw [List.all_cons, h]
    decide
  have hcandidate {text : List Char} (h : text.all isPlain) :
      (if String.ofList text ∈ Naming.reservedWords then "_" ++ String.ofList text
        else String.ofList text).toList.all isPlain := by
    split
    · have hprefix : "_".toList = ['_'] := by decide
      rw [String.toList_append, hprefix, String.toList_ofList]
      exact hunderscore h
    · rw [String.toList_ofList]
      exact h
  rw [Naming.bindingName]
  split
  · rename_i h
    exact ZodExpr.isPlain_of_isUnquotedKey h.1
  · split
    · decide
    · rename_i c rest hchars
      have hcamel : (c :: rest).all isPlain :=
        all_isPlain (P := fun c ↦ c.isAlphanum = true)
          (fun b hb ↦ isAlphanum_of_mem_camelChars (hchars ▸ hb)) (by decide)
      dsimp only
      split
      · exact hcandidate (hunderscore hcamel)
      · exact hcandidate hcamel

namespace ZodExpr

variable {a : Attributes} {e F : ZodExpr}

theorem hasPlainBindings_ite {p : Prop} [Decidable p] (hF : F.HasPlainBindings)
    (he : e.HasPlainBindings) : (if p then F else e).HasPlainBindings := by
  split
  · exact hF
  · exact he

theorem hasPlainBindings_arrayed (he : e.HasPlainBindings) : (arrayed a e).HasPlainBindings :=
  hasPlainBindings_ite (.array he) he

theorem hasPlainBindings_asField (he : e.HasPlainBindings) : (e.asField a).HasPlainBindings := by
  have harray : (arrayed a e).HasPlainBindings := hasPlainBindings_arrayed he
  have hrequired := hasPlainBindings_ite (p := a.required) harray (.optional harray)
  exact hasPlainBindings_ite (.default hrequired _) hrequired

end ZodExpr

/-- No binding within the expression of an item has a bracket or a quote in it. -/
theorem Item.hasPlainBindings_zodExpr (table : ItemTable) (x : Item) :
    (x.zodExpr table).HasPlainBindings := by
  induction x using Item.induction with
  | step a fields options hfields hoptions =>
    have hshape : ((Item.mk a fields options).zodShape table).HasPlainBindings := by
      have hview := hasZodShape table (.mk a fields options)
      generalize (Item.mk a fields options).zodShape table = e at hview ⊢
      cases hview with
      | @scalar type => cases type <;> constructor
      | literal => exact .literal _
      | object =>
        refine .object ?_
        rw [List.forall_mem_map]
        exact fun z hz ↦ ZodExpr.hasPlainBindings_asField (hfields z hz)
      | union =>
        refine .union ?_
        rw [List.forall_mem_map]
        exact fun z hz ↦ ZodExpr.hasPlainBindings_arrayed (hoptions z hz)
      | anything => exact .unknown
      | reference =>
        refine .reference fun b hb ↦ ?_
        obtain ⟨target, -, rfl⟩ := Option.map_eq_some_iff.mp hb
        exact isPlain_bindingName target.name
    rw [zodExpr_eq]
    exact ZodExpr.hasPlainBindings_ite (.describe hshape _) hshape

/-! ## Modules -/

theorem Indent.isPlain_ofText {unit : List Char} (h : unit.all isPlain) :
    (Indent.ofText unit).IsPlain := by
  refine ⟨h, fun depth ↦ ?_⟩
  rw [ofText, List.all_flatten]
  refine List.all_eq_true.mpr fun text htext ↦ ?_
  rw [List.eq_of_mem_replicate htext]
  exact h

namespace Document

theorem emit_eq_ok_iff {tools : Tools} {d : Document} {code : String} :
    (({} : EmitterSettings).emit tools d).value = .ok code ↔ d.ZodWritable ∧
      code = String.ofList ((d.zodModule "schema" "Schema").write (.ofText "  ".toList)) := by
  rw [value_emit_zod, EmitterSettings.zodCode_eq_ok_iff,
    EmitterSettings.zodFaults_default_eq_nil_iff]
  rfl

/-- **A zod module loses nothing.** Two documents have the same one exactly if both can be written
and their fields compare equal, one by one and all the way down. So no text in a name, a
description, a literal or a default can be made to look like anything else. -/
theorem emit_eq_iff (tools tools' : Tools) (d d' : Document) :
    (∃ code, (({} : EmitterSettings).emit tools d).value = .ok code ∧
      (({} : EmitterSettings).emit tools' d').value = .ok code) ↔
    (d.ZodWritable ∧ d'.ZodWritable) ∧
      List.Forall₂ (Item.SameField d.index d'.index) d.fields d'.fields := by
  have hplain (d : Document) : ∀ p ∈ d.zodProperties, p.2.HasPlainBindings := by
    rw [zodProperties, Item.zodFieldList_eq_map, List.forall_mem_map]
    exact fun x _ ↦ ZodExpr.hasPlainBindings_asField (x.hasPlainBindings_zodExpr d.index)
  have htext : (d.zodModule "schema" "Schema").write (.ofText "  ".toList) =
        (d'.zodModule "schema" "Schema").write (.ofText "  ".toList) ↔
      List.Forall₂ (Item.SameField d.index d'.index) d.fields d'.fields := by
    rw [zodModule, zodModule,
      ZodModule.write_eq_iff (Indent.isPlain_ofText (by decide)) rfl (hplain d) (hplain d'),
      zodProperties, zodProperties, Item.zodFieldList_eq_map, Item.zodFieldList_eq_map]
    exact forall₂_map_iff_of_mem fun x _ y _ ↦
      Item.alikeProperty_zodField_iff (Item.alike_zodShape_iff d.index d'.index x y)
  simp only [emit_eq_ok_iff]
  rw [← htext, ← String.ofList_inj]
  constructor
  · rintro ⟨code, ⟨hd, rfl⟩, hd', heq⟩
    exact ⟨⟨hd, hd'⟩, heq⟩
  · rintro ⟨⟨hd, hd'⟩, heq⟩
    exact ⟨_, ⟨hd, rfl⟩, hd', heq⟩

end Document

end SchemaTree
