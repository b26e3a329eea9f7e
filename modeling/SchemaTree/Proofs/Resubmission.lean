import SchemaTree.Proofs.Moments
import SchemaTree.Proofs.Validation
import SchemaTree.Proofs.Written

/-!
# Data that can be submitted again

What validation makes of accepted data is written as a value of JSON, and that value is data again.
`Datum.Resubmits accepts shape d` says that it will do: whatever is written for the datum `d` of the
shape is accepted. `Makes c P` says that the validation `c` makes nothing without the property `P`.
The lemmas of this file say for each shape that what it makes can be submitted again if what its
parts make can.

Acceptance is any property of values here, so the lemmas do not ask where a shape comes from. A list
accepts again by its elements, a record by its members under the names of its fields, and a union by
the option that took the data, although the union may have written them as those of another one.
-/

namespace SchemaTree

open Json

/-! ## Data that can be submitted again -/

/-- Whatever is written for the datum is accepted. -/
structure Datum.Resubmits (accepts : Json → Prop) (shape : Shape) (d : Datum) : Prop where
  coherent : d.Coherent
  spares : shape.SparesFlags d
  accepted : ∀ v, d.Writes v → accepts v

variable {α β : Type} {accepts : Json → Prop} {shape : Shape} {d : Datum} {v : Json}

/-- What a shape makes of the datum is accepted when it has been printed. -/
theorem Datum.Resubmits.accepts_write (h : d.Resubmits accepts shape) (route : Route) :
    accepts (shape.write route d).printed :=
  h.accepted _ (shape.writes_write h.coherent h.spares route).printed

theorem Datum.Resubmits.mono {accepts' : Json → Prop} (h : d.Resubmits accepts shape)
    (himp : ∀ w, accepts w → accepts' w) : d.Resubmits accepts' shape :=
  ⟨h.coherent, h.spares, fun w hw ↦ himp w (h.accepted w hw)⟩

/-- If the validation ends and accepts, then with something that has the property. -/
def Makes (c : Validating (Checked α)) (P : α → Prop) : Prop := ∀ a, c.Ends (.ok a) → P a

namespace Validating.Ends

/-- A validation in two parts ends only if both do. -/
theorem of_bind {c : Validating α} {f : α → Validating β} {b : β} (h : Ends (c >>= f) b) :
    ∃ a, Ends c a ∧ Ends (f a) b := by
  unfold Ends at h ⊢
  rw [OptionT.run_bind, Option.elimM, Logged.value_bind] at h
  cases hc : c.run.value with
  | none =>
    rw [hc] at h
    cases h
  | some a =>
    rw [hc] at h
    exact ⟨a, rfl, h⟩

theorem of_pure {a b : α} (h : Ends (pure a : Validating α) b) : a = b := Option.some_inj.mp h

theorem of_map {c : Validating α} {f : α → β} {b : β} (h : Ends (f <$> c) b) :
    ∃ a, Ends c a ∧ f a = b := by
  rw [map_eq_pure_bind] at h
  obtain ⟨a, ha, h⟩ := h.of_bind
  exact ⟨a, ha, h.of_pure⟩

end Validating.Ends

namespace Makes

variable {P : α → Prop}

protected theorem pure {r : Checked α} (h : ∀ a, r = .ok a → P a) : Makes (pure r) P :=
  fun a ha ↦ h a ha.of_pure

theorem mono {Q : α → Prop} {c : Validating (Checked α)} (h : Makes c P) (hPQ : ∀ a, P a → Q a) :
    Makes c Q := fun a ha ↦ hPQ a (h a ha)

end Makes

/-- Of two results both are good if their combination is. -/
theorem exists_of_both_eq_ok {γ : Type} {g : α → β → γ} {r : Checked α} {s : Checked β} {c : γ}
    (h : Checked.both g r s = .ok c) : ∃ a b, r = .ok a ∧ s = .ok b ∧ g a b = c := by
  match r, s with
  | .ok a, .ok b => exact ⟨a, b, rfl, rfl, Except.ok.inj h⟩
  | .ok _, .error _ | .error _, .ok _ | .error _, .error _ => exact absurd h nofun

/-! ## Values without parts -/

theorem Datum.resubmits_plain {type : ScalarType} (h : type.Admits v) :
    (Datum.plain v).Resubmits type.Admits (.scalar type) where
  coherent := .plain v
  spares := by cases h <;> trivial
  accepted := by
    intro w hw
    cases hw with
    | plain hvaries => exact h.of_varies hvaries

theorem Datum.resubmits_moment {text : List Char} {form : MomentForm} {m : Moment}
    (hform : MomentForm.ofText? text = some form) (hm : Moment.ofForm form = .ok m) :
    (Datum.moment m).Resubmits ScalarType.moment.Admits (.scalar .moment) where
  coherent := .moment m
  spares := trivial
  accepted := by
    intro w hw
    cases hw
    obtain ⟨form', hform', hm'⟩ := Moment.exists_form_of_text hform hm
    exact .moment hform' hm'

/-- **What the check of a scalar type makes** of accepted data. -/
theorem resubmits_of_checkScalar {type : ScalarType} {a : Accepted}
    (h : checkScalar type v = .ok a) : a.datum.Resubmits type.Admits (.scalar type) := by
  have hadmits : type.Admits v := isOk_checkScalar_iff.mp (h ▸ rfl)
  cases hadmits with
  | text s =>
    obtain rfl := Except.ok.inj h
    exact Datum.resubmits_plain (.text s)
  | flag b =>
    obtain rfl := Except.ok.inj h
    exact Datum.resubmits_plain (.flag b)
  | @whole n hn =>
    obtain ⟨x, hx⟩ := Option.isSome_iff_exists.mp (Decimal.isSome_ofInt?_iff.mpr hn)
    rw [checkScalar, checkNumber, hx] at h
    obtain rfl := Except.ok.inj h
    obtain ⟨hnan, hinf⟩ := isFinite_eq_true_iff.mp (Decimal.isFinite_of_ofInt? hx)
    exact Datum.resubmits_plain (.real hnan hinf)
  | real hnan hinf =>
    rw [checkScalar, checkNumber, if_pos (isFinite_eq_true_iff.mpr ⟨hnan, hinf⟩)] at h
    obtain rfl := Except.ok.inj h
    exact Datum.resubmits_plain (.real hnan hinf)
  | moment hform hm =>
    rw [checkScalar, checkMoment, hform] at h
    dsimp only at h
    rw [hm] at h
    obtain rfl := Except.ok.inj h
    exact Datum.resubmits_moment hform hm

/-- A steady literal admits its own value. -/
theorem Scalar.admits_toJson {s : Scalar} (hs : s.Steady) : s.admits s.toJson := by
  cases s with
  | text s => exact decide_eq_true rfl
  | flag b => exact decide_eq_true rfl
  | whole n => exact decide_eq_true rfl
  | real x =>
    rw [toJson, admits, beq_self_of_isFinite hs]
    rfl

theorem datum_of_checkLiteral {s : Scalar} {a : Accepted} (h : checkLiteral s v = .ok a) :
    a.datum = .plain s.toJson := by
  have htake : Verdict.take s.toJson = .ok a := by
    cases s <;> simp only [checkLiteral] at h <;> split_ifs at h <;> first | exact h | cases h
  obtain rfl := Except.ok.inj htake
  cases s <;> rfl

/-- **What the check of a literal makes** of accepted data is the value of the literal. -/
theorem resubmits_of_checkLiteral {s : Scalar} (hs : s.Steady) {a : Accepted}
    (h : checkLiteral s v = .ok a) :
    a.datum.Resubmits (fun v ↦ s.admits v) (.literal s) where
  coherent := datum_of_checkLiteral h ▸ .plain _
  spares := trivial
  accepted := by
    intro w hw
    rw [datum_of_checkLiteral h] at hw
    cases hw with
    | plain hvaries => exact s.admits_of_varies hs (s.admits_toJson hs) hvaries

/-! ## Lists -/

section Shapes

variable {look : String → Json → Validating Verdict}

theorem makes_checkElements {check : Json → Validating Verdict} {P : Datum → Prop}
    {elements : List Json} (h : ∀ e ∈ elements, Makes (check e) fun a ↦ P a.datum) (index : Nat) :
    Makes (checkElements check index elements) fun r ↦ ∀ d ∈ r.1, P d := by
  induction elements generalizing index with
  | nil =>
    refine .pure fun r hr ↦ ?_
    obtain rfl := Except.ok.inj hr
    simp
  | cons e rest ih =>
    obtain ⟨hfirst, hrest⟩ := List.forall_mem_cons.mp h
    intro r hr
    obtain ⟨first, hfirst', hr⟩ := Validating.Ends.of_bind hr
    obtain ⟨others, hothers, hr⟩ := Validating.Ends.of_bind hr
    obtain ⟨a, ⟨data, fit⟩, ha, rfl, rfl⟩ := exists_of_both_eq_ok hr.of_pure
    obtain rfl := eq_ok_of_mapError_eq_ok ha
    exact List.forall_mem_cons.mpr ⟨hfirst a hfirst', ih hrest (index + 1) (data, fit) hothers⟩

/-- **A list** can be submitted again if all its elements can. -/
theorem makes_list (h : ∀ elements, v = .arr elements → ∀ e ∈ elements,
      Makes (shape.validate look e) fun a ↦ a.datum.Resubmits accepts shape) :
    Makes ((Shape.list shape).validate look v) fun a ↦ a.datum.Resubmits
      (fun w ↦ ∃ elements, w = .arr elements ∧ ∀ e ∈ elements, accepts e) (.list shape) := by
  intro a ha
  cases v with
  | arr elements =>
    rw [Shape.validate] at ha
    obtain ⟨r, hr, ha⟩ := ha.of_bind
    obtain ⟨⟨data, fit⟩, rfl, rfl⟩ := exists_of_map_eq_ok ha.of_pure
    have hdata := makes_checkElements (h elements rfl) 0 (data, fit) hr
    refine ⟨.list fun d hd ↦ (hdata d hd).coherent, fun d hd ↦ (hdata d hd).spares, ?_⟩
    intro w hw
    cases hw with
    | list hvalues =>
      refine ⟨_, rfl, fun e he ↦ ?_⟩
      obtain ⟨d, hd, hwrites⟩ := exists_of_mem_right hvalues he
      exact (hdata d hd).accepted e hwrites
  | _ =>
    rw [Shape.validate] at ha
    · cases ha.of_pure
    · simp

theorem Shape.sparesFlags_null (shape : Shape) : shape.SparesFlags (.plain .null) := by
  match shape with
  | .optional inner | .described inner _ => exact inner.sparesFlags_null
  | .scalar type => cases type <;> trivial
  | .literal _ | .record _ _ _ | .union _ | .anything | .reference _ | .list _ => trivial

theorem Datum.resubmits_null (h : accepts .null) (shape : Shape) :
    (Datum.plain .null).Resubmits accepts shape where
  coherent := .plain .null
  spares := shape.sparesFlags_null
  accepted := by
    intro w hw
    cases hw with
    | plain hvaries => exact hvaries.eq_null ▸ h

theorem makes_optional (h : v ≠ .null →
      Makes (shape.validate look v) fun a ↦ a.datum.Resubmits accepts shape) :
    Makes ((Shape.optional shape).validate look v) fun a ↦
      a.datum.Resubmits (fun w ↦ w = .null ∨ accepts w) (.optional shape) := by
  intro a ha
  by_cases hv : v = .null
  · subst hv
    rw [Shape.validate] at ha
    obtain rfl := Except.ok.inj ha.of_pure
    exact Datum.resubmits_null (.inl rfl) _
  · rw [Shape.validate] at ha
    · obtain ⟨hcoherent, hspares, haccepted⟩ := h hv a ha
      exact ⟨hcoherent, hspares, fun w hw ↦ .inr (haccepted w hw)⟩
    · exact hv

theorem sparesFlags_describedBy {description : Json} {d : Datum} :
    (shape.describedBy description).SparesFlags d ↔ shape.SparesFlags d := by
  rw [Shape.describedBy]
  split
  · rfl
  · rfl

theorem makes_describedBy {description : Json}
    (h : Makes (shape.validate look v) fun a ↦ a.datum.Resubmits accepts shape) :
    Makes ((shape.describedBy description).validate look v) fun a ↦
      a.datum.Resubmits accepts (shape.describedBy description) := by
  rw [validate_describedBy]
  exact h.mono fun a ha ↦ ⟨ha.coherent, sparesFlags_describedBy.mpr ha.spares, ha.accepted⟩

theorem makes_anything (h : ∀ w, accepts w) : Makes (Shape.anything.validate look v) fun a ↦
    a.datum.Resubmits accepts .anything := by
  rw [Shape.validate]
  refine .pure fun a ha ↦ ?_
  obtain rfl := Except.ok.inj ha
  exact ⟨Datum.coherent_ofJson v, trivial, fun w _ ↦ h w⟩

/-! ## Unions -/

/-- The choice after another option is the one before or what the option accepted. -/
theorem eq_ok_or_of_verdict_add {label : String} {verdict : Verdict} {choice : Choice}
    {a : Accepted} (h : (choice.add label verdict).verdict = .ok a) :
    choice.verdict = .ok a ∨ verdict = .ok a := by
  cases choice with
  | undecided failures =>
    cases verdict with
    | ok b => exact .inr h
    | error more => cases h
  | best old =>
    cases verdict with
    | ok b =>
      rw [Choice.add] at h
      split at h
      · exact .inr h
      · exact .inl h
    | error more => exact .inl h

theorem makes_validateOptions {P : Accepted → Prop} {options : List Shape}
    (h : ∀ shape ∈ options, Makes (shape.validate look v) P) {choice : Choice}
    (hchoice : ∀ a, choice.verdict = .ok a → P a) :
    Makes (Choice.verdict <$> Shape.validateOptions look v choice options) P := by
  induction options generalizing choice with
  | nil =>
    rw [Shape.validateOptions, map_pure]
    exact .pure hchoice
  | cons shape rest ih =>
    obtain ⟨hfirst, hrest⟩ := List.forall_mem_cons.mp h
    rw [Shape.validateOptions, map_bind]
    intro a ha
    obtain ⟨verdict, hverdict, ha⟩ := ha.of_bind
    have hadd : ∀ b, (choice.add shape.label verdict).verdict = .ok b → P b := by
      intro b hb
      rcases eq_ok_or_of_verdict_add hb with hb | rfl
      · exact hchoice b hb
      · exact hfirst b hverdict
    dsimp only at ha
    split at ha
    · rw [map_pure] at ha
      exact hadd a ha.of_pure
    · exact ih hrest hadd a ha

/-- **A union** accepts again what one of its options made. -/
theorem makes_union {ι : Type} {xs : List ι} {f : ι → Shape} {P : ι → Json → Prop}
    (h : ∀ x ∈ xs, Makes ((f x).validate look v) fun a ↦ a.datum.Resubmits (P x) (f x)) :
    Makes ((Shape.union (xs.map f)).validate look v) fun a ↦
      a.datum.Resubmits (fun w ↦ ∃ x ∈ xs, P x w) (.union (xs.map f)) := by
  rw [Shape.validate, bind_pure_comp]
  refine makes_validateOptions (fun shape hshape ↦ ?_) fun a ha ↦ by cases ha
  obtain ⟨x, hx, rfl⟩ := List.mem_map.mp hshape
  refine (h x hx).mono fun a ha ↦ ⟨ha.coherent, trivial, fun w hw ↦ ⟨x, hx, ha.accepted w hw⟩⟩

/-! ## Records -/

/-- A field holds what the member of its name was made into, or its default. -/
theorem fieldVerdict_eq_ok {members : List (String × Json)} {head : FieldHead}
    {present : Option Verdict} {d : Datum} {fit : Fit}
    (h : fieldVerdict members head present = .ok (d, fit)) :
    (∃ a, present = some (.ok a) ∧ a.datum = d) ∨
      present = none ∧ ∃ w, head.default = some w ∧ .ofJson w = d := by
  cases present with
  | some verdict =>
    obtain ⟨a, ha, heq⟩ := exists_of_map_eq_ok h
    exact .inl ⟨a, congrArg some (eq_ok_of_mapError_eq_ok ha), (Prod.mk.inj heq).1⟩
  | none =>
    rw [fieldVerdict.eq_def] at h
    cases hdefault : head.default with
    | none =>
      rw [hdefault] at h
      cases h
    | some w =>
      rw [hdefault] at h
      exact .inr ⟨rfl, w, rfl, (Prod.mk.inj (Except.ok.inj h)).1⟩

/-- What a field holds: what the member of its name is made into, or its default where there is
none. -/
inductive Supplies (look : String → Json → Validating Verdict) (members : List (String × Json)) :
    FieldHead × Shape → Datum → Prop where
  | present {p : FieldHead × Shape} {w : Json} {a : Accepted}
      (hfind : Members.find? p.1.name members = some w)
      (ha : (p.2.validate look w).Ends (.ok a)) : Supplies look members p a.datum
  | absent {p : FieldHead × Shape} {w : Json} (hfind : Members.find? p.1.name members = none)
      (hdefault : p.1.default = some w) : Supplies look members p (.ofJson w)

/-- **What the fields of a record make**, each of the member of its name. -/
theorem supplies_of_validateFields {members : List (String × Json)}
    {fields : List (FieldHead × Shape)} {data : List Datum} {fit : Fit}
    (h : (Shape.validateFields look members fields).Ends (.ok (data, fit))) :
    List.Forall₂ (Supplies look members) fields data := by
  induction fields generalizing data fit with
  | nil =>
    rw [Shape.validateFields] at h
    obtain ⟨rfl, -⟩ := Prod.mk.inj (Except.ok.inj h.of_pure)
    exact .nil
  | cons p rest ih =>
    obtain ⟨head, shape⟩ := p
    -- what is left to do once the member of the first field has been looked at
    have hafter {present : Option Verdict} (hr : Validating.Ends (do
          let others ← Shape.validateFields look members rest
          return Checked.consField (fieldVerdict members head present) others) (.ok (data, fit))) :
        ∃ d fit₁ others, fieldVerdict members head present = .ok (d, fit₁) ∧ data = d :: others ∧
          List.Forall₂ (Supplies look members) rest others := by
      obtain ⟨others, hothers, hr⟩ := hr.of_bind
      obtain ⟨⟨d, fit₁⟩, ⟨others, fit₂⟩, hd, rfl, heq⟩ := exists_of_both_eq_ok hr.of_pure
      exact ⟨d, fit₁, others, hd, (Prod.mk.inj heq).1.symm, ih hothers⟩
    rw [Shape.validateFields] at h
    cases hfind : Members.find? head.name members with
    | none =>
      rw [hfind] at h
      obtain ⟨present, hpresent, h⟩ := h.of_bind
      obtain rfl := hpresent.of_pure
      obtain ⟨d, fit₁, others, hd, rfl, hothers⟩ := hafter h
      rcases fieldVerdict_eq_ok hd with ⟨a, ha, -⟩ | ⟨-, w, hw, rfl⟩
      · cases ha
      · exact .cons (.absent hfind hw) hothers
    | some w =>
      rw [hfind] at h
      obtain ⟨present, hpresent, h⟩ := h.of_bind
      obtain ⟨verdict, hverdict, rfl⟩ := hpresent.of_map
      obtain ⟨d, fit₁, others, hd, rfl, hothers⟩ := hafter h
      rcases fieldVerdict_eq_ok hd with ⟨a, ha, rfl⟩ | ⟨hnone, -⟩
      · exact .cons (.present hfind (Option.some_inj.mp ha ▸ hverdict)) hothers
      · cases hnone

/-- Data of fields can be submitted again if what the fields make can, and their defaults. -/
theorem makes_validateFields {members : List (String × Json)} {fields : List (FieldHead × Shape)}
    {P : FieldHead × Shape → Json → Prop}
    (h : ∀ p ∈ fields, ∀ w, Members.find? p.1.name members = some w →
      Makes (p.2.validate look w) fun a ↦ a.datum.Resubmits (P p) p.2)
    (hdefault : ∀ p ∈ fields, ∀ w, p.1.default = some w → (Datum.ofJson w).Resubmits (P p) p.2) :
    Makes (Shape.validateFields look members fields) fun r ↦
      List.Forall₂ (fun p d ↦ d.Resubmits (P p) p.2) fields r.1 := by
  intro r hr
  refine forall₂_imp_of_mem (supplies_of_validateFields hr) fun p hp d _ hd ↦ ?_
  cases hd with
  | present hfind ha => exact h p hp _ hfind _ ha
  | absent _ hw => exact hdefault p hp _ hw

/-- Values found under the names of fields are what is written for them. -/
theorem exists_mem_of_forall₂ {fields : List (FieldHead × Shape)} {data : List Datum}
    {members : List (String × Json)} {R : FieldHead × Shape → Datum → Prop}
    (hdata : List.Forall₂ R fields data) (hkeys : Members.keys members = fields.map (·.1.name))
    (hvalues : List.Forall₂ Datum.Writes data (members.map Prod.snd)) {p : FieldHead × Shape}
    (hp : p ∈ fields) : ∃ d w, R p d ∧ d.Writes w ∧ (p.1.name, w) ∈ members := by
  induction hdata generalizing members with
  | nil => cases hp
  | @cons q d fields data hq hdata ih =>
    obtain ⟨v, values, hv, hvalues', hmap⟩ := List.forall₂_cons_left_iff.mp hvalues
    obtain ⟨⟨key, v'⟩, members, rfl, rfl, rfl⟩ := List.map_eq_cons_iff.mp hmap
    obtain ⟨hkey, hkeys'⟩ := List.cons.inj hkeys
    obtain rfl : key = q.1.name := hkey
    rcases List.mem_cons.mp hp with rfl | hp
    · exact ⟨d, v', hq, hv, List.mem_cons_self⟩
    · obtain ⟨d', w, hR, hw, hmem⟩ := ih hkeys' hvalues' hp
      exact ⟨d', w, hR, hw, List.mem_cons_of_mem _ hmem⟩

/-- **A record** can be submitted again if the data of all its fields can, where no name of a field
is repeated. -/
theorem makes_record {name : String} {documentation : Json} {fields : List (FieldHead × Shape)}
    {P : FieldHead × Shape → Json → Prop} (hnames : (fields.map (·.1.name)).Nodup)
    (h : ∀ members, v = .obj members → ∀ p ∈ fields, ∀ w,
      Members.find? p.1.name members = some w →
      Makes (p.2.validate look w) fun a ↦ a.datum.Resubmits (P p) p.2)
    (hdefault : ∀ p ∈ fields, ∀ w, p.1.default = some w → (Datum.ofJson w).Resubmits (P p) p.2) :
    Makes ((Shape.record name documentation fields).validate look v) fun a ↦
      a.datum.Resubmits (fun w ↦ ∃ members, w = .obj members ∧
        ∀ p ∈ fields, p.1.Agrees (P p) (Members.find? p.1.name members))
        (.record name documentation fields) := by
  intro a ha
  cases v with
  | obj members =>
    rw [Shape.validate] at ha
    obtain ⟨r, hr, ha⟩ := ha.of_bind
    obtain ⟨⟨data, fit⟩, rfl, rfl⟩ := exists_of_map_eq_ok ha.of_pure
    have hdata := makes_validateFields (h members rfl) hdefault (data, fit) hr
    refine ⟨Datum.coherent_ofFields (hdata.imp fun _ _ hd ↦ ⟨hd.coherent, hd.spares⟩), trivial, ?_⟩
    intro w hw
    cases hw with
    | @record _ _ _ members hkeys hvalues =>
      rw [RecordClass.names_ofFields] at hkeys
      refine ⟨members, rfl, fun p hp ↦ ?_⟩
      obtain ⟨d, w, hd, hw, hmem⟩ := exists_mem_of_forall₂ hdata hkeys hvalues hp
      rw [(Members.find?_eq_some_iff (hkeys ▸ hnames)).mpr hmem]
      exact hd.accepted w hw
  | _ =>
    rw [Shape.validate] at ha
    · cases ha.of_pure
    · simp

end Shapes

end SchemaTree
