import SchemaTree.Proofs.Acceptance
import SchemaTree.Proofs.Numbers
import SchemaTree.Shape.Validate

/-!
# What verdicts decide

A validation may never end, reports events and, if it ends, accepts or rejects. `Decides c p` says
that the validation `c` ends and accepts exactly if `p`. The lemmas of this file say for each shape
what validation against it decides when validation against its parts decides something; fits,
failures and events have no bearing.

A list is accepted if all its elements are, a record if each of its fields agrees with the member of
its name, and a union if one of its options accepts, in whatever order they are tried and wherever
the search ends.
-/

namespace SchemaTree

open Json

variable {α β γ : Type} {p q : Prop}

/-! ## Results -/

namespace Checked

@[simp] theorem isOk_map (f : α → β) (c : Checked α) : (c.map f).isOk = c.isOk := by
  cases c <;> rfl

@[simp] theorem isOk_within (step : Step) (c : Checked α) : (c.within step).isOk = c.isOk := by
  cases c <;> rfl

@[simp] theorem isOk_both (f : α → β → γ) (a : Checked α) (b : Checked β) :
    (Checked.both f a b).isOk = (a.isOk && b.isOk) := by
  cases a <;> cases b <;> rfl

@[simp] theorem isOk_ok (a : α) : Except.isOk (.ok a : Checked α) = true := rfl

@[simp] theorem isOk_fail (fault : Fault) (input : Json) :
    Except.isOk (Checked.fail fault input : Checked α) = false := rfl

end Checked

@[simp] theorem Verdict.isOk_take (value : Json) : (Verdict.take value).isOk = true := rfl

/-! ## Validations that end -/

/-- The validation ends with a result. -/
def Validating.Ends (c : Validating α) (a : α) : Prop := c.run.value = some a

namespace Validating.Ends

protected theorem pure (a : α) : Ends (pure a) a := rfl

protected theorem bind {c : Validating α} {f : α → Validating β} {a : α} {b : β} (hc : Ends c a)
    (hf : Ends (f a) b) : Ends (c >>= f) b := by
  unfold Ends at hc hf ⊢
  rw [OptionT.run_bind, Option.elimM, Logged.value_bind, hc]
  exact hf

protected theorem map {c : Validating α} {a : α} (f : α → β) (hc : Ends c a) :
    Ends (f <$> c) (f a) := by
  rw [map_eq_pure_bind]
  exact hc.bind (.pure _)

protected theorem lift (c : Logged α) : Ends (OptionT.lift c) c.value := rfl

protected theorem report (event : Event) : Ends (Validating.report event) () := rfl

end Validating.Ends

/-- The validation ends, and accepts exactly if `p`. -/
def Decides (c : Validating (Checked α)) (p : Prop) : Prop := ∃ r, c.Ends r ∧ (r.isOk ↔ p)

namespace Decides

theorem of_iff {c : Validating (Checked α)} (h : Decides c p) (hpq : p ↔ q) : Decides c q := by
  obtain ⟨r, hr, hp⟩ := h
  exact ⟨r, hr, hp.trans hpq⟩

protected theorem pure {r : Checked α} (h : r.isOk ↔ p) : Decides (pure r) p := ⟨r, .pure r, h⟩

end Decides

/-! ## Values without parts -/

theorem isOk_checkNumber_iff {v : Json} : (checkNumber v).isOk ↔ ScalarType.number.Admits v := by
  constructor
  · intro h
    cases v with
    | int n =>
      refine .whole (Decimal.isSome_ofInt?_iff.mp ?_)
      rw [checkNumber] at h
      cases hn : Decimal.ofInt? n with
      | none => simp [hn] at h
      | some x => rfl
    | float x =>
      rw [checkNumber] at h
      by_cases hx : isFinite x
      · simp only [isFinite, Bool.and_eq_true, Bool.not_eq_true'] at hx
        exact .real hx.1 hx.2
      · simp [hx] at h
    | _ => cases h
  · intro h
    cases h with
    | whole hn =>
      obtain ⟨x, hx⟩ := Option.isSome_iff_exists.mp (Decimal.isSome_ofInt?_iff.mpr hn)
      rw [checkNumber, hx]
      rfl
    | real hnan hinf =>
      rw [checkNumber, isFinite, hnan, hinf]
      rfl

theorem isOk_checkMoment_iff {v : Json} : (checkMoment v).isOk ↔ ScalarType.moment.Admits v := by
  constructor
  · intro h
    cases v with
    | str s =>
      rw [checkMoment] at h
      cases hform : MomentForm.ofText? s.toList with
      | none => simp [hform] at h
      | some form =>
        cases hm : Moment.ofForm form with
        | error fault => simp [hform, hm] at h
        | ok m => exact .moment hform hm
    | _ => cases h
  · intro h
    cases h with
    | moment hform hm => simp [checkMoment, hform, hm]

/-- **What the check of a scalar type decides.** -/
theorem isOk_checkScalar_iff {type : ScalarType} {v : Json} :
    (checkScalar type v).isOk ↔ type.Admits v := by
  cases type with
  | number => exact isOk_checkNumber_iff
  | moment => exact isOk_checkMoment_iff
  | text =>
    refine ⟨fun h ↦ ?_, fun h ↦ ?_⟩
    · cases v with
      | str s => exact .text s
      | _ => cases h
    · cases h
      rfl
  | flag =>
    refine ⟨fun h ↦ ?_, fun h ↦ ?_⟩
    · cases v with
      | bool b => exact .flag b
      | _ => cases h
    · cases h
      rfl

/-- The guard of a literal lets every value pass that is the same scalar. -/
theorem guard_admits_of_admits {s : Scalar} {v : Json} (h : s.admits v) : s.guard.admits v := by
  cases s <;> cases v <;> first | rfl | cases h

/-- **What the check of a literal decides**: the guard in front of it makes no difference. -/
theorem isOk_checkLiteral_iff {s : Scalar} {v : Json} : (checkLiteral s v).isOk ↔ s.admits v := by
  have hguard := guard_admits_of_admits (s := s) (v := v)
  cases s <;> simp only [checkLiteral] <;> split_ifs <;> simp_all

/-! ## Lists -/

theorem decides_checkElements {check : Json → Validating Verdict} {P : Json → Prop}
    {elements : List Json} (h : ∀ e ∈ elements, Decides (check e) (P e)) (index : Nat) :
    Decides (checkElements check index elements) (∀ e ∈ elements, P e) := by
  induction elements generalizing index with
  | nil => exact .pure (by simp)
  | cons e rest ih =>
    obtain ⟨hfirst, hrest⟩ := List.forall_mem_cons.mp h
    obtain ⟨r, hr, hpr⟩ := hfirst
    obtain ⟨s, hs, hps⟩ := ih hrest (index + 1)
    refine ⟨_, hr.bind (hs.bind (.pure _)), ?_⟩
    rw [Checked.cons, Checked.isOk_both, Checked.isOk_within, Bool.and_eq_true, hpr, hps,
      List.forall_mem_cons]

section Shapes

variable {look : String → Json → Validating Verdict} {v : Json} {shape : Shape}

theorem decides_list {P : Json → Prop}
    (h : ∀ elements, v = .arr elements → ∀ e ∈ elements, Decides (shape.validate look e) (P e)) :
    Decides ((Shape.list shape).validate look v) (∃ elements, v = .arr elements ∧
      ∀ e ∈ elements, P e) := by
  cases v with
  | arr elements =>
    rw [Shape.validate]
    obtain ⟨r, hr, hp⟩ := decides_checkElements (h elements rfl) 0
    refine ⟨_, hr.bind (.pure _), ?_⟩
    simp [listVerdict, hp]
  | _ =>
    rw [Shape.validate]
    · exact .pure (by simp)
    · simp

theorem decides_optional (h : v ≠ .null → Decides (shape.validate look v) p) :
    Decides ((Shape.optional shape).validate look v) (v = .null ∨ p) := by
  by_cases hv : v = .null
  · subst hv
    rw [Shape.validate]
    exact .pure (by simp)
  · rw [Shape.validate]
    · exact (h hv).of_iff (by simp [hv])
    · exact hv

theorem validate_describedBy (description : Json) :
    (shape.describedBy description).validate look v = shape.validate look v := by
  rw [Shape.describedBy]
  split
  · rw [Shape.validate]
  · rfl

/-! ## Records -/

/-- The member of an object agrees with a field: it is accepted, or absent with a default. -/
def FieldHead.Agrees (head : FieldHead) (P : Json → Prop) : Option Json → Prop
  | none => head.default.isSome
  | some v => P v

theorem isOk_fieldVerdict {members : List (String × Json)} {head : FieldHead}
    {present : Option Verdict} :
    (fieldVerdict members head present).isOk =
      present.elim head.default.isSome (fun verdict ↦ verdict.isOk) := by
  cases present with
  | some verdict => simp [fieldVerdict]
  | none => cases hd : head.default <;> simp [fieldVerdict, hd]

/-- Every field of a record decides about the member of its name. -/
theorem decides_validateFields {members : List (String × Json)}
    {fields : List (FieldHead × Shape)} {P : FieldHead × Shape → Json → Prop}
    (h : ∀ f ∈ fields, ∀ v, Members.find? f.1.name members = some v →
      Decides (f.2.validate look v) (P f v)) :
    Decides (Shape.validateFields look members fields)
      (∀ f ∈ fields, f.1.Agrees (P f) (Members.find? f.1.name members)) := by
  induction fields with
  | nil =>
    rw [Shape.validateFields]
    exact .pure (by simp)
  | cons f rest ih =>
    obtain ⟨hfirst, hrest⟩ := List.forall_mem_cons.mp h
    obtain ⟨s, hs, hps⟩ := ih hrest
    obtain ⟨head, shape⟩ := f
    rw [Shape.validateFields]
    cases hfind : Members.find? head.name members with
    | none =>
      refine ⟨_, .bind (.pure none) (hs.bind (.pure _)), ?_⟩
      simp [Checked.consField, isOk_fieldVerdict, hps, hfind, FieldHead.Agrees]
    | some v =>
      obtain ⟨r, hr, hpr⟩ := hfirst v hfind
      refine ⟨_, .bind (hr.map some) (hs.bind (.pure _)), ?_⟩
      simp [Checked.consField, isOk_fieldVerdict, hpr, hps, hfind, FieldHead.Agrees]

theorem decides_record {name : String} {documentation : Json} {fields : List (FieldHead × Shape)}
    {P : FieldHead × Shape → Json → Prop}
    (h : ∀ members, v = .obj members → ∀ f ∈ fields, ∀ w,
      Members.find? f.1.name members = some w → Decides (f.2.validate look w) (P f w)) :
    Decides ((Shape.record name documentation fields).validate look v)
      (∃ members, v = .obj members ∧
        ∀ f ∈ fields, f.1.Agrees (P f) (Members.find? f.1.name members)) := by
  cases v with
  | obj members =>
    rw [Shape.validate]
    obtain ⟨r, hr, hp⟩ := decides_validateFields (h members rfl)
    refine ⟨_, hr.bind (.pure _), ?_⟩
    simp [recordVerdict, hp]
  | _ =>
    rw [Shape.validate]
    · exact .pure (by simp)
    · simp

/-! ## Unions -/

theorem isOk_verdict_add {label : String} {verdict : Verdict} {choice : Choice} :
    (choice.add label verdict).verdict.isOk = (choice.verdict.isOk || verdict.isOk) := by
  cases choice with
  | undecided failures => cases verdict <;> rfl
  | best old =>
    cases verdict with
    | error failures => rfl
    | ok a =>
      rw [Choice.add]
      split <;> rfl

theorem isOk_of_settles {verdict : Verdict} (h : Choice.settles verdict) : verdict.isOk := by
  cases verdict with
  | ok a => rfl
  | error failures => simp [Choice.settles] at h

/-- An option that ends the search has been accepted, so the options behind it do not matter. -/
theorem decides_validateOptions {ι : Type} {xs : List ι} {f : ι → Shape} {P : ι → Prop}
    (h : ∀ x ∈ xs, Decides ((f x).validate look v) (P x)) (choice : Choice) :
    Decides (Choice.verdict <$> Shape.validateOptions look v choice (xs.map f))
      (choice.verdict.isOk ∨ ∃ x ∈ xs, P x) := by
  induction xs generalizing choice with
  | nil =>
    rw [List.map_nil, Shape.validateOptions]
    exact .pure (by simp)
  | cons x rest ih =>
    obtain ⟨⟨r, hr, hpr⟩, hrest⟩ := List.forall_mem_cons.mp h
    rw [List.map_cons, Shape.validateOptions, map_bind]
    -- if the option settles the choice, the rest is not validated at all
    by_cases hsettles : Choice.settles r
    · have hok := isOk_of_settles hsettles
      refine ⟨(choice.add (f x).label r).verdict, hr.bind ?_, ?_⟩
      · simpa [hsettles] using Validating.Ends.pure _
      · simp [isOk_verdict_add, hok, hpr.mp hok]
    · obtain ⟨s, hs, hps⟩ := ih hrest (choice.add (f x).label r)
      refine ⟨s, hr.bind ?_, ?_⟩
      · simpa [hsettles] using hs
      · simp [hps, isOk_verdict_add, hpr, or_assoc]

theorem decides_union {ι : Type} {xs : List ι} {f : ι → Shape} {P : ι → Prop}
    (h : ∀ x ∈ xs, Decides ((f x).validate look v) (P x)) :
    Decides ((Shape.union (xs.map f)).validate look v) (∃ x ∈ xs, P x) := by
  rw [Shape.validate, bind_pure_comp]
  exact (decides_validateOptions h (.undecided [])).of_iff (or_iff_right Bool.false_ne_true)

theorem decides_anything : Decides (Shape.anything.validate look v) True := by
  rw [Shape.validate]
  exact .pure (by simp)

end Shapes

end SchemaTree
