import SchemaTree.Proofs.Codec
import SchemaTree.Tree.Edit
import Mathlib.Data.List.Lex
import Mathlib.Data.Prod.Lex

/-!
# Documents that cannot be read

A place in a document is given by the turns that reading takes on the way to it: into a child, or to
one of the checks of an item. Turns are ordered as reading takes them, so the places of a document
are ordered by the lexicographic order of their turns, and the fault that comes first is the one
with the least place.

`Json.HasFault` says which faults there are, each at its place and without regard to any other: a
fault below an item counts whether or not reading gets past the checks of the item. Reading fails
exactly if there is a fault, and then reports the first one (`reading_blames_first_fault`). Steps
are put together by `Blames.bind`: where all faults of one step come before those of the next, the
first of them all is the one that the two steps in turn stop at.

Besides what is no object, no reference or no list there is one more fault. Ids, names, kinds and
the targets of references are coerced to text, and a value with a whole number of too many digits
has none; that error does not say where it comes from (`exists_incoercible`). -/

namespace SchemaTree

open Json

/-! ## Places -/

/-- The key of a list of children. -/
def Slot.key : Slot → String
  | .fields => "fields"
  | .options => "options"

/-- What is coerced to text, apart from references. -/
inductive TextKey where
  | id
  | name
  | kind
deriving DecidableEq

/-- The key of what is coerced to text. -/
def TextKey.key : TextKey → String
  | id => "id"
  | name => "name"
  | kind => "type"

/-- What reading turns to at an item. -/
inductive Turn where
  /-- The check that the item is an object. -/
  | object
  /-- The check of its reference. -/
  | reference
  /-- The coercion of what is to be a text. -/
  | text (key : TextKey)
  /-- The check that children are a list. -/
  | list (slot : Slot)
  /-- The child at an index. -/
  | child (slot : Slot) (index : Nat)
deriving DecidableEq

namespace Turn

/-- The stages of reading an item. -/
def stage : Turn → Nat
  | object => 0
  | reference => 1
  | text .id => 2
  | text .name => 3
  | text .kind => 4
  | list .fields => 5
  | child .fields _ => 6
  | list .options => 7
  | child .options _ => 8

/-- The position within a stage. -/
def index : Turn → Nat
  | child _ index => index
  | _ => 0

/-- The position of a turn in reading order. -/
def rank (t : Turn) : Nat ×ₗ Nat := toLex (t.stage, t.index)

theorem rank_injective : Function.Injective rank := by
  intro t u h
  obtain ⟨hstage, hindex⟩ := Prod.mk.inj (toLex_inj.mp h)
  rcases t with _ | _ | (_ | _ | _) | (_ | _) | ⟨_ | _, i⟩ <;>
    rcases u with _ | _ | (_ | _ | _) | (_ | _) | ⟨_ | _, j⟩ <;> simp_all [stage, index]

/-- Turns in reading order. -/
instance : LinearOrder Turn := LinearOrder.lift' rank rank_injective

variable {t u : Turn} {place other : List Turn}

theorem cons_lt_cons_of_stage (h : t.stage < u.stage) : t :: place < u :: other :=
  List.Lex.rel (Prod.Lex.toLex_lt_toLex.mpr (.inl h))

theorem cons_lt_cons_of_index {slot : Slot} {i j : Nat} (h : i < j) :
    child slot i :: place < child slot j :: other := by
  refine List.Lex.rel (Prod.Lex.toLex_lt_toLex.mpr (.inr ⟨?_, h⟩))
  cases slot with
  | fields => rfl
  | options => rfl

/-- What is turned to for one of the slots belongs to it. -/
theorem stage_child (slot : Slot) (index : Nat) :
    (child slot index).stage = (list slot).stage + 1 := by
  cases slot with
  | fields => rfl
  | options => rfl

/-- The path of the item that a turn leads to. A check stays where it is. -/
def pathFrom (path : String) : Turn → String
  | child slot index => childPath path slot.key index
  | _ => path

end Turn

/-- The turns that lead to a check of an item. -/
abbrev Place := List Turn

/-- The path of the item at a place. -/
def Place.path (start : String) (place : Place) : String := place.foldl Turn.pathFrom start

/-! ## Faults -/

/-- Members refer to something, but not by an object that names it, or by a name without a text. -/
inductive Json.HasReferenceFault (members : List (String × Json)) : DecodeFault → Prop
  | unnamed {value : Json} (hvalue : Members.find? "lazy" members = some value)
    (hne : value ≠ .null) (h : ∀ target, value.get? "refId" = some target → target = .null) :
    HasReferenceFault members .badReference
  | tooLong {value target : Json} (hvalue : Members.find? "lazy" members = some value)
    (htarget : value.get? "refId" = some target) (hlong : target.excess?.isSome) :
    HasReferenceFault members .tooLong

/-- Members that have under a key what is coerced to text and has none. -/
def Json.HasTextFault (members : List (String × Json)) (key : TextKey) : Prop :=
  ∃ value, Members.find? key.key members = some value ∧ value.excess?.isSome

mutual

/-- A value has a fault at a place, as an item. It is no object; or something is wrong with its
reference, with what is coerced to text or with its children. -/
inductive Json.HasFault : Json → Place → DecodeFault → Prop
  | object {value : Json} (h : ∀ members, value ≠ .obj members) :
    HasFault value [.object] (.itemNotObject value.typeWord)
  | reference {members : List (String × Json)} {fault : DecodeFault}
    (h : HasReferenceFault members fault) : HasFault (.obj members) [.reference] fault
  | text {members : List (String × Json)} {key : TextKey} (h : HasTextFault members key) :
    HasFault (.obj members) [.text key] .tooLong
  | children {members : List (String × Json)} {slot : Slot} {place : Place} {fault : DecodeFault}
    (h : HasFaultUnder slot members place fault) : HasFault (.obj members) place fault

/-- Members have a fault at a place in one of their lists of children: what should be a list is
none, or a child has a fault. -/
inductive Json.HasFaultUnder : Slot → List (String × Json) → Place → DecodeFault → Prop
  | list {slot : Slot} {members : List (String × Json)} {value : Json}
    (hvalue : Members.find? slot.key members = some value) (hne : value ≠ .null)
    (h : ∀ elements, value ≠ .arr elements) :
    HasFaultUnder slot members [.list slot] (.childrenNotList slot.key value.typeWord)
  | child {slot : Slot} {members : List (String × Json)} {elements : List Json} {index : Nat}
    {child : Json} {place : Place} {fault : DecodeFault}
    (hvalue : Members.find? slot.key members = some (.arr elements))
    (hchild : elements[index]? = some child) (h : HasFault child place fault) :
    HasFaultUnder slot members (.child slot index :: place) fault

end

/-- A value has a fault at a place, as a document. Of the root only the fields are looked at. -/
inductive Json.HasRootFault : Json → Place → DecodeFault → Prop
  | object {value : Json} (h : ∀ members, value ≠ .obj members) :
    HasRootFault value [.object] (.rootNotObject value.typeWord)
  | fields {members : List (String × Json)} {place : Place} {fault : DecodeFault}
    (h : HasFaultUnder .fields members place fault) : HasRootFault (.obj members) place fault

/-- A place of a kind of faults, at or before all others. -/
def IsFirst (faults : Place → DecodeFault → Prop) (place : Place) : Prop :=
  ∀ other fault, faults other fault → place ≤ other

/-! ## Steps that stop at the first fault -/

/-- A step fails exactly if there is one of some faults, and by the first of them. -/
def Blames {α : Type} (start : String) (faults : Place → DecodeFault → Prop) (step : Reading α) :
    Prop :=
  ∀ ids, match (step.run ids).value.1 with
    | .ok _ => ∀ place fault, ¬ faults place fault
    | .error e => ∃ place fault, faults place fault ∧ IsFirst faults place ∧
        e = ⟨Place.path start place, fault⟩

namespace Blames

variable {α β : Type} {start : String} {faults more : Place → DecodeFault → Prop}
  {step : Reading α}

theorem congr (h : Blames start faults step)
    (hiff : ∀ place fault, faults place fault ↔ more place fault) :
    Blames start more step := by
  have heq : faults = more := funext fun place ↦ funext fun fault ↦ propext (hiff place fault)
  exact heq ▸ h

/-- A step that cannot fail. -/
theorem of_yields (h : ∀ ids, ∃ a ids', Yields step ids a ids') :
    Blames start (fun _ _ ↦ False) step := by
  intro ids
  obtain ⟨a, ids', hstep⟩ := h ids
  have hresult : (step.run ids).value.1 = .ok a := congrArg Prod.fst hstep
  rw [hresult]
  exact fun _ _ ↦ id

protected theorem pure (a : α) : Blames start (fun _ _ ↦ False) (pure a) :=
  of_yields fun ids ↦ ⟨a, ids, .pure a ids⟩

/-- A step that fails by a check of the item that is read. -/
protected theorem throw (turn : Turn) (hturn : turn.pathFrom start = start) (fault : DecodeFault) :
    Blames start (fun place fault' ↦ place = [turn] ∧ fault' = fault)
      (throw ⟨start, fault⟩ : Reading α) := by
  intro ids
  refine ⟨[turn], fault, ⟨rfl, rfl⟩, ?_, congrArg (DecodeError.mk · fault) hturn.symm⟩
  rintro _ _ ⟨rfl, -⟩
  exact le_refl _

/-- Two steps in turn stop at the first fault of both, if those of the first step come first. -/
protected theorem bind {f : α → Reading β} (hstep : Blames start faults step)
    (hf : ∀ a, Blames start more (f a))
    (hlt : ∀ place fault other fault', faults place fault → more other fault' → place < other) :
    Blames start (fun place fault ↦ faults place fault ∨ more place fault) (step >>= f) := by
  intro ids
  have hfirst := hstep ids
  have hrun : ((step >>= f).run ids).value.1 =
      match (step.run ids).value with
      | (.ok a, ids) => ((f a).run ids).value.1
      | (.error e, _) => .error e := by
    change (StateT.run (ExceptT.run (step >>= f)) ids).value.1 = _
    rw [ExceptT.run_bind, StateT.run_bind, Logged.value_bind]
    change _ = match (StateT.run (ExceptT.run step) ids).value with
      | (.ok a, ids) => _
      | (.error e, _) => _
    match (StateT.run (ExceptT.run step) ids).value with
    | (.ok _, _) => rfl
    | (.error _, _) => rfl
  rw [hrun]
  match h : (step.run ids).value with
  | (.error e, _) =>
    rw [h] at hfirst
    obtain ⟨place, fault, hplace, hleast, rfl⟩ := hfirst
    refine ⟨place, fault, .inl hplace, ?_, rfl⟩
    rintro other fault' (hother | hother)
    · exact hleast other fault' hother
    · exact le_of_lt (hlt _ _ _ _ hplace hother)
  | (.ok a, ids') =>
    rw [h] at hfirst
    have hnone : ∀ place fault, ¬ faults place fault := hfirst
    have hboth (place : Place) (fault : DecodeFault) :
        more place fault ↔ faults place fault ∨ more place fault :=
      (or_iff_right (hnone place fault)).symm
    exact (hf a).congr hboth ids'

/-- What happens behind a turn. -/
theorem under (turn : Turn) (h : Blames (turn.pathFrom start) faults step) :
    Blames start (fun place fault ↦ ∃ rest, place = turn :: rest ∧ faults rest fault) step := by
  intro ids
  have hrest := h ids
  match hresult : (step.run ids).value.1 with
  | .ok a =>
    rw [hresult] at hrest
    rintro _ fault ⟨rest, -, hfault⟩
    exact hrest rest fault hfault
  | .error e =>
    rw [hresult] at hrest
    obtain ⟨rest, fault, hfault, hleast, rfl⟩ := hrest
    refine ⟨turn :: rest, fault, ⟨rest, rfl, hfault⟩, ?_, rfl⟩
    rintro _ fault' ⟨other, rfl, hother⟩
    exact List.cons_le_cons turn (hleast other fault' hother)

end Blames

/-! ## Reading -/

section Reading

variable {path : String} {members : List (String × Json)} {elements : List Json}

theorem blames_readPlain (path : String) (value : Json) (turn : Turn)
    (hturn : turn.pathFrom path = path) :
    Blames path (fun place fault ↦ place = [turn] ∧ fault = .tooLong ∧ value.excess?.isSome)
      (readPlain path value) := by
  rw [readPlain]
  split
  · next hlong =>
    exact (Blames.throw turn hturn _).congr fun place fault ↦
      and_congr_right' (and_iff_left hlong).symm
  · next hshort =>
    exact (Blames.pure _).congr fun place fault ↦ iff_of_false id fun h ↦ hshort h.2.2

theorem blames_readReference (path : String) (members : List (String × Json)) :
    Blames path (fun place fault ↦ place = [.reference] ∧ HasReferenceFault members fault)
      (readReference path members) := by
  rw [readReference]
  split
  · next h =>
    refine (Blames.pure none).congr fun place fault ↦ iff_of_false id ?_
    rintro ⟨-, ⟨hvalue, -⟩ | ⟨hvalue, htarget⟩⟩
    · cases h.symm.trans hvalue
    · cases h.symm.trans hvalue
  · next h =>
    refine (Blames.pure none).congr fun place fault ↦ iff_of_false id ?_
    rintro ⟨-, ⟨hvalue, hne, -⟩ | ⟨hvalue, htarget⟩⟩
    · exact hne (Option.some.inj (h.symm.trans hvalue)).symm
    · obtain rfl := Option.some.inj (h.symm.trans hvalue)
      cases htarget
  · next value hne h =>
    have hbad (hnull : ∀ target, value.get? "refId" = some target → target = .null) :
        Blames path (fun place fault ↦ place = [.reference] ∧ HasReferenceFault members fault)
          (throw ⟨path, .badReference⟩ : Reading (Option String)) := by
      refine (Blames.throw .reference rfl _).congr fun place fault ↦ and_congr_right' ?_
      constructor
      · rintro rfl
        exact .unnamed h (fun hvalue ↦ hne (hvalue ▸ rfl)) hnull
      · rintro (_ | ⟨hvalue, htarget, hlong⟩)
        · rfl
        · obtain rfl := Option.some.inj (h.symm.trans hvalue)
          rw [hnull _ htarget] at hlong
          cases hlong
    split
    · next hnone =>
      refine hbad fun target htarget ↦ ?_
      cases hnone.symm.trans htarget
    · next hnull =>
      exact hbad fun target htarget ↦ (Option.some.inj (hnull.symm.trans htarget)).symm
    · next target hsome htarget =>
      refine ((blames_readPlain path target .reference rfl).bind (fun text ↦ .pure (some text))
        fun _ _ _ _ _ ↦ False.elim).congr fun place fault ↦ ?_
      rw [or_false]
      refine and_congr_right' ⟨?_, ?_⟩
      · rintro ⟨rfl, hlong⟩
        exact .tooLong h htarget hlong
      · rintro (⟨hvalue, -, hnull⟩ | ⟨hvalue, htarget', hlong⟩)
        · obtain rfl := Option.some.inj (h.symm.trans hvalue)
          exact absurd (hnull target htarget) hsome
        · obtain rfl := Option.some.inj (h.symm.trans hvalue)
          obtain rfl := Option.some.inj (htarget.symm.trans htarget')
          exact ⟨rfl, hlong⟩

/-- What is coerced to text under a key, unless it is missing, is at fault if it has none. -/
theorem blames_readText {value : Json} (key : TextKey) (path : String)
    (hvalue : Members.find? key.key members = some value ∨
      Members.find? key.key members = none ∧ value.excess? = none) :
    Blames path (fun place fault ↦ place = [.text key] ∧ fault = .tooLong ∧
        HasTextFault members key)
      (readPlain path value) := by
  refine (blames_readPlain path value (.text key) rfl).congr fun place fault ↦
    and_congr_right' (and_congr_right' ?_)
  rcases hvalue with hsome | ⟨hnone, hshort⟩
  · rw [HasTextFault, hsome]
    simp
  · rw [HasTextFault, hnone, hshort]
    simp

theorem blames_readId (path : String) (members : List (String × Json)) :
    Blames path (fun place fault ↦ place = [.text .id] ∧ fault = .tooLong ∧
      HasTextFault members .id)
      (readId path members) := by
  have hfresh (h : ¬ HasTextFault members .id) : Blames path
      (fun place fault ↦ place = [.text .id] ∧ fault = .tooLong ∧ HasTextFault members .id)
      (modifyGet IdSupply.fresh) :=
    (Blames.of_yields fun s ↦ ⟨_, _, yields_modifyGet_iff.mpr rfl⟩).congr fun place fault ↦
      iff_of_false id fun hfault ↦ h hfault.2.2
  rw [readId]
  split
  · next id hid =>
    split
    · exact blames_readText .id path (.inl hid)
    · next htruthy =>
      refine hfresh ?_
      rintro ⟨value, hvalue, hlong⟩
      obtain rfl := Option.some.inj (hid.symm.trans hvalue)
      exact htruthy (truthy_of_excess hlong)
  · next hid =>
    refine hfresh ?_
    rintro ⟨value, hvalue, -⟩
    cases hid.symm.trans hvalue

/-- The default of a value that is missing has a text. -/
theorem find?_eq_some_getD_or (key text : String) (members : List (String × Json)) :
    Members.find? key members = some ((Members.find? key members).getD (.str text)) ∨
      Members.find? key members = none ∧
        ((Members.find? key members).getD (.str text)).excess? = none := by
  cases Members.find? key members with
  | none => exact .inr ⟨rfl, rfl⟩
  | some value => exact .inl rfl

theorem blames_readKind (path : String) (members : List (String × Json)) :
    Blames path (fun place fault ↦ place = [.text .kind] ∧ fault = .tooLong ∧
        HasTextFault members .kind)
      (readKind path members) := by
  rw [readKind]
  refine ((blames_readText .kind path (find?_eq_some_getD_or _ _ members)).bind (fun text ↦
    .of_yields fun s ↦ ?_) fun _ _ _ _ _ ↦ False.elim).congr fun _ _ ↦ iff_of_eq (or_false _)
  dsimp only
  split
  · exact ⟨_, _, .pure _ s⟩
  · exact ⟨_, _, .bind (.report _ s) (.pure _ s)⟩

/-- Attributes are read unless the reference or what is coerced to text is at fault. -/
theorem blames_readAttributes (path : String) (members : List (String × Json)) :
    Blames path (fun place fault ↦ place = [.reference] ∧ HasReferenceFault members fault ∨
        ∃ key, place = [.text key] ∧ fault = .tooLong ∧ HasTextFault members key)
      (readAttributes path members) := by
  rw [readAttributes]
  have hname : Blames path _ (readName path members) :=
    blames_readText .name path (find?_eq_some_getD_or _ _ members)
  refine ((blames_readReference path members).bind (fun reference ↦
    (blames_readId path members).bind (fun id ↦ hname.bind (fun name ↦
      (blames_readKind path members).bind (fun kind ↦ .pure _) fun _ _ _ _ _ ↦ False.elim)
        ?_) ?_) ?_).congr fun place fault ↦ ?_
  · rintro _ _ _ _ ⟨rfl, -⟩ (⟨rfl, -⟩ | hfalse)
    · exact Turn.cons_lt_cons_of_stage (by decide)
    · exact hfalse.elim
  · rintro _ _ _ _ ⟨rfl, -⟩ (⟨rfl, -⟩ | ⟨rfl, -⟩ | hfalse)
    · exact Turn.cons_lt_cons_of_stage (by decide)
    · exact Turn.cons_lt_cons_of_stage (by decide)
    · exact hfalse.elim
  · rintro _ _ _ _ ⟨rfl, -⟩ (⟨rfl, -⟩ | ⟨rfl, -⟩ | ⟨rfl, -⟩ | hfalse)
    · exact Turn.cons_lt_cons_of_stage (by decide)
    · exact Turn.cons_lt_cons_of_stage (by decide)
    · exact Turn.cons_lt_cons_of_stage (by decide)
    · exact hfalse.elim
  · refine or_congr_right ?_
    rw [or_false]
    constructor
    · rintro (h | h | h)
      · exact ⟨_, h⟩
      · exact ⟨_, h⟩
      · exact ⟨_, h⟩
    · rintro ⟨_ | _ | _, h⟩
      · exact .inl h
      · exact .inr (.inl h)
      · exact .inr (.inr h)

/-- A value in which reading finds the first fault, wherever it stands. -/
def Json.BlamedAsItem (value : Json) : Prop :=
  ∀ path, Blames path value.HasFault (readItem path value)

theorem blames_readItems (h : ∀ e ∈ elements, e.BlamedAsItem) (path : String) (slot : Slot)
    (index : Nat) :
    Blames path (fun place fault ↦ ∃ i child rest, elements[i]? = some child ∧
        place = .child slot (index + i) :: rest ∧ child.HasFault rest fault)
      (readItems path slot.key index elements) := by
  induction elements generalizing index with
  | nil =>
    refine (Blames.pure []).congr fun place fault ↦ iff_of_false id ?_
    rintro ⟨i, child, rest, hchild, -⟩
    exact absurd hchild (by simp)
  | cons e es ih =>
    obtain ⟨he, hes⟩ := List.forall_mem_cons.mp h
    have hfirst : Blames path (fun place fault ↦
        ∃ rest, place = .child slot index :: rest ∧ e.HasFault rest fault)
        (readItem (childPath path slot.key index) e) := (he _).under (.child slot index)
    rw [readItems]
    refine (hfirst.bind (fun x ↦ (ih hes (index + 1)).bind (fun rest ↦ .pure (x :: rest))
      fun _ _ _ _ _ ↦ False.elim) ?_).congr fun place fault ↦ ?_
    · rintro _ fault _ fault' ⟨rest, rfl, -⟩ (⟨i, child, rest', -, rfl, -⟩ | hfalse)
      · exact Turn.cons_lt_cons_of_index (by omega)
      · exact hfalse.elim
    · rw [or_false]
      constructor
      · rintro (⟨rest, rfl, hrest⟩ | ⟨i, child, rest, hchild, rfl, hrest⟩)
        · exact ⟨0, e, rest, rfl, rfl, hrest⟩
        · exact ⟨i + 1, child, rest, hchild, by rw [Nat.add_right_comm, Nat.add_assoc], hrest⟩
      · rintro ⟨i, child, rest, hchild, rfl, hrest⟩
        cases i with
        | zero =>
          obtain rfl : e = child := Option.some.inj hchild
          exact .inl ⟨rest, rfl, hrest⟩
        | succ i =>
          exact .inr ⟨i, child, rest, hchild, by rw [Nat.add_right_comm, Nat.add_assoc], hrest⟩

theorem hasFaultUnder_arr_iff {slot : Slot} {place : Place} {fault : DecodeFault}
    (h : Members.find? slot.key members = some (.arr elements)) :
    HasFaultUnder slot members place fault ↔ ∃ i child rest, elements[i]? = some child ∧
      place = .child slot (0 + i) :: rest ∧ child.HasFault rest fault := by
  constructor
  · rintro (⟨hvalue, -, hlist⟩ | ⟨hvalue, hchild, hrest⟩)
    · exact absurd (Option.some.inj (hvalue.symm.trans h)) (hlist elements)
    · obtain rfl := Json.arr.inj (Option.some.inj (hvalue.symm.trans h))
      exact ⟨_, _, _, hchild, by rw [Nat.zero_add], hrest⟩
  · rintro ⟨i, child, rest, hchild, rfl, hrest⟩
    rw [Nat.zero_add]
    exact .child h hchild hrest

theorem blames_readSlot (h : ∀ m ∈ members, ∀ elements, m.2 = .arr elements →
      ∀ e ∈ elements, e.BlamedAsItem) (path : String) (slot : Slot) :
    Blames path (HasFaultUnder slot members) (readSlot path slot.key members) := by
  rw [readSlot_eq]
  match hfind : Members.find? slot.key members with
  | none =>
    refine (Blames.pure none).congr fun place fault ↦ iff_of_false id ?_
    rintro (⟨hvalue, -⟩ | ⟨hvalue, -⟩)
    · exact absurd (hfind.symm.trans hvalue) nofun
    · exact absurd (hfind.symm.trans hvalue) nofun
  | some .null =>
    refine (Blames.pure none).congr fun place fault ↦ iff_of_false id ?_
    rintro (⟨hvalue, hne, -⟩ | ⟨hvalue, -⟩)
    · exact hne (Option.some.inj (hfind.symm.trans hvalue)).symm
    · exact absurd (Option.some.inj (hfind.symm.trans hvalue)) nofun
  | some (.arr elements) =>
    have helements := h _ (Members.mem_of_find?_eq_some hfind) elements rfl
    refine ((blames_readItems helements path slot 0).bind (fun xs ↦ .pure (some xs))
      fun _ _ _ _ _ ↦ False.elim).congr fun place fault ↦ ?_
    rw [or_false, hasFaultUnder_arr_iff hfind]
  | some (.bool b) | some (.int n) | some (.float x) | some (.str s) | some (.obj ms) =>
    refine (Blames.throw (.list slot) rfl _).congr fun place fault ↦ ?_
    constructor
    · rintro ⟨rfl, rfl⟩
      exact .list hfind nofun nofun
    · rintro (⟨hvalue, -, -⟩ | ⟨hvalue, -⟩)
      · obtain rfl := Option.some.inj (hfind.symm.trans hvalue)
        exact ⟨rfl, rfl⟩
      · exact absurd (Option.some.inj (hfind.symm.trans hvalue)) nofun

/-- The faults under a slot are at turns to that slot. -/
theorem Json.HasFaultUnder.exists_eq_cons {slot : Slot} {place : Place} {fault : DecodeFault}
    (h : HasFaultUnder slot members place fault) :
    ∃ turn rest, place = turn :: rest ∧ (Turn.list slot).stage ≤ turn.stage ∧
      turn.stage ≤ (Turn.list slot).stage + 1 := by
  match h with
  | .list _ _ _ => exact ⟨_, _, rfl, le_refl _, Nat.le_succ _⟩
  | .child _ _ _ => exact ⟨_, _, rfl, by rw [Turn.stage_child]; omega, by rw [Turn.stage_child]⟩

/-- The faults under a slot come after those of the attributes. -/
theorem Json.HasFaultUnder.attribute_lt {slot : Slot} {place : Place} {fault : DecodeFault}
    {turn : Turn} (h : HasFaultUnder slot members place fault)
    (hturn : turn.stage ≤ (Turn.text .kind).stage) : [turn] < place := by
  obtain ⟨turn', rest, rfl, hle, -⟩ := h.exists_eq_cons
  have hslot : (Turn.text .kind).stage < (Turn.list slot).stage := by cases slot <;> decide
  exact Turn.cons_lt_cons_of_stage ((hturn.trans_lt hslot).trans_le hle)

theorem Json.HasFaultUnder.fields_lt_options {place other : Place} {fault fault' : DecodeFault}
    (h : HasFaultUnder .fields members place fault)
    (h' : HasFaultUnder .options members other fault') : place < other := by
  obtain ⟨turn, rest, rfl, -, hle⟩ := h.exists_eq_cons
  obtain ⟨turn', rest', rfl, hle', -⟩ := h'.exists_eq_cons
  have hslots : (Turn.list .fields).stage + 1 < (Turn.list .options).stage := by decide
  exact Turn.cons_lt_cons_of_stage (hle.trans_lt (hslots.trans_le hle'))

theorem hasFault_obj_iff {place : Place} {fault : DecodeFault} :
    (Json.obj members).HasFault place fault ↔
      (place = [.reference] ∧ HasReferenceFault members fault ∨
        ∃ key, place = [.text key] ∧ fault = .tooLong ∧ HasTextFault members key) ∨
      HasFaultUnder .fields members place fault ∨ HasFaultUnder .options members place fault := by
  constructor
  · intro h
    match h with
    | .object hobj => exact absurd rfl (hobj members)
    | .reference hreference => exact .inl (.inl ⟨rfl, hreference⟩)
    | .text htext => exact .inl (.inr ⟨_, rfl, rfl, htext⟩)
    | @HasFault.children _ .fields _ _ hunder => exact .inr (.inl hunder)
    | @HasFault.children _ .options _ _ hunder => exact .inr (.inr hunder)
  · rintro ((⟨rfl, hreference⟩ | ⟨key, rfl, rfl, htext⟩) | hunder | hunder)
    · exact .reference hreference
    · exact .text htext
    · exact .children hunder
    · exact .children hunder

theorem blames_readItem_obj (h : ∀ m ∈ members, ∀ elements, m.2 = .arr elements →
      ∀ e ∈ elements, e.BlamedAsItem) : (Json.obj members).BlamedAsItem := by
  intro path
  rw [readItem]
  refine ((blames_readAttributes path members).bind (fun a ↦
    (blames_readSlot h path .fields).bind (fun fields ↦
      (blames_readSlot h path .options).bind (fun options ↦ .pure _) fun _ _ _ _ _ ↦ False.elim)
        ?_) ?_).congr fun place fault ↦ ?_
  · rintro place fault other fault' hfields (hoptions | hfalse)
    · exact hfields.fields_lt_options hoptions
    · exact hfalse.elim
  · rintro place fault other fault' hattribute hchildren
    obtain ⟨turn, rfl, hturn⟩ : ∃ turn, place = [turn] ∧
        turn.stage ≤ (Turn.text .kind).stage := by
      rcases hattribute with ⟨rfl, -⟩ | ⟨key, rfl, -⟩
      · exact ⟨_, rfl, by decide⟩
      · exact ⟨_, rfl, by cases key <;> decide⟩
    rcases hchildren with hfields | hoptions | hfalse
    · exact hfields.attribute_lt hturn
    · exact hoptions.attribute_lt hturn
    · exact hfalse.elim
  · rw [or_false, hasFault_obj_iff]

/-- **Every value is read up to its first fault**, as an item and within a list. -/
theorem blamedAsItem (value : Json) :
    value.BlamedAsItem ∧ ∀ elements, value = .arr elements → ∀ e ∈ elements, e.BlamedAsItem := by
  have hother {value : Json} (hne : ∀ members, value ≠ .obj members) : value.BlamedAsItem := by
    intro path
    have hthrow : readItem path value = throw ⟨path, .itemNotObject value.typeWord⟩ := by
      cases value with
      | obj members => exact absurd rfl (hne members)
      | _ => rfl
    rw [hthrow]
    refine (Blames.throw .object rfl _).congr fun place fault ↦ ?_
    constructor
    · rintro ⟨rfl, rfl⟩
      exact .object hne
    · intro hfault
      match hfault with
      | .object _ => exact ⟨rfl, rfl⟩
      | .reference _ | .text _ | .children _ => exact absurd rfl (hne _)
  induction value using Json.induction with
  | arr elements ih =>
    refine ⟨hother nofun, ?_⟩
    rintro _ h e he
    obtain rfl := Json.arr.inj h
    exact (ih e he).1
  | obj members ih => exact ⟨blames_readItem_obj fun m hm ↦ (ih m hm).2, nofun⟩
  | null | bool | int | float | str => exact ⟨hother nofun, nofun⟩

theorem blames_readDocument (value : Json) :
    Blames rootPath value.HasRootFault (readDocument value) := by
  have hother (hne : ∀ members, value ≠ .obj members) :
      Blames rootPath value.HasRootFault
        (throw ⟨rootPath, .rootNotObject value.typeWord⟩ : Reading Document) := by
    refine (Blames.throw .object rfl _).congr fun place fault ↦ ?_
    constructor
    · rintro ⟨rfl, rfl⟩
      exact .object hne
    · intro hfault
      cases hfault with
      | object _ => exact ⟨rfl, rfl⟩
      | fields _ => exact absurd rfl (hne _)
  cases value with
  | obj members =>
    rw [readDocument]
    refine ((blames_readSlot (fun m _ ↦ (blamedAsItem m.2).2) rootPath .fields).bind
      (fun fields ↦ .pure _) fun _ _ _ _ _ ↦ False.elim).congr fun place fault ↦ ?_
    rw [or_false]
    constructor
    · exact .fields
    · intro hfault
      cases hfault with
      | object hobj => exact absurd rfl (hobj members)
      | fields hunder => exact hunder
  | null | bool | int | float | str | arr => exact hother fun _ h ↦ by cases h

end Reading

/-! ## What there is to blame -/

theorem Json.HasReferenceFault.unique {members : List (String × Json)} {fault fault' : DecodeFault}
    (h : HasReferenceFault members fault) (h' : HasReferenceFault members fault') :
    fault = fault' := by
  have hboth {value value' target : Json} (hvalue : Members.find? "lazy" members = some value)
      (hnull : ∀ target, value.get? "refId" = some target → target = .null)
      (hvalue' : Members.find? "lazy" members = some value')
      (htarget : value'.get? "refId" = some target) (hlong : target.excess?.isSome) : False := by
    obtain rfl := Option.some.inj (hvalue.symm.trans hvalue')
    rw [hnull target htarget] at hlong
    cases hlong
  cases h with
  | unnamed hvalue _ hnull =>
    cases h' with
    | unnamed => rfl
    | tooLong hvalue' htarget hlong => exact (hboth hvalue hnull hvalue' htarget hlong).elim
  | tooLong hvalue htarget hlong =>
    cases h' with
    | unnamed hvalue' _ hnull => exact (hboth hvalue' hnull hvalue htarget hlong).elim
    | tooLong => rfl

/-- There is one fault at a place at most. -/
theorem Json.HasFault.unique {value : Json} {place : Place} {fault fault' : DecodeFault}
    (h : value.HasFault place fault) (h' : value.HasFault place fault') : fault = fault' := by
  induction place generalizing value with
  | nil => match h with
    | .children hunder => exact nomatch hunder
  | cons turn rest ih =>
    match h, h' with
    | .object _, .object _ => rfl
    | .object hobj, .children _ => exact absurd rfl (hobj _)
    | .children _, .object hobj => exact absurd rfl (hobj _)
    | .reference h, .reference h' => exact h.unique h'
    | .text _, .text _ => rfl
    | .reference _, .children hunder => exact nomatch hunder
    | .text _, .children hunder => exact nomatch hunder
    | .children hunder, .reference _ => exact nomatch hunder
    | .children hunder, .text _ => exact nomatch hunder
    | .children (.list hvalue _ _), .children (.list hvalue' _ _) =>
      obtain rfl := Option.some.inj (hvalue.symm.trans hvalue')
      rfl
    | .children (.child hvalue hchild hrest), .children (.child hvalue' hchild' hrest') =>
      obtain rfl := Json.arr.inj (Option.some.inj (hvalue.symm.trans hvalue'))
      obtain rfl := Option.some.inj (hchild.symm.trans hchild')
      exact ih hrest hrest'

theorem Json.HasRootFault.unique {value : Json} {place : Place} {fault fault' : DecodeFault}
    (h : value.HasRootFault place fault) (h' : value.HasRootFault place fault') :
    fault = fault' := by
  cases h with
  | object hobj =>
    cases h' with
    | object _ => rfl
    | fields _ => exact absurd rfl (hobj _)
  | fields hunder =>
    cases h' with
    | object hobj => exact absurd rfl (hobj _)
    | fields hunder' => exact Json.HasFault.unique (.children hunder) (.children hunder')

namespace Blames

variable {α : Type} {start : String} {faults : Place → DecodeFault → Prop} {step : Reading α}

theorem isOk_eq_false_iff (h : Blames start faults step) (ids : IdSupply) :
    (step.run ids).value.1.isOk = false ↔ ∃ place fault, faults place fault := by
  have hfirst := h ids
  match hresult : (step.run ids).value.1 with
  | .ok a =>
    rw [hresult] at hfirst
    refine iff_of_false nofun ?_
    rintro ⟨place, fault, hfault⟩
    exact hfirst place fault hfault
  | .error e =>
    rw [hresult] at hfirst
    obtain ⟨place, fault, hfault, -⟩ := hfirst
    exact iff_of_true rfl ⟨place, fault, hfault⟩

/-- Two places that both come first are the same. -/
theorem eq_error_iff (h : Blames start faults step)
    (hunique : ∀ {place fault fault'}, faults place fault → faults place fault' → fault = fault')
    (ids : IdSupply) (e : DecodeError) :
    (step.run ids).value.1 = .error e ↔ ∃ place fault, faults place fault ∧
      IsFirst faults place ∧ e = ⟨Place.path start place, fault⟩ := by
  have hfirst := h ids
  match hresult : (step.run ids).value.1 with
  | .ok a =>
    rw [hresult] at hfirst
    refine iff_of_false nofun ?_
    rintro ⟨place, fault, hfault, -⟩
    exact hfirst place fault hfault
  | .error e' =>
    rw [hresult] at hfirst
    obtain ⟨place, fault, hfault, hleast, rfl⟩ := hfirst
    rw [Except.error.injEq]
    constructor
    · rintro rfl
      exact ⟨place, fault, hfault, hleast, rfl⟩
    · rintro ⟨other, fault', hfault', hleast', rfl⟩
      obtain rfl : place = other :=
        le_antisymm (hleast other fault' hfault') (hleast' place fault hfault)
      rw [hunique hfault hfault']

end Blames

/-- **Reading fails exactly on faults, and reports the first.** An item is read unless somewhere in
it, down any lists of children, something has a fault; then the error is the fault that comes first
in reading order, with the path that leads to it from where reading started. The same holds of
documents, whose roots are only asked for fields. -/
theorem reading_blames_first_fault :
    (∀ (value : Json) (path : String) (ids : IdSupply),
      (((readItem path value).run ids).value.1.isOk = false ↔
        ∃ place fault, value.HasFault place fault) ∧
      ∀ e, ((readItem path value).run ids).value.1 = .error e ↔
        ∃ place fault, value.HasFault place fault ∧ IsFirst value.HasFault place ∧
          e = ⟨Place.path path place, fault⟩) ∧
    ∀ (value : Json) (ids : IdSupply),
      (((readDocument value).run ids).value.1.isOk = false ↔
        ∃ place fault, value.HasRootFault place fault) ∧
      ∀ e, ((readDocument value).run ids).value.1 = .error e ↔
        ∃ place fault, value.HasRootFault place fault ∧ IsFirst value.HasRootFault place ∧
          e = ⟨Place.path rootPath place, fault⟩ := by
  constructor
  · intro value path ids
    have hblames : Blames path value.HasFault (readItem path value) := (blamedAsItem value).1 path
    exact ⟨hblames.isOk_eq_false_iff ids, hblames.eq_error_iff Json.HasFault.unique ids⟩
  · intro value ids
    have hblames := blames_readDocument value
    exact ⟨hblames.isOk_eq_false_iff ids, hblames.eq_error_iff Json.HasRootFault.unique ids⟩

/-- Options that are no list are found only after everything in the fields. -/
example : ((readDocument (.obj [("fields", .arr [.obj [("options", .int 3), ("fields",
      .arr [.obj [("name", .null)], .obj [("lazy", .str "x")], .bool true])]])])).run
        { stem := "" }).value.1 = .error ⟨"$.fields[0].fields[1]", .badReference⟩ := by
  rfl

/-- A document with an item that has a whole number for a name. -/
def Json.numbering (n : Int) : Json :=
  .obj [("fields", .arr [.obj [("id", .str "a"), ("name", .int n)]])]

/-- Only the name can be at fault. -/
theorem hasRootFault_numbering {n : Int} {place : Place} {fault : DecodeFault}
    (h : (numbering n).HasRootFault place fault) :
    place = [.child .fields 0, .text .name] ∧ fault = .tooLong := by
  cases h with
  | object hobj => exact absurd rfl (hobj _)
  | fields hunder =>
    cases hunder with
    | list hvalue _ hlist => exact absurd (Option.some.inj hvalue).symm (hlist _)
    | @child _ _ _ index child place _ hvalue hchild hitem =>
      obtain rfl := Json.arr.inj (Option.some.inj hvalue)
      obtain ⟨hindex, rfl⟩ := List.getElem?_eq_some_iff.mp hchild
      obtain rfl : index = 0 := Nat.lt_one_iff.mp hindex
      cases hitem with
      | object hobj => exact absurd rfl (hobj _)
      | reference h => cases h with | unnamed h | tooLong h => cases h
      | @text _ key h =>
        obtain ⟨value, hvalue, hlong⟩ := h
        cases key with
        | id =>
          obtain rfl := Option.some.inj hvalue
          cases hlong
        | name => exact ⟨rfl, rfl⟩
        | kind => cases hvalue
      | @children _ slot _ _ h =>
        cases slot with
        | fields | options => cases h with | list h | child h => cases h

theorem run_readDocument_numbering {n : Int} (h : (Json.int n).excess?.isSome) (ids : IdSupply) :
    ((readDocument (numbering n)).run ids).value.1 = .error ⟨"$.fields[0]", .tooLong⟩ := by
  have hname : HasTextFault [("id", .str "a"), ("name", .int n)] .name := ⟨_, rfl, h⟩
  have hfault : (numbering n).HasRootFault [.child .fields 0, .text .name] .tooLong :=
    .fields (.child rfl rfl (.text hname))
  refine ((blames_readDocument _).eq_error_iff Json.HasRootFault.unique _ _).mpr
    ⟨_, _, hfault, fun other fault hother ↦ ?_, by decide⟩
  rw [(hasRootFault_numbering hother).1]

/-- **A name can be too long.** Every item of the document is an object, refers to nothing and has
no children that are no list, but the least whole number with so many digits as its name keeps it
from being read, and the error does not say where. -/
theorem exists_incoercible :
    let value := Json.numbering (10 ^ 4300)
    (∀ place fault, value.HasRootFault place fault → fault = .tooLong) ∧
      ((readDocument value).run { stem := "" }).value.1 = .error ⟨"$.fields[0]", .tooLong⟩ ∧
      (⟨"$.fields[0]", .tooLong⟩ : DecodeError).message = tooLongMessage := by
  refine ⟨fun place fault h ↦ (hasRootFault_numbering h).2, run_readDocument_numbering ?_ _, rfl⟩
  rw [excess?_ten_pow (n := 4300) le_rfl]
  rfl

end SchemaTree
