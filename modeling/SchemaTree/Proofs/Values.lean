import SchemaTree.Json.Display
import SchemaTree.Json.Printer
import Mathlib.Algebra.Ring.Int.Defs
import Mathlib.Algebra.Ring.Nat

/-!
# JSON values as data

The induction over a JSON value that proofs about values use, how deeply the parts of a value are
nested, the texts of the parts of a list and of an object, the fact that no value is displayed as
the empty text, and the least whole numbers that are too long. -/

namespace SchemaTree.Json

/-! ## Induction -/

section Induction

variable {P : Json → Prop}

mutual

/-- A property of values holds of all if it holds of scalars, and of lists and objects whenever it
holds of what they contain. -/
theorem induction (null : P .null) (bool : ∀ b, P (.bool b)) (int : ∀ n, P (.int n))
    (float : ∀ x, P (.float x)) (str : ∀ s, P (.str s))
    (arr : ∀ elements, (∀ e ∈ elements, P e) → P (.arr elements))
    (obj : ∀ members, (∀ m ∈ members, P m.2) → P (.obj members)) : ∀ value, P value
  | .null => null
  | .bool b => bool b
  | .int n => int n
  | .float x => float x
  | .str s => str s
  | .arr elements =>
    arr elements (inductionElements null bool int float str arr obj elements)
  | .obj members => obj members (inductionMembers null bool int float str arr obj members)

theorem inductionElements (null : P .null) (bool : ∀ b, P (.bool b)) (int : ∀ n, P (.int n))
    (float : ∀ x, P (.float x)) (str : ∀ s, P (.str s))
    (arr : ∀ elements, (∀ e ∈ elements, P e) → P (.arr elements))
    (obj : ∀ members, (∀ m ∈ members, P m.2) → P (.obj members)) :
    ∀ elements : List Json, ∀ e ∈ elements, P e
  | [] => by simp
  | e :: rest =>
    List.forall_mem_cons.mpr ⟨induction null bool int float str arr obj e,
      inductionElements null bool int float str arr obj rest⟩

theorem inductionMembers (null : P .null) (bool : ∀ b, P (.bool b)) (int : ∀ n, P (.int n))
    (float : ∀ x, P (.float x)) (str : ∀ s, P (.str s))
    (arr : ∀ elements, (∀ e ∈ elements, P e) → P (.arr elements))
    (obj : ∀ members, (∀ m ∈ members, P m.2) → P (.obj members)) :
    ∀ members : List (String × Json), ∀ m ∈ members, P m.2
  | [] => by simp
  | (_, value) :: rest =>
    List.forall_mem_cons.mpr ⟨induction null bool int float str arr obj value,
      inductionMembers null bool int float str arr obj rest⟩

end

end Induction

/-! ## Depth -/

theorem depth_lt_of_mem {e : Json} {elements : List Json} (h : e ∈ elements) :
    e.depth < (arr elements).depth := by
  have hle : e.depth ≤ depthList elements := by
    induction elements with
    | nil => simp at h
    | cons x xs ih =>
      rw [depthList]
      rcases List.mem_cons.mp h with rfl | h
      · exact Nat.le_max_left _ _
      · exact Nat.le_trans (ih h) (Nat.le_max_right _ _)
  exact Nat.lt_succ_of_le hle

theorem depth_lt_of_mem_members {key : String} {value : Json} {members : List (String × Json)}
    (h : (key, value) ∈ members) : value.depth < (obj members).depth := by
  have hle : value.depth ≤ depthMembers members := by
    induction members with
    | nil => simp at h
    | cons m ms ih =>
      rw [depthMembers]
      rcases List.mem_cons.mp h with rfl | h
      · exact Nat.le_max_left _ _
      · exact Nat.le_trans (ih h) (Nat.le_max_right _ _)
  exact Nat.lt_succ_of_le hle

/-! ## Texts of parts -/

theorem writeElements_eq_map (style : Style) (level : Nat) (elements : List Json) :
    writeElements style level elements = elements.map (write style level) := by
  induction elements with
  | nil => rfl
  | cons e es ih => rw [writeElements, ih, List.map_cons]

theorem writeMembers_eq_map (style : Style) (level : Nat) (members : List (String × Json)) :
    writeMembers style level members =
      members.map fun m ↦ style.string m.1 ++ style.colon ++ m.2.write style level := by
  induction members with
  | nil => rfl
  | cons m ms ih => rw [writeMembers, ih, List.map_cons]

theorem displayElements_eq_map (elements : List Json) :
    displayElements elements = elements.map displayChars := by
  induction elements with
  | nil => rfl
  | cons e es ih => rw [displayElements, ih, List.map_cons]

/-- What is displayed for a member. -/
def memberChars (m : String × Json) : List Char :=
  Text.displayQuoted m.1.toList ++ ':' :: ' ' :: m.2.displayChars

theorem displayMembers_eq_map (members : List (String × Json)) :
    displayMembers members = members.map memberChars := by
  induction members with
  | nil => rfl
  | cons m ms ih => rw [displayMembers, ih, List.map_cons, memberChars]

/-! ## Display -/

theorem write_ne_nil (layout : Decimal.Layout) (d : Decimal.Scaled) : layout.write d ≠ [] := by
  rw [Decimal.Layout.write]
  split
  · split <;> simp
  · simp

theorem displayChars_ne_nil (value : Json) : value.displayChars ≠ [] := by
  cases value with
  | null => simp [displayChars]
  | bool b => cases b <;> simp [displayChars]
  | int n =>
    rw [displayChars]
    cases n with
    | ofNat n => simp [toString, Int.repr]
    | negSucc n => simp [toString, Int.repr]
  | float x =>
    rw [displayChars]
    cases Decimal.Binary.ofFloat x with
    | nan => decide
    | infinite negative => cases negative <;> decide
    | zero negative => cases negative <;> decide
    | finite negative mantissa exponent narrow =>
      rw [Decimal.Layout.text]
      exact List.append_ne_nil_of_right_ne_nil _ (write_ne_nil _ _)
  | str s => simp [displayChars, Text.displayQuoted]
  | arr elements => simp [displayChars]
  | obj members => simp [displayChars]

/-- A value that counts as true is not the empty text. -/
theorem plain_ne_empty {value : Json} (h : value.truthy) : value.plain ≠ "" := by
  have hdisplay : value.display ≠ "" := by
    intro hempty
    have hlist := congrArg String.toList hempty
    rw [display, String.toList_ofList] at hlist
    exact displayChars_ne_nil value hlist
  cases value with
  | str s => simpa [truthy, plain] using h
  | _ => exact hdisplay

/-! ## Numbers that are too long -/

/-- A value with a number that is too long counts as true. -/
theorem truthy_of_excess {value : Json} (h : value.excess?.isSome) : value.truthy := by
  cases value with
  | int n =>
    rw [truthy, decide_eq_true_eq]
    rintro rfl
    exact absurd h (by decide)
  | arr elements =>
    cases elements with
    | nil => cases h
    | cons => rfl
  | obj members =>
    cases members with
    | nil => cases h
    | cons => rfl
  | null | bool | float | str => cases h

theorem length_toDigits_ten_pow {n : Nat} (hn : 0 < n) :
    (Nat.toDigits 10 (10 ^ n)).length = n + 1 := by
  have hten : 1 < 10 := by decide
  have hle := (Nat.length_toDigits_le_iff hten n.succ_pos).mpr (Nat.pow_lt_pow_succ hten (n := n))
  have hlt : ¬ (Nat.toDigits 10 (10 ^ n)).length ≤ n := fun h ↦
    absurd ((Nat.length_toDigits_le_iff hten hn).mp h) (Nat.lt_irrefl _)
  omega

theorem excess?_ten_pow {n : Nat} (hn : maxWholeDigits ≤ n) :
    (Json.int (10 ^ n)).excess? = some (n + 1) := by
  have hmax : maxWholeDigits = 4300 := rfl
  have habs : ((10 : Int) ^ n).natAbs = 10 ^ n := Int.natAbs_pow 10 n
  rw [excess?, habs, length_toDigits_ten_pow (by omega), if_pos (by omega)]

end SchemaTree.Json
