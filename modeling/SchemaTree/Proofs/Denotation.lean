import SchemaTree.Proofs.Expressions

/-!
# What written values denote

A text denotes a value if it is an expression with this value that uses no name but `None`, `True`
and `False` (`Expression.Denotes`): it means the same wherever it stands in a class module.

Main statement: defaults, and the texts in the types of literals, denote their values exactly if no
number in them is infinite or NaN and no whole number in them has too many digits
(`written_values_denote_iff`). The names in the expression of a value decide this
(`names_ofJson_subset_iff`): a number that is not finite is written as `inf` or `nan`, names that
nothing defines (`exists_undenoting_default`). Strings are sequences of Unicode scalar values here
as everywhere, so nothing is said of texts with surrogates. -/

namespace SchemaTree

/-- No number in a value is infinite or NaN. -/
inductive Json.HasFiniteNumbers : Json → Prop
  | null : HasFiniteNumbers .null
  | bool (b : Bool) : HasFiniteNumbers (.bool b)
  | int (n : ℤ) : HasFiniteNumbers (.int n)
  | float {x : Float} (h : (Decimal.Binary.ofFloat x).isFinite) : HasFiniteNumbers (.float x)
  | str (s : String) : HasFiniteNumbers (.str s)
  | arr {elements : List Json} (h : ∀ e ∈ elements, HasFiniteNumbers e) :
      HasFiniteNumbers (.arr elements)
  | obj {members : List (String × Json)} (h : ∀ m ∈ members, HasFiniteNumbers m.2) :
      HasFiniteNumbers (.obj members)

namespace Expression

/-- What a text denotes: it is an expression that uses no name but the three that have a value of
their own, and evaluates to the value. -/
def Denotes (cs : List Char) (value : Json) : Prop :=
  ∃ e, parse cs = some e ∧ e.names ⊆ ["None", "True", "False"] ∧ e.eval = some value

section Evaluating

variable {x : Float} {value : Json} {elements : List Json} {members : List (String × Json)}

@[simp] theorem names_signed (negative : Bool) (e : Expression) :
    (signed negative e).names = e.names := by
  cases negative <;> rfl

theorem namesAll_map {α : Type} (f : α → Expression) (parts : List α) :
    namesAll (parts.map f) = parts.flatMap fun a ↦ names (f a) := by
  induction parts with
  | nil => rfl
  | cons a parts ih => rw [List.map_cons, namesAll, ih, List.flatMap_cons]

theorem namesMembers_ofMembers (members : List (String × Json)) :
    namesMembers (ofMembers members) = members.flatMap fun m ↦ names (ofJson m.2) := by
  induction members with
  | nil => rfl
  | cons m members ih => rw [ofMembers, namesMembers, ih, List.flatMap_cons, names, List.nil_append]

/-- **The names of a displayed value** are constants if all numbers in the value are finite; a
number that is not is written as another name. -/
theorem names_ofJson_subset_iff (value : Json) :
    (ofJson value).names ⊆ ["None", "True", "False"] ↔ value.HasFiniteNumbers := by
  induction value using Json.induction with
  | null => exact iff_of_true (by simp [ofJson, names]) .null
  | bool b => exact iff_of_true (by cases b <;> simp [ofJson, names]) (.bool b)
  | int n => exact iff_of_true (by simp [ofJson, names]) (.int n)
  | float x =>
    rw [ofJson, ofFloat, names_signed]
    by_cases hfinite : (Decimal.Binary.ofFloat x).isFinite
    · rw [if_pos hfinite]
      exact iff_of_true (List.nil_subset _) (.float hfinite)
    · rw [if_neg hfinite]
      refine iff_of_false ?_ fun hnumbers ↦ ?_
      · split <;> simp [names]
      · cases hnumbers with
        | float h => exact hfinite h
  | str s => exact iff_of_true (List.nil_subset _) (.str s)
  | arr elements ih =>
    rw [ofJson, names, ofElements_eq_map, namesAll_map]
    constructor
    · intro hsubset
      refine .arr fun e he ↦ (ih e he).mp fun word hword ↦ hsubset ?_
      exact List.mem_flatMap.mpr ⟨e, he, hword⟩
    · intro hnumbers word hword
      obtain ⟨e, he, hword⟩ := List.mem_flatMap.mp hword
      cases hnumbers with
      | arr h => exact (ih e he).mpr (h e he) hword
  | obj members ih =>
    rw [ofJson, names, namesMembers_ofMembers]
    constructor
    · intro hsubset
      refine .obj fun m hm ↦ (ih m hm).mp fun word hword ↦ hsubset ?_
      exact List.mem_flatMap.mpr ⟨m, hm, hword⟩
    · intro hnumbers word hword
      obtain ⟨m, hm, hword⟩ := List.mem_flatMap.mp hword
      cases hnumbers with
      | obj h => exact (ih m hm).mpr (h m hm) hword

theorem eval_ofFloat (h : (Decimal.Binary.ofFloat x).isFinite) :
    (ofFloat x).eval = some (.float x) := by
  rw [ofFloat, if_pos h]
  cases (Decimal.Binary.ofFloat x).isNegative with
  | false => rfl
  | true =>
    change some (Json.float (- -x)) = some (.float x)
    rw [Decimal.neg_neg_of_isFinite h]

theorem eval_int (n : ℤ) : (ofJson (.int n)).eval = some (.int n) := by
  rw [ofJson, signed]
  by_cases hsign : n < 0
  · have hvalue : -(n.natAbs : ℤ) = n := by omega
    rw [if_pos (decide_eq_true hsign)]
    exact congrArg (some ∘ Json.int) hvalue
  · have hvalue : (n.natAbs : ℤ) = n := by omega
    rw [if_neg (by simpa using hsign)]
    exact congrArg (some ∘ Json.int) hvalue

theorem evalAll_map (h : ∀ e ∈ elements, (ofJson e).eval = some e) :
    evalAll (elements.map ofJson) = some elements := by
  induction elements with
  | nil => rfl
  | cons e elements ih =>
    obtain ⟨he, helements⟩ := List.forall_mem_cons.mp h
    rw [List.map_cons, evalAll, he, ih helements]
    rfl

theorem evalMembers_ofMembers (h : ∀ m ∈ members, (ofJson m.2).eval = some m.2) :
    evalMembers (ofMembers members) = some members := by
  induction members with
  | nil => rfl
  | cons m members ih =>
    obtain ⟨hm, hmembers⟩ := List.forall_mem_cons.mp h
    rw [ofMembers, evalMembers, hm, ih hmembers]
    rfl

/-- **The expression of a value evaluates to the value**, if its numbers are finite. -/
theorem eval_ofJson (hkeys : value.HasDistinctKeys) (hnumbers : value.HasFiniteNumbers) :
    (ofJson value).eval = some value := by
  induction value using Json.induction with
  | null => rfl
  | bool b => cases b <;> rfl
  | int n => exact eval_int n
  | float x =>
    cases hnumbers with
    | float h => exact eval_ofFloat h
  | str s => rfl
  | arr elements ih =>
    cases hkeys with
    | arr hkeys =>
      cases hnumbers with
      | arr hnumbers =>
        rw [ofJson, ofElements_eq_map, eval,
          evalAll_map fun e he ↦ ih e he (hkeys e he) (hnumbers e he)]
        rfl
  | obj members ih =>
    cases hkeys with
    | obj hdistinct hkeys =>
      cases hnumbers with
      | obj hnumbers =>
        rw [ofJson, eval, evalMembers_ofMembers fun m hm ↦ ih m hm (hkeys m hm) (hnumbers m hm)]
        exact congrArg (some ∘ Json.obj) (Json.Members.ofList_of_nodup hdistinct)

/-- **What a displayed value denotes.** It denotes the value if and only if no number in the value
is infinite or NaN and no whole number in it has too many digits. -/
theorem displayChars_denotes_iff (hkeys : value.HasDistinctKeys) :
    Denotes value.displayChars value ↔ value.HasFiniteNumbers ∧ value.excess? = none := by
  rw [Denotes, parse_displayChars]
  constructor
  · rintro ⟨e, hparse, hnames, -⟩
    by_cases hexcess : value.excess?.isNone
    · rw [if_pos hexcess] at hparse
      obtain rfl := Option.some_inj.mp hparse
      exact ⟨(names_ofJson_subset_iff value).mp hnames, Option.isNone_iff_eq_none.mp hexcess⟩
    · rw [if_neg hexcess] at hparse
      cases hparse
  · rintro ⟨hnumbers, hexcess⟩
    rw [if_pos (Option.isNone_iff_eq_none.mpr hexcess)]
    exact ⟨_, rfl, (names_ofJson_subset_iff value).mpr hnumbers, eval_ofJson hkeys hnumbers⟩

end Evaluating

end Expression

/-! ## Defaults and literals -/

/-- What stands for a scalar in the type of a literal: texts stand between double quotes, all other
scalars are displayed. -/
def Scalar.literalChars : Scalar → List Char
  | .text s => Text.doubleQuoted s.toList
  | value => value.toJson.displayChars

theorem Scalar.hasDistinctKeys_toJson (s : Scalar) : s.toJson.HasDistinctKeys := by
  cases s with
  | text s => exact .str s
  | flag b => exact .bool b
  | whole n => exact .int n
  | real x => exact .float x

theorem Text.infix_enclosed (word : String) (opening closing : Char) (inner : List Char) :
    inner <:+: Text.enclosed word opening closing inner :=
  ⟨word.toList ++ [opening], [closing], by simp [Text.enclosed]⟩

/-- The type of a literal has the text of its scalar in it. -/
theorem TypeExpr.literal_infix_write (s : Scalar) :
    Text.enclosed "Literal" '[' ']' s.literalChars <:+: (TypeExpr.ofScalar s).write := by
  cases s with
  | text s =>
    change _ <:+: (TypeExpr.literal s).write
    rw [TypeExpr.write_literal]
    exact List.infix_refl _
  | flag | whole | real =>
    change _ <:+: (TypeExpr.guarded _).write
    rw [TypeExpr.write_guarded]
    exact (List.prefix_append _ _).isInfix.trans (Text.infix_enclosed _ _ _ _)

/-- A literal denotes its scalar if it is displayed as a value that does. -/
theorem Scalar.literalChars_denotes_iff (s : Scalar) :
    Expression.Denotes s.literalChars s.toJson ↔
      s.toJson.HasFiniteNumbers ∧ s.toJson.excess? = none := by
  cases s with
  | text s =>
    refine iff_of_true ?_ ⟨.str s, rfl⟩
    exact ⟨.text s, Expression.parse_doubleQuoted s, List.nil_subset _, rfl⟩
  | flag | whole | real => exact Expression.displayChars_denotes_iff (hasDistinctKeys_toJson _)

/-- **Defaults and literals denote their values** in a class module as far as all numbers in them
are finite. A default is displayed and denotes its value if and only if no number in it is infinite
or NaN and no whole number in it has too many digits, and so does what stands for a scalar in the
type of its literal. -/
theorem written_values_denote_iff {value : Json} (hkeys : value.HasDistinctKeys) (s : Scalar) :
    (Expression.Denotes value.displayChars value ↔
        value.HasFiniteNumbers ∧ value.excess? = none) ∧
      Text.enclosed "Literal" '[' ']' s.literalChars <:+: (TypeExpr.ofScalar s).write ∧
      (Expression.Denotes s.literalChars s.toJson ↔
        s.toJson.HasFiniteNumbers ∧ s.toJson.excess? = none) :=
  ⟨Expression.displayChars_denotes_iff hkeys, TypeExpr.literal_infix_write s,
    s.literalChars_denotes_iff⟩

/-- A value with everything in it that a default can have. -/
def Json.mixed : Json :=
  .obj [("it\'s", .arr [.null, .bool true, .int (-7), .float (-0.5), .str "\"\\\n\x7f"]),
    ("", .obj [])]

theorem written_values_denote_mixed :
    Json.mixed.HasDistinctKeys ∧ Expression.Denotes Json.mixed.displayChars Json.mixed ∧
      Expression.Denotes (Scalar.real (-0.5)).literalChars (.float (-0.5)) := by
  have hkeys : Json.mixed.HasDistinctKeys := by
    refine .obj (by decide) (List.forall_mem_cons.mpr ⟨.arr ?_, List.forall_mem_singleton.mpr ?_⟩)
    · simp only [List.forall_mem_cons]
      exact ⟨.null, .bool _, .int _, .float _, .str _, nofun⟩
    · exact .obj List.nodup_nil nofun
  have hhalf : (Json.float (-0.5)).HasFiniteNumbers := .float (by decide)
  have hnumbers : Json.mixed.HasFiniteNumbers := by
    refine .obj (List.forall_mem_cons.mpr ⟨.arr ?_, List.forall_mem_singleton.mpr (.obj nofun)⟩)
    simp only [List.forall_mem_cons]
    exact ⟨.null, .bool _, .int _, hhalf, .str _, nofun⟩
  obtain ⟨hdefault, -, hliteral⟩ := written_values_denote_iff hkeys (.real (-0.5))
  exact ⟨hkeys, hdefault.mpr ⟨hnumbers, rfl⟩, hliteral.mpr ⟨hhalf, rfl⟩⟩

/-- **An infinite default denotes nothing**: it is written as a name that has no value. -/
theorem exists_undenoting_default :
    ∃ value : Json, value.HasDistinctKeys ∧ value.excess? = none ∧ value.display = "inf" ∧
      ¬ Expression.Denotes value.displayChars value := by
  refine ⟨.float (1.0 / 0.0), .float _, rfl, by decide, ?_⟩
  rintro hdenotes
  obtain ⟨hnumbers, -⟩ := (Expression.displayChars_denotes_iff (.float _)).mp hdenotes
  cases hnumbers with
  | float hfinite => exact absurd hfinite (by decide)

end SchemaTree
