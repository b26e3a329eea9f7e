import SchemaTree.Json.Printer
import SchemaTree.Proofs.Acceptance
import SchemaTree.Proofs.Binary64
import SchemaTree.Proofs.Values

/-!
# Values that are written differently

Validated data are not always written as they came. `Json.Varies v w` says that the value `w` is `v`
up to two changes, made anywhere inside: a whole number has become the binary64 nearest to it, and a
number that is not finite has become null. The second one is made when validated data are printed
(`Json.printed`).

Acceptance does not see the difference where literals are *steady*: those that are binary64 are
finite, and those that are whole numbers are equal to their nearest binary64
(`Accepts.of_varies`). A whole number that lies between two binary64 is a literal that no longer
accepts what has become of its own value.
-/

namespace SchemaTree

/-! ## Lists related element by element -/

section Related

variable {α β : Type} {R : α → β → Prop} {xs : List α} {ys : List β}

theorem exists_of_mem_right (h : List.Forall₂ R xs ys) {y : β} (hy : y ∈ ys) :
    ∃ x ∈ xs, R x y := by
  induction h with
  | nil => cases hy
  | @cons a b as bs hab _ ih =>
    rcases List.mem_cons.mp hy with rfl | hy
    · exact ⟨a, List.mem_cons_self, hab⟩
    · obtain ⟨x, hx, hxy⟩ := ih hy
      exact ⟨x, List.mem_cons_of_mem a hx, hxy⟩

theorem forall₂_imp_of_mem {S : α → β → Prop} (h : List.Forall₂ R xs ys)
    (himp : ∀ x ∈ xs, ∀ y ∈ ys, R x y → S x y) : List.Forall₂ S xs ys := by
  induction h with
  | nil => exact .nil
  | @cons a b as bs hab _ ih =>
    refine .cons (himp a List.mem_cons_self b List.mem_cons_self hab) (ih fun x hx y hy ↦ ?_)
    exact himp x (List.mem_cons_of_mem a hx) y (List.mem_cons_of_mem b hy)

theorem map_eq_map_of_forall₂ {f : α → β} {xs ys : List α}
    (h : List.Forall₂ (fun x y ↦ f x = f y) xs ys) : xs.map f = ys.map f := by
  rw [← List.forall₂_eq_eq_eq, List.forall₂_map_left_iff, List.forall₂_map_right_iff]
  exact h

theorem forall₂_map_iff_of_mem {R : β → β → Prop} {S : α → α → Prop} {f g : α → β} {xs ys : List α}
    (h : ∀ x ∈ xs, ∀ y ∈ ys, R (f x) (g y) ↔ S x y) :
    List.Forall₂ R (xs.map f) (ys.map g) ↔ List.Forall₂ S xs ys := by
  rw [List.forall₂_map_left_iff, List.forall₂_map_right_iff]
  exact ⟨fun hR ↦ forall₂_imp_of_mem hR fun x hx y hy ↦ (h x hx y hy).mp,
    fun hS ↦ forall₂_imp_of_mem hS fun x hx y hy ↦ (h x hx y hy).mpr⟩

end Related

namespace Json

/-! ## Variants -/

/-- The second value is the first one with some whole numbers made binary64 and some numbers that
are not finite made null. -/
inductive Varies : Json → Json → Prop where
  | refl (v : Json) : Varies v v
  | whole {n : Int} {x : Float} (h : Decimal.ofInt? n = some x) : Varies (.int n) (.float x)
  | notFinite {x : Float} (h : isFinite x = false) : Varies (.float x) .null
  | arr {xs ys : List Json} (h : List.Forall₂ Varies xs ys) : Varies (.arr xs) (.arr ys)
  | obj {ms ns : List (String × Json)} (hkeys : Members.keys ns = Members.keys ms)
      (h : List.Forall₂ Varies (ms.map Prod.snd) (ns.map Prod.snd)) : Varies (.obj ms) (.obj ns)

variable {v w : Json}

/-- What a list varies to is a list. -/
theorem Varies.exists_arr {xs : List Json} (h : Varies (.arr xs) w) :
    ∃ ys, w = .arr ys ∧ List.Forall₂ Varies xs ys := by
  cases h with
  | refl => exact ⟨xs, rfl, List.forall₂_same.mpr fun x _ ↦ .refl x⟩
  | arr h => exact ⟨_, rfl, h⟩

/-- What an object varies to is an object with the same keys. -/
theorem Varies.exists_obj {ms : List (String × Json)} (h : Varies (.obj ms) w) :
    ∃ ns, w = .obj ns ∧ Members.keys ns = Members.keys ms ∧
      List.Forall₂ Varies (ms.map Prod.snd) (ns.map Prod.snd) := by
  cases h with
  | refl => exact ⟨ms, rfl, rfl, List.forall₂_same.mpr fun x _ ↦ .refl x⟩
  | obj hkeys h => exact ⟨_, rfl, hkeys, h⟩

theorem Varies.eq_null (h : Varies .null w) : w = .null := by
  cases h
  rfl

theorem Varies.eq_str {s : String} (h : Varies (.str s) w) : w = .str s := by
  cases h
  rfl

theorem Varies.eq_bool {b : Bool} (h : Varies (.bool b) w) : w = .bool b := by
  cases h
  rfl

/-- Members of one name vary from each other. -/
theorem rel_find?_of_forall₂ {ms ns : List (String × Json)}
    (hkeys : Members.keys ns = Members.keys ms)
    (h : List.Forall₂ Varies (ms.map Prod.snd) (ns.map Prod.snd)) (key : String) :
    Option.Rel Varies (Members.find? key ms) (Members.find? key ns) := by
  induction ms generalizing ns with
  | nil =>
    obtain rfl : ns = [] := by simpa [Members.keys] using hkeys
    exact .none
  | cons m ms ih =>
    obtain ⟨k, v⟩ := m
    cases ns with
    | nil => simp [Members.keys] at hkeys
    | cons n ns =>
      obtain ⟨k', v'⟩ := n
      obtain ⟨hkey, hrest⟩ := List.cons.inj hkeys
      obtain rfl : k' = k := hkey
      obtain ⟨hv, h⟩ := List.forall₂_cons.mp h
      rw [Members.find?, Members.find?]
      split
      · exact .some hv
      · exact ih hrest h

/-! ## Printed values -/

mutual

/-- The value that the text of validated data stands for: what is not finite is printed as null. -/
def printed : Json → Json
  | .float x => if isFinite x then .float x else .null
  | .arr elements => .arr (printedElements elements)
  | .obj members => .obj (printedMembers members)
  | value => value

/-- The values that the texts of elements stand for. -/
def printedElements : List Json → List Json
  | [] => []
  | x :: rest => printed x :: printedElements rest

/-- The members that the texts of members stand for. -/
def printedMembers : List (String × Json) → List (String × Json)
  | [] => []
  | (key, x) :: rest => (key, printed x) :: printedMembers rest

end

theorem printedElements_eq_map (xs : List Json) : printedElements xs = xs.map printed := by
  induction xs with
  | nil => rfl
  | cons x xs ih => rw [printedElements, ih, List.map_cons]

theorem printedMembers_eq_map (ms : List (String × Json)) :
    printedMembers ms = ms.map fun m ↦ (m.1, printed m.2) := by
  induction ms with
  | nil => rfl
  | cons m ms ih => rw [printedMembers, ih, List.map_cons]

theorem keys_printedMembers (ms : List (String × Json)) :
    Members.keys (printedMembers ms) = Members.keys ms := by
  rw [printedMembers_eq_map, Members.keys, Members.keys, List.map_map]
  rfl

theorem values_printedMembers (ms : List (String × Json)) :
    (printedMembers ms).map Prod.snd = (ms.map Prod.snd).map printed := by
  rw [printedMembers_eq_map, List.map_map, List.map_map]
  rfl

/-- A binary64 that is not finite is written as null. -/
theorem compact_text_of_not_finite {x : Float} (h : isFinite x = false) :
    Decimal.Layout.compact.text (.ofFloat x) = "null".toList := by
  have hones : x.toBits.toNat / 2 ^ 52 % 2 ^ 11 = 2047 := by
    by_contra hne
    rw [isFinite_iff.mpr hne] at h
    cases h
  have hbits (bits : Nat) (h : bits / 2 ^ 52 % 2 ^ 11 = 2047) : Decimal.Binary.ofBits bits =
      if bits % 2 ^ 52 = 0 then .infinite (bits / 2 ^ 63 % 2 = 1) else .nan := by
    rw [Decimal.Binary.ofBits]
    exact if_pos h
  rw [Decimal.Binary.ofFloat, hbits _ hones]
  split
  · rw [Decimal.Layout.text]
    split <;> rfl
  · rfl

/-- **Printing** does not tell a value from the one that its text stands for. -/
theorem write_printed {style : Style} (hstyle : style.numbers = .compact) (value : Json)
    (level : Nat) : value.printed.write style level = value.write style level := by
  induction value using Json.induction generalizing level with
  | float x =>
    rw [printed]
    split
    · rfl
    · rename_i hx
      rw [write, write, hstyle, compact_text_of_not_finite (by simpa using hx)]
  | arr elements ih =>
    rw [printed, printedElements_eq_map, write, write, writeElements_eq_map, writeElements_eq_map,
      List.map_map]
    exact congrArg _ (List.map_congr_left fun x hx ↦ ih x hx _)
  | obj members ih =>
    rw [printed, printedMembers_eq_map, write, write, writeMembers_eq_map, writeMembers_eq_map,
      List.map_map]
    exact congrArg _ (List.map_congr_left fun m hm ↦ congrArg _ (ih m hm _))
  | _ => rfl

theorem print_printed (value : Json) : value.printed.print .pretty = value.print .pretty := by
  rw [print, write_printed rfl, print]

/-- A variant may be printed. -/
theorem Varies.printed (h : Varies v w) : Varies v w.printed := by
  induction v using Json.induction generalizing w with
  | null =>
    rw [h.eq_null]
    exact .refl _
  | bool b =>
    rw [h.eq_bool]
    exact .refl _
  | str s =>
    rw [h.eq_str]
    exact .refl _
  | int n =>
    cases h with
    | refl => exact .refl _
    | whole hx =>
      rw [Json.printed, if_pos (Decimal.isFinite_of_ofInt? hx)]
      exact .whole hx
  | float x =>
    cases h with
    | refl =>
      rw [Json.printed]
      split
      · exact .refl _
      · rename_i hx
        exact .notFinite (by simpa using hx)
    | notFinite hx => exact .notFinite hx
  | arr elements ih =>
    obtain ⟨ys, rfl, hys⟩ := h.exists_arr
    rw [Json.printed, printedElements_eq_map]
    refine .arr ?_
    rw [List.forall₂_map_right_iff]
    exact forall₂_imp_of_mem hys fun x hx y _ hxy ↦ ih x hx hxy
  | obj members ih =>
    obtain ⟨ns, rfl, hkeys, hns⟩ := h.exists_obj
    rw [Json.printed]
    refine .obj ((keys_printedMembers ns).trans hkeys) ?_
    rw [values_printedMembers, List.forall₂_map_right_iff]
    refine forall₂_imp_of_mem hns fun x hx y _ hxy ↦ ?_
    obtain ⟨m, hm, rfl⟩ := List.mem_map.mp hx
    exact ih m hm hxy

end Json

/-! ## Acceptance -/

/-- A number that is finite, and that is kept when a binary64 is made of it. -/
def Scalar.Steady : Scalar → Prop
  | .whole n => ∀ x, Decimal.ofInt? n = some x → Decimal.equalsInt x n
  | .real x => isFinite x
  | _ => True

instance (s : Scalar) : Decidable s.Steady :=
  match s with
  | .whole n =>
    match h : Decimal.ofInt? n with
    | none => .isTrue fun x hx ↦ by simp [h] at hx
    | some y => decidable_of_iff (Decimal.equalsInt y n : Prop) (by simp [Scalar.Steady, h])
  | .real x => inferInstanceAs (Decidable (isFinite x : Prop))
  | .text _ | .flag _ => .isTrue trivial

open Json

variable {d : Document} {x : Item} {v w : Json}

theorem isFinite_eq_true_iff {x : Float} : isFinite x ↔ x.isNaN = false ∧ x.isInf = false := by
  rw [isFinite, Bool.and_eq_true, Bool.not_eq_true', Bool.not_eq_true']

/-- A steady literal admits finite numbers only. -/
theorem Scalar.isFinite_of_admits {s : Scalar} (hs : s.Steady) {x : Float}
    (h : s.admits (.float x)) : isFinite x := by
  cases s with
  | whole m =>
    rw [isFinite_iff]
    exact (Decimal.of_wholeValue?_eq_some (of_decide_eq_true h)).1
  | real y =>
    have hnan : y.isNaN = false := (isFinite_eq_true_iff.mp hs).1
    rw [admits, hnan, Bool.false_and, Bool.or_false] at h
    exact isFinite_of_beq hs h
  | _ => cases h

/-- A steady literal admits what its values vary to. -/
theorem Scalar.admits_of_varies {s : Scalar} (hs : s.Steady) (h : s.admits v) (hv : Varies v w) :
    s.admits w := by
  cases hv with
  | refl => exact h
  | whole hx =>
    cases s with
    | whole m =>
      obtain rfl : m = _ := of_decide_eq_true h
      exact hs _ hx
    | real y =>
      rw [admits, Bool.or_eq_true]
      exact .inl (Decimal.beq_of_equalsInt h hx)
    | _ => cases h
  | notFinite hx =>
    have hfinite : isFinite _ := s.isFinite_of_admits hs h
    rw [hx] at hfinite
    cases hfinite
  | arr => cases s <;> cases h
  | obj => cases s <;> cases h

theorem ScalarType.Admits.of_varies {type : ScalarType} (h : type.Admits v) (hv : Varies v w) :
    type.Admits w := by
  cases h with
  | text s => exact hv.eq_str ▸ .text s
  | flag b => exact hv.eq_bool ▸ .flag b
  | moment hform hm => exact hv.eq_str ▸ .moment hform hm
  | whole h =>
    cases hv with
    | refl => exact .whole h
    | whole hx =>
      obtain ⟨hnan, hinf⟩ := isFinite_eq_true_iff.mp (Decimal.isFinite_of_ofInt? hx)
      exact .real hnan hinf
  | real hnan hinf =>
    cases hv with
    | refl => exact .real hnan hinf
    | notFinite hx =>
      rw [isFinite_eq_true_iff.mpr ⟨hnan, hinf⟩] at hx
      cases hx

/-- The literals among the built items are steady. -/
def Document.Steady (d : Document) : Prop :=
  ∀ x ∈ d.built, x.target? = none → x.kind = .literal → x.attributes.scalar.Steady

instance (d : Document) : Decidable d.Steady :=
  inferInstanceAs (Decidable (∀ x ∈ d.built, x.target? = none → x.kind = .literal →
    x.attributes.scalar.Steady))

/-- **Acceptance of variants.** A document with steady literals accepts what the data that it
accepts vary to. -/
theorem Accepts.of_varies (hd : d.Steady) (h : Accepts d.built x v) (hx : x ∈ d.built)
    (hv : Varies v w) : Accepts d.built x w := by
  -- the rules are mutual, so that there is a statement for each of the three relations
  refine @Accepts.rec d.built (fun x v _ ↦ x ∈ d.built → ∀ w, Varies v w → Accepts d.built x w)
    (fun x v _ ↦ x ∈ d.built → ∀ w, Varies v w → AcceptsHere d.built x w)
    (fun f v _ ↦ f ∈ d.built → ∀ w, Option.Rel Varies v w → AcceptsMember d.built f w)
    ?scalar ?literal ?object ?union ?smallUnion ?unknown ?reference ?astray ?single ?array ?absent
    ?null ?value x v h hx w hv
  case scalar => exact fun ht hk h _ w hv ↦ .scalar ht hk (h.of_varies hv)
  case literal =>
    exact fun ht hk h hx w hv ↦ .literal ht hk (Scalar.admits_of_varies (hd _ hx ht hk) h hv)
  case object =>
    intro x members ht hk hf ih hx w hv
    obtain ⟨ns, rfl, hkeys, hns⟩ := hv.exists_obj
    refine .object ht hk fun f hlast ↦ ih f hlast ?_ _ (rel_find?_of_forall₂ hkeys hns _)
    exact Document.mem_built_of_mem_parts hx (Item.parts_of_object ht hk ▸ hlast.mem)
  case union =>
    intro x y v ht hk hlen hy hhere ih hx w hv
    refine .union ht hk hlen hy (ih ?_ w hv)
    exact Document.mem_built_of_mem_parts hx (Item.parts_of_union ht hk ▸ hy)
  case smallUnion => exact fun ht hk hlen _ w hv ↦ .smallUnion ht hk hlen
  case unknown => exact fun ht hk _ w hv ↦ .unknown ht hk
  case reference => exact fun ht hy _ ih _ w hv ↦ .reference ht hy (ih hy.2.1 w hv)
  case astray => exact fun ht hid _ w hv ↦ .astray ht hid
  case single => exact fun ha _ ih hx w hv ↦ .single ha (ih hx w hv)
  case array =>
    intro x elements ha _ ih hx w hv
    obtain ⟨ys, rfl, hys⟩ := hv.exists_arr
    refine .array ha fun e he ↦ ?_
    obtain ⟨e', he', hvaries⟩ := exists_of_mem_right hys he
    exact ih e' he' hx e hvaries
  case absent =>
    intro f h _ w hv
    cases hv
    exact .absent h
  case null =>
    intro f hr _ w hv
    cases hv with
    | some hv => exact hv.eq_null ▸ .null hr
  case value =>
    intro f v _ ih hf w hv
    cases hv with
    | some hv => exact .value (ih hf _ hv)

theorem AcceptsHere.of_varies (hd : d.Steady) (h : AcceptsHere d.built x v) (hx : x ∈ d.built)
    (hv : Varies v w) : AcceptsHere d.built x w := by
  cases h with
  | single ha h => exact .single ha (h.of_varies hd hx hv)
  | array ha h =>
    obtain ⟨ys, rfl, hys⟩ := hv.exists_arr
    refine .array ha fun e he ↦ ?_
    obtain ⟨e', he', hvaries⟩ := exists_of_mem_right hys he
    exact (h e' he').of_varies hd hx hvaries

end SchemaTree
