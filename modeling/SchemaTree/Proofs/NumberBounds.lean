import SchemaTree.Proofs.Parsing
import SchemaTree.Proofs.Unreadable

/-!
# Numbers in what is read

The reader of JSON stops at a whole number with too many digits, so there is none in what it returns
(`excess?_of_parse`). A document that was read from a text is therefore decoded without the fault
that comes of such numbers (`fault_ne_tooLong`).

The proof follows the reader: digits are worth less than a one with as many zeros, so a number has
no more digits than its text, and lists and objects hold what was read for their parts. -/

namespace SchemaTree.Json

/-! ## Numbers -/

section Numbers

variable {text rest whole : List Char} {value : Json}

theorem isDigit_of_wholeDigits? (h : wholeDigits? text = some (whole, rest)) :
    whole ≠ [] ∧ ∀ c ∈ whole, c.isDigit := by
  match text with
  | [] => cases h
  | c :: text =>
    rw [wholeDigits?] at h
    split at h
    · next hzero =>
      obtain ⟨rfl, -⟩ := Prod.mk.inj (Option.some.inj h)
      exact ⟨List.cons_ne_nil _ _, List.forall_mem_singleton.mpr (hzero ▸ by decide)⟩
    · split at h
      · next hc =>
        rw [spanDigits, List.span_eq_takeWhile_dropWhile] at h
        obtain ⟨rfl, -⟩ := Prod.mk.inj (Option.some.inj h)
        exact ⟨List.cons_ne_nil _ _,
          List.forall_mem_cons.mpr ⟨hc, fun d hd ↦ List.mem_takeWhile_imp hd⟩⟩
      · cases h

/-- A number has no more digits than its text. -/
theorem length_toDigits_digitsValue_le (hne : whole ≠ []) (hdigits : ∀ c ∈ whole, c.isDigit) :
    (Nat.toDigits 10 (digitsValue whole)).length ≤ whole.length := by
  have hlt : digitsValue whole < 10 ^ whole.length := by
    have hbound := ofDigitChars_lt hdigits 0
    rwa [← digitsValue_eq, Nat.zero_add, Nat.one_mul] at hbound
  exact (Nat.length_toDigits_le_iff (by decide) (List.length_pos_iff.mpr hne)).mpr hlt

theorem excess?_of_readNumber (h : readNumber text = .ok (value, rest)) : value.excess? = none := by
  unfold readNumber at h
  dsimp only at h
  split at h
  · cases h
  · next whole afterWhole hwhole =>
    obtain ⟨hne, hdigits⟩ := isDigit_of_wholeDigits? hwhole
    split at h
    · obtain ⟨rfl, -⟩ := Prod.mk.inj (Except.ok.inj h)
      rfl
    · split at h
      · obtain ⟨rfl, -⟩ := Prod.mk.inj (Except.ok.inj h)
        rfl
      · split at h
        · cases h
        · next hlong =>
          obtain ⟨rfl, -⟩ := Prod.mk.inj (Except.ok.inj h)
          have hle := length_toDigits_digitsValue_le hne hdigits
          have habs (negative : Bool) :
              (if negative then -Int.ofNat (digitsValue whole)
                else Int.ofNat (digitsValue whole)).natAbs = digitsValue whole := by
            cases negative <;> simp
          rw [excess?, habs]
          exact if_neg (by omega)

theorem excess?_of_readScalar (h : readScalar text = .ok (value, rest)) :
    value.excess? = none := by
  rw [readScalar] at h
  split at h
  · next found hfound =>
    obtain rfl := Except.ok.inj h
    obtain ⟨⟨word, v⟩, hmem, hword⟩ := List.exists_of_findSome?_eq_some hfound
    obtain ⟨after, -, hafter⟩ := Option.map_eq_some_iff.mp hword
    obtain ⟨rfl, -⟩ := Prod.mk.inj hafter
    have hwords : ∀ w ∈ words, w.2.excess? = none := by
      simp [words, excess?]
    exact hwords (word, v) hmem
  · exact excess?_of_readNumber h

end Numbers

/-! ## Lists and objects -/

theorem excess?_arr_eq_none_iff {elements : List Json} :
    (Json.arr elements).excess? = none ↔ ∀ e ∈ elements, e.excess? = none := by
  rw [excess?, excessIn?_eq, List.findSome?_eq_none_iff]

theorem excess?_obj_eq_none_iff {members : List (String × Json)} :
    (Json.obj members).excess? = none ↔ ∀ m ∈ members, m.2.excess? = none := by
  rw [excess?, excessInMembers?_eq, List.findSome?_eq_none_iff]

/-- What holds of one part and of the others holds of all parts of a list. -/
theorem forall_mem_of_closeList {α : Type} {P : α → Prop} {closing : Char}
    {others : List Char → Except Stuck (List α × List Char)} {found : α × List Char}
    {parts : List α} {rest : List Char} (hfound : P found.1)
    (hothers : ∀ text parts rest, others text = .ok (parts, rest) → ∀ a ∈ parts, P a)
    (h : closeList closing others found = .ok (parts, rest)) : ∀ a ∈ parts, P a := by
  rw [closeList] at h
  split at h
  · obtain ⟨⟨more, end'⟩, hmore, h⟩ := exists_of_bind_eq_ok h
    obtain ⟨rfl, -⟩ := Prod.mk.inj (Except.ok.inj h)
    exact List.forall_mem_cons.mpr ⟨hfound, hothers _ _ _ hmore⟩
  · split at h
    · obtain ⟨rfl, -⟩ := Prod.mk.inj (Except.ok.inj h)
      exact List.forall_mem_singleton.mpr hfound
    · cases h

section Steps

variable {fuel : ℕ} {text rest : List Char}
  (hvalues : ∀ text value rest, readValue fuel text = .ok (value, rest) → value.excess? = none)
  (helements : ∀ text elements rest, readElements fuel text = .ok (elements, rest) →
    ∀ e ∈ elements, e.excess? = none)
  (hmembers : ∀ text members rest, readMembers fuel text = .ok (members, rest) →
    ∀ m ∈ members, m.2.excess? = none)

include helements hmembers in
theorem excess?_of_readValue_succ {value : Json}
    (h : readValue (fuel + 1) text = .ok (value, rest)) : value.excess? = none := by
  unfold readValue at h
  split at h
  · obtain ⟨s, -, h⟩ := exists_of_bind_eq_ok h
    obtain ⟨rfl, -⟩ := Prod.mk.inj (Except.ok.inj h)
    rfl
  · dsimp only at h
    split at h
    · obtain ⟨rfl, -⟩ := Prod.mk.inj (Except.ok.inj h)
      rfl
    · obtain ⟨⟨elements, _⟩, hread, h⟩ := exists_of_bind_eq_ok h
      obtain ⟨rfl, -⟩ := Prod.mk.inj (Except.ok.inj h)
      exact excess?_arr_eq_none_iff.mpr (helements _ _ _ hread)
  · dsimp only at h
    split at h
    · obtain ⟨rfl, -⟩ := Prod.mk.inj (Except.ok.inj h)
      rfl
    · obtain ⟨⟨members, _⟩, hread, h⟩ := exists_of_bind_eq_ok h
      obtain ⟨rfl, -⟩ := Prod.mk.inj (Except.ok.inj h)
      refine excess?_obj_eq_none_iff.mpr fun m hm ↦ ?_
      -- the last member of a key is kept, and it is one of those that were read
      have hmem := Members.mem_of_find?_eq_some (Members.mem_ofList_iff.mp hm)
      exact hmembers _ _ _ hread m (List.mem_reverse.mp hmem)
  · exact excess?_of_readScalar h

include hvalues hmembers in
theorem excess?_of_readMembers_succ {members : List (String × Json)}
    (h : readMembers (fuel + 1) text = .ok (members, rest)) : ∀ m ∈ members, m.2.excess? = none := by
  match text with
  | [] => cases h
  | c :: text =>
    by_cases hc : c = '"'
    · subst hc
      rw [readMembers_succ] at h
      obtain ⟨key, -, h⟩ := exists_of_bind_eq_ok h
      split at h
      · obtain ⟨⟨value, _⟩, hvalue, h⟩ := exists_of_bind_eq_ok h
        refine forall_mem_of_closeList (P := fun m : String × Json ↦ m.2.excess? = none) ?_
          hmembers h
        exact hvalues _ _ _ hvalue
      · cases h
    · unfold readMembers at h
      split at h
      · next heq => exact absurd (List.cons.inj heq).1 hc
      · cases h

end Steps

/-- **What is read has no number that is too long**, whatever the bound of the recursion. -/
theorem excess?_of_readValue (fuel : ℕ) :
    (∀ text value rest, readValue fuel text = .ok (value, rest) → value.excess? = none) ∧
    (∀ text elements rest, readElements fuel text = .ok (elements, rest) →
      ∀ e ∈ elements, e.excess? = none) ∧
    ∀ text members rest, readMembers fuel text = .ok (members, rest) →
      ∀ m ∈ members, m.2.excess? = none := by
  induction fuel with
  | zero => exact ⟨nofun, nofun, nofun⟩
  | succ fuel ih =>
    obtain ⟨hvalues, helements, hmembers⟩ := ih
    refine ⟨fun text value rest h ↦ excess?_of_readValue_succ helements hmembers h,
      fun text elements rest h ↦ ?_,
      fun text members rest h ↦ excess?_of_readMembers_succ hvalues hmembers h⟩
    rw [readElements_succ] at h
    obtain ⟨⟨value, _⟩, hvalue, h⟩ := exists_of_bind_eq_ok h
    exact forall_mem_of_closeList (hvalues _ _ _ hvalue) helements h

theorem excess?_of_parse {text : String} {value : Json} (h : parse text = .ok value) :
    value.excess? = none := by
  have htext : readText text.toList = .ok value := eq_ok_of_mapError_eq_ok h
  unfold readText at htext
  split at htext
  · cases htext
  · obtain ⟨⟨found, _⟩, hfound, htext⟩ := exists_of_bind_eq_ok htext
    dsimp only at htext
    split at htext
    · obtain rfl := Except.ok.inj htext
      exact (excess?_of_readValue _).1 _ _ _ hfound
    · cases htext

/-! ## Decoding -/

section Decoding

variable {members : List (String × Json)} {value : Json} {place : Place} {key : String}

theorem excess?_of_find? (h : (Json.obj members).excess? = none)
    (hvalue : Members.find? key members = some value) : value.excess? = none :=
  excess?_obj_eq_none_iff.mp h _ (Members.mem_of_find?_eq_some hvalue)

theorem not_hasFault_tooLong (h : value.excess? = none) : ¬ value.HasFault place .tooLong := by
  induction place generalizing value with
  | nil =>
    rintro (_ | _ | _ | hunder)
    cases hunder
  | cons turn place ih =>
    intro hfault
    cases hfault with
    | reference hreference =>
      cases hreference with
      | @tooLong value target hvalue htarget hlong =>
        have hnone : target.excess? = none := by
          cases value with
          | obj members => exact excess?_of_find? (excess?_of_find? h hvalue) htarget
          | _ => cases htarget
        exact Option.isSome_iff_ne_none.mp hlong hnone
    | text htext =>
      obtain ⟨_, hvalue, hlong⟩ := htext
      exact Option.isSome_iff_ne_none.mp hlong (excess?_of_find? h hvalue)
    | children hunder =>
      cases hunder with
      | child hvalue hchild hfault =>
        have helements := excess?_arr_eq_none_iff.mp (excess?_of_find? h hvalue)
        exact ih (helements _ (List.mem_of_getElem? hchild)) hfault

/-- **A value without long numbers is decoded without the fault of such numbers.** -/
theorem fault_ne_tooLong (h : value.excess? = none) (ids : IdSupply) (path : String) :
    ((readDocument value).run ids).value.1 ≠ .error ⟨path, .tooLong⟩ := by
  intro herror
  obtain ⟨place, fault, hfault, -, he⟩ :=
    ((blames_readDocument value).eq_error_iff Json.HasRootFault.unique ids _).mp herror
  obtain rfl : DecodeFault.tooLong = fault := (DecodeError.mk.inj he).2
  cases hfault with
  | fields hunder => exact not_hasFault_tooLong h (.children hunder)

end Decoding

end SchemaTree.Json
