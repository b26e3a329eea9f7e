import SchemaTree.Proofs.References
import SchemaTree.Proofs.StringLiterals
import Mathlib.Data.List.Forall2

/-!
# Copies of subtrees

A copy of an item has fresh ids and is otherwise the same (`Item.withoutIds_clone`). It may be
appended to any list of children, also to those of the item that it is a copy of or of an item below
that one: `Item.JoinsDocument` leaves open which it is.

In pre-order, the document then has the items that it had and, in one place among them, those of the
copy (`Enlarges`). Everything else follows from this and from the ids being new: searches pass the
copy over, and as the references in a copy are those of the original, no reference leads into it
(`clone_disjoint`).
-/

namespace SchemaTree

open Relation StateTransition Text

/-! ## Supplies of ids -/

namespace IdSupply

variable {supply : IdSupply} {m n : ℕ}

/-- A supply after a number of ids. -/
def advance (supply : IdSupply) (n : ℕ) : IdSupply := { supply with next := supply.next + n }

/-- The next ids of a supply. -/
def upcoming (supply : IdSupply) (n : ℕ) : List String := (List.range' supply.next n).map supply.nth

/-- No id that the supply has yet to give is in use, be it by an item or in a reference. -/
structure FreshFor (supply : IdSupply) (d : Document) : Prop where
  ids (n : ℕ) (hn : supply.next ≤ n) : ∀ x ∈ d.items, x.id ≠ supply.nth n
  references (n : ℕ) (hn : supply.next ≤ n) :
    ∀ x ∈ d.items, x.attributes.reference ≠ some (supply.nth n)

theorem upcoming_add (supply : IdSupply) (m n : ℕ) :
    supply.upcoming (m + n) = supply.upcoming m ++ (supply.advance m).upcoming n := by
  rw [upcoming, ← List.range'_append_1, List.map_append]
  rfl

theorem upcoming_succ (supply : IdSupply) (n : ℕ) :
    supply.upcoming (n + 1) = supply.nth supply.next :: (supply.advance 1).upcoming n := by
  rw [Nat.add_comm, upcoming_add]
  rfl

theorem exists_nth_of_mem_upcoming {id : String} (h : id ∈ supply.upcoming n) :
    ∃ k, supply.next ≤ k ∧ k < supply.next + n ∧ supply.nth k = id := by
  obtain ⟨k, hk, rfl⟩ := List.mem_map.mp h
  obtain ⟨hle, hlt⟩ := List.mem_range'_1.mp hk
  exact ⟨k, hle, hlt, rfl⟩

/-- The number that hexadecimal digits stand for. -/
def hexNumber (digits : List Char) : ℕ :=
  digits.foldl (fun n c ↦ n * 16 + (Json.hexValue? c).getD 0) 0

theorem hexNumber_toDigits (n : ℕ) : hexNumber (Nat.toDigits 16 n) = n := by
  induction n using Nat.strongRecOn with
  | ind n ih =>
    rcases Nat.lt_or_ge n 16 with hn | hn
    · rw [Nat.toDigits_of_lt_base hn, hexNumber, List.foldl_cons, hexValue?_digitChar hn]
      simp
    · have hquotient := ih (n / 16) (Nat.div_lt_self (by omega) (by decide))
      rw [hexNumber] at hquotient
      rw [Nat.toDigits_of_base_le (by decide) hn, hexNumber, List.foldl_append, hquotient,
        List.foldl_cons, hexValue?_digitChar (Nat.mod_lt n (by decide))]
      exact Nat.div_add_mod' n 16

/-- **No id is given twice.** -/
theorem nth_injective (supply : IdSupply) : Function.Injective supply.nth := by
  have hnumber (n : ℕ) : hexNumber (hex 12 n) = n := by
    have hzeros (k : ℕ) : (List.replicate k '0').foldl
        (fun n c ↦ n * 16 + (Json.hexValue? c).getD 0) 0 = 0 := by
      induction k with
      | zero => rfl
      | succ k ih => exact ih
    rw [hex, hexNumber, List.foldl_append, hzeros]
    exact hexNumber_toDigits n
  intro m n h
  have hdigits : hex 12 m = hex 12 n :=
    String.ofList_inj.mp (String.append_right_inj _ |>.mp h)
  rw [← hnumber m, hdigits, hnumber]

theorem nodup_upcoming (supply : IdSupply) (n : ℕ) : (supply.upcoming n).Nodup :=
  (List.nodup_range' 1 Nat.one_pos).map supply.nth_injective

theorem nth_ne {id : String} (h : id.toList.head? ≠ some 'i') (n : ℕ) : supply.nth n ≠ id := by
  rintro rfl
  exact h (by simp [nth])

end IdSupply

/-! ## Items without their ids -/

namespace Item

mutual

/-- An item with all ids in it made blank. -/
def withoutIds : Item → Item
  | .mk a fields options =>
    .mk { a with id := "" } (withoutIdsSlot fields) (withoutIdsSlot options)

/-- An optional list of children with all ids in them made blank. -/
def withoutIdsSlot : Option (List Item) → Option (List Item)
  | none => none
  | some xs => some (withoutIdsList xs)

/-- A list of children with all ids in them made blank. -/
def withoutIdsList : List Item → List Item
  | [] => []
  | x :: rest => x.withoutIds :: withoutIdsList rest

end

variable {x y : Item} {xs ys : List Item}

theorem withoutIdsList_eq (xs : List Item) : withoutIdsList xs = xs.map withoutIds := by
  induction xs with
  | nil => rfl
  | cons x xs ih => rw [withoutIdsList, ih, List.map_cons]

theorem withoutIdsSlot_eq (slot : Option (List Item)) :
    withoutIdsSlot slot = slot.map (List.map withoutIds) := by
  cases slot with
  | none => rfl
  | some xs => exact congrArg some (withoutIdsList_eq xs)

theorem attributes_withoutIds (x : Item) :
    x.withoutIds.attributes = { x.attributes with id := "" } := by
  obtain ⟨a, fields, options⟩ := x
  rw [withoutIds, attributes, attributes]

theorem children_withoutIds (x : Item) : x.withoutIds.children = x.children.map withoutIds := by
  obtain ⟨a, fields, options⟩ := x
  rw [withoutIds, children, children, withoutIdsSlot_eq, withoutIdsSlot_eq, List.map_append]
  cases fields <;> cases options <;> rfl

theorem descendants_withoutIds (x : Item) :
    x.withoutIds.descendants = x.descendants.map withoutIds := by
  induction x using childrenInduction with
  | step x ih =>
    rw [descendants_eq, descendants_eq x, children_withoutIds, List.flatMap_map, List.map_flatMap]
    refine List.flatMap_congr fun y hy ↦ ?_
    rw [ih y hy, List.map_cons]

/-- Items that are the same but for their ids have the same references in them. -/
theorem exists_reference_eq (h : y.withoutIds = x.withoutIds) {z : Item}
    (hz : z ∈ y :: y.descendants) :
    ∃ w ∈ x :: x.descendants, w.attributes.reference = z.attributes.reference := by
  have hnodes : (y :: y.descendants).map withoutIds = (x :: x.descendants).map withoutIds := by
    rw [List.map_cons, List.map_cons, ← descendants_withoutIds, ← descendants_withoutIds, h]
  have hmem : z.withoutIds ∈ (x :: x.descendants).map withoutIds :=
    hnodes ▸ List.mem_map_of_mem hz
  obtain ⟨w, hw, heq⟩ := List.mem_map.mp hmem
  refine ⟨w, hw, ?_⟩
  have hattributes := congrArg (fun v ↦ v.attributes.reference) heq
  simpa only [attributes_withoutIds] using hattributes

/-! ## Copies -/

/-- The ids of an item and of all below it, in pre-order. -/
def ids (x : Item) : List String := (x :: x.descendants).map Item.id

/-- Items are copied: the copies are the same but for the ids, which are the next ones of the supply
in pre-order, and the supply has moved on. -/
structure Copies (xs : List Item) (supply : IdSupply) (ys : List Item) (supply' : IdSupply) :
    Prop where
  alike : ys.map withoutIds = xs.map withoutIds
  ids : ys.flatMap Item.ids = supply.upcoming (descendantsList xs).length
  supply : supply' = supply.advance (descendantsList xs).length

variable {s s₁ s₂ : IdSupply}

theorem Copies.cons (hx : Copies [x] s [y] s₁) (hxs : Copies xs s₁ ys s₂) :
    Copies (x :: xs) s (y :: ys) s₂ := by
  have hlength : (descendantsList (x :: xs)).length =
      (descendantsList [x]).length + (descendantsList xs).length := by
    rw [← List.length_append, descendantsList_eq, descendantsList_eq, descendantsList_eq,
      ← List.flatMap_append, List.singleton_append]
  refine ⟨?_, ?_, ?_⟩
  · rw [← List.singleton_append, List.map_append, hx.alike, hxs.alike, ← List.map_append,
      List.singleton_append]
  · rw [← List.singleton_append, List.flatMap_append, hx.ids, hxs.ids, hlength,
      IdSupply.upcoming_add, hx.supply]
  · rw [hxs.supply, hx.supply, hlength, IdSupply.advance, IdSupply.advance, IdSupply.advance,
      Nat.add_assoc]

/-- An item is copied by giving it an id and copying its fields and then its options. -/
theorem Copies.node {a : Attributes} {fields options fields' options' : Option (List Item)}
    (hf : Copies (fields.getD []) (s.advance 1) (fields'.getD []) s₁)
    (ho : Copies (options.getD []) s₁ (options'.getD []) s₂)
    (hfields : fields'.map (List.map withoutIds) = fields.map (List.map withoutIds))
    (hoptions : options'.map (List.map withoutIds) = options.map (List.map withoutIds)) :
    Copies [.mk a fields options] s [.mk { a with id := s.nth s.next } fields' options'] s₂ := by
  have hlength : (descendantsList [.mk a fields options]).length =
      (descendantsList (fields.getD [])).length +
        (descendantsList (options.getD [])).length + 1 := by
    simp only [descendantsList, descendants, descendantsSlot_eq, descendantsList_eq,
      List.append_nil, List.length_cons, List.length_append]
  have hids : Item.ids (.mk { a with id := s.nth s.next } fields' options') =
      s.nth s.next ::
        ((fields'.getD []).flatMap Item.ids ++ (options'.getD []).flatMap Item.ids) := by
    rw [Item.ids, descendants, descendantsSlot_eq, descendantsSlot_eq, List.map_cons,
      List.map_append, List.map_flatMap, List.map_flatMap]
    rfl
  refine ⟨?_, ?_, ?_⟩
  · rw [List.map_singleton, List.map_singleton, withoutIds, withoutIds, withoutIdsSlot_eq,
      withoutIdsSlot_eq, withoutIdsSlot_eq, withoutIdsSlot_eq, hfields, hoptions]
  · rw [List.flatMap_singleton, hids, hf.ids, ho.ids, hlength, IdSupply.upcoming_succ,
      IdSupply.upcoming_add, hf.supply]
  · rw [ho.supply, hf.supply, hlength, IdSupply.advance, IdSupply.advance, IdSupply.advance,
      IdSupply.advance]
    simp only [Nat.add_assoc, Nat.add_comm 1]

theorem copies_cloneList (h : ∀ x ∈ xs, ∀ s, Copies [x] s [(x.clone.run s).1] (x.clone.run s).2)
    (s : IdSupply) : Copies xs s ((cloneList xs).run s).1 ((cloneList xs).run s).2 := by
  induction xs generalizing s with
  | nil => exact ⟨rfl, rfl, rfl⟩
  | cons x xs ih =>
    obtain ⟨hx, hxs⟩ := List.forall_mem_cons.mp h
    rw [cloneList]
    exact (hx s).cons (ih hxs (x.clone.run s).2)

theorem copies_cloneSlot {slot : Option (List Item)}
    (h : ∀ x ∈ slot.getD [], ∀ s, Copies [x] s [(x.clone.run s).1] (x.clone.run s).2)
    (s : IdSupply) :
    Copies (slot.getD []) s (((cloneSlot slot).run s).1.getD []) ((cloneSlot slot).run s).2 ∧
      ((cloneSlot slot).run s).1.map (List.map withoutIds) = slot.map (List.map withoutIds) := by
  cases slot with
  | none => exact ⟨⟨rfl, rfl, rfl⟩, rfl⟩
  | some xs =>
    have hxs := copies_cloneList h s
    exact ⟨hxs, congrArg some hxs.alike⟩

/-- **What a copy is.** -/
theorem copies_clone (x : Item) (s : IdSupply) :
    Copies [x] s [(x.clone.run s).1] (x.clone.run s).2 := by
  induction x using induction generalizing s with
  | step a fields options ihf iho =>
    obtain ⟨hf, hfields⟩ := copies_cloneSlot ihf (s.advance 1)
    obtain ⟨ho, hoptions⟩ := copies_cloneSlot iho ((cloneSlot fields).run (s.advance 1)).2
    rw [clone]
    exact hf.node ho hfields hoptions

theorem withoutIds_clone (x : Item) (s : IdSupply) :
    (x.clone.run s).1.withoutIds = x.withoutIds := by
  simpa using (copies_clone x s).alike

/-- The number of items that an item stands for, itself included. -/
def size (x : Item) : ℕ := x.descendants.length + 1

theorem ids_clone (x : Item) (s : IdSupply) : (x.clone.run s).1.ids = s.upcoming x.size := by
  simpa [descendantsList, size] using (copies_clone x s).ids

theorem supply_clone (x : Item) (s : IdSupply) : (x.clone.run s).2 = s.advance x.size := by
  simpa [descendantsList, size] using (copies_clone x s).supply

end Item

/-! ## Joining a tree -/

/-- The item `y` joins another one: it is appended to one of the lists of children of that item or
of an item below it. -/
inductive Item.Joins (y : Item) : Item → Item → Prop where
  | here (slot : Slot) (x : Item) : Joins y x (append slot y x)
  | field {a : Attributes} {before after : List Item} {options : Option (List Item)} {x x' : Item}
      (h : Joins y x x') :
    Joins y (.mk a (some (before ++ x :: after)) options)
      (.mk a (some (before ++ x' :: after)) options)
  | option {a : Attributes} {fields : Option (List Item)} {before after : List Item} {x x' : Item}
      (h : Joins y x x') :
    Joins y (.mk a fields (some (before ++ x :: after)))
      (.mk a fields (some (before ++ x' :: after)))

/-- The item `y` joins a document: it is appended to the fields of the root or to one of the lists
of children of an item. -/
inductive Item.JoinsDocument (y : Item) : Document → Document → Prop where
  | root (d : Document) : JoinsDocument y d (d.append y)
  | below {before after : List Item} {x x' : Item} (h : y.Joins x x') :
    JoinsDocument y ⟨before ++ x :: after⟩ ⟨before ++ x' :: after⟩

/-- An item is as it was, or `y` has joined it. -/
def Item.Keeps (y z z' : Item) : Prop := z' = z ∨ y.Joins z z'

/-- What becomes of the items of a tree that `y` joins. The items of `y` stand in one place among
those that are kept, in order, each as it was or joined by `y`. -/
structure Enlarges (y : Item) (old new kept : List Item) : Prop where
  keeps : List.Forall₂ y.Keeps old kept
  place : ∃ before after, kept = before ++ after ∧ new = before ++ (y :: y.descendants) ++ after

section Joining

variable {y z z' x x' : Item} {old new kept : List Item} {d d' : Document}

theorem Item.Joins.attributes (h : y.Joins x x') : x'.attributes = x.attributes := by
  cases h with
  | here slot =>
    obtain ⟨a, fields, options⟩ := x
    cases slot <;> rfl
  | field h | option h => rfl

theorem Item.Keeps.attributes (h : y.Keeps z z') : z'.attributes = z.attributes := by
  rcases h with rfl | h
  · rfl
  · exact h.attributes

theorem forall₂_keeps_refl (y : Item) (xs : List Item) : List.Forall₂ y.Keeps xs xs :=
  List.forall₂_same.mpr fun _ _ ↦ .inl rfl

theorem enlarges_append (y : Item) (before after : List Item) :
    Enlarges y (before ++ after) (before ++ (y :: y.descendants) ++ after) (before ++ after) :=
  ⟨forall₂_keeps_refl y _, before, after, rfl, rfl⟩

theorem Enlarges.cons (hz : y.Keeps z z') (h : Enlarges y old new kept) :
    Enlarges y (z :: old) (z' :: new) (z' :: kept) := by
  obtain ⟨before, after, rfl, rfl⟩ := h.place
  exact ⟨h.keeps.cons hz, z' :: before, after, rfl, rfl⟩

theorem Enlarges.append (before after : List Item) (h : Enlarges y old new kept) :
    Enlarges y (before ++ old ++ after) (before ++ new ++ after) (before ++ kept ++ after) := by
  obtain ⟨before', after', rfl, rfl⟩ := h.place
  refine ⟨?_, before ++ before', after' ++ after, ?_, ?_⟩
  · exact List.rel_append (List.rel_append (forall₂_keeps_refl y before) h.keeps)
      (forall₂_keeps_refl y after)
  · simp only [List.append_assoc]
  · simp only [List.append_assoc]

theorem descendantsList_append (xs ys : List Item) :
    Item.descendantsList (xs ++ ys) = Item.descendantsList xs ++ Item.descendantsList ys := by
  rw [Item.descendantsList_eq, Item.descendantsList_eq, Item.descendantsList_eq,
    List.flatMap_append]

theorem descendantsList_middle (before after : List Item) (x : Item) :
    Item.descendantsList (before ++ x :: after) =
      Item.descendantsList before ++ (x :: x.descendants) ++ Item.descendantsList after := by
  rw [descendantsList_append, Item.descendantsList, ← List.cons_append, List.append_assoc]

theorem descendantsSlot_append (slot : Option (List Item)) (y : Item) :
    Item.descendantsSlot (some (slot.getD [] ++ [y])) =
      Item.descendantsSlot slot ++ (y :: y.descendants) := by
  rw [Item.descendantsSlot, descendantsList_middle, Item.descendantsList, List.append_nil,
    Item.descendantsSlot_eq, Item.descendantsList_eq]

/-- An item that another one has joined has the items that it had, and those of the other. -/
theorem Item.Joins.enlarges (h : y.Joins x x') :
    ∃ kept, Enlarges y (x :: x.descendants) (x' :: x'.descendants) kept := by
  induction h with
  | here slot x =>
    have hkeeps : y.Keeps x (append slot y x) := .inr (.here slot x)
    obtain ⟨a, fields, options⟩ := x
    refine ⟨_ :: (descendantsSlot fields ++ descendantsSlot options), Enlarges.cons hkeeps ?_⟩
    cases slot with
    | fields =>
      rw [append, descendants, descendants, descendantsSlot_append]
      exact enlarges_append y _ _
    | options =>
      have hlast := enlarges_append y (descendantsSlot fields ++ descendantsSlot options) []
      rw [append, descendants, descendants, descendantsSlot_append]
      simpa only [List.append_nil, List.append_assoc] using hlast
  | @field a before after options x x' h ih =>
    obtain ⟨kept, hkept⟩ := ih
    have hbelow := hkept.append (descendantsList before)
      (descendantsList after ++ descendantsSlot options)
    refine ⟨_ ::
        (descendantsList before ++ kept ++ (descendantsList after ++ descendantsSlot options)),
      Enlarges.cons (.inr (.field h)) ?_⟩
    rw [descendants, descendants, descendantsSlot, descendantsSlot, descendantsList_middle,
      descendantsList_middle, List.append_assoc _ (descendantsList after),
      List.append_assoc _ (descendantsList after)]
    exact hbelow
  | @option a fields before after x x' h ih =>
    obtain ⟨kept, hkept⟩ := ih
    have hbelow := hkept.append (descendantsSlot fields ++ descendantsList before)
      (descendantsList after)
    refine ⟨_ ::
        (descendantsSlot fields ++ descendantsList before ++ kept ++ descendantsList after),
      Enlarges.cons (.inr (.option h)) ?_⟩
    simp only [List.append_assoc] at hbelow
    simpa only [descendants, descendantsSlot, descendantsList_middle,
      List.append_assoc] using hbelow

/-- **What a document has that an item has joined.** -/
theorem Item.JoinsDocument.enlarges (h : y.JoinsDocument d d') :
    ∃ kept, Enlarges y d.items d'.items kept := by
  cases h with
  | root =>
    refine ⟨d.items ++ [], ?_⟩
    have hlast := enlarges_append y d.items []
    rw [Document.items, Document.items, Document.append, descendantsList_middle]
    simpa only [Document.items, Item.descendantsList, List.append_nil] using hlast
  | @below before after x x' h =>
    obtain ⟨kept, hkept⟩ := h.enlarges
    refine ⟨Item.descendantsList before ++ kept ++ Item.descendantsList after, ?_⟩
    rw [Document.items, Document.items, descendantsList_middle, descendantsList_middle]
    exact hkept.append _ _

/-! ### Edits -/

/-- A change to the item that a search finds is a change to one item of a list. -/
theorem exists_of_modifyList? {id : String} {f : Item → Item} {xs ys : List Item}
    (h : Item.modifyList? id f xs = some ys) :
    ∃ before x x' after, xs = before ++ x :: after ∧ ys = before ++ x' :: after ∧
      x.modify? id f = some x' := by
  induction xs generalizing ys with
  | nil => cases h
  | cons x xs ih =>
    rw [Item.modifyList?] at h
    split at h
    · next x' hx =>
      obtain rfl := Option.some.inj h
      exact ⟨[], x, x', xs, rfl, rfl, hx⟩
    · split at h
      · next ys hxs =>
        obtain rfl := Option.some.inj h
        obtain ⟨before, z, z', after, rfl, rfl, hz⟩ := ih hxs
        exact ⟨x :: before, z, z', after, rfl, rfl, hz⟩
      · cases h

theorem exists_of_modifySlot? {id : String} {f : Item → Item} {slot slot' : Option (List Item)}
    (h : Item.modifySlot? id f slot = some slot') :
    ∃ before x x' after, slot = some (before ++ x :: after) ∧ slot' = some (before ++ x' :: after) ∧
      x.modify? id f = some x' := by
  cases slot with
  | none => cases h
  | some xs =>
    rw [Item.modifySlot?] at h
    split at h
    · next ys hys =>
      obtain rfl := Option.some.inj h
      obtain ⟨before, x, x', after, rfl, rfl, hx⟩ := exists_of_modifyList? hys
      exact ⟨before, x, x', after, rfl, rfl, hx⟩
    · cases h

/-- An item that is appended to the item that a search finds joins the tree. -/
theorem Item.joins_of_modify? {id : String} {slot : Slot}
    (h : x.modify? id (append slot y) = some x') : y.Joins x x' := by
  induction x using induction generalizing x' with
  | step a fields options ihf iho =>
    rw [modify?] at h
    split at h
    · obtain rfl := Option.some.inj h
      exact .here slot _
    · split at h
      · next fields' hfields =>
        obtain rfl := Option.some.inj h
        obtain ⟨before, z, z', after, rfl, rfl, hz⟩ := exists_of_modifySlot? hfields
        exact .field (ihf z (List.mem_append_right _ List.mem_cons_self) hz)
      · split at h
        · next options' hoptions =>
          obtain rfl := Option.some.inj h
          obtain ⟨before, z, z', after, rfl, rfl, hz⟩ := exists_of_modifySlot? hoptions
          exact .option (iho z (List.mem_append_right _ List.mem_cons_self) hz)
        · cases h

theorem Document.joins_of_modify? {id : String} {slot : Slot}
    (h : d.modify? id (Item.append slot y) = some d') : y.JoinsDocument d d' := by
  obtain ⟨fields⟩ := d
  obtain ⟨fields', hfields, rfl⟩ := Option.map_eq_some_iff.mp h
  obtain ⟨before, x, x', after, rfl, rfl, hx⟩ := exists_of_modifyList? hfields
  exact .below (Item.joins_of_modify? hx)

/-! ### Items that are kept -/

variable {id : String}

theorem map_id_of_keeps (h : List.Forall₂ y.Keeps old kept) :
    kept.map Item.id = old.map Item.id := by
  induction h with
  | nil => rfl
  | cons hz _ ih => rw [List.map_cons, List.map_cons, ih, Item.id, hz.attributes, Item.id]

theorem Enlarges.map_id_perm (h : Enlarges y old new kept) :
    (new.map Item.id).Perm (y.ids ++ old.map Item.id) := by
  rw [← map_id_of_keeps h.keeps]
  obtain ⟨before, after, rfl, rfl⟩ := h.place
  rw [List.map_append, List.map_append, List.map_append, Item.ids, ← List.append_assoc]
  exact List.perm_append_comm.append_right _

theorem Enlarges.mem_cases (h : Enlarges y old new kept) (hz : z' ∈ new) :
    z' ∈ y :: y.descendants ∨ ∃ z ∈ old, y.Keeps z z' := by
  obtain ⟨before, after, rfl, rfl⟩ := h.place
  have hkept (hmem : z' ∈ before ++ after) : ∃ z ∈ old, y.Keeps z z' := by
    obtain ⟨i, hi, rfl⟩ := List.mem_iff_getElem.mp hmem
    have hold : i < old.length := h.keeps.length_eq ▸ hi
    exact ⟨old[i], List.getElem_mem hold, h.keeps.get hold hi⟩
  rw [List.mem_append, List.mem_append] at hz
  rcases hz with (hz | hz) | hz
  · exact .inr (hkept (List.mem_append_left _ hz))
  · exact .inl hz
  · exact .inr (hkept (List.mem_append_right _ hz))

/-- Whoever looks for another id passes the items of `y` over. -/
theorem Enlarges.named_eq (h : Enlarges y old new kept) (hid : id ∉ y.ids) :
    named new id = named kept id := by
  obtain ⟨before, after, rfl, rfl⟩ := h.place
  have hnone : named (y :: y.descendants) id = none :=
    named_eq_none_iff.mpr fun z hz heq ↦ hid (heq ▸ List.mem_map_of_mem hz)
  rw [named] at hnone ⊢
  rw [named, List.find?_append, List.find?_append, List.find?_append, hnone, Option.or_none]

/-- The first item with an id is where it was. -/
theorem exists_named_of_keeps (h : List.Forall₂ y.Keeps old kept) (hz : named old id = some z) :
    ∃ (i : ℕ) (z' : Item), old[i]? = some z ∧ kept[i]? = some z' ∧ y.Keeps z z' ∧
      named kept id = some z' := by
  induction h with
  | nil => cases hz
  | @cons w w' old kept hw _ ih =>
    have hid : w'.id = w.id := congrArg Attributes.id hw.attributes
    rw [named_cons] at hz
    by_cases heq : w.id = id
    · rw [if_pos heq, Option.some_inj] at hz
      subst hz
      exact ⟨0, w', rfl, rfl, hw, by rw [named_cons, if_pos (hid.trans heq)]⟩
    · rw [if_neg heq] at hz
      obtain ⟨i, z', hold, hkept, hkeeps, hnamed⟩ := ih hz
      exact ⟨i + 1, z', hold, hkept, hkeeps, by rw [named_cons, hid, if_neg heq, hnamed]⟩

end Joining

/-! ## Copies that join their document -/

section Copying

variable {d d' : Document} {x : Item} {s : IdSupply} {id a b : String} {old new kept : List Item}

namespace IdSupply

/-- Ids that are still to come are no ids of the document. -/
theorem FreshFor.ne_of_mem_upcoming (h : s.FreshFor d) {n : ℕ} (hid : id ∈ s.upcoming n) :
    ∀ z ∈ d.items, z.id ≠ id := by
  obtain ⟨k, hk, -, rfl⟩ := exists_nth_of_mem_upcoming hid
  exact h.ids k hk

/-- The references in a document that a copy has joined are those that were there before. -/
theorem FreshFor.reference_ne (h : s.FreshFor d) (hx : x ∈ d.items)
    (hjoins : (x.clone.run s).1.JoinsDocument d d') {k : ℕ} (hk : s.next ≤ k) :
    ∀ n ∈ d'.items, n.attributes.reference ≠ some (s.nth k) := by
  intro n hn
  obtain ⟨kept, henlarges⟩ := hjoins.enlarges
  rcases henlarges.mem_cases hn with hn | ⟨z, hz, hkeeps⟩
  · obtain ⟨w, hw, heq⟩ := Item.exists_reference_eq (x.withoutIds_clone s) hn
    have hmem : w ∈ d.items :=
      (List.mem_cons.mp hw).elim (fun hwx ↦ hwx ▸ hx) fun hw ↦ d.descendants_subset_items hx hw
    exact heq ▸ h.references k hk w hmem
  · rw [hkeeps.attributes]
    exact h.references k hk z hz

/-- A copy may be followed by another one: what is left of the supply is fresh for the document with
the copy. -/
theorem FreshFor.joined (h : s.FreshFor d) (hx : x ∈ d.items)
    (hjoins : (x.clone.run s).1.JoinsDocument d d') : (x.clone.run s).2.FreshFor d' := by
  rw [Item.supply_clone]
  refine ⟨fun k hk n hn heq ↦ ?_, fun k hk ↦ h.reference_ne hx hjoins (Nat.le_of_add_right_le hk)⟩
  obtain ⟨kept, henlarges⟩ := hjoins.enlarges
  have hmem : n.id ∈ (x.clone.run s).1.ids ++ d.items.map Item.id :=
    henlarges.map_id_perm.mem_iff.mp (List.mem_map_of_mem hn)
  rw [Item.ids_clone] at hmem
  rcases List.mem_append.mp hmem with hmem | hmem
  · obtain ⟨j, -, hlt, hj⟩ := exists_nth_of_mem_upcoming hmem
    have hjk : j = k := s.nth_injective (hj.trans heq)
    have hle : s.next + x.size ≤ k := hk
    omega
  · obtain ⟨z, hz, hid⟩ := List.mem_map.mp hmem
    exact h.ids k (Nat.le_of_add_right_le hk) z hz (hid.trans heq)

end IdSupply

theorem nodup_of_joins (h : s.FreshFor d) (hjoins : (x.clone.run s).1.JoinsDocument d d')
    (hids : (d.items.map Item.id).Nodup) : (d'.items.map Item.id).Nodup := by
  obtain ⟨kept, henlarges⟩ := hjoins.enlarges
  rw [henlarges.map_id_perm.nodup_iff, List.nodup_append, Item.ids_clone]
  refine ⟨s.nodup_upcoming _, hids, fun a ha b hb ↦ ?_⟩
  obtain ⟨z, hz, rfl⟩ := List.mem_map.mp hb
  exact (h.ne_of_mem_upcoming ha z hz).symm

/-- **No chain of references leads into a copy.** -/
theorem notMem_ids_of_chain (h : s.FreshFor d) (hx : x ∈ d.items)
    (hjoins : (x.clone.run s).1.JoinsDocument d d') {n : Item} (hn : n ∈ d'.items)
    (href : n.target? = some a) (hchain : ReflTransGen (LinksTo d'.items) a b) :
    b ∉ (x.clone.run s).1.ids := by
  have hnext {n : Item} {b : String} (hn : n ∈ d'.items) (href : n.target? = some b) :
      b ∉ (x.clone.run s).1.ids := by
    intro hb
    rw [Item.ids_clone] at hb
    obtain ⟨k, hk, -, rfl⟩ := IdSupply.exists_nth_of_mem_upcoming hb
    exact h.reference_ne hx hjoins hk n hn (Option.eq_some_of_filter_eq_some href)
  rcases hchain.cases_tail with rfl | ⟨c, -, m, hm, -, hlink⟩
  · exact hnext hn href
  · exact hnext hm hlink

/-- Links between items that are built are links between items. -/
theorem linksTo_of_linkOf_built (h : b ∈ linkOf d.built a) : LinksTo d.items a b := by
  obtain ⟨x, hx, hlink⟩ := Option.bind_eq_some_iff.mp h
  obtain ⟨hmem, rfl⟩ := mem_of_named hx
  exact ⟨x, d.built_subperm_items.subset hmem, rfl, hlink⟩

/-- What is found with an id is an item that is kept, where it was. -/
def StillFinds (y : Item) (old kept : List Item) (search search' : String → Option Item) : Prop :=
  ∀ id z, search id = some z → ∃ (i : ℕ) (z' : Item), old[i]? = some z ∧ kept[i]? = some z' ∧
    y.Keeps z z' ∧ search' id = some z'

theorem Enlarges.stillFinds {y : Item} (h : Enlarges y old new kept)
    (hfresh : ∀ id ∈ y.ids, ∀ z ∈ old, z.id ≠ id) :
    StillFinds y old kept (named old) (named new) := by
  intro id z hz
  obtain ⟨i, z', hold, hkept, hkeeps, hnamed⟩ := exists_named_of_keeps h.keeps hz
  obtain ⟨hmem, rfl⟩ := mem_of_named hz
  exact ⟨i, z', hold, hkept, hkeeps,
    (h.named_eq fun hid ↦ hfresh _ hid z hmem rfl).trans hnamed⟩

/-- **A copy is faithful and disjoint.** If no id that is still to come is in use in a document, a
copy of one of its items is the same as that item but for its ids, which are distinct and new.
Wherever the copy joins the document, ids that were distinct still are; whatever a search or the
table by id found before, they find where it was, unchanged unless the copy has joined it; and no
reference, be it in the copy or elsewhere, leads to an item of the copy, neither along a chain nor
by way of the table or of the registry. The ids that are left may be used for the next copy. -/
theorem clone_disjoint (hx : x ∈ d.items) (hfresh : s.FreshFor d) :
    (x.clone.run s).1.withoutIds = x.withoutIds ∧
      (x.clone.run s).1.ids.Nodup ∧
      (∀ id ∈ (x.clone.run s).1.ids, id ≠ rootId ∧ ∀ z ∈ d.items, z.id ≠ id) ∧
      ∀ d', (x.clone.run s).1.JoinsDocument d d' →
        ((d.items.map Item.id).Nodup → (d'.items.map Item.id).Nodup) ∧
        (∃ kept, Enlarges (x.clone.run s).1 d.items d'.items kept ∧
          StillFinds (x.clone.run s).1 d.items kept d.find? d'.find? ∧
          StillFinds (x.clone.run s).1 d.items kept d.index.find? d'.index.find?) ∧
        (∀ n ∈ d'.items, ∀ ref, n.target? = some ref →
          (∀ id, ReflTransGen (LinksTo d'.items) ref id → id ∉ (x.clone.run s).1.ids) ∧
          (∀ w, d'.index.resolve n.attributes = some w → w.id ∉ (x.clone.run s).1.ids) ∧
          ∀ anonymous id, (d'.registry anonymous).target? ref = some id →
            id ∉ (x.clone.run s).1.ids) ∧
        (x.clone.run s).2.FreshFor d' := by
  have hnew : ∀ id ∈ (x.clone.run s).1.ids, ∀ z ∈ d.items, z.id ≠ id := by
    rw [Item.ids_clone]
    exact fun id hid ↦ hfresh.ne_of_mem_upcoming hid
  refine ⟨x.withoutIds_clone s, x.ids_clone s ▸ s.nodup_upcoming _, fun id hid ↦ ⟨?_, hnew id hid⟩,
    fun d' hjoins ↦ ⟨nodup_of_joins hfresh hjoins, ?_, fun n hn ref href ↦ ?_,
      hfresh.joined hx hjoins⟩⟩
  · rw [Item.ids_clone] at hid
    obtain ⟨k, -, -, rfl⟩ := IdSupply.exists_nth_of_mem_upcoming hid
    exact IdSupply.nth_ne (by decide) k
  · obtain ⟨kept, henlarges⟩ := hjoins.enlarges
    have hfinds := henlarges.stillFinds hnew
    refine ⟨kept, henlarges, fun id z hz ↦ ?_, fun id z hz ↦ ?_⟩
    · have hroot : id ≠ rootId := by
        rintro rfl
        exact absurd (d.find?_rootId.symm.trans hz) nofun
      rw [d'.find?_of_ne hroot]
      exact hfinds id z (d.find?_of_ne hroot ▸ hz)
    · rw [d'.find?_index]
      exact hfinds id z (d.find?_index id ▸ hz)
  · have hchain {id : String} := notMem_ids_of_chain (b := id) hfresh hx hjoins hn href
    refine ⟨fun id ↦ hchain, fun w hw ↦ ?_, fun anonymous id hid ↦ ?_⟩
    · rw [Document.resolve_eq href] at hw
      exact hchain (leadsTo_of_follow d'.find?_index hw).1
    · rw [Document.target?_registry_eq_some_iff, mem_eval] at hid
      exact hchain (ReflTransGen.mono (fun _ _ ↦ linksTo_of_linkOf_built) _ _ hid.1)

end Copying

/-- An object with a reference to itself. -/
def Item.ring : Item :=
  .mk (Item.new "ring" .object "ring").attributes (some [.referring "next" "ring"]) none

theorem clone_disjoint_ring :
    let d : Document := ⟨[Item.ring]⟩
    let y := (Item.ring.clone.run ⟨"", 0⟩).1
    let d' : Document := ⟨[Item.append .fields y Item.ring]⟩
    Item.ring ∈ d.items ∧ IdSupply.FreshFor ⟨"", 0⟩ d ∧ y.JoinsDocument d d' ∧
      (d'.items.map Item.id).Nodup ∧
      (∃ z, d'.find? "ring" = some z ∧ y.Keeps Item.ring z) ∧
      ∀ n ∈ d'.items, ∀ ref, n.target? = some ref → ∀ w, d'.index.resolve n.attributes = some w →
        w.id ∉ y.ids := by
  intro d y d'
  have hitems : d.items = [Item.ring, .referring "next" "ring"] := rfl
  have hx : Item.ring ∈ d.items := hitems ▸ List.mem_cons_self
  have hfresh : IdSupply.FreshFor ⟨"", 0⟩ d := by
    refine ⟨fun n _ z hz ↦ (IdSupply.nth_ne ?_ n).symm, fun n _ z hz h ↦ ?_⟩
    · rcases List.mem_cons.mp (hitems ▸ hz) with rfl | hz
      · decide
      · rw [List.mem_singleton.mp hz]
        decide
    · have href : z.attributes.reference = none ∨ z.attributes.reference = some "ring" := by
        rcases List.mem_cons.mp (hitems ▸ hz) with rfl | hz
        · exact .inl rfl
        · rw [List.mem_singleton.mp hz]
          exact .inr rfl
      rcases href with href | href
      · exact absurd (href.symm.trans h) nofun
      · exact IdSupply.nth_ne (by decide) n (Option.some.inj (h.symm.trans href))
  have hjoins : y.JoinsDocument d d' :=
    @Item.JoinsDocument.below y [] [] _ _ (.here .fields Item.ring)
  obtain ⟨-, -, -, hjoined⟩ := clone_disjoint hx hfresh
  obtain ⟨hids, ⟨kept, -, hfinds, -⟩, hrefs, -⟩ := hjoined d' hjoins
  obtain ⟨i, z, -, -, hkeeps, hfind⟩ := hfinds "ring" Item.ring rfl
  exact ⟨hx, hfresh, hjoins, hids (by decide), ⟨z, hfind, hkeeps⟩,
    fun n hn ref href ↦ (hrefs n hn ref href).2.1⟩

/-! ## Runs of copies -/

/-- An item of the document is copied, and the copy joins the document. -/
inductive CopyStep : Document × IdSupply → Document × IdSupply → Prop where
  | mk {d d' : Document} {x : Item} {s : IdSupply} (hx : x ∈ d.items)
      (hjoins : (x.clone.run s).1.JoinsDocument d d') : CopyStep (d, s) (d', (x.clone.run s).2)

/-- However many copies are made, of items or of copies of them, ids stay distinct. -/
theorem nodup_of_copies {start final : Document × IdSupply} (h : ReflTransGen CopyStep start final)
    (hfresh : start.2.FreshFor start.1) (hids : (start.1.items.map Item.id).Nodup) :
    final.2.FreshFor final.1 ∧ (final.1.items.map Item.id).Nodup := by
  induction h with
  | refl => exact ⟨hfresh, hids⟩
  | tail _ hstep ih =>
    obtain ⟨hfresh', hids'⟩ := ih
    cases hstep with
    | mk hx hjoins => exact ⟨hfresh'.joined hx hjoins, nodup_of_joins hfresh' hjoins hids'⟩

end SchemaTree
