import SchemaTree.Proofs.Codec
import SchemaTree.Proofs.Parsing

/-!
# Documents are loaded as they were written

What is written of a document is loaded as the document, whatever the indentation
(`text_round_trip`): the text is read as the document form, and the document form as the document.
What the form adds to the values that items carry is strings, flags and objects with distinct keys,
so that the text can be read if the values can.

There is one limit. A whole number with more than `maxWholeDigits` digits is neither written nor
read, wherever in a document it stands (`loadDocument_text`, `exists_unloadable_text`). -/

namespace SchemaTree

open Json

/-! ## What holds of a document form -/

section Inherited

variable {P : Json → Prop} {a : Attributes} {key : String} {value : Json}

/-- A property of values that strings and flags have, and that lists and objects with distinct keys
have as soon as their parts do. -/
structure Json.Inherited (P : Json → Prop) : Prop where
  str : ∀ s, P (.str s)
  bool : ∀ b, P (.bool b)
  arr : ∀ elements, (∀ e ∈ elements, P e) → P (.arr elements)
  obj : ∀ members, (Members.keys members).Nodup → (∀ m ∈ members, P m.2) → P (.obj members)

/-- The values that an item carries have a property. -/
structure Attributes.Carries (P : Json → Prop) (a : Attributes) : Prop where
  description : P a.description
  defaultValue : P a.defaultValue
  literal : P a.literal

/-- The keys of a document form, in the order in which they are written. -/
def documentKeys : List String :=
  ["id", "name", "type", "required", "isArray", "description", "default", "fields", "options",
    "lazy", "literalValue"]

theorem keys_optionalMember_sublist (key : String) (value : Json) :
    (Members.keys (optionalMember key value)).Sublist [key] := by
  cases value <;> simp [optionalMember, Members.keys]

theorem keys_slotMembers_sublist (key : String) (slot : Option (List Item)) :
    (Members.keys (Item.slotMembers key slot)).Sublist [key] := by
  cases slot <;> simp [Item.slotMembers, Members.keys]

theorem keys_members_sublist (a : Attributes) (fields options : Option (List Item)) :
    (Members.keys (Item.mk a fields options).members).Sublist documentKeys := by
  have hleading : (Members.keys a.leadingMembers).Sublist
      ["id", "name", "type", "required", "isArray", "description", "default"] := by
    have hdefault : (Members.keys (if a.hasDefault then [("default", a.defaultValue)] else
        [])).Sublist ["default"] := by
      split <;> simp [Members.keys]
    rw [Attributes.leadingMembers, Members.keys, List.map_append, List.map_append]
    exact ((List.Sublist.refl _).append (keys_optionalMember_sublist _ _)).append hdefault
  have htrailing : (Members.keys a.trailingMembers).Sublist ["lazy", "literalValue"] := by
    rw [Attributes.trailingMembers, Members.keys, List.map_append]
    change List.Sublist _ (["lazy"] ++ ["literalValue"])
    refine List.Sublist.append ?_ (keys_optionalMember_sublist _ _)
    split <;> simp
  rw [Item.members, Members.keys, List.map_append, List.map_append, List.map_append]
  exact ((hleading.append (keys_slotMembers_sublist _ _)).append
    (keys_slotMembers_sublist _ _)).append htrailing

theorem nodup_keys_members (a : Attributes) (fields options : Option (List Item)) :
    (Members.keys (Item.mk a fields options).members).Nodup :=
  (by decide : documentKeys.Nodup).sublist (keys_members_sublist a fields options)

namespace Json.Inherited

theorem optionalMember (h : P value) : ∀ m ∈ optionalMember key value, P m.2 := by
  cases value <;> simp [SchemaTree.optionalMember, h]

theorem leadingMembers (hP : Inherited P) (h : a.Carries P) : ∀ m ∈ a.leadingMembers, P m.2 := by
  have hdefault : ∀ m ∈ (if a.hasDefault then [("default", a.defaultValue)] else []), P m.2 := by
    split
    · exact List.forall_mem_singleton.mpr h.defaultValue
    · exact fun m hm ↦ absurd hm List.not_mem_nil
  rw [Attributes.leadingMembers]
  refine List.forall_mem_append.mpr ⟨List.forall_mem_append.mpr
    ⟨?_, optionalMember h.description⟩, hdefault⟩
  simp [hP.str, hP.bool]

theorem trailingMembers (hP : Inherited P) (h : a.Carries P) : ∀ m ∈ a.trailingMembers, P m.2 := by
  rw [Attributes.trailingMembers]
  refine List.forall_mem_append.mpr ⟨?_, optionalMember h.literal⟩
  split
  · exact fun m hm ↦ absurd hm List.not_mem_nil
  · exact List.forall_mem_singleton.mpr (hP.obj _ (List.nodup_singleton _)
      (List.forall_mem_singleton.mpr (hP.str _)))

theorem listToJson (hP : Inherited P) {xs : List Item} (h : ∀ x ∈ xs, P x.toJson) :
    P (.arr (Item.listToJson xs)) := by
  refine hP.arr _ ?_
  induction xs with
  | nil => exact fun e he ↦ absurd he List.not_mem_nil
  | cons x xs ih =>
    obtain ⟨hx, hxs⟩ := List.forall_mem_cons.mp h
    exact List.forall_mem_cons.mpr ⟨hx, ih hxs⟩

theorem slotMembers (hP : Inherited P) {slot : Option (List Item)}
    (h : ∀ x ∈ slot.getD [], P x.toJson) : ∀ m ∈ Item.slotMembers key slot, P m.2 := by
  cases slot with
  | none => exact fun m hm ↦ absurd hm List.not_mem_nil
  | some xs => exact List.forall_mem_singleton.mpr (hP.listToJson h)

/-- The document form of an item has the property if the values in the item have it. -/
theorem toJson (hP : Inherited P) {x : Item}
    (h : ∀ y ∈ x :: x.descendants, y.attributes.Carries P) : P x.toJson := by
  induction x using Item.induction with
  | step a fields options ihf iho =>
    obtain ⟨ha, hchildren⟩ := List.forall_mem_cons.mp h
    rw [Item.descendants_eq, List.forall_mem_flatMap] at hchildren
    have hfields : ∀ y ∈ fields.getD [], P y.toJson := fun y hy ↦
      ihf y hy (hchildren y (List.mem_append_left _ hy))
    have hoptions : ∀ y ∈ options.getD [], P y.toJson := fun y hy ↦
      iho y hy (hchildren y (List.mem_append_right _ hy))
    rw [Item.toJson_eq]
    refine hP.obj _ (nodup_keys_members a fields options) ?_
    exact List.forall_mem_append.mpr ⟨List.forall_mem_append.mpr ⟨List.forall_mem_append.mpr
      ⟨hP.leadingMembers ha, hP.slotMembers hfields⟩, hP.slotMembers hoptions⟩,
      hP.trailingMembers ha⟩

/-- The document form of a document has the property if the values in its items have it. -/
theorem document (hP : Inherited P) {d : Document}
    (h : ∀ x ∈ d.items, x.attributes.Carries P) : P d.toJson := by
  rw [Document.items_eq, List.forall_mem_flatMap] at h
  have hkeys : ["type", "id", "fields"].Nodup := by decide
  refine hP.obj _ hkeys ?_
  simp [hP.str, hP.listToJson fun x hx ↦ hP.toJson (h x hx)]

end Json.Inherited

end Inherited

/-! ## Values that are read from their texts -/

theorem inherited_hasDistinctKeys : Inherited HasDistinctKeys where
  str := .str
  bool := .bool
  arr _ := .arr
  obj _ := .obj

theorem inherited_excess : Inherited fun value ↦ value.excess? = none where
  str _ := rfl
  bool _ := rfl
  arr elements h := by
    rw [excess?]
    induction elements with
    | nil => rfl
    | cons e elements ih =>
      obtain ⟨he, helements⟩ := List.forall_mem_cons.mp h
      rw [excessIn?, he, Option.none_or, ih helements]
  obj members hkeys h := by
    rw [excess?]
    clear hkeys
    induction members with
    | nil => rfl
    | cons m members ih =>
      obtain ⟨hm, hmembers⟩ := List.forall_mem_cons.mp h
      rw [excessInMembers?, hm, Option.none_or, ih hmembers]

/-! ## Loading -/

section Loading

variable {d : Document}

/-- A document is loaded from its text, unless a whole number in it has too many digits. The first
of those that do is reported by their number. -/
theorem loadDocument_text
    (h : ∀ x ∈ d.items, x.attributes.WellFormed ∧ x.attributes.Carries HasDistinctKeys)
    (indent : Option Nat) (path : String) (ids : IdSupply) :
    (loadDocument path (d.text indent) ids).value =
      match d.toJson.excess? with
      | none => (.ok d, ids)
      | some count => (.error (.tooLong count), ids) := by
  have hkeys := inherited_hasDistinctKeys.document fun x hx ↦ (h x hx).2
  have hfields : ∀ x ∈ d.fields, x.WellFormed := by
    intro x hx y hy
    refine (h y ?_).1
    rw [Document.items_eq, List.mem_flatMap]
    exact ⟨x, hx, hy⟩
  rw [loadDocument, Document.text, parseFile_print hkeys]
  cases d.toJson.excess? with
  | some count => rfl
  | none =>
    have hread : ((readDocument d.toJson).run ids).value = (.ok d, ids) :=
      yields_readDocument_toJson hfields ids
    dsimp only
    rw [Logged.value_bind, hread]
    rfl

/-- **A document is written, and loaded as it was**, whatever the indentation, and no id is made for
it. -/
theorem text_round_trip
    (hitems : ∀ x ∈ d.items, x.attributes.WellFormed)
    (hkeys : ∀ x ∈ d.items, x.attributes.Carries HasDistinctKeys)
    (hnumbers : ∀ x ∈ d.items, x.attributes.Carries fun value ↦ value.excess? = none)
    (indent : Option Nat) (path : String) (ids : IdSupply) :
    ∃ text, d.dump indent = .ok text ∧ (loadDocument path text ids).value = (.ok d, ids) := by
  have hnone : d.toJson.excess? = none := inherited_excess.document hnumbers
  refine ⟨d.text indent, ?_, ?_⟩
  · rw [Document.dump, hnone]
    rfl
  · rw [loadDocument_text (fun x hx ↦ ⟨hitems x hx, hkeys x hx⟩), hnone]

end Loading

/-- Quotes, backslashes, control characters and characters beyond ASCII in every text, and a default
that nests empty and other lists and objects. -/
def Document.gnarled : Document :=
  ⟨[.mk { id := "\"id\"", name := "C:\\x\x07", kind := .ofName "\x00", required := false
          isArray := true, description := .str "tab\tend\r\n"
          defaultValue := .obj [("π", .arr [.float 0.1, .int (-7), .null, .arr []]), ("", .obj [])]
          hasDefault := true, literal := .float (1.0 / 0.0), reference := some "'\u2028" }
      (some []) none]⟩

theorem text_round_trip_gnarled :
    (∀ x ∈ Document.gnarled.items, x.attributes.WellFormed) ∧
      (∀ x ∈ Document.gnarled.items, x.attributes.Carries HasDistinctKeys) ∧
      (∀ x ∈ Document.gnarled.items, x.attributes.Carries fun value ↦ value.excess? = none) ∧
      ∃ text, Document.gnarled.dump (some 2) = .ok text ∧
        (loadDocument "doc.json" text ⟨"", 0⟩).value = (.ok Document.gnarled, ⟨"", 0⟩) := by
  have hitems : ∀ x ∈ Document.gnarled.items, x.attributes.WellFormed :=
    List.forall_mem_singleton.mpr ⟨by decide, fun h ↦ absurd h nofun⟩
  have hkeys : ∀ x ∈ Document.gnarled.items, x.attributes.Carries HasDistinctKeys := by
    refine List.forall_mem_singleton.mpr ⟨.str _, .obj (by decide) ?_, .float _⟩
    have hlist : HasDistinctKeys (.arr [.float 0.1, .int (-7), .null, .arr []]) :=
      .arr (by simpa using ⟨.float _, .int _, .null, .arr (by simp)⟩)
    exact List.forall_mem_cons.mpr ⟨hlist, List.forall_mem_singleton.mpr
      (.obj List.nodup_nil fun m hm ↦ absurd hm List.not_mem_nil)⟩
  have hnumbers : ∀ x ∈ Document.gnarled.items,
      x.attributes.Carries fun value ↦ value.excess? = none :=
    List.forall_mem_singleton.mpr ⟨rfl, rfl, rfl⟩
  exact ⟨hitems, hkeys, hnumbers, text_round_trip hitems hkeys hnumbers (some 2) "doc.json" _⟩

/-- A number with a whole default. -/
def Document.counting (n : Int) : Document :=
  ⟨[.mk { id := "a", name := "n", kind := .number, required := true, isArray := false
          description := .null, defaultValue := .int n, hasDefault := true
          literal := .null, reference := none } none none]⟩

theorem Document.excess?_counting (n : Int) :
    (counting n).toJson.excess? = (Json.int n).excess? := by
  have hexcess : (counting n).toJson.excess? =
      (((Json.int n).excess?.or none).or none).or none := rfl
  rw [hexcess, Option.or_none, Option.or_none, Option.or_none]

/-- **A whole number can be too long.** The document is well formed, but the least whole number with
so many digits as its default keeps it from being written, and its text from being read. -/
theorem exists_unloadable_text :
    let d := Document.counting (10 ^ 4300)
    (∀ x ∈ d.items, x.attributes.WellFormed) ∧
      (∀ x ∈ d.items, x.attributes.Carries HasDistinctKeys) ∧ d.dump none = .error .tooLong ∧
      (loadDocument "doc.json" (d.text none) ⟨"", 0⟩).value =
        (.error (.tooLong 4301), ⟨"", 0⟩) := by
  intro d
  have hitems : ∀ x ∈ d.items, x.attributes.WellFormed :=
    List.forall_mem_singleton.mpr ⟨by decide, fun h ↦ absurd h nofun⟩
  have hkeys : ∀ x ∈ d.items, x.attributes.Carries HasDistinctKeys :=
    List.forall_mem_singleton.mpr ⟨.null, .int _, .null⟩
  have hexcess : d.toJson.excess? = some 4301 := by
    rw [Document.excess?_counting, excess?_ten_pow (n := 4300) le_rfl]
  refine ⟨hitems, hkeys, ?_, ?_⟩
  · rw [Document.dump, hexcess]
    rfl
  · rw [loadDocument_text fun x hx ↦ ⟨hitems x hx, hkeys x hx⟩, hexcess]

end SchemaTree
