import SchemaTree.Document.Decode
import SchemaTree.Document.Encode
import SchemaTree.Proofs.Nodes
import SchemaTree.Proofs.Members
import SchemaTree.Proofs.Steps
import SchemaTree.Proofs.Values

/-!
# Reading what was written

An item is well formed if every item in it has an id that is not empty, and no default value unless
it has a default. What is read is always well formed, and what is well formed is read back from its
document form exactly as it was, without drawing on the supply of ids. So the document form of a
document that was read is a fixed point of reading and writing (`codec_round_trip`).
-/

namespace SchemaTree

open Json

/-! ## Well-formed items -/

/-- An item has an id, and no default value without a default. -/
structure Attributes.WellFormed (a : Attributes) : Prop where
  id_ne_empty : a.id ≠ ""
  default_eq_null : a.hasDefault = false → a.defaultValue = .null

/-- All items in an item are well formed. -/
def Item.WellFormed (x : Item) : Prop := ∀ y ∈ x :: x.descendants, y.attributes.WellFormed

theorem Item.wellFormed_iff (x : Item) :
    x.WellFormed ↔ x.attributes.WellFormed ∧ ∀ y ∈ x.children, y.WellFormed := by
  rw [WellFormed, List.forall_mem_cons, descendants_eq]
  simp only [List.mem_flatMap, forall_exists_index, and_imp]
  refine and_congr_right fun _ ↦ ⟨fun h y hy z hz ↦ h z y hy hz, fun h z y hy hz ↦ h y hy z hz⟩

/-! ## Members of the document form -/

/-- The members of the document form of an item. -/
def Item.members : Item → List (String × Json)
  | .mk a fields options =>
    a.leadingMembers ++ Item.slotMembers "fields" fields ++ Item.slotMembers "options" options ++
      a.trailingMembers

theorem Item.toJson_eq (x : Item) : x.toJson = .obj x.members := by
  cases x
  rfl

/-- A value unless it is null. -/
def Json.nonNull? : Json → Option Json
  | .null => none
  | value => some value

@[simp] theorem Json.getD_nonNull? (value : Json) : value.nonNull?.getD .null = value := by
  cases value <;> rfl

theorem find?_optionalMember (key other : String) (value : Json) :
    Members.find? other (optionalMember key value) =
      if key = other then value.nonNull? else none := by
  cases value <;> simp [optionalMember, Members.find?, Json.nonNull?]

theorem find?_slotMembers (key other : String) (slot : Option (List Item)) :
    Members.find? other (Item.slotMembers key slot) =
      if key = other then slot.map fun xs ↦ .arr (Item.listToJson xs) else none := by
  cases slot <;> simp [Item.slotMembers, Members.find?]

theorem find?_leadingMembers (key : String) (a : Attributes) :
    Members.find? key a.leadingMembers =
      if "id" = key then some (.str a.id)
      else if "name" = key then some (.str a.name)
      else if "type" = key then some (.str a.kind.name)
      else if "required" = key then some (.bool a.required)
      else if "isArray" = key then some (.bool a.isArray)
      else if "description" = key then a.description.nonNull?
      else if "default" = key ∧ a.hasDefault then some a.defaultValue
      else none := by
  rw [Attributes.leadingMembers, Members.find?_append, Members.find?_append,
    find?_optionalMember]
  cases a.hasDefault <;> simp [Members.find?] <;> grind

theorem find?_trailingMembers (key : String) (a : Attributes) :
    Members.find? key a.trailingMembers =
      if "lazy" = key then a.reference.map fun target ↦ .obj [("refId", .str target)]
      else if "literalValue" = key then a.literal.nonNull?
      else none := by
  rw [Attributes.trailingMembers, Members.find?_append, find?_optionalMember]
  cases a.reference <;> simp [Members.find?] <;> grind

/-- What the document form of an item has under each key. -/
theorem find?_members (key : String) (a : Attributes) (fields options : Option (List Item)) :
    Members.find? key (Item.mk a fields options).members =
      (((Members.find? key a.leadingMembers).or
        (if "fields" = key then fields.map fun xs ↦ .arr (Item.listToJson xs) else none)).or
        (if "options" = key then options.map fun xs ↦ .arr (Item.listToJson xs) else none)).or
        (Members.find? key a.trailingMembers) := by
  rw [Item.members, Members.find?_append, Members.find?_append, Members.find?_append,
    find?_slotMembers, find?_slotMembers]

/-! ## Reading -/

/-- The children under a key are those of the first member with that key. -/
theorem readSlot_eq (path slot : String) (members : List (String × Json)) :
    readSlot path slot members =
      match Members.find? slot members with
      | none => pure none
      | some value => readChildren path slot value := by
  induction members with
  | nil => rfl
  | cons m ms ih =>
    obtain ⟨key, value⟩ := m
    rw [readSlot, Members.find?]
    split
    · rfl
    · exact ih

/-- A value is coerced to text if a number in it is not too long. -/
theorem yields_readPlain_iff {path : String} {value : Json} {text : String} {s s' : IdSupply} :
    Yields (readPlain path value) s text s' ↔
      value.excess? = none ∧ value.plain = text ∧ s = s' := by
  rw [readPlain, ← Option.not_isSome_iff_eq_none]
  split
  · next h => exact iff_of_false not_yields_throw fun hnone ↦ hnone.1 h
  · next h => rw [yields_pure_iff, and_iff_right h]

/-- A text is coerced to itself. -/
theorem yields_readPlain_str (path text : String) (s : IdSupply) :
    Yields (readPlain path (.str text)) s text s := yields_readPlain_iff.mpr ⟨rfl, rfl, rfl⟩

/-- Attributes as they are read from members, once all that is coerced to text is known. -/
def attributesIn (members : List (String × Json)) (id name : String) (kind : Kind)
    (reference : Option String) : Attributes where
  id := id
  name := name
  kind := kind
  reference := reference
  required := ((Members.find? "required" members).getD (.bool true)).truthy
  isArray := ((Members.find? "isArray" members).getD (.bool false)).truthy
  description := (Members.find? "description" members).getD .null
  defaultValue := (Members.find? "default" members).getD .null
  hasDefault := (Members.find? "default" members).isSome
  literal := (Members.find? "literalValue" members).getD .null

theorem yields_readAttributes_iff {path : String} {members : List (String × Json)}
    {a : Attributes} {s s' : IdSupply} :
    Yields (readAttributes path members) s a s' ↔
      ∃ reference s₁, Yields (readReference path members) s reference s₁ ∧
      ∃ id s₂, Yields (readId path members) s₁ id s₂ ∧
      ∃ name s₃, Yields (readName path members) s₂ name s₃ ∧
      ∃ kind, Yields (readKind path members) s₃ kind s' ∧
        attributesIn members id name kind reference = a := by
  rw [readAttributes]
  simp only [yields_bind_iff, yields_pure_iff]
  constructor
  · rintro ⟨reference, s₁, hreference, id, s₂, hid, name, s₃, hname, kind, s₄, hkind, hattributes,
      rfl⟩
    exact ⟨reference, s₁, hreference, id, s₂, hid, name, s₃, hname, kind, hkind, hattributes⟩
  · rintro ⟨reference, s₁, hreference, id, s₂, hid, name, s₃, hname, kind, hkind, hattributes⟩
    exact ⟨reference, s₁, hreference, id, s₂, hid, name, s₃, hname, kind, s', hkind, hattributes,
      rfl⟩

/-- The attributes in a document form are those of the item. -/
theorem attributesIn_members {a : Attributes} (ha : a.WellFormed)
    (fields options : Option (List Item)) :
    attributesIn (Item.mk a fields options).members a.id a.name a.kind a.reference = a := by
  have hdefault : (if a.hasDefault then some a.defaultValue else none).getD .null =
      a.defaultValue := by
    cases h : a.hasDefault with
    | true => rfl
    | false => exact (ha.default_eq_null h).symm
  have hflag : (if a.hasDefault then some a.defaultValue else none).isSome = a.hasDefault := by
    cases a.hasDefault <;> rfl
  cases a
  simp only [attributesIn, find?_members, find?_leadingMembers, find?_trailingMembers]
  simpa [Json.truthy] using And.intro hdefault hflag

/-- What is coerced to text is read from the document form of an item as it was. -/
theorem yields_readAttributes {a : Attributes} (ha : a.WellFormed)
    (fields options : Option (List Item)) (path : String) (s : IdSupply) :
    Yields (readAttributes path (Item.mk a fields options).members) s a s := by
  have hreference : Yields (readReference path (Item.mk a fields options).members) s
      a.reference s := by
    rw [readReference, find?_members, find?_leadingMembers, find?_trailingMembers]
    cases a.reference with
    | none => exact .pure none s
    | some target => exact (yields_readPlain_str path target s).map some
  have hid : Yields (readId path (Item.mk a fields options).members) s a.id s := by
    rw [readId, find?_members, find?_leadingMembers]
    simp only [if_pos, Option.some_or, Json.truthy, ne_eq, ha.id_ne_empty, not_false_eq_true,
      decide_true]
    exact yields_readPlain_str path a.id s
  have hname : Yields (readName path (Item.mk a fields options).members) s a.name s := by
    have hwritten : Members.find? "name" (Item.mk a fields options).members =
        some (.str a.name) := by
      simp [find?_members, find?_leadingMembers]
    rw [readName, hwritten]
    exact yields_readPlain_str path a.name s
  have hkind : Yields (readKind path (Item.mk a fields options).members) s a.kind s := by
    have hwritten : Members.find? "type" (Item.mk a fields options).members =
        some (.str a.kind.name) := by
      simp [find?_members, find?_leadingMembers]
    rw [readKind, hwritten]
    refine .bind (yields_readPlain_str path a.kind.name s) ?_
    rw [Kind.ofName_name]
    dsimp only
    split
    · exact .pure _ s
    · exact .bind (.report _ s) (.pure _ s)
  exact yields_readAttributes_iff.mpr ⟨_, s, hreference, _, s, hid, _, s, hname, _, hkind,
    attributesIn_members ha fields options⟩

/-- An item that is read from its document form wherever it stands. -/
def Item.ReadsBack (x : Item) : Prop := ∀ path s, Yields (readItem path x.toJson) s x s

theorem yields_readItems {xs : List Item} (h : ∀ x ∈ xs, x.ReadsBack) (path slot : String)
    (index : Nat) (s : IdSupply) :
    Yields (readItems path slot index (Item.listToJson xs)) s xs s := by
  induction xs generalizing index with
  | nil => exact .pure [] s
  | cons x xs ih =>
    obtain ⟨hx, hxs⟩ := List.forall_mem_cons.mp h
    rw [Item.listToJson, readItems]
    exact .bind (hx _ s) (.bind (ih hxs (index + 1)) (.pure _ s))

/-- A list of children is read back from the member that holds it. -/
theorem yields_readSlot {slot : Option (List Item)} (h : ∀ x ∈ slot.getD [], x.ReadsBack)
    {path key : String} {members : List (String × Json)}
    (hmember : Members.find? key members = slot.map fun xs ↦ .arr (Item.listToJson xs))
    (s : IdSupply) : Yields (readSlot path key members) s slot s := by
  rw [readSlot_eq, hmember]
  cases slot with
  | none => exact .pure none s
  | some xs => exact .bind (yields_readItems h path key 0 s) (.pure _ s)

/-- **A well-formed item is read back** from its document form, and no id is made for it. -/
theorem Item.WellFormed.readsBack {x : Item} (h : x.WellFormed) : x.ReadsBack := by
  induction x using Item.induction with
  | step a fields options ihf iho =>
    intro path s
    obtain ⟨ha, hchildren⟩ := (Item.wellFormed_iff _).mp h
    have hfields : ∀ y ∈ fields.getD [], y.ReadsBack := fun y hy ↦
      ihf y hy (hchildren y (List.mem_append_left _ hy))
    have hoptions : ∀ y ∈ options.getD [], y.ReadsBack := fun y hy ↦
      iho y hy (hchildren y (List.mem_append_right _ hy))
    rw [Item.toJson_eq, readItem]
    refine .bind (yields_readAttributes ha fields options path s) ?_
    refine .bind (yields_readSlot hfields ?_ s) (.bind (yields_readSlot hoptions ?_ s) (.pure _ s))
    · simp [find?_members, find?_leadingMembers, find?_trailingMembers]
    · simp [find?_members, find?_leadingMembers, find?_trailingMembers]

/-! ## What is read -/

theorem IdSupply.nth_ne_empty (supply : IdSupply) (n : Nat) : supply.nth n ≠ "" := by
  intro h
  have hlength := congrArg String.length h
  rw [nth, String.length_append, String.length_append] at hlength
  have : "item_".length = 5 := by decide
  rw [String.length_empty] at hlength
  omega

/-- An id that is read is not empty: a written one counts as true, and a fresh one has a stem. -/
theorem id_ne_empty_of_yields {path : String} {members : List (String × Json)} {s s' : IdSupply}
    {id : String} (h : Yields (readId path members) s id s') : id ≠ "" := by
  have hfresh : Yields (modifyGet IdSupply.fresh : Reading String) s id s' → id ≠ "" := by
    intro h
    rw [← (Prod.mk.inj (yields_modifyGet_iff.mp h)).1]
    exact IdSupply.nth_ne_empty s s.next
  rw [readId] at h
  cases hid : Members.find? "id" members with
  | none =>
    simp only [hid] at h
    exact hfresh h
  | some value =>
    simp only [hid] at h
    split at h
    · rename_i htruthy
      rw [← (yields_readPlain_iff.mp h).2.1]
      exact Json.plain_ne_empty htruthy
    · exact hfresh h

theorem wellFormed_of_yields_readAttributes {path : String} {members : List (String × Json)}
    {s s' : IdSupply} {a : Attributes} (h : Yields (readAttributes path members) s a s') :
    a.WellFormed := by
  obtain ⟨reference, s₁, -, id, s₂, hid, name, s₃, -, kind, -, rfl⟩ :=
    yields_readAttributes_iff.mp h
  refine ⟨id_ne_empty_of_yields hid, fun hdefault ↦ ?_⟩
  have hnone : Members.find? "default" members = none := by
    simpa [attributesIn] using hdefault
  rw [attributesIn, hnone, Option.getD_none]

/-- A value that only well-formed items are read from, as an item and as a list of children. -/
structure ReadsWellFormed (value : Json) : Prop where
  item : ∀ path s x s', Yields (readItem path value) s x s' → x.WellFormed
  children : ∀ path slot s xs s', Yields (readChildren path slot value) s xs s' →
    ∀ x ∈ xs.getD [], x.WellFormed

theorem wellFormed_of_yields_readItems {elements : List Json}
    (h : ∀ e ∈ elements, ReadsWellFormed e) {path slot : String} {index : Nat} {s s' : IdSupply}
    {xs : List Item} (hread : Yields (readItems path slot index elements) s xs s') :
    ∀ x ∈ xs, x.WellFormed := by
  induction elements generalizing index s xs with
  | nil =>
    rw [readItems] at hread
    obtain ⟨rfl, -⟩ := yields_pure_iff.mp hread
    simp
  | cons e es ih =>
    rw [readItems] at hread
    obtain ⟨x, t, hx, hread⟩ := yields_bind_iff.mp hread
    obtain ⟨rest, t', hrest, hread⟩ := yields_bind_iff.mp hread
    obtain ⟨rfl, rfl⟩ := yields_pure_iff.mp hread
    obtain ⟨he, hes⟩ := List.forall_mem_cons.mp h
    exact List.forall_mem_cons.mpr ⟨he.item _ _ _ _ hx, ih hes hrest⟩

theorem wellFormed_of_yields_readSlot {members : List (String × Json)}
    (h : ∀ m ∈ members, ReadsWellFormed m.2) {path slot : String} {s s' : IdSupply}
    {xs : Option (List Item)} (hread : Yields (readSlot path slot members) s xs s') :
    ∀ x ∈ xs.getD [], x.WellFormed := by
  rw [readSlot_eq] at hread
  cases hm : Members.find? slot members with
  | none =>
    simp only [hm] at hread
    obtain ⟨rfl, -⟩ := yields_pure_iff.mp hread
    simp
  | some value =>
    simp only [hm] at hread
    exact (h _ (Members.mem_of_find?_eq_some hm)).children _ _ _ _ _ hread

/-- **What is read is well formed.** -/
theorem readsWellFormed (value : Json) : ReadsWellFormed value := by
  induction value using Json.induction with
  | null =>
    refine ⟨fun path s x s' h ↦ absurd h not_yields_throw, fun path slot s xs s' h ↦ ?_⟩
    obtain ⟨rfl, -⟩ := yields_pure_iff.mp h
    simp
  | bool | int | float | str =>
    exact ⟨fun path s x s' h ↦ absurd h not_yields_throw,
      fun path slot s xs s' h ↦ absurd h not_yields_throw⟩
  | arr elements ih =>
    refine ⟨fun path s x s' h ↦ absurd h not_yields_throw, fun path slot s xs s' h ↦ ?_⟩
    rw [readChildren] at h
    obtain ⟨items, t, hitems, h⟩ := yields_bind_iff.mp h
    obtain ⟨rfl, -⟩ := yields_pure_iff.mp h
    exact wellFormed_of_yields_readItems ih hitems
  | obj members ih =>
    refine ⟨fun path s x s' h ↦ ?_, fun path slot s xs s' h ↦ absurd h not_yields_throw⟩
    rw [readItem] at h
    -- the attributes are read first, then both lists of children
    obtain ⟨a, t, ha, h⟩ := yields_bind_iff.mp h
    obtain ⟨fields, t', hfields, h⟩ := yields_bind_iff.mp h
    obtain ⟨options, t'', hoptions, h⟩ := yields_bind_iff.mp h
    obtain ⟨rfl, -⟩ := yields_pure_iff.mp h
    refine (Item.wellFormed_iff _).mpr ⟨wellFormed_of_yields_readAttributes ha, fun y hy ↦ ?_⟩
    rcases List.mem_append.mp hy with hy | hy
    · exact wellFormed_of_yields_readSlot ih hfields y hy
    · exact wellFormed_of_yields_readSlot ih hoptions y hy

/-! ## Documents -/

theorem wellFormed_of_yields_readDocument {value : Json} {s s' : IdSupply} {d : Document}
    (h : Yields (readDocument value) s d s') : ∀ x ∈ d.fields, x.WellFormed := by
  cases value with
  | obj members =>
    rw [readDocument] at h
    obtain ⟨fields, t, hfields, h⟩ := yields_bind_iff.mp h
    obtain ⟨rfl, -⟩ := yields_pure_iff.mp h
    exact wellFormed_of_yields_readSlot (fun m _ ↦ readsWellFormed m.2) hfields
  | _ => exact absurd h not_yields_throw

theorem yields_readDocument_toJson {d : Document} (h : ∀ x ∈ d.fields, x.WellFormed)
    (s : IdSupply) : Yields (readDocument d.toJson) s d s := by
  have hfields : ∀ x ∈ (some d.fields).getD [], x.ReadsBack := fun x hx ↦ (h x hx).readsBack
  rw [Document.toJson, readDocument]
  refine .bind (yields_readSlot hfields ?_ s) (.pure _ s)
  simp [Members.find?]

/-- **Reading undoes writing.** A well-formed item is read back exactly as it was, and no id is made
for it. Whatever is read is well formed; hence the document form of a document that was read is
accepted, and reading and writing it changes nothing. -/
theorem codec_round_trip :
    (∀ x : Item, x.WellFormed → ∀ path s, Yields (readItem path x.toJson) s x s) ∧
    (∀ value path s x s', Yields (readItem path value) s x s' → x.WellFormed) ∧
    ∀ value s d s', Yields (readDocument value) s d s' →
      ∀ t, Yields (readDocument d.toJson) t d t ∧
        Yields (Document.toJson <$> readDocument d.toJson) t d.toJson t := by
  refine ⟨fun x hx ↦ hx.readsBack, fun value path s x s' ↦ (readsWellFormed value).item path s x s',
    fun value s d s' h t ↦ ?_⟩
  have hread := yields_readDocument_toJson (wellFormed_of_yields_readDocument h) t
  exact ⟨hread, hread.map Document.toJson⟩

/-- An item of an unknown kind with a null default, an empty description, an empty reference, no
fields in a list and an option that has none of these. -/
def Item.varied : Item :=
  .mk { id := "whole", name := "", kind := .ofName "list", required := false, isArray := true
        description := .str "", defaultValue := .null, hasDefault := true
        literal := .arr [.null], reference := some "" }
    (some []) (some [.mk { id := "part", name := "part", kind := .literal, required := true
                           isArray := false, description := .null, defaultValue := .null
                           hasDefault := false, literal := .null, reference := none } none none])

theorem codec_round_trip_varied :
    Item.varied.WellFormed ∧
      Yields (readItem "$" Item.varied.toJson) ⟨"", 0⟩ Item.varied ⟨"", 0⟩ ∧
      ∃ d s', Yields (readDocument (.obj [("fields", .arr [.obj [("id", .int 0)]])])) ⟨"", 0⟩ d s' ∧
        Yields (Document.toJson <$> readDocument d.toJson) ⟨"", 0⟩ d.toJson ⟨"", 0⟩ := by
  have hvaried : Item.varied.WellFormed := by
    refine (Item.wellFormed_iff _).mpr ⟨⟨by decide, by simp [Item.varied, Item.attributes]⟩, ?_⟩
    intro y hy
    rw [List.mem_singleton.mp hy]
    refine (Item.wellFormed_iff _).mpr ⟨⟨by decide, fun _ ↦ rfl⟩, ?_⟩
    simp [Item.children, Item.fields, Item.options]
  obtain ⟨d, s', h⟩ : ∃ d s', Yields (readDocument
      (.obj [("fields", .arr [.obj [("id", .int 0)]])])) ⟨"", 0⟩ d s' := ⟨_, _, rfl⟩
  exact ⟨hvaried, codec_round_trip.1 _ hvaried "$" _, d, s', h,
    (codec_round_trip.2.2 _ _ _ _ h _).2⟩

end SchemaTree
