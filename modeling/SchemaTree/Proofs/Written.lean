import SchemaTree.Proofs.Variants
import SchemaTree.Shape.Write

/-!
# What is written for data

What is written for a datum depends on the shape it is written as, on the way it is written, and in
a union on which option it is taken for. `Datum.Writes d v` holds of every value that can come of
that: lists are written element by element and records member by member under the names of their
class, moments as their texts, and all other data as a variant of the value that they are.

Whatever a shape makes of data is written for them (`Shape.writes_write`), with one exception that
`Shape.SparesFlags` rules out: where a number is asked for, a flag is written as a number. A record
carries what is written for it, and is *coherent* if that is so as well.
-/

namespace SchemaTree

open Json

namespace Datum

/-! ## The relation -/

/-- The value may be written for the datum. -/
inductive Writes : Datum → Json → Prop where
  | plain {v w : Json} (h : Varies v w) : Writes (.plain v) w
  | moment (m : Moment) : Writes (.moment m) (.str m.text)
  | list {data : List Datum} {values : List Json} (h : List.Forall₂ Writes data values) :
      Writes (.list data) (.arr values)
  | record {c : RecordClass} {data : List Datum} {written : Route → Json}
      {members : List (String × Json)} (hkeys : Members.keys members = c.fields.map FieldClass.name)
      (h : List.Forall₂ Writes data (members.map Prod.snd)) :
      Writes (.record c data written) (.obj members)

/-- What records carry as written for them is written for them. -/
inductive Coherent : Datum → Prop where
  | plain (v : Json) : Coherent (.plain v)
  | moment (m : Moment) : Coherent (.moment m)
  | list {data : List Datum} (h : ∀ d ∈ data, Coherent d) : Coherent (.list data)
  | record {c : RecordClass} {data : List Datum} {written : Route → Json}
      (h : ∀ d ∈ data, Coherent d) (hw : ∀ route, Writes (.record c data written) (written route)) :
      Coherent (.record c data written)

variable {d : Datum} {v w : Json}

/-- **What is written** may also be printed. -/
theorem Writes.printed (h : d.Writes v) : d.Writes v.printed := by
  induction v using Json.induction generalizing d with
  | arr values ih =>
    cases h with
    | plain h => exact .plain h.printed
    | list h =>
      rw [Json.printed, printedElements_eq_map]
      refine .list ?_
      rw [List.forall₂_map_right_iff]
      exact forall₂_imp_of_mem h fun _ _ w hw hwrites ↦ ih w hw hwrites
  | obj members ih =>
    cases h with
    | plain h => exact .plain h.printed
    | record hkeys h =>
      rw [Json.printed]
      refine .record ((keys_printedMembers members).trans hkeys) ?_
      rw [values_printedMembers, List.forall₂_map_right_iff]
      refine forall₂_imp_of_mem h fun _ _ w hw hwrites ↦ ?_
      obtain ⟨m, hm, rfl⟩ := List.mem_map.mp hw
      exact ih m hm hwrites
  | float x =>
    cases h with
    | plain h => exact .plain h.printed
  | _ => exact h

/-! ## Values that nothing was made of -/

theorem ofList_eq_map (vs : List Json) : ofList vs = vs.map ofJson := by
  induction vs with
  | nil => rfl
  | cons v vs ih => rw [ofList, ih, List.map_cons]

theorem coherent_ofJson (v : Json) : (ofJson v).Coherent := by
  induction v using Json.induction with
  | arr elements ih =>
    rw [ofJson, ofList_eq_map]
    refine .list fun d hd ↦ ?_
    obtain ⟨e, he, rfl⟩ := List.mem_map.mp hd
    exact ih e he
  | _ => exact .plain _

/-- A value that nothing was made of is written as a variant. -/
theorem varies_of_writes_ofJson (h : (ofJson v).Writes w) : Varies v w := by
  induction v using Json.induction generalizing w with
  | arr elements ih =>
    rw [ofJson, ofList_eq_map] at h
    cases h with
    | list h =>
      refine .arr ?_
      rw [List.forall₂_map_left_iff] at h
      exact forall₂_imp_of_mem h fun e he w _ hw ↦ ih e he hw
  | _ =>
    cases h with
    | plain h => exact h

theorem listToJson_eq_map (route : Route) (data : List Datum) :
    listToJson route data = data.map (toJson route) := by
  induction data with
  | nil => rfl
  | cons d data ih => rw [listToJson, ih, List.map_cons]

/-- **Data on their own** are written as they are. -/
theorem Coherent.writes_toJson (h : d.Coherent) (route : Route) : d.Writes (d.toJson route) := by
  induction h with
  | plain v => exact .plain (.refl v)
  | moment m => exact .moment m
  | list _ ih =>
    rw [toJson, listToJson_eq_map]
    refine .list ?_
    rw [List.forall₂_map_right_iff, List.forall₂_same]
    exact ih
  | record _ hw => exact hw route

/-- A coherent record has a value for each of the fields of its class. -/
theorem Coherent.length_eq {c : RecordClass} {data : List Datum} {written : Route → Json}
    (h : (Datum.record c data written).Coherent) : data.length = c.fields.length := by
  cases h with
  | record _ hw =>
    have hwrites := hw .straight
    generalize written .straight = v at hwrites
    cases hwrites with
    | record hkeys h =>
      have hlength := congrArg List.length hkeys
      rw [Members.keys, List.length_map, List.length_map] at hlength
      rw [h.length_eq, List.length_map, hlength]

end Datum

theorem RecordClass.names_ofFields (name : String) (fields : List (FieldHead × Shape)) :
    (RecordClass.ofFields name fields).fields.map FieldClass.name = fields.map (·.1.name) := by
  rw [RecordClass.ofFields, List.map_map]
  rfl

/-! ## What data are taken for -/

variable {strictness : Strictness} {d : Datum} {v : Json}

theorem ScalarType.writes_of_fit? {type : ScalarType} (h : type.fit? strictness d = some v) :
    d.Writes v := by
  rw [fit?.eq_def] at h
  split at h
  case h_3 n =>
    -- a whole number that is taken for a number
    rw [Option.ite_none_right_eq_some, Option.map_eq_some_iff] at h
    obtain ⟨-, x, hx, rfl⟩ := h
    exact .plain (.whole hx)
  case h_5 m =>
    obtain rfl := Option.some_inj.mp h
    exact .moment m
  case h_6 => cases h
  all_goals
    obtain rfl := Option.some_inj.mp h
    exact .plain (.refl _)

theorem Scalar.writes_of_fit? {expected : Scalar} (h : expected.fit? d = some v) : d.Writes v := by
  cases d with
  | plain value =>
    obtain ⟨-, rfl⟩ : _ ∧ value = v := by simpa [Scalar.fit?] using h
    exact .plain (.refl value)
  | _ => cases h

section Fits

variable {shape : Shape}

theorem Shape.fit?_null : shape.fit? strictness (.plain .null) = some .null := by
  rw [fit?]

/-- Only records of its class fit a record. -/
theorem Shape.exists_of_fit?_record {name : String} {documentation : Json}
    {fields : List (FieldHead × Shape)} (hnull : d ≠ .plain .null)
    (h : (Shape.record name documentation fields).fit? strictness d = some v) :
    ∃ data written members, d = .record (.ofFields name fields) data written ∧
      Shape.fitFields? strictness fields data = some members ∧ v = .obj members := by
  match d with
  | .record c data written =>
    rw [fit?, Option.ite_none_right_eq_some, Option.map_eq_map, Option.map_eq_some_iff] at h
    obtain ⟨rfl, members, hmembers, rfl⟩ := h
    exact ⟨data, written, members, rfl, hmembers, rfl⟩
  | .plain _ | .moment _ | .list _ =>
    rw [fit?.eq_5 _ _ _ _ _ hnull nofun] at h
    cases h

/-- Only lists fit a list. -/
theorem Shape.exists_of_fit?_list (hnull : d ≠ .plain .null)
    (h : (Shape.list shape).fit? strictness d = some v) :
    ∃ data values, d = .list data ∧ data.mapM (shape.fit? strictness) = some values ∧
      v = .arr values := by
  match d with
  | .list data =>
    rw [fit?, Option.map_eq_map, Option.map_eq_some_iff] at h
    obtain ⟨values, hvalues, rfl⟩ := h
    exact ⟨data, values, rfl, hvalues, rfl⟩
  | .plain _ | .moment _ | .record _ _ _ =>
    rw [fit?.eq_10 _ _ _ hnull nofun] at h
    cases h

end Fits

theorem forall₂_of_mapM_eq_some {α β : Type} {f : α → Option β} {xs : List α} {ys : List β}
    (h : xs.mapM f = some ys) : List.Forall₂ (fun x y ↦ f x = some y) xs ys := by
  induction xs generalizing ys with
  | nil =>
    obtain rfl := Option.some_inj.mp h
    exact .nil
  | cons x xs ih =>
    rw [List.mapM_cons, Option.bind_eq_bind, Option.bind_eq_some_iff] at h
    obtain ⟨y, hy, h⟩ := h
    obtain ⟨ys', hys, h⟩ := Option.bind_eq_some_iff.mp h
    obtain rfl := Option.some_inj.mp h
    exact .cons hy (ih hys)

mutual

/-- **What data fit** is written for them. -/
theorem Shape.writes_of_fit? (shape : Shape) {d : Datum} {v : Json} (hd : d.Coherent)
    (h : shape.fit? strictness d = some v) : d.Writes v := by
  by_cases hnull : d = .plain .null
  · rw [hnull, fit?_null] at h
    obtain rfl := Option.some_inj.mp h
    exact hnull ▸ .plain (.refl .null)
  match shape with
  | .scalar type =>
    rw [fit?.eq_2 _ _ _ hnull] at h
    exact ScalarType.writes_of_fit? h
  | .literal expected =>
    rw [fit?.eq_3 _ _ _ hnull] at h
    exact Scalar.writes_of_fit? h
  | .record name documentation fields =>
    obtain ⟨data, written, members, rfl, hmembers, rfl⟩ := exists_of_fit?_record hnull h
    have hnames := RecordClass.names_ofFields name fields
    have hlen : data.length = fields.length := by
      have hlength := congrArg List.length hnames
      rw [List.length_map, List.length_map] at hlength
      rw [hd.length_eq, hlength]
    -- what the record carries as written is not what it fits, so only its data matter
    cases hd with
    | record hdata _ =>
      obtain ⟨hkeys, hvalues⟩ := writes_of_fitFields? fields hdata hlen hmembers
      exact .record (hkeys.trans hnames.symm) hvalues
  | .union options =>
    rw [fit?.eq_6 _ _ _ hnull] at h
    exact writes_of_fitOptions? options hd h
  | .anything | .reference _ =>
    rw [fit?] at h
    · obtain rfl := Option.some_inj.mp h
      exact hd.writes_toJson _
    · exact hnull
  | .list element =>
    obtain ⟨data, values, rfl, hvalues, rfl⟩ := exists_of_fit?_list hnull h
    cases hd with
    | list hdata =>
      refine .list (forall₂_imp_of_mem (forall₂_of_mapM_eq_some hvalues) ?_)
      exact fun d hd v _ hfit ↦ writes_of_fit? element (hdata d hd) hfit
  | .optional inner | .described inner _ =>
    rw [fit?] at h
    · exact writes_of_fit? inner hd h
    · exact hnull

/-- What the fields of a record fit is written for them, under the names of the fields. -/
theorem Shape.writes_of_fitFields? (fields : List (FieldHead × Shape)) {data : List Datum}
    {members : List (String × Json)} (hd : ∀ d ∈ data, d.Coherent)
    (hlen : data.length = fields.length)
    (h : Shape.fitFields? strictness fields data = some members) :
    Members.keys members = fields.map (·.1.name) ∧
      List.Forall₂ Datum.Writes data (members.map Prod.snd) := by
  match fields, data with
  | [], [] =>
    obtain rfl := Option.some_inj.mp h
    exact ⟨rfl, .nil⟩
  | (head, shape) :: rest, d :: data =>
    obtain ⟨hfirst, hrest⟩ := List.forall_mem_cons.mp hd
    rw [fitFields?, Option.bind_eq_bind, Option.bind_eq_some_iff] at h
    obtain ⟨value, hvalue, h⟩ := h
    obtain ⟨members', hmembers, h⟩ := Option.bind_eq_some_iff.mp h
    obtain rfl := Option.some_inj.mp h
    obtain ⟨hkeys, hvalues⟩ := writes_of_fitFields? rest hrest (Nat.succ.inj hlen) hmembers
    refine ⟨?_, .cons (writes_of_fit? shape hfirst hvalue) hvalues⟩
    rw [Members.keys_cons, hkeys, List.map_cons]

/-- What data fit among several shapes is written for them. -/
theorem Shape.writes_of_fitOptions? (options : List Shape) {d : Datum} {v : Json}
    (hd : d.Coherent) (h : Shape.fitOptions? strictness options d = some v) : d.Writes v := by
  match options with
  | [] => cases h
  | shape :: rest =>
    rw [fitOptions?, Option.or_eq_some_iff] at h
    rcases h with h | ⟨-, h⟩
    · exact writes_of_fit? shape hd h
    · exact writes_of_fitOptions? rest hd h

end

/-! ## What a shape makes of data -/

/-- No flag of the data stands where the shape asks for a number. -/
def Shape.SparesFlags : Shape → Datum → Prop
  | .scalar .number, .plain (.bool _) => False
  | .list element, .list data => ∀ d ∈ data, element.SparesFlags d
  | .optional inner, d | .described inner _, d => inner.SparesFlags d
  | _, _ => True

theorem Datum.writes_writeNumber (hd : d.Coherent) (hflag : ∀ b, d ≠ .plain (.bool b))
    (route : Route) : d.Writes (d.writeNumber route) := by
  rw [writeNumber.eq_def]
  split
  case h_1 n =>
    cases hx : Decimal.ofInt? n with
    | none => exact .plain (.refl _)
    | some x => exact .plain (.whole hx)
  case h_2 b => exact absurd rfl (hflag b)
  case h_3 => exact hd.writes_toJson route

theorem Shape.writes_of_fitUnion? {options : List Shape} (hd : d.Coherent)
    (h : Shape.fitUnion? options d = some v) : d.Writes v := by
  rw [fitUnion?, Option.or_eq_some_iff] at h
  rcases h with h | ⟨-, h⟩
  · exact writes_of_fitOptions? options hd h
  · rw [Option.ite_none_right_eq_some] at h
    exact writes_of_fitOptions? options hd h.2

/-- **Whatever a shape makes of data is written for them.** -/
theorem Shape.writes_write (shape : Shape) {d : Datum} (hd : d.Coherent)
    (hspares : shape.SparesFlags d) (route : Route) : d.Writes (shape.write route d) := by
  match shape, d with
  | .scalar .number, d =>
    rw [write]
    refine Datum.writes_writeNumber hd ?_ route
    rintro b rfl
    exact hspares
  | .union options, d =>
    rw [write]
    cases hfit : fitUnion? options d with
    | none => exact hd.writes_toJson route
    | some v => exact writes_of_fitUnion? hd hfit
  | .list element, .list data =>
    rw [write]
    cases hd with
    | list hdata =>
      refine .list ?_
      rw [List.forall₂_map_right_iff, List.forall₂_same]
      exact fun d hd ↦ writes_write element (hdata d hd) (hspares d hd) route
  | .optional inner, d | .described inner _, d =>
    rw [write]
    exact writes_write inner hd hspares route
  | .reference _, d => exact hd.writes_toJson .copied
  | .scalar .text, _ | .scalar .flag, _ | .scalar .moment, _ | .literal _, _ | .record _ _ _, _
  | .anything, _ | .list _, .plain _ | .list _, .moment _ | .list _, .record _ _ _ =>
    exact hd.writes_toJson route

/-- A record is coherent if its data are and no flag stands where a field asks for a number. -/
theorem Datum.coherent_ofFields {name : String} {fields : List (FieldHead × Shape)}
    {data : List Datum}
    (h : List.Forall₂ (fun p d ↦ Coherent d ∧ p.2.SparesFlags d) fields data) :
    (Datum.ofFields name fields data).Coherent := by
  have hmembers (route : Route) :
      Members.keys (List.zipWith (fun p d ↦ (p.1.name, p.2.write route d)) fields data) =
          fields.map (·.1.name) ∧
        List.Forall₂ Writes data
          ((List.zipWith (fun p d ↦ (p.1.name, p.2.write route d)) fields data).map Prod.snd) := by
    induction h with
    | nil => exact ⟨rfl, .nil⟩
    | cons hd _ ih =>
      refine ⟨?_, .cons (Shape.writes_write _ hd.1 hd.2 route) ih.2⟩
      rw [List.zipWith_cons_cons, Members.keys_cons, ih.1, List.map_cons]
  refine .record (fun d hd ↦ ?_) fun route ↦ ?_
  · obtain ⟨p, -, hp⟩ := exists_of_mem_right h hd
    exact hp.1
  · obtain ⟨hkeys, hvalues⟩ := hmembers route
    exact .record (hkeys.trans (RecordClass.names_ofFields name fields).symm) hvalues

end SchemaTree
