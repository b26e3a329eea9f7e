import SchemaTree.Proofs.FieldKeys
import SchemaTree.Proofs.FirstItems
import SchemaTree.Proofs.Resubmission

/-!
# Fields under their names

A record keeps its fields under keys, which are not always their names, but its data are by name: a
field takes the member that has its name, whatever it is kept under, and is shown under its name
again. So keys only have to be different and such that they can be keys at all (`KeepsNames`).

What a record makes of an object follows field by field (`TakesByName`). Members with other keys are
not looked at, and the field of an absent member holds its default. That was not validated, and is
shown as it is, except that a number is written where a number is asked for (`Json.ShownAs`).
-/

namespace SchemaTree

open Json

/-! ## Names and keys -/

namespace Json.Members

variable {α : Type _}

theorem keys_insertAll (ms acc : List (String × α)) :
    keys (insertAll ms acc) = keys acc ++ (newcomers Prod.fst (keys acc) ms).map Prod.fst := by
  induction ms generalizing acc with
  | nil => exact (List.append_nil _).symm
  | cons m ms ih =>
    obtain ⟨k, v⟩ := m
    rw [insertAll_cons, ih]
    by_cases hk : k ∈ keys acc
    · rw [keys_insert_of_mem hk, newcomers_cons_of_mem hk]
    · have hkeys : keys (insert k v acc) = keys acc ++ [k] := by
        rw [insert_of_notMem hk]
        exact List.map_append
      rw [hkeys, newcomers_cons_of_notMem hk, List.append_assoc]
      rfl

/-- The keys of several members are kept in the order of their first occurrence. -/
theorem keys_ofList (ms : List (String × α)) : keys (ofList ms) = (keys ms).eraseDups := by
  have hnil : keys ([] : List (String × α)) = [] := rfl
  rw [ofList, ← insertAll, keys_insertAll, hnil, List.nil_append, newcomers_nil_known, map_firsts,
    keys]

end Json.Members

/-- **No key is given out twice.** -/
theorem Naming.nodup_fieldKeys (names : List String) : (fieldKeys names).Nodup := by
  have hgo (taken : List String) (position : ℕ) : (fieldKeys.go taken position names).Nodup := by
    induction names generalizing taken position with
    | nil => exact List.nodup_nil
    | cons name names ih =>
      rw [fieldKeys.go, List.nodup_cons]
      exact ⟨fun hmem ↦ notMem_of_mem_fieldKeys_go hmem List.mem_cons_self, ih _ _⟩
  exact hgo [] 0

theorem map_key_recordFields (fields : List (String × Option Json × Shape)) :
    (recordFields fields).map (·.1.key) = Naming.fieldKeys ((Members.ofList fields).map (·.1)) := by
  have hlength := length_fieldKeys ((Members.ofList fields).map (·.1))
  rw [List.length_map] at hlength
  rw [recordFields, List.map_map]
  exact List.map_fst_zip (Nat.le_of_eq hlength)

theorem map_name_recordFields (fields : List (String × Option Json × Shape)) :
    (recordFields fields).map (·.1.name) = (fields.map (·.1)).eraseDups := by
  have hnames := congrArg (List.map Prod.fst) (map_recordFields fields)
  rw [List.map_map] at hnames
  exact hnames.trans (Members.keys_ofList fields)

/-- The fields that a record keeps for several items. It has one for each name, in the order of
their first occurrence, made of the last item of that name. Their keys are different and can be
keys, and what a field is called outside is its name. -/
structure KeepsNames (anonymous : String) (xs : List Item) (fields : List (FieldHead × Shape)) :
    Prop where
  names : fields.map (·.1.name) = (xs.map Item.name).eraseDups
  made : fields.map (fun f ↦ (f.1.name, f.1.default, f.2)) =
    (lastFields xs).map fun x ↦ (x.name, (x.shape anonymous).asField x.attributes)
  keys : (fields.map (·.1.key)).Nodup
  allowed : ∀ f ∈ fields, Naming.isAttributeName f.1.key
  external : ∀ f ∈ fields, f.1.alias?.getD f.1.key = f.1.name

theorem KeepsNames.nodup_names {anonymous : String} {xs : List Item}
    {fields : List (FieldHead × Shape)} (h : KeepsNames anonymous xs fields) :
    (fields.map (·.1.name)).Nodup := by
  have hnames := congrArg (List.map Prod.fst) h.made
  rw [List.map_map, List.map_map] at hnames
  change fields.map (·.1.name) = (lastFields xs).map Item.name at hnames
  rw [hnames]
  exact nodup_map_name_lastFields xs

theorem FieldHead.getD_alias? (f : FieldHead) : f.alias?.getD f.key = f.name := by
  rw [alias?]
  split
  · rename_i h
    exact h
  · rfl

theorem keepsNames_recordFields (anonymous : String) (xs : List Item) :
    KeepsNames anonymous xs (recordFields (Item.fieldListShapes anonymous xs)) where
  names := by
    rw [map_name_recordFields, Item.fieldListShapes_eq, List.map_map]
    rfl
  made := map_recordFields_lastFields anonymous xs
  keys := by
    rw [map_key_recordFields]
    exact Naming.nodup_fieldKeys _
  allowed := by
    rw [recordFields_eq, List.forall_mem_map]
    exact fun m hm ↦ isAttributeName_of_mem_keyedFields hm
  external f _ := f.1.getD_alias?

/-! ## Defaults that are shown -/

/-- What a value that was not validated is shown as. Where a number is asked for, whole numbers and
flags are shown as the binary64 of their size. -/
inductive Json.ShownAs : Json → Json → Prop where
  | same (v : Json) : ShownAs v v
  | whole {n : Int} {x : Float} (h : Decimal.ofInt? n = some x) : ShownAs (.int n) (.float x)
  | flag (b : Bool) : ShownAs (.bool b) (.float (if b then 1.0 else 0.0))
  | list {vs ws : List Json} (h : List.Forall₂ ShownAs vs ws) : ShownAs (.arr vs) (.arr ws)

section Shown

variable {v w : Json} {strictness : Strictness}

theorem Json.ShownAs.eq_null (h : Json.null.ShownAs w) : w = .null := by
  cases h
  rfl

/-- A list that nothing was made of is the list of its elements, and any other value is itself. -/
theorem Datum.ofJson_cases (v : Json) :
    (∃ vs : List Json, v = .arr vs ∧ ofJson v = .list (vs.map ofJson)) ∨ ofJson v = .plain v := by
  cases v with
  | arr vs => exact .inl ⟨vs, rfl, by rw [ofJson, ofList_eq_map]⟩
  | _ => exact .inr rfl

theorem ScalarType.shownAs_of_fit? {type : ScalarType}
    (h : type.fit? strictness (.ofJson v) = some w) : v.ShownAs w := by
  rcases Datum.ofJson_cases v with ⟨vs, rfl, hv⟩ | hv
  · rw [hv] at h
    cases type <;> cases h
  · rw [hv, fit?.eq_def] at h
    split at h
    case h_3 n heq =>
      obtain rfl := Datum.plain.inj heq
      rw [Option.ite_none_right_eq_some, Option.map_eq_some_iff] at h
      obtain ⟨-, x, hx, rfl⟩ := h
      exact .whole hx
    case h_5 m heq => cases heq
    case h_6 => cases h
    all_goals
      rename_i heq
      obtain rfl := Datum.plain.inj heq
      obtain rfl := Option.some_inj.mp h
      exact .same _

theorem Scalar.shownAs_of_fit? {expected : Scalar} (h : expected.fit? (.ofJson v) = some w) :
    v.ShownAs w := by
  rcases Datum.ofJson_cases v with ⟨vs, rfl, hv⟩ | hv
  · rw [hv] at h
    cases h
  · rw [hv, fit?, Option.ite_none_right_eq_some] at h
    obtain rfl := Option.some_inj.mp h.2
    exact .same _

mutual

theorem Shape.shownAs_of_fit? (shape : Shape) {v w : Json}
    (h : shape.fit? strictness (.ofJson v) = some w) : v.ShownAs w := by
  by_cases hnull : Datum.ofJson v = .plain .null
  · rw [hnull, fit?_null] at h
    obtain rfl := Option.some_inj.mp h
    cases v with
    | null => exact .same _
    | _ => cases hnull
  match shape with
  | .scalar type =>
    rw [fit?.eq_2 _ _ _ hnull] at h
    exact ScalarType.shownAs_of_fit? h
  | .literal expected =>
    rw [fit?.eq_3 _ _ _ hnull] at h
    exact Scalar.shownAs_of_fit? h
  | .record name documentation fields =>
    -- a value that nothing was made of is no record
    obtain ⟨data, written, members, heq, -⟩ := exists_of_fit?_record hnull h
    rcases Datum.ofJson_cases v with ⟨vs, -, hv⟩ | hv
    · cases hv.symm.trans heq
    · cases hv.symm.trans heq
  | .union options =>
    rw [fit?.eq_6 _ _ _ hnull] at h
    exact shownAs_of_fitOptions? options h
  | .anything | .reference _ =>
    rw [fit?] at h
    · rw [Datum.toJson_ofJson] at h
      obtain rfl := Option.some_inj.mp h
      exact .same _
    · exact hnull
  | .list element =>
    obtain ⟨data, values, heq, hvalues, rfl⟩ := exists_of_fit?_list hnull h
    rcases Datum.ofJson_cases v with ⟨vs, rfl, hv⟩ | hv
    · obtain rfl := Datum.list.inj (hv.symm.trans heq)
      have hfits := forall₂_of_mapM_eq_some hvalues
      rw [List.forall₂_map_left_iff] at hfits
      exact .list (hfits.imp fun _ _ hfit ↦ shownAs_of_fit? element hfit)
    · cases hv.symm.trans heq
  | .optional inner | .described inner _ =>
    rw [fit?] at h
    · exact shownAs_of_fit? inner h
    · exact hnull

theorem Shape.shownAs_of_fitOptions? (options : List Shape) {v w : Json}
    (h : Shape.fitOptions? strictness options (.ofJson v) = some w) : v.ShownAs w := by
  match options with
  | [] => cases h
  | shape :: rest =>
    rw [fitOptions?, Option.or_eq_some_iff] at h
    rcases h with h | ⟨-, h⟩
    · exact shownAs_of_fit? shape h
    · exact shownAs_of_fitOptions? rest h

end

theorem Shape.shownAs_of_fitUnion? {options : List Shape}
    (h : Shape.fitUnion? options (.ofJson v) = some w) : v.ShownAs w := by
  rw [fitUnion?, Option.or_eq_some_iff] at h
  rcases h with h | ⟨-, h⟩
  · exact shownAs_of_fitOptions? options h
  · rw [Option.ite_none_right_eq_some] at h
    exact shownAs_of_fitOptions? options h.2

theorem Datum.eq_of_ofJson_eq_plain (h : ofJson v = .plain w) : v = w := by
  cases v with
  | arr vs => cases h
  | _ => exact Datum.plain.inj h

theorem Datum.shownAs_writeNumber (v : Json) (route : Route) :
    v.ShownAs ((ofJson v).writeNumber route) := by
  rw [writeNumber.eq_def]
  split
  case h_1 n heq =>
    obtain rfl := eq_of_ofJson_eq_plain heq
    cases hx : Decimal.ofInt? n with
    | none => exact .same _
    | some x => exact .whole hx
  case h_2 b heq =>
    obtain rfl := eq_of_ofJson_eq_plain heq
    exact .flag b
  case h_3 =>
    rw [toJson_ofJson]
    exact .same v

/-- **A value that was not validated** is shown as it is, up to numbers. -/
theorem Shape.shownAs_write (shape : Shape) (v : Json) (route : Route) :
    v.ShownAs (shape.write route (.ofJson v)) := by
  match shape with
  | .scalar .number =>
    rw [write]
    exact Datum.shownAs_writeNumber v route
  | .union options =>
    rw [write]
    cases hfit : fitUnion? options (.ofJson v) with
    | none =>
      rw [Option.getD_none, Datum.toJson_ofJson]
      exact .same v
    | some w => exact shownAs_of_fitUnion? hfit
  | .list element =>
    rcases Datum.ofJson_cases v with ⟨vs, rfl, hv⟩ | hv
    · rw [hv, write, List.map_map]
      refine .list ?_
      rw [List.forall₂_map_right_iff, List.forall₂_same]
      exact fun v _ ↦ shownAs_write element v route
    · rw [hv]
      exact .same v
  | .optional inner | .described inner _ =>
    rw [write]
    exact shownAs_write inner v route
  | .reference _ =>
    rw [write, Datum.toJson_ofJson]
    exact .same v
  | .scalar .text | .scalar .flag | .scalar .moment | .literal _ | .record _ _ _ | .anything =>
    change v.ShownAs ((Datum.ofJson v).toJson route)
    rw [Datum.toJson_ofJson]
    exact .same v

end Shown

/-! ## What a record makes of an object -/

section Records

variable {look : String → Json → Validating Verdict} {members : List (String × Json)}
  {fields : List (FieldHead × Shape)} {data : List Datum} {value : Json} {d : Datum}

theorem exists_ends_validateFields (h : List.Forall₂ (Supplies look members) fields data) :
    ∃ fit, (Shape.validateFields look members fields).Ends (.ok (data, fit)) := by
  induction h with
  | nil => exact ⟨_, .pure _⟩
  | @cons p d rest data hd _ ih =>
    obtain ⟨fit, hrest⟩ := ih
    obtain ⟨⟨key, name, default⟩, shape⟩ := p
    rw [Shape.validateFields]
    cases hd with
    | present hfind ha =>
      rw [hfind]
      exact ⟨_, .bind (ha.map some) (hrest.bind (.pure _))⟩
    | absent hfind hdefault =>
      obtain rfl : default = _ := hdefault
      rw [hfind]
      exact ⟨_, .bind (.pure none) (hrest.bind (.pure _))⟩

/-- A shape accepts a value and makes it into a datum. -/
def Shape.Takes (look : String → Json → Validating Verdict) (shape : Shape) (value : Json)
    (d : Datum) : Prop := ∃ fit, (shape.validate look value).Ends (.ok ⟨d, fit⟩)

/-- **What a record makes of data**: only objects are taken, and each field holds what the member of
its name is made into, or its default. -/
theorem takes_record_iff {title : String} {documentation : Json} :
    (Shape.record title documentation fields).Takes look value d ↔
      ∃ members data, value = .obj members ∧ List.Forall₂ (Supplies look members) fields data ∧
        d = .ofFields title fields data := by
  constructor
  · rintro ⟨fit, h⟩
    cases value with
    | obj members =>
      rw [Shape.validate] at h
      obtain ⟨r, hr, h⟩ := h.of_bind
      obtain ⟨⟨data, fit⟩, rfl, heq⟩ := exists_of_map_eq_ok h.of_pure
      exact ⟨members, data, rfl, supplies_of_validateFields hr, (Accepted.mk.inj heq).1.symm⟩
    | _ =>
      rw [Shape.validate] at h
      · cases h.of_pure
      · simp
  · rintro ⟨members, data, rfl, hdata, rfl⟩
    obtain ⟨fit, hfields⟩ := exists_ends_validateFields hdata
    rw [Shape.Takes, Shape.validate]
    exact ⟨_, hfields.bind (.pure _)⟩

/-- Members with other keys than the names of the fields have no bearing. -/
theorem Supplies.congr {others : List (String × Json)} {p : FieldHead × Shape}
    (hfind : Members.find? p.1.name others = Members.find? p.1.name members)
    (h : Supplies look members p d) : Supplies look others p d := by
  cases h with
  | present hpresent ha => exact .present (hfind.trans hpresent) ha
  | absent habsent hdefault => exact .absent (hfind.trans habsent) hdefault

/-! ## What is shown of a record -/

/-- The data that a record holds, by the external names of its fields. -/
def Datum.held : Datum → List (String × Datum)
  | .record c data _ => List.zipWith (fun f d ↦ (f.name, d)) c.fields data
  | _ => []

/-- What is made of the data of fields, under the names of the fields. -/
def underNames {β : Type} (g : FieldHead × Shape → Datum → β) (fields : List (FieldHead × Shape))
    (data : List Datum) : List (String × β) :=
  List.zipWith (fun p d ↦ (p.1.name, g p d)) fields data

theorem Datum.held_ofFields (title : String) (fields : List (FieldHead × Shape))
    (data : List Datum) :
    (ofFields title fields data).held = underNames (fun _ d ↦ d) fields data := by
  rw [ofFields, held, RecordClass.ofFields, List.zipWith_map_left]
  rfl

theorem keys_underNames {β : Type} {g : FieldHead × Shape → Datum → β}
    (h : List.Forall₂ (Supplies look members) fields data) :
    Members.keys (underNames g fields data) = fields.map (·.1.name) := by
  induction h with
  | nil => rfl
  | cons _ _ ih => exact congrArg _ ih

/-- Every field holds something, and what is made of that is there under its name. -/
theorem exists_mem_underNames (h : List.Forall₂ (Supplies look members) fields data)
    {p : FieldHead × Shape} (hp : p ∈ fields) :
    ∃ d, Supplies look members p d ∧ ∀ {β : Type} (g : FieldHead × Shape → Datum → β),
      (p.1.name, g p d) ∈ underNames g fields data := by
  induction h with
  | nil => cases hp
  | cons hd _ ih =>
    rcases List.mem_cons.mp hp with rfl | hp
    · exact ⟨_, hd, fun _ ↦ List.mem_cons_self⟩
    · obtain ⟨d, hd, hmem⟩ := ih hp
      exact ⟨d, hd, fun g ↦ List.mem_cons_of_mem _ (hmem g)⟩

/-- How a record made of several items holds and shows the members of an object. There is a value
for each name, and none for any other key. A present member has been made into data; for an absent
one there is the default as it was given, or null if the field is optional and has none. -/
structure ShowsByName (look : String → Json → Validating Verdict) (anonymous : String)
    (xs : List Item) (members : List (String × Json)) (held : List (String × Datum))
    (shown : List (String × Json)) : Prop where
  keys_held : Members.keys held = (xs.map Item.name).eraseDups
  keys_shown : Members.keys shown = (xs.map Item.name).eraseDups
  present : ∀ x ∈ lastFields xs, ∀ v, Members.find? x.name members = some v →
    ∃ a, (((x.shape anonymous).asField x.attributes).2.validate look v).Ends (.ok a) ∧
      Members.find? x.name held = some a.datum ∧
      Members.find? x.name shown =
        some (((x.shape anonymous).asField x.attributes).2.write .straight a.datum)
  given : ∀ x ∈ lastFields xs, Members.find? x.name members = none → x.attributes.hasDefault →
    Members.find? x.name held = some (.ofJson x.attributes.defaultValue) ∧
      ∃ w, Members.find? x.name shown = some w ∧ x.attributes.defaultValue.ShownAs w
  optional : ∀ x ∈ lastFields xs, Members.find? x.name members = none →
    x.attributes.hasDefault = false → x.attributes.required = false ∧
      Members.find? x.name held = some (.ofJson .null) ∧ Members.find? x.name shown = some .null

/-- The field that is made of an item holds something, and that is held and shown under its name. -/
theorem exists_supplies_of_mem_lastFields {anonymous : String} {xs : List Item} {x : Item}
    (hkeeps : KeepsNames anonymous xs fields)
    (h : List.Forall₂ (Supplies look members) fields data) (hx : x ∈ lastFields xs) :
    ∃ key d,
      Supplies look members
        (⟨key, x.name, ((x.shape anonymous).asField x.attributes).1⟩,
          ((x.shape anonymous).asField x.attributes).2) d ∧
      Members.find? x.name (underNames (fun _ d ↦ d) fields data) = some d ∧
      Members.find? x.name (underNames (fun p ↦ p.2.write .straight) fields data) =
        some (((x.shape anonymous).asField x.attributes).2.write .straight d) := by
  have hmem := List.mem_map_of_mem (f := fun x ↦
    (x.name, (x.shape anonymous).asField x.attributes)) hx
  rw [← hkeeps.made] at hmem
  obtain ⟨⟨⟨key, name, default⟩, shape⟩, hp, heq⟩ := List.mem_map.mp hmem
  obtain ⟨rfl, hasField⟩ := Prod.mk.inj heq
  obtain ⟨d, hd, hmem⟩ := exists_mem_underNames h hp
  have hfind {β : Type} (g : FieldHead × Shape → Datum → β) :
      Members.find? x.name (underNames g fields data) =
        some (g (⟨key, x.name, default⟩, shape) d) := by
    refine (Members.find?_eq_some_iff ?_).mpr (hmem g)
    rw [keys_underNames h]
    exact hkeeps.nodup_names
  rw [← hasField]
  exact ⟨key, d, hd, hfind _, hfind _⟩

theorem showsByName_underNames {anonymous : String} {xs : List Item}
    (hkeeps : KeepsNames anonymous xs fields)
    (h : List.Forall₂ (Supplies look members) fields data) :
    ShowsByName look anonymous xs members (underNames (fun _ d ↦ d) fields data)
      (underNames (fun p ↦ p.2.write .straight) fields data) where
  keys_held := (keys_underNames h).trans hkeeps.names
  keys_shown := (keys_underNames h).trans hkeeps.names
  present x hx v hv := by
    obtain ⟨key, d, hd, hheld, hshown⟩ := exists_supplies_of_mem_lastFields hkeeps h hx
    cases hd with
    | @present w a hfind ha =>
      obtain rfl : w = v := Option.some_inj.mp (hfind.symm.trans hv)
      exact ⟨a, ha, hheld, hshown⟩
    | absent hfind => cases hfind.symm.trans hv
  given x hx hnone hgiven := by
    obtain ⟨key, d, hd, hheld, hshown⟩ := exists_supplies_of_mem_lastFields hkeeps h hx
    cases hd with
    | present hfind => cases hfind.symm.trans hnone
    | @absent w _ hdefault =>
      obtain rfl : x.attributes.defaultValue = w :=
        Option.some_inj.mp ((if_pos hgiven).symm.trans hdefault)
      exact ⟨hheld, _, hshown, Shape.shownAs_write _ _ _⟩
  optional x hx hnone hgiven := by
    obtain ⟨key, d, hd, hheld, hshown⟩ := exists_supplies_of_mem_lastFields hkeeps h hx
    cases hd with
    | present hfind => cases hfind.symm.trans hnone
    | @absent w _ hdefault =>
      obtain ⟨hrequired, rfl⟩ : x.attributes.required = false ∧ Json.null = w := by
        simpa [Shape.asField, hgiven] using hdefault
      exact ⟨hrequired, hheld, hshown.trans (congrArg some (Shape.shownAs_write _ _ _).eq_null)⟩

/-- What a record that is made of several items makes of data. Each field holds what the member of
its name is made into, or its default. Members with other names have no bearing, and what is held
and shown is by name again. -/
structure TakesByName (look : String → Json → Validating Verdict) (anonymous : String)
    (xs : List Item) (title : String) (shape : Shape) (fields : List (FieldHead × Shape)) :
    Prop where
  taken : ∀ value d, shape.Takes look value d ↔
    ∃ members data, value = .obj members ∧ List.Forall₂ (Supplies look members) fields data ∧
      d = .ofFields title fields data
  others : ∀ members members' d,
    (∀ name ∈ xs.map Item.name, Members.find? name members' = Members.find? name members) →
      shape.Takes look (.obj members) d → shape.Takes look (.obj members') d
  shown : ∀ members d, shape.Takes look (.obj members) d →
    ∃ shown, shape.write .straight d = .obj shown ∧
      ShowsByName look anonymous xs members d.held shown

theorem takesByName_record {anonymous : String} {xs : List Item}
    (hkeeps : KeepsNames anonymous xs fields) (title : String) (documentation : Json) :
    TakesByName look anonymous xs title (.record title documentation fields) fields where
  taken value d := takes_record_iff
  others members members' d hsame h := by
    -- the names of the fields are those of the items
    have hfind (p : FieldHead × Shape) (hp : p ∈ fields) :
        Members.find? p.1.name members' = Members.find? p.1.name members := by
      refine hsame p.1.name (List.mem_eraseDups.mp ?_)
      rw [← hkeeps.names]
      exact List.mem_map_of_mem hp
    obtain ⟨_, data, heq, hdata, rfl⟩ := takes_record_iff.mp h
    obtain rfl := Json.obj.inj heq
    refine takes_record_iff.mpr ⟨members', data, rfl, ?_, rfl⟩
    exact forall₂_imp_of_mem hdata fun p hp _ _ hd ↦ hd.congr (hfind p hp)
  shown members d h := by
    obtain ⟨_, data, heq, hdata, rfl⟩ := takes_record_iff.mp h
    obtain rfl := Json.obj.inj heq
    refine ⟨underNames (fun p ↦ p.2.write .straight) fields data, rfl, ?_⟩
    rw [Datum.held_ofFields]
    exact showsByName_underNames hkeeps hdata

end Records

/-! ## Documents -/

theorem Model.validate_eq_ok_iff (m : Model) (value : Json) (d : Datum) :
    (m.validate value).value = some (.ok d) ↔
      m.shape.Takes (m.registry.follow (m.registry.bound value)) value d := by
  rw [value_validate, Option.map_eq_some_iff]
  constructor
  · rintro ⟨r, hr, hmap⟩
    obtain ⟨⟨d, fit⟩, rfl, rfl⟩ := exists_of_map_eq_ok hmap
    exact ⟨fit, hr⟩
  · rintro ⟨fit, h⟩
    exact ⟨_, h, rfl⟩

namespace Document

/-- **Fields are kept and found under their names.** A document is built, and its root is a record
that keeps the names of the fields of the document and takes and shows data by them. The same holds
of the record that any object is built into, whatever has been built before. -/
theorem fields_keep_names {settings : BuilderSettings} {root anonymous : String}
    (hs : settings.NameModels root anonymous) (d : Document) :
    (∃ m fields, (d.build settings).value = .ok m ∧ m.shape = .record root .null fields ∧
      KeepsNames anonymous d.fields fields ∧
      (∀ look, TakesByName look anonymous d.fields root m.shape fields) ∧
      ∀ value datum, (m.validate value).value = some (.ok datum) ↔
        m.shape.Takes (m.registry.follow (m.registry.bound value)) value datum) ∧
    ∀ x : Item, x.target? = none → x.kind = .object → ∃ shape fields,
      (∀ r, ∃ r', Yields (x.build settings) r shape r') ∧
      shape = .record (recordTitle anonymous x.attributes) x.attributes.description fields ∧
      KeepsNames anonymous (x.fields.getD []) fields ∧
      ∀ look, TakesByName look anonymous (x.fields.getD []) (recordTitle anonymous x.attributes)
        shape fields := by
  constructor
  · have hkeeps := keepsNames_recordFields anonymous d.fields
    exact ⟨d.model root anonymous, _, build_value hs d, rfl, hkeeps,
      fun _ ↦ takesByName_record hkeeps root .null, (d.model root anonymous).validate_eq_ok_iff⟩
  · intro x ht ho
    have hkeeps := keepsNames_recordFields anonymous (x.fields.getD [])
    have hshape := @Item.shape_of_object anonymous x ht ho
    refine ⟨x.shape anonymous, _, fun r ↦ ⟨_, x.buildsFaithfully hs.anonymous r⟩, hshape, hkeeps,
      ?_⟩
    rw [hshape]
    exact fun _ ↦ takesByName_record hkeeps _ _

/-- An optional field without a name. -/
def unlabelled : Item :=
  .mk { (Item.new "b" .string "").attributes with required := false } none none

/-- A field with a default, whose name is a keyword. -/
def classed : Item :=
  .mk { (Item.new "d" .string "class").attributes with
        hasDefault := true, defaultValue := .str "none" } none none

/-- A document in which few names can be keys, one is like the key of another, and one is repeated.
-/
def labelled : Document where
  fields := [
    .new "a" .string "field_1", unlabelled, .new "c" .string "first name", classed,
    .new "e" .boolean "first name"]

theorem fields_keep_names_labelled :
    BuilderSettings.NameModels {} "Schema" "Object" ∧
      ∃ m fields, (labelled.build {}).value = .ok m ∧ m.shape = .record "Schema" .null fields ∧
        fields.map (·.1.name) = ["field_1", "", "first name", "class"] ∧
        fields.map (·.1.key) = ["field_1", "field_1_", "field_2", "field_3"] ∧
        ∃ d shown, (m.validate (.obj [("first name", .bool true), ("field_1", .str "x"),
            ("field_2", .bool false)])).value = some (.ok d) ∧
          m.shape.write .straight d = .obj shown ∧
          Members.keys shown = ["field_1", "", "first name", "class"] ∧
          Members.find? "" shown = some .null ∧
          Members.find? "class" shown = some (.str "none") := by
  obtain ⟨⟨m, fields, hm, hrecord, hkeeps, htakes, hvalidate⟩, -⟩ :=
    fields_keep_names BuilderSettings.nameModels_default labelled
  have hmodel : labelled.model "Schema" "Object" = m := by
    rw [build_value BuilderSettings.nameModels_default, Except.ok.injEq] at hm
    exact hm
  have hkeys : fields.map (·.1.key) = ["field_1", "field_1_", "field_2", "field_3"] := by
    subst hmodel
    obtain rfl := (Shape.record.inj hrecord).2.2
    decide
  obtain ⟨d, hd⟩ : ∃ d, (m.validate (.obj [("first name", .bool true), ("field_1", .str "x"),
      ("field_2", .bool false)])).value = some (.ok d) := by
    subst hmodel
    exact ⟨_, rfl⟩
  obtain ⟨shown, hwrite, hshown⟩ := (htakes _).shown _ d ((hvalidate _ d).mp hd)
  have hunlabelled : Members.find? "" shown = some .null :=
    (hshown.optional unlabelled (.tail _ (.head _)) rfl rfl).2.2
  have hmem : classed ∈ lastFields labelled.fields := .tail _ (.tail _ (.tail _ (.head _)))
  obtain ⟨-, w, hclassed, hw⟩ := hshown.given classed hmem rfl rfl
  obtain rfl : w = .str "none" := by
    cases hw
    rfl
  exact ⟨BuilderSettings.nameModels_default, m, fields, hm, hrecord, hkeeps.names, hkeys, d, shown,
    hd, hwrite, hshown.keys_shown, hunlabelled, hclassed⟩

end Document

end SchemaTree
