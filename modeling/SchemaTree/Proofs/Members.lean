import SchemaTree.Json.Basic
import Mathlib.Data.List.Nodup

/-!
# Members in the order of insertion

What the members of an object look like after insertions: `Members.insert` leaves every other key
alone, never makes a key occur twice, and puts a new key last. `Members.ofList` therefore keeps, of
several members with one key, the value of the last one (`find?_ofList`), and changes nothing where
no key is repeated (`ofList_of_nodup`).
-/

namespace SchemaTree.Json.Members

variable {α β : Type _}

/-! ## Look-up -/

@[simp] theorem keys_cons (m : String × α) (ms : List (String × α)) :
    keys (m :: ms) = m.1 :: keys ms := rfl

theorem mem_keys_of_mem {key : String} {value : α} {ms : List (String × α)}
    (h : (key, value) ∈ ms) : key ∈ keys ms := List.mem_map_of_mem (f := Prod.fst) h

theorem find?_append (key : String) (ms ns : List (String × α)) :
    find? key (ms ++ ns) = (find? key ms).or (find? key ns) := by
  induction ms with
  | nil => rfl
  | cons m ms ih =>
    obtain ⟨k, v⟩ := m
    rw [List.cons_append, find?, find?, ih]
    split <;> rfl

theorem find?_eq_none_iff {key : String} {ms : List (String × α)} :
    find? key ms = none ↔ key ∉ keys ms := by
  induction ms with
  | nil => simp [find?, keys]
  | cons m ms ih =>
    obtain ⟨k, v⟩ := m
    by_cases h : k = key
    · simp [find?, h]
    · simp [find?, h, ih, Ne.symm h]

theorem isSome_find?_iff {key : String} {ms : List (String × α)} :
    (find? key ms).isSome ↔ key ∈ keys ms := by
  rw [← Option.ne_none_iff_isSome, ne_eq, find?_eq_none_iff, not_not]

theorem mem_of_find?_eq_some {key : String} {value : α} {ms : List (String × α)}
    (h : find? key ms = some value) : (key, value) ∈ ms := by
  induction ms with
  | nil => simp [find?] at h
  | cons m ms ih =>
    obtain ⟨k, v⟩ := m
    rw [find?] at h
    split at h
    · rename_i hk
      rw [hk, Option.some_inj.mp h]
      exact List.mem_cons_self
    · exact List.mem_cons_of_mem _ (ih h)

/-- Where no key is repeated, look-up finds every member. -/
theorem find?_eq_some_iff {key : String} {value : α} {ms : List (String × α)}
    (hms : (keys ms).Nodup) : find? key ms = some value ↔ (key, value) ∈ ms := by
  refine ⟨mem_of_find?_eq_some, fun h ↦ ?_⟩
  induction ms with
  | nil => simp at h
  | cons m ms ih =>
    obtain ⟨k, v⟩ := m
    rw [keys_cons, List.nodup_cons] at hms
    rcases List.mem_cons.mp h with h | h
    · obtain ⟨rfl, rfl⟩ := Prod.mk.inj h
      rw [find?, if_pos rfl]
    · have hne : k ≠ key := by
        rintro rfl
        exact hms.1 (mem_keys_of_mem h)
      rw [find?, if_neg hne]
      exact ih hms.2 h

/-- The first member from behind is the last one with its key. -/
theorem find?_reverse_eq_some_iff {key : String} {value : α} {ms : List (String × α)} :
    find? key ms.reverse = some value ↔
      ∃ before after, ms = before ++ (key, value) :: after ∧ key ∉ keys after := by
  constructor
  · intro h
    induction ms with
    | nil => simp [find?] at h
    | cons m ms ih =>
      rw [List.reverse_cons, find?_append, Option.or_eq_some_iff] at h
      -- the last member is found behind the first one, or is the first one
      rcases h with h | ⟨hnone, h⟩
      · obtain ⟨before, after, rfl, hafter⟩ := ih h
        exact ⟨m :: before, after, rfl, hafter⟩
      · have hm : m = (key, value) := (List.mem_singleton.mp (mem_of_find?_eq_some h)).symm
        refine ⟨[], ms, by rw [hm, List.nil_append], ?_⟩
        simpa [keys] using find?_eq_none_iff.mp hnone
  · rintro ⟨before, after, rfl, hafter⟩
    have hnone : find? key after.reverse = none :=
      find?_eq_none_iff.mpr (by simpa [keys] using hafter)
    rw [List.reverse_append, List.reverse_cons, find?_append, find?_append, hnone, Option.none_or,
      find?, if_pos rfl, Option.some_or]

/-! ## Insertion -/

theorem insert_of_notMem {key : String} {ms : List (String × α)} (h : key ∉ keys ms) (value : α) :
    insert key value ms = ms ++ [(key, value)] := by
  induction ms with
  | nil => rfl
  | cons m ms ih =>
    obtain ⟨k, v⟩ := m
    rw [keys_cons, List.mem_cons, not_or] at h
    rw [insert, if_neg (Ne.symm h.1), ih h.2, List.cons_append]

theorem keys_insert_of_mem {key : String} {ms : List (String × α)} (h : key ∈ keys ms) (value : α) :
    keys (insert key value ms) = keys ms := by
  induction ms with
  | nil => simp [keys] at h
  | cons m ms ih =>
    obtain ⟨k, v⟩ := m
    by_cases hk : k = key
    · rw [insert, if_pos hk, keys_cons, keys_cons]
    · rw [insert, if_neg hk, keys_cons, keys_cons,
        ih ((List.mem_cons.mp h).resolve_left (Ne.symm hk))]

theorem insert_append_cons {key : String} {before : List (String × α)} (h : key ∉ keys before)
    (old value : α) (after : List (String × α)) :
    insert key value (before ++ (key, old) :: after) = before ++ (key, value) :: after := by
  induction before with
  | nil => exact if_pos rfl
  | cons m before ih =>
    obtain ⟨k, v⟩ := m
    rw [keys_cons, List.mem_cons, not_or] at h
    rw [List.cons_append, insert, if_neg (Ne.symm h.1), ih h.2, List.cons_append]

theorem nodup_keys_insert {ms : List (String × α)} (h : (keys ms).Nodup) (key : String)
    (value : α) : (keys (insert key value ms)).Nodup := by
  by_cases hk : key ∈ keys ms
  · rw [keys_insert_of_mem hk]
    exact h
  · rw [insert_of_notMem hk, keys, List.map_append, List.nodup_append_comm]
    exact List.nodup_cons.mpr ⟨hk, h⟩

/-- A value that is changed on the way is inserted changed. -/
theorem map_insert (f : α → β) (key : String) (value : α) (ms : List (String × α)) :
    (insert key value ms).map (fun m ↦ (m.1, f m.2)) =
      insert key (f value) (ms.map fun m ↦ (m.1, f m.2)) := by
  induction ms with
  | nil => rfl
  | cons m ms ih =>
    obtain ⟨k, v⟩ := m
    rw [insert, List.map_cons, insert]
    split
    · rw [List.map_cons]
    · rw [List.map_cons, ih]

/-- What is found after an insertion is what was inserted, or was found before. -/
theorem find?_insert_cases {key other : String} {value found : α} {ms : List (String × α)}
    (h : find? other (insert key value ms) = some found) :
    other = key ∧ found = value ∨ find? other ms = some found := by
  by_cases hkey : key = other
  · subst hkey
    rw [find?_insert_self] at h
    exact .inl ⟨rfl, (Option.some_inj.mp h).symm⟩
  · rw [find?_insert_of_ne hkey] at h
    exact .inr h

theorem isSome_find?_insert {key other : String} {value : α} {ms : List (String × α)} :
    (find? other (insert key value ms)).isSome ↔ key = other ∨ (find? other ms).isSome := by
  by_cases hkey : key = other
  · subst hkey
    simp [find?_insert_self]
  · rw [find?_insert_of_ne hkey]
    simp [hkey]

/-! ## Members of a list -/

/-- The members after those of a list have been inserted. -/
def insertAll (ms : List (String × α)) (acc : List (String × α)) : List (String × α) :=
  ms.foldl (fun acc (k, v) ↦ insert k v acc) acc

@[simp] theorem insertAll_cons (m : String × α) (ms acc : List (String × α)) :
    insertAll (m :: ms) acc = insertAll ms (insert m.1 m.2 acc) := rfl

theorem find?_insertAll (key : String) (ms acc : List (String × α)) :
    find? key (insertAll ms acc) = (find? key ms.reverse).or (find? key acc) := by
  induction ms generalizing acc with
  | nil => rfl
  | cons m ms ih =>
    obtain ⟨k, v⟩ := m
    rw [insertAll_cons, ih, List.reverse_cons, find?_append]
    by_cases h : k = key
    · subst h
      rw [find?_insert_self, find?, if_pos rfl]
      cases find? k ms.reverse <;> rfl
    · rw [find?_insert_of_ne h, find?, if_neg h, find?, Option.or_none]

theorem nodup_keys_insertAll (ms : List (String × α)) {acc : List (String × α)}
    (h : (keys acc).Nodup) : (keys (insertAll ms acc)).Nodup := by
  induction ms generalizing acc with
  | nil => exact h
  | cons m ms ih => exact ih (nodup_keys_insert h m.1 m.2)

/-- New keys go to the end. -/
theorem insertAll_of_nodup {ms acc : List (String × α)} (h : (keys ms).Nodup)
    (hnew : (keys acc).Disjoint (keys ms)) : insertAll ms acc = acc ++ ms := by
  induction ms generalizing acc with
  | nil => rw [insertAll, List.foldl_nil, List.append_nil]
  | cons m ms ih =>
    obtain ⟨k, v⟩ := m
    obtain ⟨hk, hms⟩ := List.nodup_cons.mp h
    obtain ⟨hacc, hrest⟩ := List.disjoint_cons_right.mp hnew
    have hnext : (keys (acc ++ [(k, v)])).Disjoint (keys ms) := by
      rw [keys, List.map_append]
      exact List.disjoint_append_left.mpr ⟨hrest, List.singleton_disjoint.mpr hk⟩
    rw [insertAll_cons, insert_of_notMem hacc, ih hms hnext, List.append_assoc]
    rfl

theorem ofList_append (ms ns : List (String × α)) :
    ofList (ms ++ ns) = insertAll ns (ofList ms) := List.foldl_append

theorem map_insertAll (f : α → β) (ms acc : List (String × α)) :
    (insertAll ms acc).map (fun m ↦ (m.1, f m.2)) =
      insertAll (ms.map fun m ↦ (m.1, f m.2)) (acc.map fun m ↦ (m.1, f m.2)) := by
  induction ms generalizing acc with
  | nil => rfl
  | cons m ms ih => rw [insertAll_cons, ih, map_insert, List.map_cons, insertAll_cons]

/-- Values may be changed before or after the last one of each key is picked. -/
theorem map_ofList (f : α → β) (ms : List (String × α)) :
    (ofList ms).map (fun m ↦ (m.1, f m.2)) = ofList (ms.map fun m ↦ (m.1, f m.2)) := by
  rw [ofList, ← insertAll, map_insertAll, ofList, ← insertAll, List.map_nil]

/-- Of several members with one key the last one counts. -/
theorem find?_ofList (key : String) (ms : List (String × α)) :
    find? key (ofList ms) = find? key ms.reverse := by
  rw [ofList, ← insertAll, find?_insertAll, find?, Option.or_none]

theorem mem_keys_ofList_iff {key : String} {ms : List (String × α)} :
    key ∈ keys (ofList ms) ↔ key ∈ keys ms := by
  rw [← isSome_find?_iff, find?_ofList, isSome_find?_iff, keys, List.map_reverse, List.mem_reverse,
    keys]

theorem nodup_keys_ofList (ms : List (String × α)) : (keys (ofList ms)).Nodup :=
  nodup_keys_insertAll ms List.nodup_nil

theorem mem_ofList_iff {key : String} {value : α} {ms : List (String × α)} :
    (key, value) ∈ ofList ms ↔ find? key ms.reverse = some value := by
  rw [← find?_ofList, find?_eq_some_iff (nodup_keys_ofList ms)]

/-- Members without a repeated key stay as they are. -/
theorem ofList_of_nodup {ms : List (String × α)} (h : (keys ms).Nodup) : ofList ms = ms :=
  insertAll_of_nodup h (List.disjoint_nil_left _)

/-- Of two members with one key the second takes the place of the first. -/
theorem ofList_of_repeated {key : String} {old value : α} {before middle after : List (String × α)}
    (h : (keys (before ++ (key, old) :: (middle ++ after))).Nodup) :
    ofList (before ++ (key, old) :: (middle ++ (key, value) :: after)) =
      before ++ (key, value) :: (middle ++ after) := by
  have hbefore : key ∉ keys before := by
    rw [keys, List.map_append, List.nodup_append] at h
    exact fun hmem ↦ h.2.2 key hmem key (by simp) rfl
  have hsplit : before ++ (key, old) :: (middle ++ (key, value) :: after) =
      (before ++ (key, old) :: middle) ++ (key, value) :: after := by simp
  have hfront : (keys (before ++ (key, old) :: middle)).Nodup := by
    refine h.sublist ?_
    simp [keys]
  have hall : (keys (before ++ (key, value) :: middle) ++ keys after).Nodup := by
    simpa [keys] using h
  obtain ⟨-, hafter, hnew⟩ := List.nodup_append'.mp hall
  rw [hsplit, ofList_append, ofList_of_nodup hfront, insertAll_cons, insert_append_cons hbefore,
    insertAll_of_nodup hafter hnew, List.append_assoc, List.cons_append]

end SchemaTree.Json.Members
