/-!
# JSON values

Documents, data and settings are JSON values. Two features go beyond the usual type and both show
in answers: whole numbers and binary64 numbers are different values (`1` is not `1.0`), and an
object is a *list* of members, so that the order in which they were written survives.

An object built by `Members.insert` never holds a key twice: a repeated key keeps the place of its
first occurrence and takes the value of its last.

A whole number of more than `maxWholeDigits` digits has no text: it can be read from none and
written to none, in no notation. `excess?` finds the first such number in a value.

Strings are sequences of Unicode scalar values. -/

namespace SchemaTree

/-- A JSON value. Whole numbers are unbounded; other numbers are binary64. -/
inductive Json where
  | null
  | bool (b : Bool)
  | int (n : Int)
  | float (x : Float)
  | str (s : String)
  | arr (elements : List Json)
  | obj (members : List (String × Json))
deriving Inhabited

namespace Json

/-! ## Members of an object -/

namespace Members

/-- The value of the first member called `key`. -/
def find? (key : String) : List (String × α) → Option α
  | [] => none
  | (k, v) :: rest => if k = key then some v else find? key rest

/-- Sets `key`: a present key keeps its place, a new one goes to the end. -/
def insert (key : String) (value : α) : List (String × α) → List (String × α)
  | [] => [(key, value)]
  | (k, v) :: rest => if k = key then (k, value) :: rest else (k, v) :: insert key value rest

/-- The members in the order of first occurrence, each with the value of its last occurrence. -/
def ofList (members : List (String × α)) : List (String × α) :=
  members.foldl (fun acc (k, v) => insert k v acc) []

/-- The keys, in order. -/
def keys (members : List (String × α)) : List String := members.map (·.1)

theorem find?_insert_self (key : String) (value : α) (ms : List (String × α)) :
    find? key (insert key value ms) = some value := by
  induction ms with
  | nil => simp [insert, find?]
  | cons m ms ih =>
    obtain ⟨k, v⟩ := m
    by_cases h : k = key <;> simp [insert, find?, h, ih]

theorem find?_insert_of_ne {key other : String} (h : key ≠ other) (value : α)
    (ms : List (String × α)) : find? other (insert key value ms) = find? other ms := by
  induction ms with
  | nil => simp [insert, find?, h]
  | cons m ms ih =>
    obtain ⟨k, v⟩ := m
    by_cases hk : k = key
    · subst hk; simp [insert, find?, h]
    · by_cases ho : k = other
      · subst ho; simp [insert, find?, hk]
      · simp [insert, find?, hk, ho, ih]

end Members

/-- The member `key` of an object; `none` for any other value. -/
def get? (key : String) : Json → Option Json
  | .obj members => Members.find? key members
  | _ => none

/-- Whether a value counts as true: everything but null, `false`, zero and the empty string, list
and object. A NaN counts as true. -/
def truthy : Json → Bool
  | .null => false
  | .bool b => b
  | .int n => n ≠ 0
  | .float x => !(x == 0.0)
  | .str s => s ≠ ""
  | .arr elements => !elements.isEmpty
  | .obj members => !members.isEmpty

/-- The word by which messages mention the type of a value. -/
def typeWord : Json → String
  | .null => "NoneType"
  | .bool _ => "bool"
  | .int _ => "int"
  | .float _ => "float"
  | .str _ => "str"
  | .arr _ => "list"
  | .obj _ => "dict"

/-- The string of a string value. -/
def asString? : Json → Option String
  | .str s => some s
  | _ => none

mutual

/-- How deeply lists and objects are nested; a scalar has depth zero. -/
def depth : Json → Nat
  | .arr elements => depthList elements + 1
  | .obj members => depthMembers members + 1
  | _ => 0

/-- The greatest depth in a list. -/
def depthList : List Json → Nat
  | [] => 0
  | x :: rest => max x.depth (depthList rest)

/-- The greatest depth among the values of an object. -/
def depthMembers : List (String × Json) → Nat
  | [] => 0
  | (_, x) :: rest => max x.depth (depthMembers rest)

end

/-! ## Whole numbers that are too long -/

/-- The number of digits that a whole number may have in a text. -/
def maxWholeDigits : Nat := 4300

mutual

/-- The number of digits of the first whole number in a value that has too many of them. -/
def excess? : Json → Option Nat
  | .int n =>
    let count := (Nat.toDigits 10 n.natAbs).length
    if maxWholeDigits < count then some count else none
  | .arr elements => excessIn? elements
  | .obj members => excessInMembers? members
  | _ => none

/-- The first excess in a list. -/
def excessIn? : List Json → Option Nat
  | [] => none
  | x :: rest => x.excess?.or (excessIn? rest)

/-- The first excess among the values of an object. -/
def excessInMembers? : List (String × Json) → Option Nat
  | [] => none
  | (_, x) :: rest => x.excess?.or (excessInMembers? rest)

end

/-- The wording of the error where a whole number with too many digits would be written. -/
def tooLongMessage : String :=
  "Exceeds the limit (" ++ toString maxWholeDigits ++
    " digits) for integer string conversion; use sys.set_int_max_str_digits() to increase the limit"

end Json

end SchemaTree
