import SchemaTree.Text.Identifier

/-!
# Attribute keys

A model keeps its fields under attribute keys. A field's name is its key where it can be; any other
name gets a key made from the field's position, and is kept beside the key as an external name. Keys
that clash get underscores at the end until they are free.
-/

namespace SchemaTree.Naming

/-- The keywords, which cannot be attributes. -/
def keywords : List String := [
  "False", "None", "True", "and", "as", "assert", "async", "await", "break", "class", "continue",
  "def", "del", "elif", "else", "except", "finally", "for", "from", "global", "if", "import", "in",
  "is", "lambda", "nonlocal", "not", "or", "pass", "raise", "return", "try", "while", "with",
  "yield"]

/-- The attributes that every model already has. -/
def modelAttributes : List String := [
  "construct", "copy", "dict", "from_orm", "json", "mro", "parse_file", "parse_obj", "parse_raw",
  "register", "schema", "schema_json", "update_forward_refs", "validate"]

/-- Whether a name can itself be the key of a field. -/
def isAttributeName (name : String) : Bool :=
  Text.isIdentifier name.toList && !keywords.contains name && !"_".toList.isPrefixOf name.toList &&
    !"model_".toList.isPrefixOf name.toList && !modelAttributes.contains name

/-- The key of a field with a name at a position, before clashes are considered. -/
def fieldKey (name : String) (position : Int) : String :=
  if isAttributeName name then name else "field_" ++ toString position

/-- The first of `key`, `key_`, `key__` and so on that is not taken. Of one more candidates than
there are taken keys at least one is free, so the bound is never reached. -/
def freeKey (taken : List String) (key : String) : String :=
  go taken.length key
where
  go : Nat → String → String
    | 0, key => key
    | bound + 1, key => if key ∈ taken then go bound (key ++ "_") else key

/-- The keys of fields with the given names, in order, each free among those before it. -/
def fieldKeys (names : List String) : List String :=
  go [] 0 names
where
  go (taken : List String) (position : Nat) : List String → List String
    | [] => []
    | name :: rest =>
      let key := freeKey taken (fieldKey name position)
      key :: go (key :: taken) (position + 1) rest

end SchemaTree.Naming
