import SchemaTree.Document.Decode
import SchemaTree.Json.Parser
import SchemaTree.Text.LineEnds

/-!
# Loading documents from files

A document file is JSON text. Every line end of a text file reads as a single line feed, so faults
are placed in the text after that step.
-/

namespace SchemaTree

/-- Reads the content of a text file as JSON. -/
def parseFile (content : String) : Except Json.ParseError Json :=
  Json.parse (Text.withLineFeeds content)

/-- Why a document cannot be loaded. -/
inductive LoadError where
  | invalidJson (path : String) (fault : Json.PlacedFault)
  /-- A whole number has too many digits. -/
  | tooLong (digits : Nat)
  /-- A surrogate has no partner. -/
  | loneSurrogate
  | undecodable (error : DecodeError)

/-- The wording of a fault in a file. -/
def invalidJsonMessage (path : String) (fault : Json.PlacedFault) : String :=
  path ++ ": invalid JSON: " ++ fault.message

/-- The wording of an error. -/
def LoadError.message : LoadError → String
  | .invalidJson path fault => invalidJsonMessage path fault
  | .tooLong digits => (Json.ParseError.tooLong digits).message
  | .loneSurrogate => Json.ParseError.loneSurrogate.message
  | .undecodable error => error.message

/-- A fault of the text of the document at a path. -/
def LoadError.ofParse (path : String) : Json.ParseError → LoadError
  | .malformed fault => .invalidJson path fault
  | .tooLong digits => .tooLong digits
  | .loneSurrogate => .loneSurrogate

/-- Loads a document from the content of the file at a path. -/
def loadDocument (path content : String) (ids : IdSupply) :
    Logged (Except LoadError Document × IdSupply) :=
  match parseFile content with
  | .error e => pure (.error (.ofParse path e), ids)
  | .ok value => do
    let (result, ids) ← (readDocument value).run ids
    return (result.mapError .undecodable, ids)

end SchemaTree
