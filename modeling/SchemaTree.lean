import SchemaTree.Command.Arguments
import SchemaTree.Command.Form
import SchemaTree.Command.Invocation
import SchemaTree.Command.Run
import SchemaTree.Decimal.Layout
import SchemaTree.Decimal.Nearest
import SchemaTree.Decimal.Shortest
import SchemaTree.Document.Decode
import SchemaTree.Document.Encode
import SchemaTree.Document.Load
import SchemaTree.Emission.ClassBlocks
import SchemaTree.Emission.ClassModule
import SchemaTree.Emission.ClassNames
import SchemaTree.Emission.Emit
import SchemaTree.Emission.Fault
import SchemaTree.Emission.TypeExpr
import SchemaTree.Emission.ZodExpr
import SchemaTree.Emission.ZodModule
import SchemaTree.Event
import SchemaTree.Event.Line
import SchemaTree.Files.FileTree
import SchemaTree.Files.Path
import SchemaTree.Files.Write
import SchemaTree.Formatting
import SchemaTree.Import.OfJson
import SchemaTree.Import.OfShape
import SchemaTree.Import.Read
import SchemaTree.Import.View
import SchemaTree.Json.Basic
import SchemaTree.Json.Display
import SchemaTree.Json.Parser
import SchemaTree.Json.Printer
import SchemaTree.Json.Scalar
import SchemaTree.Main
import SchemaTree.Moment.Basic
import SchemaTree.Moment.Form
import SchemaTree.Naming.Binding
import SchemaTree.Naming.FieldKey
import SchemaTree.Naming.Words
import SchemaTree.Proofs.Acceptance
import SchemaTree.Proofs.Binary64
import SchemaTree.Proofs.Brackets
import SchemaTree.Proofs.Breakdowns
import SchemaTree.Proofs.BuildOrder
import SchemaTree.Proofs.Building
import SchemaTree.Proofs.Chains
import SchemaTree.Proofs.Codec
import SchemaTree.Proofs.Collecting
import SchemaTree.Proofs.Comparison
import SchemaTree.Proofs.Copies
import SchemaTree.Proofs.Definitions
import SchemaTree.Proofs.Denotation
import SchemaTree.Proofs.Descriptions
import SchemaTree.Proofs.Documentation
import SchemaTree.Proofs.Emission
import SchemaTree.Proofs.Endless
import SchemaTree.Proofs.Expressions
import SchemaTree.Proofs.FieldKeys
import SchemaTree.Proofs.FirstItems
import SchemaTree.Proofs.ForwardNames
import SchemaTree.Proofs.GivenNames
import SchemaTree.Proofs.Histories
import SchemaTree.Proofs.Identifiers
import SchemaTree.Proofs.KeyTokens
import SchemaTree.Proofs.Legibility
import SchemaTree.Proofs.Members
import SchemaTree.Proofs.ModelNames
import SchemaTree.Proofs.ModuleClosure
import SchemaTree.Proofs.MomentTexts
import SchemaTree.Proofs.Moments
import SchemaTree.Proofs.NamedFields
import SchemaTree.Proofs.Nearness
import SchemaTree.Proofs.Nodes
import SchemaTree.Proofs.NormalForm
import SchemaTree.Proofs.NumberBounds
import SchemaTree.Proofs.NumberText
import SchemaTree.Proofs.Numbers
import SchemaTree.Proofs.Outcomes
import SchemaTree.Proofs.Overwriting
import SchemaTree.Proofs.Parametricity
import SchemaTree.Proofs.Parsing
import SchemaTree.Proofs.Protection
import SchemaTree.Proofs.Reacceptance
import SchemaTree.Proofs.References
import SchemaTree.Proofs.Registrations
import SchemaTree.Proofs.Reimport
import SchemaTree.Proofs.Rendered
import SchemaTree.Proofs.Rendering
import SchemaTree.Proofs.Resubmission
import SchemaTree.Proofs.RunSteps
import SchemaTree.Proofs.Searches
import SchemaTree.Proofs.SeenFields
import SchemaTree.Proofs.Shadowing
import SchemaTree.Proofs.ShapeText
import SchemaTree.Proofs.Shortest
import SchemaTree.Proofs.Steps
import SchemaTree.Proofs.StringLiterals
import SchemaTree.Proofs.Termination
import SchemaTree.Proofs.TextRoundTrip
import SchemaTree.Proofs.Unemittable
import SchemaTree.Proofs.Unimportable
import SchemaTree.Proofs.Unreadable
import SchemaTree.Proofs.Validation
import SchemaTree.Proofs.Values
import SchemaTree.Proofs.Variants
import SchemaTree.Proofs.Verdicts
import SchemaTree.Proofs.Words
import SchemaTree.Proofs.Wrappings
import SchemaTree.Proofs.Writability
import SchemaTree.Proofs.Writing
import SchemaTree.Proofs.Written
import SchemaTree.Proofs.ZodItems
import SchemaTree.Proofs.ZodObjects
import SchemaTree.Proofs.ZodText
import SchemaTree.Registry
import SchemaTree.RuntimeType.Acceptance
import SchemaTree.RuntimeType.Basic
import SchemaTree.RuntimeType.Lookup
import SchemaTree.RuntimeType.View
import SchemaTree.Settings
import SchemaTree.Shape.Basic
import SchemaTree.Shape.Build
import SchemaTree.Shape.Consult
import SchemaTree.Shape.Datum
import SchemaTree.Shape.Failure
import SchemaTree.Shape.FlagGuard
import SchemaTree.Shape.Loose
import SchemaTree.Shape.Report
import SchemaTree.Shape.Validate
import SchemaTree.Shape.Write
import SchemaTree.Text.Blank
import SchemaTree.Text.CodeRange
import SchemaTree.Text.DecimalDigit
import SchemaTree.Text.Documentation
import SchemaTree.Text.Identifier
import SchemaTree.Text.LineEnds
import SchemaTree.Text.Parts
import SchemaTree.Text.Printable
import SchemaTree.Text.Quote
import SchemaTree.Text.Similarity
import SchemaTree.Tree.Basic
import SchemaTree.Tree.Edit
import SchemaTree.Tree.IdSupply
import SchemaTree.Tree.Reference
import SchemaTree.Tree.Traversal
