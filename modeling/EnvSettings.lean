import EnvSettings.Coerce
import EnvSettings.Command
import EnvSettings.Command.Argument
import EnvSettings.Command.Completion
import EnvSettings.Command.Line
import EnvSettings.Command.Run
import EnvSettings.Config
import EnvSettings.Convert
import EnvSettings.Decimal.Layout
import EnvSettings.Decimal.Reader
import EnvSettings.Decimal.Shortest
import EnvSettings.Document
import EnvSettings.Document.Builder
import EnvSettings.Document.Declarations
import EnvSettings.Document.Outline
import EnvSettings.Document.Reader
import EnvSettings.Dotenv.Declaration
import EnvSettings.Dotenv.Name
import EnvSettings.Dotenv.Printer
import EnvSettings.Dotenv.Quote
import EnvSettings.Dotenv.Reader
import EnvSettings.Dotenv.Reference
import EnvSettings.Dotenv.Warning
import EnvSettings.Entries
import EnvSettings.EnvMap
import EnvSettings.Error
import EnvSettings.Error.Config
import EnvSettings.Error.Line
import EnvSettings.Example
import EnvSettings.FieldInfo
import EnvSettings.FieldType
import EnvSettings.FileTree
import EnvSettings.Json
import EnvSettings.Json.Printer
import EnvSettings.Json.Reader
import EnvSettings.Loader
import EnvSettings.Log
import EnvSettings.Merge
import EnvSettings.Number
import EnvSettings.Output
import EnvSettings.Pipeline
import EnvSettings.Projection
import EnvSettings.Resolve
import EnvSettings.Schema
import EnvSettings.Schema.Builder
import EnvSettings.Shell
import EnvSettings.Temporal.Calendar
import EnvSettings.Temporal.Duration
import EnvSettings.Temporal.Pattern
import EnvSettings.Temporal.Printer
import EnvSettings.Temporal.Reader
import EnvSettings.Text.Bracket
import EnvSettings.Text.Case
import EnvSettings.Text.Case.Table
import EnvSettings.Text.Quoted
import EnvSettings.Text.Space
import EnvSettings.Text.Split
import EnvSettings.Text.Unmarked
import EnvSettings.Transform
import EnvSettings.TypeExpr
import EnvSettings.Value
import EnvSettings.Value.Json
import EnvSettings.Yaml.Glyph
import EnvSettings.Yaml.Node
import EnvSettings.Yaml.Reader
import EnvSettings.Yaml.Scalar
import EnvSettings.Yaml.Scalar.Block
import EnvSettings.Yaml.Scalar.Plain
import EnvSettings.Yaml.Scalar.Quoted
import EnvSettings.Main
import EnvSettings.Proofs.Dotenv.Pieces
import EnvSettings.Proofs.Dotenv.Meaning
import EnvSettings.Proofs.Dotenv.Expansion
import EnvSettings.Proofs.Dotenv.RoundTrip
import EnvSettings.Proofs.Dotenv.Declarations
import EnvSettings.Proofs.Projection.Edit
import EnvSettings.Proofs.Projection.Walk
import EnvSettings.Proofs.Projection.Unmatched
import EnvSettings.Proofs.Projection.Leaves
import EnvSettings.Proofs.Merge
import EnvSettings.Proofs.Precedence
import EnvSettings.Proofs.Resolve
import EnvSettings.Proofs.Routes
import EnvSettings.Proofs.Number
import EnvSettings.Proofs.Except
import EnvSettings.Proofs.Resolution
import EnvSettings.Proofs.RecordFree
import EnvSettings.Proofs.Conversion
import EnvSettings.Proofs.Conformance
import EnvSettings.Proofs.Union
import EnvSettings.Proofs.Depth
import EnvSettings.Proofs.Projection.Overruled
import EnvSettings.Proofs.Sources
import EnvSettings.Proofs.Recheck
import EnvSettings.Proofs.Transforms
import EnvSettings.Proofs.Vetting
import EnvSettings.Proofs.Dotenv.Continuation
import EnvSettings.Proofs.Dotenv.Modes
import EnvSettings.Proofs.Dotenv.Assignments
import EnvSettings.Proofs.Dotenv.Totality
import EnvSettings.Proofs.Example.Paths
import EnvSettings.Proofs.Text.Case
import EnvSettings.Proofs.Text.Separator
import EnvSettings.Proofs.Example.Names
import EnvSettings.Proofs.Example.Keys
import EnvSettings.Proofs.Room
import EnvSettings.Proofs.Example.Chains
import EnvSettings.Proofs.Example.Reading
import EnvSettings.Proofs.Recasing
import EnvSettings.Proofs.DepthRoutes
import EnvSettings.Proofs.TypeExpr
import EnvSettings.Proofs.Document.Steps
import EnvSettings.Proofs.Document.Building
import EnvSettings.Proofs.Text.Bracket
import EnvSettings.Proofs.Text.Balance
import EnvSettings.Proofs.TypeExpr.Printed
import EnvSettings.Proofs.Document.Declarations
import EnvSettings.Proofs.Document.Progress
import EnvSettings.Proofs.Document.RoundTrip
import EnvSettings.Proofs.Document.Names
import EnvSettings.Proofs.Conflict
import EnvSettings.Proofs.StrictRecords
import EnvSettings.Proofs.Schema.Calls
import EnvSettings.Proofs.Schema.Composition
import EnvSettings.Proofs.Schema.WellFormed
import EnvSettings.Proofs.Shell.PowerShell
import EnvSettings.Proofs.Shell.Script
import EnvSettings.Proofs.Text.Trim
import EnvSettings.Proofs.Dotenv.Protection
import EnvSettings.Proofs.Dotenv.Opening
import EnvSettings.Proofs.Dotenv.Enclosed
import EnvSettings.Proofs.Dotenv.Literal
import EnvSettings.Proofs.Dotenv.Unquoted
import EnvSettings.Proofs.Projection.Trees
import EnvSettings.Proofs.Decimal
import EnvSettings.Proofs.Temporal.Printed
import EnvSettings.Proofs.Temporal.Reading
import EnvSettings.Proofs.Temporal.RoundTrip
import EnvSettings.Proofs.Temporal.Iso
import EnvSettings.Proofs.Number.Sign
import EnvSettings.Proofs.Temporal.Clock
import EnvSettings.Proofs.ErrorPlaces
import EnvSettings.Proofs.Command
import EnvSettings.Proofs.EnvMap.Operations
import EnvSettings.Proofs.Value.Json
import EnvSettings.Proofs.Number.Rounding
import EnvSettings.Proofs.Number.Nearest
import EnvSettings.Proofs.Decimal.Shortest
import EnvSettings.Proofs.Decimal.Literal
import EnvSettings.Proofs.Decimal.Layout
import EnvSettings.Proofs.Temporal.Seconds
import EnvSettings.Proofs.Json.Number
import EnvSettings.Proofs.Seconds
