import IdlModel.Command.Args
import IdlModel.Command.Run
import IdlModel.Comment.Normalize
import IdlModel.Comment.Pending
import IdlModel.Config.Basic
import IdlModel.Config.Error
import IdlModel.Config.Library
import IdlModel.Config.Setting
import IdlModel.Config.Variable
import IdlModel.Decimal.Shortest
import IdlModel.Declaration.Addition
import IdlModel.Declaration.Basic
import IdlModel.Document.Basic
import IdlModel.Document.Decode
import IdlModel.Document.Encode
import IdlModel.Document.Format
import IdlModel.Document.Outline
import IdlModel.Document.Schema
import IdlModel.Except
import IdlModel.Host.Files
import IdlModel.Json.Basic
import IdlModel.Json.Literal
import IdlModel.Json.Mismatch
import IdlModel.Json.Number
import IdlModel.Json.Printer
import IdlModel.Json.Reader
import IdlModel.Json.Token
import IdlModel.Load.Builder
import IdlModel.Load.Context
import IdlModel.Load.Error
import IdlModel.Load.File
import IdlModel.Main
import IdlModel.Node.Basic
import IdlModel.Node.Decode
import IdlModel.Node.Encode
import IdlModel.Node.Fields
import IdlModel.Node.Kind
import IdlModel.Node.Walk
import IdlModel.Text.Blank
import IdlModel.Text.Hex
import IdlModel.Text.Lines
import IdlModel.Text.Parser
import IdlModel.Text.Printable
import IdlModel.Text.Quoted
import IdlModel.Toml.Parser
import IdlModel.Toml.Scalar
import IdlModel.Toml.Table
import IdlModel.Toml.Text
import IdlModel.Proofs.Load.Sketch
import IdlModel.Proofs.Node.Place
import IdlModel.Proofs.Load.Parts
import IdlModel.Proofs.Load.Site
import IdlModel.Proofs.Load.Verdict
import IdlModel.Proofs.Load.Acceptance
import IdlModel.Proofs.Load.Step
import IdlModel.Proofs.Load.Extraction
import IdlModel.Proofs.Load.LeadingComment
import IdlModel.Proofs.Load.Canonical
import IdlModel.Proofs.Load.Linked
import IdlModel.Proofs.Load.Balance
import IdlModel.Proofs.Load.Strict
import IdlModel.Proofs.Load.Wrapper
import IdlModel.Proofs.Json.Written
import IdlModel.Proofs.Json.Spelling
import IdlModel.Proofs.Json.Reading
import IdlModel.Proofs.Json.Streaming
import IdlModel.Proofs.Document.RoundTrip
import IdlModel.Proofs.Node.RoundTrip
import IdlModel.Proofs.Load.Append
import IdlModel.Proofs.Load.Normalizer
import IdlModel.Proofs.Load.Offence
import IdlModel.Proofs.Load.Position
import IdlModel.Proofs.Load.Growth
import IdlModel.Proofs.Text.Trim
import IdlModel.Proofs.Load.Clean
import IdlModel.Proofs.Document.Rendering
import IdlModel.Proofs.Command.Output
import IdlModel.Proofs.Config.Tidy
import IdlModel.Proofs.Text.Yields
import IdlModel.Proofs.Toml.Tidy
import IdlModel.Proofs.Config.Environment
import IdlModel.Proofs.Config.Layers
import IdlModel.Proofs.Node.Row
import IdlModel.Proofs.Node.Visitor
import IdlModel.Proofs.Load.Refusal
import IdlModel.Proofs.Text.Pieces
import IdlModel.Proofs.Comment.Layout
import IdlModel.Proofs.Comment.Fixed
import IdlModel.Proofs.Comment.Margin
import IdlModel.Proofs.Comment.Kept
import IdlModel.Proofs.Document.OneLine
import IdlModel.Proofs.Text.Section
import IdlModel.Proofs.Document.Uncommented
import IdlModel.Proofs.Document.Legible
import IdlModel.Proofs.Document.Reading
import IdlModel.Proofs.Load.Truncated
import IdlModel.Proofs.Json.Form
import IdlModel.Proofs.Document.Form
import IdlModel.Proofs.Document.AnyForm
import IdlModel.Proofs.Node.Form
import IdlModel.Proofs.Load.Rewritten
import IdlModel.Proofs.Json.Distinct
import IdlModel.Proofs.Schema.Validation
import IdlModel.Proofs.Declaration.Additions
import IdlModel.Proofs.Schema.Described
import IdlModel.Proofs.Schema.Properties
import IdlModel.Proofs.Document.Schema
import IdlModel.Proofs.Command.Schema
