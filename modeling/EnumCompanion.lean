import EnumCompanion.Text.Basic
import EnumCompanion.Text.Ranges
import EnumCompanion.Text.Word
import EnumCompanion.Text.Blank
import EnumCompanion.Text.Printable
import EnumCompanion.Text.Digit
import EnumCompanion.Text.LowerCase
import EnumCompanion.Text.Quoted
import EnumCompanion.Text.Identifier
import EnumCompanion.Span
import EnumCompanion.Mask
import EnumCompanion.Declaration.Header
import EnumCompanion.Declaration.Body
import EnumCompanion.Enumeration
import EnumCompanion.Naming
import EnumCompanion.Declaration.Parse
import EnumCompanion.Code.Literal
import EnumCompanion.Code.Template
import EnumCompanion.Operation.Basic
import EnumCompanion.Operation.Registry
import EnumCompanion.Operation.Defaults
import EnumCompanion.Journal
import EnumCompanion.Declaration.Report
import EnumCompanion.Number.Binary64
import EnumCompanion.Number.Shortest
import EnumCompanion.Json.Basic
import EnumCompanion.Json.Reader
import EnumCompanion.Json.Writer
import EnumCompanion.Text.LineEnds
import EnumCompanion.Text.Utf8
import EnumCompanion.Storage.Path
import EnumCompanion.Storage.Basic
import EnumCompanion.Json.Entries
import EnumCompanion.Settings.Basic
import EnumCompanion.Settings.File
import EnumCompanion.Code.Generator
import EnumCompanion.Code.Fragment
import EnumCompanion.Document.Edit
import EnumCompanion.Document.Capture
import EnumCompanion.Document.Block
import EnumCompanion.Document.Action
import EnumCompanion.Source.Address
import EnumCompanion.Source.Load
import EnumCompanion.Number.Integer
import EnumCompanion.CommandLine.Flag
import EnumCompanion.CommandLine.Arguments
import EnumCompanion.CommandLine.Screen
import EnumCompanion.CommandLine.Session
import EnumCompanion.CommandLine.Outcome
import EnumCompanion.CommandLine.Listing
import EnumCompanion.CommandLine.Job
import EnumCompanion.CommandLine.Run
import EnumCompanion.Main
import EnumCompanion.Proofs.Text.Characters
import EnumCompanion.Proofs.Text.Quiet
import EnumCompanion.Proofs.Text.Lines
import EnumCompanion.Proofs.Text.Utf8
import EnumCompanion.Proofs.Journal
import EnumCompanion.Proofs.Mask
import EnumCompanion.Proofs.Mask.Token
import EnumCompanion.Proofs.Mask.Segment
import EnumCompanion.Proofs.Declaration.Brackets
import EnumCompanion.Proofs.Declaration.Entries
import EnumCompanion.Proofs.Declaration.Header
import EnumCompanion.Proofs.Declaration.Parse
import EnumCompanion.Proofs.Declaration.Reading
import EnumCompanion.Proofs.Declaration.Listing
import EnumCompanion.Proofs.Declaration.Extent
import EnumCompanion.Proofs.Declaration.Masked
import EnumCompanion.Proofs.Declaration.Interpolation
import EnumCompanion.Proofs.Declaration.Part
import EnumCompanion.Proofs.Declaration.Closed
import EnumCompanion.Proofs.Declaration.Search
import EnumCompanion.Proofs.Document.Capture
import EnumCompanion.Proofs.Document.Reach
import EnumCompanion.Proofs.Document.WholeLines
import EnumCompanion.Proofs.Document.Line
import EnumCompanion.Proofs.Document.Failure
import EnumCompanion.Proofs.Declaration.Splice
import EnumCompanion.Proofs.Declaration.Top
import EnumCompanion.Proofs.Declaration.Tokens
import EnumCompanion.Proofs.Declaration.Exchange
import EnumCompanion.Proofs.Declaration.Insertion
import EnumCompanion.Proofs.Declaration.Annotations
import EnumCompanion.Proofs.Code.Tame
import EnumCompanion.Proofs.Code.Block
import EnumCompanion.Proofs.Code.Container
import EnumCompanion.Proofs.Code.Layout
import EnumCompanion.Proofs.Naming
import EnumCompanion.Proofs.Document.Mention
import EnumCompanion.Proofs.Document.Block
import EnumCompanion.Proofs.Document.Cover
import EnumCompanion.Proofs.Declaration.Identifiers
import EnumCompanion.Proofs.Declaration.Split
import EnumCompanion.Proofs.Code.Mask
import EnumCompanion.Proofs.Document.Site
import EnumCompanion.Proofs.Document.Frame
import EnumCompanion.Proofs.Document.Action
import EnumCompanion.Proofs.Document.Effect
import EnumCompanion.Proofs.Document.Enums
import EnumCompanion.Proofs.Document.Exchange
import EnumCompanion.Proofs.Document.Presence
import EnumCompanion.Proofs.Document.Beside
import EnumCompanion.Proofs.Document.Regeneration
import EnumCompanion.Proofs.Document.Insertion
import EnumCompanion.Proofs.Document.Run
import EnumCompanion.Proofs.Document.Stable
import EnumCompanion.Proofs.Document.Patch
import EnumCompanion.Proofs.Document.Edit
import EnumCompanion.Proofs.Document.Behind
import EnumCompanion.Proofs.Code.Closed
import EnumCompanion.Proofs.Document.Itself
import EnumCompanion.Proofs.Operation.History
import EnumCompanion.Proofs.Operation.Replacement
import EnumCompanion.Proofs.Code.Dispatch
import EnumCompanion.Proofs.Storage
import EnumCompanion.Proofs.Json.Fields
import EnumCompanion.Proofs.Json.Distinct
import EnumCompanion.Proofs.Settings.Layers
import EnumCompanion.Proofs.Settings.Union
import EnumCompanion.Proofs.Settings.Saved
import EnumCompanion.Proofs.Settings.Faults
import EnumCompanion.Proofs.Source.Load
import EnumCompanion.Proofs.CommandLine.Session
import EnumCompanion.Proofs.CommandLine.Run
import EnumCompanion.Proofs.CommandLine.WriteBack
import EnumCompanion.Proofs.Document.Cut
import EnumCompanion.Proofs.Span
import EnumCompanion.Proofs.Code.Literal
