import DeadlockCapture.Bounds
import DeadlockCapture.Collection.Collector
import DeadlockCapture.Collection.Status
import DeadlockCapture.Collection.Surroundings
import DeadlockCapture.CommandLine.Arguments
import DeadlockCapture.CommandLine.Plan
import DeadlockCapture.Configuration.Basic
import DeadlockCapture.Configuration.Environment
import DeadlockCapture.Configuration.Loading
import DeadlockCapture.Configuration.Setting
import DeadlockCapture.Configuration.Shape
import DeadlockCapture.Configuration.Slot
import DeadlockCapture.Configuration.Wire
import DeadlockCapture.Decimal.Basic
import DeadlockCapture.Decimal.Nearest
import DeadlockCapture.Decimal.Reading
import DeadlockCapture.Decimal.Shortest
import DeadlockCapture.Digest
import DeadlockCapture.Json.Basic
import DeadlockCapture.Json.Decoder
import DeadlockCapture.Json.Printer
import DeadlockCapture.Json.Reading
import DeadlockCapture.Log
import DeadlockCapture.Main
import DeadlockCapture.Mark
import DeadlockCapture.Proofs.Assembly
import DeadlockCapture.Proofs.Cycle
import DeadlockCapture.Proofs.Delivery
import DeadlockCapture.Proofs.Forward
import DeadlockCapture.Proofs.Health
import DeadlockCapture.Proofs.Json.Decoding
import DeadlockCapture.Proofs.Json.Layout
import DeadlockCapture.Proofs.Json.OneLine
import DeadlockCapture.Proofs.Json.Reading
import DeadlockCapture.Proofs.LogFile
import DeadlockCapture.Proofs.Lookback
import DeadlockCapture.Proofs.Polling
import DeadlockCapture.Proofs.Replay
import DeadlockCapture.Proofs.Report.Acceptance
import DeadlockCapture.Proofs.Report.ErrorMark
import DeadlockCapture.Proofs.Report.EscapedStatements
import DeadlockCapture.Proofs.Report.Focus
import DeadlockCapture.Proofs.Report.Parties
import DeadlockCapture.Proofs.Report.RedactedDocument
import DeadlockCapture.Proofs.Report.RedactedGrammar
import DeadlockCapture.Proofs.Report.RedactedGraph
import DeadlockCapture.Proofs.Report.RejectedRows
import DeadlockCapture.Proofs.Report.Replacement
import DeadlockCapture.Proofs.Report.Revision
import DeadlockCapture.Proofs.Report.RoundTrip
import DeadlockCapture.Proofs.Report.ShownStatements
import DeadlockCapture.Proofs.Report.Signatures
import DeadlockCapture.Proofs.Report.Slots
import DeadlockCapture.Proofs.Report.Splicing
import DeadlockCapture.Proofs.Report.Statements
import DeadlockCapture.Proofs.Restarts
import DeadlockCapture.Proofs.Saving
import DeadlockCapture.Proofs.SessionQuery
import DeadlockCapture.Proofs.SourcePromise
import DeadlockCapture.Proofs.Sql.Collapse
import DeadlockCapture.Proofs.Sql.Composition
import DeadlockCapture.Proofs.Sql.Concealment
import DeadlockCapture.Proofs.Sql.Coverage
import DeadlockCapture.Proofs.Sql.Fragments
import DeadlockCapture.Proofs.Sql.Gaps
import DeadlockCapture.Proofs.Sql.Idempotence
import DeadlockCapture.Proofs.Sql.LateShortening
import DeadlockCapture.Proofs.Sql.Legibility
import DeadlockCapture.Proofs.Sql.LineEnds
import DeadlockCapture.Proofs.Sql.ListLength
import DeadlockCapture.Proofs.Sql.Literals
import DeadlockCapture.Proofs.Sql.Metadata
import DeadlockCapture.Proofs.Sql.NumberedNames
import DeadlockCapture.Proofs.Sql.Runs
import DeadlockCapture.Proofs.Sql.Separators
import DeadlockCapture.Proofs.Sql.Settling
import DeadlockCapture.Proofs.Sql.Shape
import DeadlockCapture.Proofs.Sql.Standing
import DeadlockCapture.Proofs.Stopping
import DeadlockCapture.Proofs.Storage.Folders
import DeadlockCapture.Proofs.Storage.Interleaving
import DeadlockCapture.Proofs.Storage.Interruption
import DeadlockCapture.Proofs.Storage.LastSaved
import DeadlockCapture.Proofs.Storage.Marks
import DeadlockCapture.Proofs.Storage.Names
import DeadlockCapture.Proofs.Storage.Places
import DeadlockCapture.Proofs.Storage.Steady
import DeadlockCapture.Proofs.Text.Blank
import DeadlockCapture.Proofs.Text.Digits
import DeadlockCapture.Proofs.Text.LineEnds
import DeadlockCapture.Proofs.Text.Runs
import DeadlockCapture.Proofs.Time.Calendar
import DeadlockCapture.Proofs.Time.InstantText
import DeadlockCapture.Proofs.Xml.Bare
import DeadlockCapture.Proofs.Xml.Content
import DeadlockCapture.Proofs.Xml.Declarations
import DeadlockCapture.Proofs.Xml.Dialects
import DeadlockCapture.Proofs.Xml.Documents
import DeadlockCapture.Proofs.Xml.Grammar
import DeadlockCapture.Proofs.Xml.Markup
import DeadlockCapture.Proofs.Xml.OtherText
import DeadlockCapture.Proofs.Xml.Pieces
import DeadlockCapture.Proofs.Xml.PlainTags
import DeadlockCapture.Proofs.Xml.Quotes
import DeadlockCapture.Proofs.Xml.Reached
import DeadlockCapture.Proofs.Xml.ReadBack
import DeadlockCapture.Proofs.Xml.References
import DeadlockCapture.Proofs.Xml.Scanning
import DeadlockCapture.Proofs.Xml.Tags
import DeadlockCapture.Rehearsal.Background
import DeadlockCapture.Rehearsal.Program
import DeadlockCapture.Rehearsal.Stage
import DeadlockCapture.Report.Assembly
import DeadlockCapture.Report.DocumentFault
import DeadlockCapture.Report.DocumentRedaction
import DeadlockCapture.Report.Event
import DeadlockCapture.Report.Graph
import DeadlockCapture.Report.GraphOfDocument
import DeadlockCapture.Report.GraphWire
import DeadlockCapture.Report.Payload
import DeadlockCapture.Report.Row
import DeadlockCapture.Report.SessionSet
import DeadlockCapture.Report.Signature
import DeadlockCapture.Sink.Output
import DeadlockCapture.Source.Fault
import DeadlockCapture.Source.Polling
import DeadlockCapture.Source.Replay
import DeadlockCapture.Source.RingBuffer
import DeadlockCapture.Source.Script
import DeadlockCapture.Sql.Lexeme
import DeadlockCapture.Sql.Metadata
import DeadlockCapture.Sql.Normalized
import DeadlockCapture.Sql.OptionsWire
import DeadlockCapture.Sql.Redaction
import DeadlockCapture.Sql.Token
import DeadlockCapture.Storage.Checkpoint
import DeadlockCapture.Storage.Files
import DeadlockCapture.Storage.Marks
import DeadlockCapture.Storage.Path
import DeadlockCapture.Text.Blank
import DeadlockCapture.Text.Digits
import DeadlockCapture.Text.Hidden
import DeadlockCapture.Text.Letter
import DeadlockCapture.Text.Lower
import DeadlockCapture.Text.Numeral
import DeadlockCapture.Text.Quoted
import DeadlockCapture.Text.Ranges
import DeadlockCapture.Time.Calendar
import DeadlockCapture.Time.Instant
import DeadlockCapture.Time.InstantText
import DeadlockCapture.Time.Span
import DeadlockCapture.Time.SpanText
import DeadlockCapture.Toml.Document
import DeadlockCapture.Toml.Scalar
import DeadlockCapture.Toml.Text
import DeadlockCapture.Toml.Tree
import DeadlockCapture.Xml.Character
import DeadlockCapture.Xml.Fault
import DeadlockCapture.Xml.Lookup
import DeadlockCapture.Xml.Reference
import DeadlockCapture.Xml.Token
import DeadlockCapture.Xml.Tree
