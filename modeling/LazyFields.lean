import LazyFields.Accessor
import LazyFields.Annotation
import LazyFields.Candidates
import LazyFields.CommandLine
import LazyFields.Config.Basic
import LazyFields.Config.Document
import LazyFields.Config.Layers
import LazyFields.Config.Validation
import LazyFields.Event
import LazyFields.Fault
import LazyFields.Ignore.Automaton
import LazyFields.Ignore.Expression
import LazyFields.Ignore.Glob
import LazyFields.Ignore.Limits
import LazyFields.Ignore.Pattern
import LazyFields.Ignore.Rules
import LazyFields.Ignore.Written
import LazyFields.Main
import LazyFields.NameMap
import LazyFields.NameSet
import LazyFields.Naming
import LazyFields.Path
import LazyFields.Proofs.Accessor
import LazyFields.Proofs.Accessor.Collisions
import LazyFields.Proofs.Accessor.Letters
import LazyFields.Proofs.Accessor.Reach
import LazyFields.Proofs.Annotation.Edits
import LazyFields.Proofs.Annotation.Joined
import LazyFields.Proofs.Annotation.Layout
import LazyFields.Proofs.Annotation.Line
import LazyFields.Proofs.Annotation.Lockstep
import LazyFields.Proofs.Annotation.Mismatch
import LazyFields.Proofs.Annotation.MoreSources
import LazyFields.Proofs.Annotation.Pass
import LazyFields.Proofs.Annotation.Recognition
import LazyFields.Proofs.Annotation.Rereading
import LazyFields.Proofs.Annotation.Rewriting
import LazyFields.Proofs.Annotation.Stages
import LazyFields.Proofs.Annotation.Unread
import LazyFields.Proofs.Candidates
import LazyFields.Proofs.Candidates.Insertion
import LazyFields.Proofs.Config.Extensions
import LazyFields.Proofs.Config.Layers
import LazyFields.Proofs.Config.RoundTrip
import LazyFields.Proofs.Config.Written
import LazyFields.Proofs.Decisions
import LazyFields.Proofs.NameMap
import LazyFields.Proofs.Run
import LazyFields.Proofs.Scan
import LazyFields.Proofs.Scan.AccessorBytes
import LazyFields.Proofs.Scan.Namespace
import LazyFields.Proofs.Schema.Depth
import LazyFields.Proofs.Schema.Direct
import LazyFields.Proofs.Schema.Grammar
import LazyFields.Proofs.Schema.Joined
import LazyFields.Proofs.Schema.LineGrammar
import LazyFields.Proofs.Schema.Nesting
import LazyFields.Proofs.Schema.Reading
import LazyFields.Proofs.Schema.SpanReading
import LazyFields.Proofs.Schema.Spans
import LazyFields.Proofs.Schema.Tokens
import LazyFields.Proofs.Selection
import LazyFields.Proofs.Text.AsciiBytes
import LazyFields.Proofs.Text.Blank
import LazyFields.Proofs.Text.ByteOrder
import LazyFields.Proofs.Text.LineEnds
import LazyFields.Proofs.Text.Lines
import LazyFields.Proofs.Text.StrictUtf8
import LazyFields.Proofs.Text.Utf8
import LazyFields.Proofs.Toml.DocumentIntegers
import LazyFields.Proofs.Toml.Integers
import LazyFields.Proofs.Toml.LongQuoted
import LazyFields.Proofs.Toml.Quoted
import LazyFields.Proofs.Toml.WrittenScalar
import LazyFields.Proofs.Toml.WrittenStatement
import LazyFields.Proofs.Toml.WrittenString
import LazyFields.Proofs.Toml.WrittenTable
import LazyFields.Proofs.Toml.WrittenValue
import LazyFields.Proofs.Tree
import LazyFields.Proofs.Usage
import LazyFields.Run
import LazyFields.Run.Error
import LazyFields.Scan
import LazyFields.Scan.Error
import LazyFields.Scan.Namespace
import LazyFields.Schema.Declaration
import LazyFields.Schema.Error
import LazyFields.Schema.Model
import LazyFields.Schema.Nesting
import LazyFields.Selection
import LazyFields.Text
import LazyFields.Text.Blank
import LazyFields.Text.Case
import LazyFields.Text.CaseTable
import LazyFields.Text.Digit
import LazyFields.Text.Lines
import LazyFields.Text.Ranges
import LazyFields.Text.Utf8
import LazyFields.Text.Visible
import LazyFields.Toml.Document
import LazyFields.Toml.Quoted
import LazyFields.Toml.Scalar
import LazyFields.Toml.Value
import LazyFields.Toml.Writer
import LazyFields.Tree.Basic
import LazyFields.Tree.Resolve
import LazyFields.Usage
import LazyFields.Walk
