import BitFont.Text.Blank
import BitFont.Text.Line
import BitFont.Text.Numeral
import BitFont.Text.Quoted
import BitFont.Text.CaseTable
import BitFont.Text.Letter
import BitFont.Glyph.Basic
import BitFont.Glyph.Plane
import BitFont.Glyph.Printer
import BitFont.Run.Basic
import BitFont.Run.Decoder
import BitFont.Layout
import BitFont.Diagnostic
import BitFont.Statement
import BitFont.Notice
import BitFont.Draft
import BitFont.Definitions
import BitFont.Compilation
import BitFont.Artifact.Naming
import BitFont.Artifact.Listing
import BitFont.Artifact.Header
import BitFont.Artifact.Data
import BitFont.Artifact.Limits
import BitFont.Artifact.Basic
import BitFont.Files.Error
import BitFont.Files.Path
import BitFont.Files.Tree
import BitFont.Files.Access
import BitFont.Toml.Value
import BitFont.Toml.Reader
import BitFont.Toml.Text
import BitFont.Toml.Number
import BitFont.Toml.Document
import BitFont.Report
import BitFont.Plan.Basic
import BitFont.Plan.Reader
import BitFont.Failure
import BitFont.Source
import BitFont.Host
import BitFont.Session
import BitFont.Plan.Run
import BitFont.Command.Basic
import BitFont.Command.Argument
import BitFont.Command.Reader
import BitFont.Command.Run
import BitFont.Main
import BitFont.Proofs.Run.Stream
import BitFont.Proofs.Run.Stretches
import BitFont.Proofs.Run.Canonical
import BitFont.Proofs.Glyph.Packing
import BitFont.Proofs.Layout.Offsets
import BitFont.Proofs.Compilation.Streams
import BitFont.Proofs.Definitions.Outline
import BitFont.Proofs.Definitions.Reading
import BitFont.Proofs.Definitions.Diagnostics
import BitFont.Proofs.Definitions.Glyphs
import BitFont.Proofs.Definitions.Matching
import BitFont.Proofs.Source.Labels
import BitFont.Proofs.Compilation.Wording
import BitFont.Proofs.Definitions.Placing
import BitFont.Proofs.Text.Lines
import BitFont.Proofs.Text.Marks
import BitFont.Proofs.Compilation.Joining
import BitFont.Proofs.Files.Frame
import BitFont.Proofs.Session.Performing
import BitFont.Proofs.Session.Correspondence
import BitFont.Proofs.Plan.Failing
import BitFont.Proofs.Plan.Cleaning
import BitFont.Proofs.Artifact.Reader
import BitFont.Proofs.Artifact.Header
import BitFont.Proofs.Artifact.Data
import BitFont.Proofs.Definitions.Identifiers
import BitFont.Proofs.Artifact.Agreement
import BitFont.Proofs.Files.Making
import BitFont.Proofs.Files.Outcomes
import BitFont.Proofs.Files.Relocation
import BitFont.Proofs.Session.Writing
import BitFont.Proofs.Plan.Snapshot
import BitFont.Proofs.Command.Spelling
import BitFont.Proofs.Command.Options
import BitFont.Proofs.Command.Requests
import BitFont.Proofs.Command.Parts
import BitFont.Proofs.Command.Output
import BitFont.Proofs.Plan.Repeating
import BitFont.Proofs.Plan.Relocation
import BitFont.Proofs.Definitions.Extents
import BitFont.Proofs.Compilation.Coherence
import BitFont.Proofs.Compilation.PackedSize
import BitFont.Proofs.Definitions.Printing
import BitFont.Proofs.Run.Shortest
import BitFont.Proofs.Artifact.Collisions
import BitFont.Proofs.Text.Letters
import BitFont.Proofs.Artifact.Rows
import BitFont.Proofs.Artifact.Sheets
import BitFont.Proofs.Command.Checking
import BitFont.Proofs.Glyph.Bitmap
import BitFont.Proofs.Plan.Nesting
import BitFont.Proofs.Definitions.Measures
import BitFont.Proofs.Source.Notices
import BitFont.Proofs.Artifact.Warnings
import BitFont.Proofs.Layout.History
import BitFont.Proofs.Run.Iteration
import BitFont.Proofs.Definitions.Clarity
import BitFont.Proofs.Compilation.ReportLines
import BitFont.Proofs.Session.Footprint
