import ResourceTables.Checking
import ResourceTables.CommandLine
import ResourceTables.Compiler
import ResourceTables.Decimal.Binary
import ResourceTables.Decimal.Layout
import ResourceTables.Decimal.Shortest
import ResourceTables.Decimal.Word
import ResourceTables.Definition
import ResourceTables.Definition.Loading
import ResourceTables.Definition.Namespace
import ResourceTables.Difference.Script
import ResourceTables.Difference.Shortest
import ResourceTables.Difference.Sliding
import ResourceTables.Difference.Unified
import ResourceTables.Document
import ResourceTables.Document.Json
import ResourceTables.Document.Json.Printer
import ResourceTables.Document.Json.Term
import ResourceTables.Document.Toml
import ResourceTables.Document.Toml.Moment
import ResourceTables.Document.Toml.Node
import ResourceTables.Document.Toml.Term
import ResourceTables.Document.Value
import ResourceTables.Entries
import ResourceTables.Entries.Indexed
import ResourceTables.Fault
import ResourceTables.Fingerprint
import ResourceTables.Fingerprint.Sha256
import ResourceTables.Footprint
import ResourceTables.GeneratedModule
import ResourceTables.GeneratedModule.Rendering
import ResourceTables.GeneratedModule.Value
import ResourceTables.Generation
import ResourceTables.Identifier
import ResourceTables.Identifier.Registry
import ResourceTables.Identifier.Spelling
import ResourceTables.Main
import ResourceTables.Manifest
import ResourceTables.Manifest.Setting
import ResourceTables.Naming
import ResourceTables.Naming.Decoding
import ResourceTables.Path
import ResourceTables.Proofs.Checked
import ResourceTables.Proofs.Claims
import ResourceTables.Proofs.Definition.Forms
import ResourceTables.Proofs.Definition.InlineLayout
import ResourceTables.Proofs.Definition.Interference
import ResourceTables.Proofs.Definition.Loaded
import ResourceTables.Proofs.Definition.ModulePath
import ResourceTables.Proofs.Definition.Readings
import ResourceTables.Proofs.Definition.Relocation
import ResourceTables.Proofs.Definition.TableDirectory
import ResourceTables.Proofs.Definition.VisibleFiles
import ResourceTables.Proofs.Difference.Slides
import ResourceTables.Proofs.Difference.Transforms
import ResourceTables.Proofs.Document.TomlTables
import ResourceTables.Proofs.Document.UniqueKeys
import ResourceTables.Proofs.Entries
import ResourceTables.Proofs.GeneratedModule.Accessors
import ResourceTables.Proofs.GeneratedModule.Clashes
import ResourceTables.Proofs.GeneratedModule.Code
import ResourceTables.Proofs.GeneratedModule.Constants
import ResourceTables.Proofs.GeneratedModule.Declared
import ResourceTables.Proofs.GeneratedModule.Items
import ResourceTables.Proofs.GeneratedModule.Lines
import ResourceTables.Proofs.GeneratedModule.ModuleNames
import ResourceTables.Proofs.GeneratedModule.ReadBack
import ResourceTables.Proofs.GeneratedModule.Scopes
import ResourceTables.Proofs.GeneratedModule.SourceFile
import ResourceTables.Proofs.GeneratedModule.Stamp
import ResourceTables.Proofs.GeneratedModule.TypeNames
import ResourceTables.Proofs.GeneratedModule.WellScoped
import ResourceTables.Proofs.Generation.Comparison
import ResourceTables.Proofs.Generation.Containment
import ResourceTables.Proofs.Generation.Convergence
import ResourceTables.Proofs.Generation.DriftCounts
import ResourceTables.Proofs.Generation.Findings
import ResourceTables.Proofs.Generation.Frame
import ResourceTables.Proofs.Generation.Independence
import ResourceTables.Proofs.Generation.Outputs
import ResourceTables.Proofs.Generation.Prediction
import ResourceTables.Proofs.Generation.Relocation
import ResourceTables.Proofs.Generation.Tampering
import ResourceTables.Proofs.Generation.Traces
import ResourceTables.Proofs.Generation.Turns
import ResourceTables.Proofs.Generation.Untouched
import ResourceTables.Proofs.Identifier.ClaimHistory
import ResourceTables.Proofs.Identifier.JoinedWords
import ResourceTables.Proofs.Identifier.PartedWords
import ResourceTables.Proofs.Identifier.RegularNames
import ResourceTables.Proofs.Identifier.Spelling
import ResourceTables.Proofs.Identifier.Words
import ResourceTables.Proofs.Path
import ResourceTables.Proofs.Path.Ancestors
import ResourceTables.Proofs.Path.Stems
import ResourceTables.Proofs.Reconciliation.Alignment
import ResourceTables.Proofs.Reconciliation.Blame
import ResourceTables.Proofs.Reconciliation.DefaultChoice
import ResourceTables.Proofs.Reconciliation.Keys
import ResourceTables.Proofs.Reconciliation.Positions
import ResourceTables.Proofs.Reconciliation.Refusal
import ResourceTables.Proofs.Reconciliation.Reordering
import ResourceTables.Proofs.Reconciliation.Symmetry
import ResourceTables.Proofs.Table.Elements
import ResourceTables.Proofs.Table.Listing
import ResourceTables.Proofs.Table.Padding
import ResourceTables.Proofs.Table.Reading
import ResourceTables.Proofs.Table.RoundTrip
import ResourceTables.Proofs.Text.Blank
import ResourceTables.Proofs.Text.Letters
import ResourceTables.Proofs.Text.Literal
import ResourceTables.Proofs.Text.Occurrences
import ResourceTables.Proofs.Text.OneLine
import ResourceTables.Proofs.Text.PhysicalLines
import ResourceTables.Proofs.Text.Split
import ResourceTables.Proofs.Text.Takes
import ResourceTables.Proofs.Text.Tokens
import ResourceTables.Proofs.Text.Yields
import ResourceTables.Proofs.Tree.Bearing
import ResourceTables.Proofs.Tree.Changes
import ResourceTables.Proofs.Tree.Children
import ResourceTables.Proofs.Tree.Descent
import ResourceTables.Proofs.Tree.Directories
import ResourceTables.Proofs.Tree.Growth
import ResourceTables.Proofs.Tree.Refusals
import ResourceTables.Proofs.Tree.Relocation
import ResourceTables.Proofs.Tree.Unreadable
import ResourceTables.Proofs.Tree.Walk
import ResourceTables.Reconciliation
import ResourceTables.Table
import ResourceTables.Text.Blank
import ResourceTables.Text.CaseTable
import ResourceTables.Text.Casing
import ResourceTables.Text.Encoding
import ResourceTables.Text.Lines
import ResourceTables.Text.Printable
import ResourceTables.Text.Quoted
import ResourceTables.Text.Reader
import ResourceTables.Text.Split
import ResourceTables.Tree
import ResourceTables.Tree.Fault
