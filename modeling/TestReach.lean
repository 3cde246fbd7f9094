import TestReach.Text.Blank
import TestReach.Text.Pieces
import TestReach.Text.Unprinted
import TestReach.Text.Quoted
import TestReach.Ordered
import TestReach.Solution
import TestReach.MethodRef
import TestReach.LoadError
import TestReach.SymbolTable
import TestReach.SymbolTable.Declare
import TestReach.SymbolTable.Resolve
import TestReach.ProjectOrder
import TestReach.Program
import TestReach.Hierarchy
import TestReach.Marker
import TestReach.Marker.Detector
import TestReach.Token
import TestReach.FrontEnd
import TestReach.Propagation
import TestReach.Verdict
import TestReach.Outcome
import TestReach.Run
import TestReach.Coverage
import TestReach.Decimal.Rounding
import TestReach.Decimal.Shortest
import TestReach.Decimal.Layout
import TestReach.Decimal.Numeral
import TestReach.Document
import TestReach.Document.Json
import TestReach.Solution.Decode
import TestReach.Outcome.Decode
import TestReach.Config
import TestReach.JsonValue
import TestReach.Report
import TestReach.Report.Style
import TestReach.Report.Display
import TestReach.Document.Yaml.Glyph
import TestReach.Document.Yaml.Folding
import TestReach.Document.Yaml.Plain
import TestReach.Document.Yaml.Quoted
import TestReach.Document.Yaml.Block
import TestReach.Document.Yaml.Lexeme
import TestReach.Document.Yaml
import TestReach.FileError
import TestReach.Path
import TestReach.Program.Source
import TestReach.Host
import TestReach.Workspace
import TestReach.Command.Arguments
import TestReach.Command.Invocation
import TestReach.Command.Template
import TestReach.Command.Settings
import TestReach.Command.Analyze
import TestReach.Command
import TestReach.Main
import TestReach.Proofs.Recording
import TestReach.Proofs.Detector
import TestReach.Proofs.Ordered
import TestReach.Proofs.Verdict
import TestReach.Proofs.History
import TestReach.Proofs.Run
import TestReach.Proofs.Scheduled
import TestReach.Proofs.Declared
import TestReach.Proofs.Layout
import TestReach.Proofs.Declaring
import TestReach.Proofs.Resolving
import TestReach.Proofs.ProjectOrder
import TestReach.Proofs.Loading
import TestReach.Proofs.Register
import TestReach.Proofs.Hierarchy
import TestReach.Proofs.Answer
import TestReach.Proofs.Linking
import TestReach.Proofs.Lookup
import TestReach.Proofs.Closure
import TestReach.Proofs.Inclusion
import TestReach.Proofs.Reordering
import TestReach.Proofs.DeclarationOrder
import TestReach.Proofs.Diagnostics
import TestReach.Proofs.Schedule
import TestReach.Proofs.Noted
import TestReach.Proofs.Queries
import TestReach.Proofs.Cancellation
import TestReach.Proofs.MethodRef
import TestReach.Proofs.Spelling
import TestReach.Proofs.Reference
import TestReach.Proofs.BrokenProject
import TestReach.Proofs.Monotonicity
import TestReach.Proofs.Identity
import TestReach.Proofs.Callers
import TestReach.Proofs.Merging
import TestReach.Proofs.Validation
import TestReach.Proofs.TokenFamily
import TestReach.Proofs.Grouping
import TestReach.Proofs.NameClash
import TestReach.Proofs.Overrides
import TestReach.Proofs.Deadlines
import TestReach.Proofs.Flattening
import TestReach.Proofs.Untested
