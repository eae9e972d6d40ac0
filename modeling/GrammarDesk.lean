import GrammarDesk.Check.Basic
import GrammarDesk.Check.LeftRecursion
import GrammarDesk.Check.Opening
import GrammarDesk.Diagnostic.Basic
import GrammarDesk.Diagnostic.Merge
import GrammarDesk.Edit.State
import GrammarDesk.File.Map
import GrammarDesk.File.Path
import GrammarDesk.File.Table
import GrammarDesk.Grammar.DocComment
import GrammarDesk.Grammar.Element
import GrammarDesk.Grammar.Member
import GrammarDesk.Grammar.Rule
import GrammarDesk.Graph.Reach
import GrammarDesk.Graph.Search
import GrammarDesk.Import.Cached
import GrammarDesk.Import.Closure
import GrammarDesk.Import.Graph
import GrammarDesk.Proofs.Check.Cycles
import GrammarDesk.Proofs.Check.Hidden
import GrammarDesk.Proofs.Check.Leading
import GrammarDesk.Proofs.Check.Renumber
import GrammarDesk.Proofs.Diagnostic.Merge
import GrammarDesk.Proofs.Edit.History
import GrammarDesk.Proofs.Edit.Machine
import GrammarDesk.Proofs.File.Order
import GrammarDesk.Proofs.Grammar.Heads
import GrammarDesk.Proofs.Grammar.Layout
import GrammarDesk.Proofs.Grammar.Places
import GrammarDesk.Proofs.Grammar.Recovery
import GrammarDesk.Proofs.Grammar.Rules
import GrammarDesk.Proofs.Graph.Queue
import GrammarDesk.Proofs.Graph.Search
import GrammarDesk.Proofs.Graph.Ways
import GrammarDesk.Proofs.Import.Cached
import GrammarDesk.Proofs.Import.Closure
import GrammarDesk.Proofs.Import.Cycles
import GrammarDesk.Proofs.Import.Distance
import GrammarDesk.Proofs.Import.Graph
import GrammarDesk.Proofs.Import.Members
import GrammarDesk.Proofs.Import.Precedence
import GrammarDesk.Proofs.Import.Renumber
import GrammarDesk.Proofs.Import.Visibility
import GrammarDesk.Proofs.Import.Ways
import GrammarDesk.Proofs.Lists
import GrammarDesk.Proofs.Query.Body
import GrammarDesk.Proofs.Query.Diagram
import GrammarDesk.Proofs.Query.Leaves
import GrammarDesk.Proofs.Query.Lenses
import GrammarDesk.Proofs.Query.Positions
import GrammarDesk.Proofs.Query.RuleAt
import GrammarDesk.Proofs.Query.Uses
import GrammarDesk.Proofs.Query.Words
import GrammarDesk.Proofs.Reference.Commands
import GrammarDesk.Proofs.Reference.Marks
import GrammarDesk.Proofs.Reference.Places
import GrammarDesk.Proofs.Reference.Renumber
import GrammarDesk.Proofs.Reference.Reports
import GrammarDesk.Proofs.Reference.Sites
import GrammarDesk.Proofs.Symbol.Duplicates
import GrammarDesk.Proofs.Symbol.Indexed
import GrammarDesk.Proofs.Symbol.Layout
import GrammarDesk.Proofs.Symbol.Places
import GrammarDesk.Proofs.Symbol.Renumber
import GrammarDesk.Proofs.Symbol.Rules
import GrammarDesk.Proofs.Syntax.Acceptance
import GrammarDesk.Proofs.Syntax.ActionBytes
import GrammarDesk.Proofs.Syntax.Ahead
import GrammarDesk.Proofs.Syntax.Building
import GrammarDesk.Proofs.Syntax.Completeness.Basic
import GrammarDesk.Proofs.Syntax.Completeness.Element
import GrammarDesk.Proofs.Syntax.Completeness.File
import GrammarDesk.Proofs.Syntax.Completeness.Rule
import GrammarDesk.Proofs.Syntax.Contents
import GrammarDesk.Proofs.Syntax.Control
import GrammarDesk.Proofs.Syntax.Ebnf
import GrammarDesk.Proofs.Syntax.Forms
import GrammarDesk.Proofs.Syntax.Layout
import GrammarDesk.Proofs.Syntax.Leaves
import GrammarDesk.Proofs.Syntax.Locality
import GrammarDesk.Proofs.Syntax.Lossless
import GrammarDesk.Proofs.Syntax.Names
import GrammarDesk.Proofs.Syntax.Nesting
import GrammarDesk.Proofs.Syntax.Partition
import GrammarDesk.Proofs.Syntax.Progress.Element
import GrammarDesk.Proofs.Syntax.Progress.File
import GrammarDesk.Proofs.Syntax.Reader
import GrammarDesk.Proofs.Syntax.Rows
import GrammarDesk.Proofs.Syntax.RuleNodes
import GrammarDesk.Proofs.Syntax.Soundness.Element
import GrammarDesk.Proofs.Syntax.Soundness.File
import GrammarDesk.Proofs.Syntax.Tiling
import GrammarDesk.Proofs.Syntax.Unended
import GrammarDesk.Proofs.Syntax.Weave
import GrammarDesk.Proofs.Syntax.Words
import GrammarDesk.Proofs.Text.LineIndex
import GrammarDesk.Proofs.Text.Lines
import GrammarDesk.Proofs.Text.Word
import GrammarDesk.Proofs.Workspace.Batches
import GrammarDesk.Proofs.Workspace.Changed
import GrammarDesk.Proofs.Workspace.Commit
import GrammarDesk.Proofs.Workspace.Debounce
import GrammarDesk.Proofs.Workspace.Edits
import GrammarDesk.Proofs.Workspace.Flush
import GrammarDesk.Proofs.Workspace.Incremental
import GrammarDesk.Proofs.Workspace.Latest
import GrammarDesk.Proofs.Workspace.Layout
import GrammarDesk.Proofs.Workspace.Linking
import GrammarDesk.Proofs.Workspace.LoadOrder
import GrammarDesk.Proofs.Workspace.Loaded
import GrammarDesk.Proofs.Workspace.Places
import GrammarDesk.Proofs.Workspace.Registry
import GrammarDesk.Proofs.Workspace.Relinking
import GrammarDesk.Proofs.Workspace.Renumber
import GrammarDesk.Proofs.Workspace.Session
import GrammarDesk.Proofs.Workspace.Version
import GrammarDesk.Query.Basic
import GrammarDesk.Query.Definition
import GrammarDesk.Query.Diagram
import GrammarDesk.Query.Hover
import GrammarDesk.Query.Outline
import GrammarDesk.Query.RuleAt
import GrammarDesk.Query.Target
import GrammarDesk.Query.Uses
import GrammarDesk.Reference.Bind
import GrammarDesk.Reference.Lookup
import GrammarDesk.Reference.Use
import GrammarDesk.Symbol.Basic
import GrammarDesk.Symbol.Declare
import GrammarDesk.Symbol.Indexed
import GrammarDesk.Symbol.Table
import GrammarDesk.Syntax.ActionBlock
import GrammarDesk.Syntax.Builder
import GrammarDesk.Syntax.Control
import GrammarDesk.Syntax.Kind
import GrammarDesk.Syntax.Lexeme
import GrammarDesk.Syntax.Log
import GrammarDesk.Syntax.Parse
import GrammarDesk.Syntax.ParseTree
import GrammarDesk.Syntax.Problem
import GrammarDesk.Syntax.Production.Basic
import GrammarDesk.Syntax.Production.Element
import GrammarDesk.Syntax.Production.File
import GrammarDesk.Syntax.Production.Rule
import GrammarDesk.Syntax.Reading
import GrammarDesk.Syntax.Scan
import GrammarDesk.Syntax.Shape
import GrammarDesk.Syntax.Weave
import GrammarDesk.Text.Blank
import GrammarDesk.Text.CodePoints
import GrammarDesk.Text.Counter
import GrammarDesk.Text.IdentifierContinue
import GrammarDesk.Text.IdentifierStart
import GrammarDesk.Text.LineIndex
import GrammarDesk.Text.Position
import GrammarDesk.Text.Range
import GrammarDesk.Text.Uppercase
import GrammarDesk.Text.Word
import GrammarDesk.Workspace.Analysis
import GrammarDesk.Workspace.Basic
import GrammarDesk.Workspace.Flush
import GrammarDesk.Workspace.Install
import GrammarDesk.Workspace.Linking
import GrammarDesk.Workspace.Registry
