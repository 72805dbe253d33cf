import TableSync.Category.Abilities
import TableSync.Category.Constants
import TableSync.Category.Definition
import TableSync.Category.Items
import TableSync.Category.Kind
import TableSync.Category.Moves
import TableSync.Category.Pokedex
import TableSync.Category.Species
import TableSync.Category.Starters
import TableSync.Command.Execution
import TableSync.Command.Invocation
import TableSync.Command.Work
import TableSync.Config
import TableSync.Data.Document
import TableSync.Data.Record
import TableSync.Data.Value
import TableSync.Emit.Splice
import TableSync.Emit.Value
import TableSync.Error
import TableSync.Expr.Fold
import TableSync.Expr.Symbolic
import TableSync.Field.Parsers
import TableSync.Field.Table
import TableSync.Files.Binding
import TableSync.Files.Session
import TableSync.Files.Source
import TableSync.Files.Tree
import TableSync.Json.Basic
import TableSync.Json.Parser
import TableSync.Log.Calendar
import TableSync.Log.Console
import TableSync.Log.Event
import TableSync.Main
import TableSync.Manager.Basic
import TableSync.Manager.Category
import TableSync.Preprocess.Basic
import TableSync.Preprocess.Inline
import TableSync.Process.Programs
import TableSync.Process.Script
import TableSync.Proofs.Data.Record
import TableSync.Proofs.Data.Path
import TableSync.Proofs.Data.Collect
import TableSync.Proofs.Expr.Literal
import TableSync.Proofs.Field.Parsers
import TableSync.Proofs.Field.Literal
import TableSync.Proofs.Field.Written
import TableSync.Proofs.Scan.Block
import TableSync.Proofs.Species.DexText
import TableSync.Proofs.Species.Field
import TableSync.Proofs.Species.Index
import TableSync.Proofs.Species.RoundTrip
import TableSync.Proofs.Species.Table
import TableSync.Proofs.Text.Lines
import TableSync.Proofs.Text.Quote
import TableSync.Proofs.Text.Split
import TableSync.Proofs.Text.Word
import TableSync.Scan.Line
import TableSync.Scan.Report
import TableSync.Scan.Table
import TableSync.Store
import TableSync.Text.Basic
import TableSync.Text.Blank
import TableSync.Text.Decimal
import TableSync.Text.Letter
import TableSync.Text.LetterCase
import TableSync.Text.Numeral
import TableSync.Text.Quoted
import TableSync.Text.Search
import TableSync.Text.TopLevel
import TableSync.Toml.Basic
import TableSync.Toml.Lexer
import TableSync.Toml.Parser
import TableSync.Proofs.Files.Binding
import TableSync.Proofs.Manager.Build
import TableSync.Proofs.Manager.Current
import TableSync.Proofs.Manager.Operation
import TableSync.Proofs.Manager.Pristine
import TableSync.Proofs.Manager.Quiet
import TableSync.Proofs.Manager.Edit
import TableSync.Proofs.Manager.FixedPoint
import TableSync.Proofs.Manager.Faults
import TableSync.Proofs.Json.Tokens
import TableSync.Proofs.Json.Tree
import TableSync.Proofs.Data.Document
import TableSync.Proofs.Emit.Region
import TableSync.Proofs.Emit.Splice
import TableSync.Proofs.Text.Search
import TableSync.Proofs.Starters.Written
import TableSync.Proofs.Starters.RoundTrip
import TableSync.Proofs.Starters.Array
import TableSync.Proofs.Expr.Resolution
import TableSync.Proofs.Scan.Designator
import TableSync.Proofs.Scan.Accounting
import TableSync.Proofs.Scan.Written
import TableSync.Proofs.Scan.Literal
import TableSync.Proofs.Scan.Layout
import TableSync.Proofs.Species.Texts
import TableSync.Proofs.Expr.Cut
import TableSync.Proofs.Expr.Parentheses
import TableSync.Proofs.Expr.Rereading
import TableSync.Proofs.Expr.Branches
import TableSync.Proofs.Expr.CExpression
import TableSync.Proofs.Emit.Conditional
import TableSync.Proofs.Expr.Grammar
import TableSync.Proofs.Expr.Sums
import TableSync.Proofs.Expr.Tokens
import TableSync.Proofs.Expr.Folding
import TableSync.Proofs.Expr.Lexing
import TableSync.Proofs.Expr.Derivation
import TableSync.Proofs.Expr.Constant
import TableSync.Proofs.Expr.TernaryShape
import TableSync.Proofs.Emit.Line
import TableSync.Proofs.Starters.Giving
import TableSync.Proofs.Emit.Collapse
import TableSync.Proofs.Species.Includes
import TableSync.Proofs.Files.Spares
import TableSync.Proofs.Files.Store
import TableSync.Proofs.Files.Tracking
import TableSync.Proofs.Manager.Spares
import TableSync.Proofs.Manager.Answer
import TableSync.Proofs.Manager.Trust
import TableSync.Proofs.Manager.Absent
import TableSync.Proofs.Manager.Fetch
import TableSync.Proofs.Manager.Unloaded
import TableSync.Proofs.Manager.Stamp
import TableSync.Proofs.Manager.DryRun
import TableSync.Proofs.Manager.Set
import TableSync.Proofs.Scan.Tally
import TableSync.Proofs.Species.Placement
import TableSync.Proofs.Moves.Descriptions
import TableSync.Proofs.Moves.Names
import TableSync.Proofs.Constants.Classes
import TableSync.Proofs.Text.TopLevel
import TableSync.Proofs.Species.DexOrder
import TableSync.Proofs.Scan.Registers
import TableSync.Proofs.Scan.Journal
import TableSync.Proofs.Data.Reading
import TableSync.Proofs.Data.Change
import TableSync.Proofs.Data.History
import TableSync.Proofs.Data.Selection
import TableSync.Proofs.Field.Lists
import TableSync.Proofs.Species.FieldOrder
