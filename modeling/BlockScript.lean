import BlockScript.Block.Arena
import BlockScript.Block.Basic
import BlockScript.Block.Kind
import BlockScript.Block.Load
import BlockScript.Block.Table
import BlockScript.CommandLine.Arguments
import BlockScript.CommandLine.Run
import BlockScript.Fault
import BlockScript.File.Basic
import BlockScript.File.Path
import BlockScript.File.Tree
import BlockScript.Generate.Block
import BlockScript.Generate.Expression
import BlockScript.Generate.Index
import BlockScript.Generate.Monad
import BlockScript.Generate.Site
import BlockScript.Generate.Statement
import BlockScript.Json.Basic
import BlockScript.Json.Reader
import BlockScript.Json.Shown
import BlockScript.Literal
import BlockScript.Log
import BlockScript.Main
import BlockScript.Name.Safe
import BlockScript.Name.Table
import BlockScript.Name.Variables
import BlockScript.Number.Basic
import BlockScript.Number.Binary64
import BlockScript.Number.Decimal
import BlockScript.Number.Numeral
import BlockScript.Options
import BlockScript.Order
import BlockScript.Pass
import BlockScript.Proofs.Arena.Growth
import BlockScript.Proofs.Arena.Walk
import BlockScript.Proofs.CommandLine.Arguments
import BlockScript.Proofs.CommandLine.Run
import BlockScript.Proofs.Comment.Block
import BlockScript.Proofs.Comment.Depth
import BlockScript.Proofs.Comment.Erasure
import BlockScript.Proofs.Comment.Insertion
import BlockScript.Proofs.Comment.LineEnd
import BlockScript.Proofs.Comment.Lines
import BlockScript.Proofs.Comment.Program
import BlockScript.Proofs.Comment.Solid
import BlockScript.Proofs.Comment.Tidy
import BlockScript.Proofs.Comment.Width
import BlockScript.Proofs.Comment.Words
import BlockScript.Proofs.Conditional.Bodies
import BlockScript.Proofs.Conditional.Branches
import BlockScript.Proofs.Disabled.Muting
import BlockScript.Proofs.Disabled.Program
import BlockScript.Proofs.Disabled.Pruning
import BlockScript.Proofs.Dropdown.Choice
import BlockScript.Proofs.Expression.Exposure
import BlockScript.Proofs.Expression.Nesting
import BlockScript.Proofs.Expression.Operand
import BlockScript.Proofs.Expression.OperatorTree
import BlockScript.Proofs.Expression.ReadBack
import BlockScript.Proofs.File.Tree
import BlockScript.Proofs.Generate.Alone
import BlockScript.Proofs.Generate.Bounds
import BlockScript.Proofs.Generate.Composed
import BlockScript.Proofs.Generate.Congruence
import BlockScript.Proofs.Generate.Ending
import BlockScript.Proofs.Generate.Failure
import BlockScript.Proofs.Generate.Heads
import BlockScript.Proofs.Generate.Inputs
import BlockScript.Proofs.Generate.Lockstep
import BlockScript.Proofs.Generate.Logic
import BlockScript.Proofs.Generate.Matching
import BlockScript.Proofs.Generate.Mirroring
import BlockScript.Proofs.Generate.Observed
import BlockScript.Proofs.Generate.Placed
import BlockScript.Proofs.Generate.Reachable
import BlockScript.Proofs.Generate.Value
import BlockScript.Proofs.Generate.ValueChain
import BlockScript.Proofs.Helper.Call
import BlockScript.Proofs.Helper.Declaration
import BlockScript.Proofs.Helper.Indent
import BlockScript.Proofs.Helper.Linkage
import BlockScript.Proofs.Helper.Registry
import BlockScript.Proofs.Helper.Routine
import BlockScript.Proofs.Hook.Block
import BlockScript.Proofs.Hook.IdLiteral
import BlockScript.Proofs.Hook.Insertion
import BlockScript.Proofs.Hook.Program
import BlockScript.Proofs.Hook.Setting
import BlockScript.Proofs.Hook.Tidy
import BlockScript.Proofs.Identity.Loading
import BlockScript.Proofs.Identity.Program
import BlockScript.Proofs.Index.Adjustment
import BlockScript.Proofs.Index.Folding
import BlockScript.Proofs.Index.Nesting
import BlockScript.Proofs.Literal.Carried
import BlockScript.Proofs.Literal.Definition
import BlockScript.Proofs.Literal.Forced
import BlockScript.Proofs.Literal.Input
import BlockScript.Proofs.Literal.Multiline
import BlockScript.Proofs.Literal.Nesting
import BlockScript.Proofs.Literal.Placement
import BlockScript.Proofs.Literal.RoundTrip
import BlockScript.Proofs.Literal.Statement
import BlockScript.Proofs.Literal.Step
import BlockScript.Proofs.Literal.Value
import BlockScript.Proofs.Load.Distinct
import BlockScript.Proofs.Load.Numbering
import BlockScript.Proofs.Load.Rejection
import BlockScript.Proofs.Load.Shape
import BlockScript.Proofs.Load.Tree
import BlockScript.Proofs.Log.Account
import BlockScript.Proofs.Member.Block
import BlockScript.Proofs.Member.Shape
import BlockScript.Proofs.Name.Allocation
import BlockScript.Proofs.Name.Emitted
import BlockScript.Proofs.Name.Identifier
import BlockScript.Proofs.Name.Key
import BlockScript.Proofs.Name.Legible
import BlockScript.Proofs.Name.Projection
import BlockScript.Proofs.Name.Search
import BlockScript.Proofs.Name.Unicity
import BlockScript.Proofs.Number.Field
import BlockScript.Proofs.Number.Interval
import BlockScript.Proofs.Number.Layout
import BlockScript.Proofs.Number.Numeral
import BlockScript.Proofs.Number.Rounding
import BlockScript.Proofs.Number.Shortest
import BlockScript.Proofs.Procedure.Call
import BlockScript.Proofs.Procedure.Linkage
import BlockScript.Proofs.Procedure.Registration
import BlockScript.Proofs.Procedure.Trace
import BlockScript.Proofs.Registry.Keys
import BlockScript.Proofs.Remark.Block
import BlockScript.Proofs.Remark.Blurring
import BlockScript.Proofs.Remark.Cargo
import BlockScript.Proofs.Remark.Collection
import BlockScript.Proofs.Remark.Program
import BlockScript.Proofs.Remark.Wording
import BlockScript.Proofs.Script.Amount
import BlockScript.Proofs.Script.Atom
import BlockScript.Proofs.Script.Bracket
import BlockScript.Proofs.Script.Exposure
import BlockScript.Proofs.Script.Grammar
import BlockScript.Proofs.Script.Indent
import BlockScript.Proofs.Script.Meaning
import BlockScript.Proofs.Script.Member
import BlockScript.Proofs.Script.Numeral
import BlockScript.Proofs.Script.Operator
import BlockScript.Proofs.Script.Part
import BlockScript.Proofs.Script.Recognition
import BlockScript.Proofs.Script.Routine
import BlockScript.Proofs.Script.Tidy
import BlockScript.Proofs.Script.Token
import BlockScript.Proofs.Session.Isolation
import BlockScript.Proofs.Statement.Indent
import BlockScript.Proofs.Statement.Text
import BlockScript.Proofs.Statement.WellFormed
import BlockScript.Proofs.Substring.Block
import BlockScript.Proofs.Substring.Cut
import BlockScript.Proofs.Substring.Definition
import BlockScript.Proofs.Substring.Index
import BlockScript.Proofs.Tidy.Flush
import BlockScript.Proofs.Tidy.Normal
import BlockScript.Proofs.Tidy.Program
import BlockScript.Proofs.Variable.Program
import BlockScript.Proofs.Variable.Renaming
import BlockScript.Registry
import BlockScript.Session
import BlockScript.Text.Blank
import BlockScript.Text.Digit
import BlockScript.Text.Identifier
import BlockScript.Text.Lines
import BlockScript.Text.Lower
import BlockScript.Text.Printable
import BlockScript.Text.Runs
import BlockScript.Text.Template
import BlockScript.Text.Tidy
import BlockScript.Text.Wrap
import BlockScript.Workspace
