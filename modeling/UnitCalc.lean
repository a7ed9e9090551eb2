import UnitCalc.CommandLine.Arguments
import UnitCalc.CommandLine.Files
import UnitCalc.CommandLine.Run
import UnitCalc.Diagnostics
import UnitCalc.Dimension.Named
import UnitCalc.Json.Reader
import UnitCalc.Line.Parser
import UnitCalc.Main
import UnitCalc.Number.Decimal
import UnitCalc.Number.Shortest
import UnitCalc.Prompt.Completion
import UnitCalc.Prompt.Continuation
import UnitCalc.Prompt.Highlight
import UnitCalc.Prompt.Hint
import UnitCalc.Proofs.CommandLine.Script
import UnitCalc.Proofs.Dimension.Arithmetic
import UnitCalc.Proofs.Dimension.Powers
import UnitCalc.Proofs.Line.Comments
import UnitCalc.Proofs.Line.Completeness
import UnitCalc.Proofs.Line.Conversion
import UnitCalc.Proofs.Line.Correctness
import UnitCalc.Proofs.Line.Dimension
import UnitCalc.Proofs.Line.Endings
import UnitCalc.Proofs.Line.Exponents
import UnitCalc.Proofs.Line.Grammar
import UnitCalc.Proofs.Line.Independence
import UnitCalc.Proofs.Line.Leaves
import UnitCalc.Proofs.Line.NameTokens
import UnitCalc.Proofs.Line.Names
import UnitCalc.Proofs.Line.Printing
import UnitCalc.Proofs.Line.Row
import UnitCalc.Proofs.Line.Soundness
import UnitCalc.Proofs.Line.Stray
import UnitCalc.Proofs.Line.Tabs
import UnitCalc.Proofs.Line.Words
import UnitCalc.Proofs.Number.Integer
import UnitCalc.Proofs.Prompt.Backslash
import UnitCalc.Proofs.Prompt.Completion
import UnitCalc.Proofs.Prompt.Continuation
import UnitCalc.Proofs.Prompt.Highlight
import UnitCalc.Proofs.Prompt.Name
import UnitCalc.Proofs.Prompt.Scan
import UnitCalc.Proofs.Prompt.Walks
import UnitCalc.Proofs.Session.Script
import UnitCalc.Proofs.Text.Places
import UnitCalc.Proofs.Text.Stops
import UnitCalc.Proofs.Token.Endings
import UnitCalc.Proofs.Token.Layout
import UnitCalc.Proofs.Token.Literal
import UnitCalc.Proofs.Token.LongestMatch
import UnitCalc.Proofs.Token.Lookahead
import UnitCalc.Proofs.Token.Memo
import UnitCalc.Proofs.Token.Piece
import UnitCalc.Proofs.Token.Positions
import UnitCalc.Proofs.Token.Repositioning
import UnitCalc.Proofs.Token.Tiling
import UnitCalc.Proofs.Token.Trivia
import UnitCalc.Proofs.Units.Aliases
import UnitCalc.Proofs.Units.Catalogs
import UnitCalc.Proofs.Units.Declared
import UnitCalc.Proofs.Units.Definition
import UnitCalc.Proofs.Units.Listing
import UnitCalc.Proofs.Units.Mention
import UnitCalc.Proofs.Units.Reduction
import UnitCalc.Proofs.Units.Reload
import UnitCalc.Proofs.Units.Rollback
import UnitCalc.Proofs.Units.Sound
import UnitCalc.Session
import UnitCalc.Terminal
import UnitCalc.Text.Blank
import UnitCalc.Text.Quoted
import UnitCalc.Token.Lookahead
import UnitCalc.Token.Options
import UnitCalc.Units.Default
import UnitCalc.Units.Expr
import UnitCalc.Units.Overrides
