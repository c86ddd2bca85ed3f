import SignLang.Command
import SignLang.Cursor
import SignLang.Diagnostic
import SignLang.Expr
import SignLang.Expr.Render
import SignLang.Layout
import SignLang.Lexeme
import SignLang.Line
import SignLang.Main
import SignLang.Numeral
import SignLang.Numeral.Double
import SignLang.Operator
import SignLang.Parser.Basic
import SignLang.Parser.Brackets
import SignLang.Parser.Expr
import SignLang.Program
import SignLang.Proofs.Blocks
import SignLang.Proofs.Brackets
import SignLang.Proofs.Concat
import SignLang.Proofs.Cursor
import SignLang.Proofs.Families
import SignLang.Proofs.Layout.Append
import SignLang.Proofs.Layout.Block
import SignLang.Proofs.Layout.Brackets
import SignLang.Proofs.Layout.Complaints
import SignLang.Proofs.Layout.Flow
import SignLang.Proofs.Layout.Matching
import SignLang.Proofs.Layout.Pairs
import SignLang.Proofs.Layout.Twins
import SignLang.Proofs.Limits
import SignLang.Proofs.Nesting
import SignLang.Proofs.Numeral
import SignLang.Proofs.Parser.Abreast
import SignLang.Proofs.Parser.Adjacency
import SignLang.Proofs.Parser.Chains
import SignLang.Proofs.Parser.Closing
import SignLang.Proofs.Parser.Enclosed
import SignLang.Proofs.Parser.General
import SignLang.Proofs.Parser.Level
import SignLang.Proofs.Parser.Pairs
import SignLang.Proofs.Parser.Parting
import SignLang.Proofs.Parser.Positions
import SignLang.Proofs.Parser.Reads
import SignLang.Proofs.Parser.Roles
import SignLang.Proofs.Parser.Safety
import SignLang.Proofs.Parser.Settled
import SignLang.Proofs.Parser.Twins
import SignLang.Proofs.Parser.WellFormed
import SignLang.Proofs.Parser.Words
import SignLang.Proofs.Placement
import SignLang.Proofs.Places
import SignLang.Proofs.Program
import SignLang.Proofs.Render.Malformed
import SignLang.Proofs.Render.RoundTrip
import SignLang.Proofs.Render.Sequences
import SignLang.Proofs.Render.Structured
import SignLang.Proofs.Restored
import SignLang.Proofs.Scanner.Alike
import SignLang.Proofs.Scanner.Bars
import SignLang.Proofs.Scanner.Brackets
import SignLang.Proofs.Scanner.Indent
import SignLang.Proofs.Scanner.Inside
import SignLang.Proofs.Scanner.Lexical
import SignLang.Proofs.Scanner.Longest
import SignLang.Proofs.Scanner.Lossless
import SignLang.Proofs.Scanner.Margin
import SignLang.Proofs.Scanner.Payload
import SignLang.Proofs.Scanner.Place
import SignLang.Proofs.Scanner.Prior
import SignLang.Proofs.Scanner.Seam
import SignLang.Proofs.Scanner.Steps
import SignLang.Proofs.Scanner.Tokens
import SignLang.Proofs.Tree.Exchange
import SignLang.Proofs.Trivia
import SignLang.Scanner.Basic
import SignLang.Scanner.Run
import SignLang.Scanner.Step
import SignLang.Text.Blank
import SignLang.Text.Case
import SignLang.Text.Case.Data
import SignLang.Text.Digit
import SignLang.Text.Lines
import SignLang.Text.Printable
import SignLang.Text.Quoted
import SignLang.Token
import SignLang.Tree
import SignLang.Tree.Export
import SignLang.Tree.Import
import SignLang.Tree.Part
