import SignLang.Operator
import SignLang.Token

/-!
# Logical lines

The tokens of a text, taken line by line. A line keeps its indentation level and its tokens; blank
lines are none. While a written bracket is open, the lines of the text continue one logical line.
-/

namespace SignLang

/-- A logical line: its indentation level and its tokens, of which there is at least one. -/
structure Line where
  level : Nat
  first : Token
  others : List Token
deriving DecidableEq, Repr

/-- The run of block operators that ends a list of tokens, in the order of the list. -/
def trailingBlockOps (tokens : List Token) : List Token :=
  (tokens.reverse.takeWhile (·.isOperator Operator.blockSymbols)).reverse

namespace Line

/-- All tokens of a line. -/
def tokens (line : Line) : List Token :=
  line.first :: line.others

/-- The block operators that end a line. Lines that are indented below it are their operand. -/
def headers (line : Line) : List Token :=
  trailingBlockOps line.tokens

/-- The tokens of a line before its block operators. -/
def stem (line : Line) : List Token :=
  line.tokens.take (line.tokens.length - line.headers.length)

/-- The line of the tokens `gathered`, last one first; no tokens make no line. -/
def ofGathered (level : Nat) (gathered : List Token) : List Line :=
  match gathered.reverse with
  | [] => []
  | first :: others => [{ level, first, others }]

/-- The logical lines of a token list, when the line at hand has the given level and tokens (last
one first) and `depth` brackets are open. -/
def splitFrom (level depth : Nat) (gathered : List Token) : List Token → List Line
  | [] => ofGathered level gathered
  | t :: rest =>
    match t.kind with
    | .ending => ofGathered level gathered
    | .newline =>
      if depth = 0 then ofGathered level gathered ++ splitFrom 0 0 [] rest
      else splitFrom level depth gathered rest
    | .indent => splitFrom (if depth = 0 then t.level else level) depth gathered rest
    | .opening => splitFrom level (depth + 1) (t :: gathered) rest
    | .closing => splitFrom level (depth - 1) (t :: gathered) rest
    | _ => splitFrom level depth (t :: gathered) rest

/-- The logical lines of a token list, up to the end of the input. -/
def split (tokens : List Token) : List Line :=
  splitFrom 0 0 [] tokens

end Line

/-- The token that ends a list: its last one, if that is the end of the input, or else one that
borrows its place. -/
def endingOf (tokens : List Token) : Token :=
  match tokens.getLast? with
  | none => Token.emptyEnding
  | some last => if last.kind = .ending then last else last.borrow .ending ""

end SignLang
