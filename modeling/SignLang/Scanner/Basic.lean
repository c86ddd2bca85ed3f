import SignLang.Diagnostic
import SignLang.Lexeme

/-!
# Scanners

A scanner stands at a place of a text, with the tokens read so far behind it. It counts lines and
columns as it moves, and emits tokens at the place that it has marked. For the vertical bar it also
keeps the number of open brackets and, for each open absolute value, the number at which it was
opened.
-/

namespace SignLang

open Lexeme

/-- A place in a text. -/
structure Mark where
  offset : Nat
  line : Nat
  column : Nat
deriving DecidableEq, Repr

/-- A scanner within a text. `behind` holds the characters already read and `emitted` the tokens,
both last one first; `bars` holds the bracket depth of each open absolute value, innermost first;
`mark` is where the token at hand starts. -/
structure Scanner where
  behind : List Char
  rest : List Char
  offset : Nat
  line : Nat
  column : Nat
  atLineStart : Bool
  depth : Nat
  bars : List Nat
  mark : Mark
  emitted : List Token
deriving DecidableEq, Repr

namespace Scanner

/-- A scanner that gave up: why, the lexeme it reports, and the scanner as it stands then. -/
structure Failure where
  fault : Fault
  lexeme : Option String
  scanner : Scanner
deriving DecidableEq, Repr

/-- The refusal that a failed scanner reports, at the mark. -/
def Failure.diagnostic (f : Failure) : Diagnostic :=
  { stage := .lexical, message := f.fault.message, line := f.scanner.mark.line,
    column := f.scanner.mark.column, lexeme := f.lexeme, window := none }

/-- A scanner before a text. -/
def ofText (text : List Char) : Scanner :=
  { behind := [], rest := text, offset := 0, line := 1, column := 1, atLineStart := true,
    depth := 0, bars := [], mark := ⟨0, 1, 1⟩, emitted := [] }

/-- The tokens read so far, in the order of the text. -/
def tokens (s : Scanner) : List Token :=
  s.emitted.reverse

/-- The character `distance` places ahead, or behind if it is negative. -/
def peek? (s : Scanner) (distance : Int) : Option Char :=
  match distance with
  | .ofNat n => s.rest[n]?
  | .negSucc n => s.behind[n]?

/-- Moves over the next `n` characters, or over all if there are fewer. -/
def advance (s : Scanner) (n : Nat) : Scanner :=
  let taken := s.rest.take n
  { s with
    behind := taken.reverse ++ s.behind
    rest := s.rest.drop n
    offset := s.offset + taken.length
    column := s.column + taken.length }

/-- Starts a new line at the place of the scanner. -/
def newLine (s : Scanner) : Scanner :=
  { s with line := s.line + 1, column := 1 }

/-- Marks the place of the scanner as the start of a token. -/
def setMark (s : Scanner) : Scanner :=
  { s with mark := ⟨s.offset, s.line, s.column⟩ }

/-- The characters between the mark and the scanner. -/
def lexeme (s : Scanner) : List Char :=
  (s.behind.take (s.offset - s.mark.offset)).reverse

/-- Emits a token that starts at the mark. -/
def emit (s : Scanner) (kind : Kind) (lexeme : List Char) : Scanner :=
  let token : Token :=
    { kind, lexeme := String.ofList lexeme, line := s.mark.line, column := s.mark.column,
      offset := s.mark.offset, synthetic := false }
  { s with emitted := token :: s.emitted }

/-- Moves over spaces and tabs. -/
def skipSpaces (s : Scanner) : Scanner :=
  s.advance (s.rest.takeWhile isSpace).length

/-- Moves to the end of the line. -/
def skipComment (s : Scanner) : Scanner :=
  s.advance (s.rest.takeWhile (!isTerminator ·)).length

/-- Reads the start of a line: its tabs become one token, unless the line is blank or a comment.
A comment is skipped. -/
def indentation (s : Scanner) : Scanner :=
  let s := { s.setMark with atLineStart := false }
  let tabs := s.rest.takeWhile (· = '\t')
  let s := (s.advance tabs.length).skipSpaces
  match s.rest with
  | [] => s
  | c :: _ =>
    if isTerminator c then s
    else if c = tick then s.skipComment
    else if tabs.isEmpty then s
    else s.emit .indent tabs

/-- Gives up after the characters `taken`. The report shows them, or else the next character; an
unwanted suffix is shown up to its first character. -/
def giveUp (s : Scanner) (misread : Misread) : Failure :=
  let s := s.advance misread.taken.length
  let next := s.rest.take 1
  let shown :=
    if misread.fault = .badSuffix then misread.taken ++ next
    else if misread.taken.isEmpty then next
    else misread.taken
  { fault := misread.fault
    lexeme := if shown.isEmpty then none else some (String.ofList shown)
    scanner := s }

/-- Moves over a lexeme and emits it. -/
def accept (s : Scanner) (kind : Kind) (lexeme : List Char) : Scanner :=
  (s.advance lexeme.length).emit kind lexeme

/-- Emits the lexeme that a reader found, or gives up. -/
def acceptRead (s : Scanner) (kind : Kind) (read : Except Misread (List Char)) :
    Except Failure Scanner :=
  match read with
  | .ok lexeme => .ok (s.accept kind lexeme)
  | .error misread => .error (s.giveUp misread)

end Scanner

end SignLang
