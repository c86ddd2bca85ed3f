import SignLang.Scanner.Basic

/-!
# Scanner steps

One step reads the indentation of a line, a run of spaces, or one token, which is known by its first
character. A vertical bar is an operator, opens an absolute value, or closes one, by what stands next
to it (`barRole`).
-/

namespace SignLang.Scanner

open Lexeme

/-- Reads a line terminator; a new line starts after it. -/
def scanTerminator (s : Scanner) : Scanner :=
  let s := (s.accept .newline (readTerminator s.rest)).newLine
  { s with atLineStart := true }

/-- A scanner that has just read the character `c` of a literal is on a new line. The terminator
belongs to the literal, so no line of tokens starts there; the first half of a two-character
terminator leaves the new line to the second. -/
def literalEndsLine (c : Char) (rest : List Char) : Bool :=
  c = '\n' || (c = '\r' && rest.head? ≠ some '\n')

/-- Reads a character literal. -/
def scanCharacter (s : Scanner) : Except Failure Scanner :=
  match readCharacter s.rest with
  | .error misread => .error (s.giveUp misread)
  | .ok lexeme =>
    let s := s.accept .character lexeme
    .ok (if lexeme.getLast?.any (literalEndsLine · s.rest) then s.newLine else s)

/-- Reads a name. A lone underscore is the unit. -/
def scanName (s : Scanner) : Scanner :=
  let name := readName s.rest
  s.accept (if name = ['_'] then .unit else .identifier) name

/-- Reads an opening bracket. -/
def scanOpener (s : Scanner) : Scanner :=
  let s := s.accept .opening (s.rest.take 1)
  { s with depth := s.depth + 1 }

/-- Reads a closing bracket. An absolute value that was opened inside the brackets can no longer
be closed. -/
def scanCloser (s : Scanner) : Scanner :=
  let s := s.accept .closing (s.rest.take 1)
  { s with depth := s.depth - 1, bars := s.bars.dropWhile (s.depth - 1 < ·) }

/-- What a vertical bar does. -/
inductive BarRole where
  | operator
  | opens
  | closes
  | stray
deriving DecidableEq, Repr

/-- The last token opens a group and ends where the scanner stands. -/
def afterOpening (s : Scanner) : Bool :=
  s.emitted.head?.any fun t => t.kind = .opening && t.stop = (s.mark.offset : Int)

/-- What the bar at the front does. With space or a bracket's inside on both hands it is the
operator. Otherwise it closes the innermost absolute value of this bracket depth if it can, which
needs an operand directly before it, and else opens one, which needs something directly after. -/
def barRole (s : Scanner) : BarRole :=
  let previous := s.behind.head?
  let next := s.peek? 1
  let spaceBefore := previous.all isGap
  let leftFree := previous.all fun c => isGap c || isOpener c
  let rightFree := next.all fun c => isGap c || isCloser c
  if leftFree && rightFree then .operator
  else if !spaceBefore && !s.afterOpening && s.bars.head? = some s.depth then .closes
  else if !rightFree then .opens
  else .stray

/-- Reads a vertical bar. -/
def scanBar (s : Scanner) : Except Failure Scanner :=
  match s.barRole with
  | .operator => .ok (s.accept .operator ['|'])
  | .closes => .ok { s.accept .closing ['|'] with bars := s.bars.tail }
  | .opens => .ok { s.accept .opening ['|'] with bars := s.depth :: s.bars }
  | .stray => .error (s.giveUp ⟨.strayBar, ['|']⟩)

/-- Reads the token at the mark, by its first character. -/
def scanToken (s : Scanner) : Except Failure Scanner :=
  match s.rest with
  | [] => .error (s.giveUp ⟨.unexpected none, []⟩)
  | c :: _ =>
    if isTerminator c then .ok s.scanTerminator
    else if c = tick then s.acceptRead .string (readString s.rest)
    else if c = '\\' then s.scanCharacter
    else if c.isDigit then s.acceptRead .number (readNumber s.rest)
    else if isNameStart c then .ok s.scanName
    else if isOpener c then .ok s.scanOpener
    else if isCloser c then .ok s.scanCloser
    else if c = '|' then s.scanBar
    else s.acceptRead .operator (readOperator s.rest)

/-- Reads the start of a line, a run of spaces, or one token. -/
def step (s : Scanner) : Except Failure Scanner :=
  if s.atLineStart then .ok s.indentation
  else if s.rest.head?.any isSpace then .ok s.skipSpaces
  else s.setMark.scanToken

end SignLang.Scanner
