import SignLang.Diagnostic
import SignLang.Expr
import SignLang.Operator

/-!
# Cursors

A cursor is a place in a list of tokens: the tokens behind it, the one it stands at, and those
ahead. The parser moves a cursor and looks at the tokens next to it; there is always a token to
look at, and the last one is the end of the input (`Cursor.ofTokens`).
-/

namespace SignLang

/-- A token can be the first one of an operand. -/
def Token.startsOperand (t : Token) : Bool :=
  match t.kind with
  | .identifier | .number | .string | .character | .unit | .opening => true
  | .operator => t.lexeme = "?" || Operator.leadsOperand t.lexeme
  | _ => false

/-- A block operator is a colon or a question mark. -/
theorem Token.isOperator_blockSymbols_iff {t : Token} :
    t.isOperator Operator.blockSymbols ↔ t.kind = .operator ∧ (t.lexeme = ":" ∨ t.lexeme = "?") := by
  simp [Token.isOperator_iff, Operator.blockSymbols]

/-- The token `next` is written directly after `t`. -/
def Token.touches (t next : Token) : Bool :=
  t.stop = next.offset

/-- A place in a list of tokens; `before` holds the tokens behind it, nearest first. -/
structure Cursor where
  before : List Token
  here : Token
  after : List Token
deriving DecidableEq, Repr

namespace Cursor

/-- The start of a token list, to which the end of the input is added if it is missing. -/
def ofTokens : List Token → Cursor
  | [] => { before := [], here := Token.emptyEnding.borrow .ending "", after := [] }
  | t :: rest =>
    let last := rest.getLastD t
    { before := [], here := t,
      after := if last.kind = .ending then rest else rest ++ [last.borrow .ending ""] }

/-- All tokens of the list. -/
def tokens (c : Cursor) : List Token :=
  c.before.reverse ++ c.here :: c.after

/-- The position of the cursor in the list. -/
def index (c : Cursor) : Nat :=
  c.before.length

/-- The last token of the list. -/
def last (c : Cursor) : Token :=
  c.after.getLastD c.here

/-- The token after the one at hand; at the last one, that one. -/
def next (c : Cursor) : Token :=
  c.after.headD c.here

/-- The token before the one at hand; at the first one, the last one of the list. -/
def previous (c : Cursor) : Token :=
  c.before.headD c.last

/-- The token that is `distance` ahead, or behind if it is negative; the last one if there is
none. -/
def peek (c : Cursor) (distance : Int) : Token :=
  match distance with
  | .ofNat 0 => c.here
  | .ofNat (n + 1) => c.after.getD n c.last
  | .negSucc n => c.before.getD n c.last

/-- Moves to the next token. At the last one the cursor stays. -/
def advance (c : Cursor) : Cursor :=
  match c.after with
  | [] => c
  | t :: rest => { before := c.here :: c.before, here := t, after := rest }

/-- Moves over `n` tokens. -/
def skip (c : Cursor) : Nat → Cursor
  | 0 => c
  | n + 1 => c.advance.skip n

/-- The cursor at position `index` of the list; a position outside of it moves nothing. -/
def moveTo (c : Cursor) (index : Nat) : Cursor :=
  match c.tokens.drop index with
  | [] => c
  | t :: rest => { before := (c.tokens.take index).reverse, here := t, after := rest }

/-- The tokens around the cursor, the one at hand marked. -/
def window (c : Cursor) : String :=
  SignLang.window c.tokens c.index windowRadius

/-- The token at hand stands after its operand. The tilde does unless an operand follows, since a
range wins then; the exclamation mark also when it is written directly after the operand. -/
def isTrailing (c : Cursor) : Bool :=
  if c.here.lexeme = "~" then !c.next.startsOperand
  else
    c.previous.touches c.here && !c.previous.synthetic || !c.next.startsOperand

/-- The token at hand heads a group that lacks its left operand. An operator that is written
directly before an operand, and can stand there, takes it as its own. -/
def headsPointFree (c : Cursor) : Bool :=
  c.here.kind = .operator && Operator.isPointFree c.here.lexeme &&
    !(Operator.leadsOperand c.here.lexeme && c.here.touches c.next && !c.next.synthetic &&
      c.next.startsOperand)

end Cursor

namespace Parameter

/-- How many tokens write a parameter: a rest parameter has a tilde before its name. -/
def width (p : Parameter) : Nat :=
  if p.isRest then 2 else 1

/-- The rest parameter at the front of a token list, if there is one. -/
def restOf : List Token → List Parameter
  | tilde :: name :: _ =>
    if tilde.isSymbol "~" && name.kind = .identifier then [⟨name.lexeme, true⟩] else []
  | _ => []

/-- The parameters at the front of a token list: names, then perhaps a rest parameter. -/
def listOf (tokens : List Token) : List Parameter :=
  (tokens.takeWhile (·.kind = .identifier)).map (⟨·.lexeme, false⟩) ++
    restOf (tokens.dropWhile (·.kind = .identifier))

/-- How many tokens write a parameter list. -/
def listWidth : List Parameter → Nat
  | [] => 0
  | p :: params => p.width + listWidth params

end Parameter

/-- The parameters of a function whose head starts at the cursor: at least one, and a question mark
directly after them. -/
def Cursor.lambdaHead? (c : Cursor) : Option (List Parameter) :=
  let params := Parameter.listOf (c.here :: c.after)
  if params.isEmpty then none
  else if (c.skip (Parameter.listWidth params)).here.isSymbol "?" then some params
  else none

end SignLang
