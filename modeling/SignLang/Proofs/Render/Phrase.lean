import Mathlib
import SignLang.Expr.Render
import SignLang.Token

/-!
# Phrases

A rendered part as words instead of characters. A line is a list of words with gaps between them, a
page holds lines with the lines indented below each, and a phrase is a fragment that knows its words:
its first line, the page under it, and the flags of the fragment.

`Expr.phrase` renders an expression as a phrase. It makes the same choices as `Expr.fragment`, so
that the text of the phrase is that of the fragment wherever brackets do not have to hold lines.
-/

namespace SignLang

/-- A part of a line: a space, or a word, which is to be one token. -/
inductive Item where
  | gap
  | word (kind : Kind) (lexeme : String)
deriving DecidableEq

namespace Item

/-- The characters of an item. -/
def text : Item → List Char
  | gap => [' ']
  | word _ lexeme => lexeme.toList

/-- The bracket before a group. -/
def openGroup : Item :=
  word .opening "["

/-- The bracket after a group. -/
def closeGroup : Item :=
  word .closing "]"

/-- An operator as a word. -/
def symbol (s : String) : Item :=
  word .operator s

/-- The characters of a line. -/
def textOf (line : List Item) : List Char :=
  line.flatMap text

@[simp] lemma textOf_nil : textOf [] = [] := rfl

@[simp] lemma textOf_cons (i : Item) (line : List Item) : textOf (i :: line) = i.text ++ textOf line :=
  rfl

@[simp] lemma textOf_append (a b : List Item) : textOf (a ++ b) = textOf a ++ textOf b :=
  List.flatMap_append

end Item

open Item

/-- Lines, each with the page indented below it. -/
inductive Page where
  | done
  | entry (line : List Item) (body next : Page)
deriving DecidableEq

namespace Page

/-- The page has lines. -/
def isSome : Page → Bool
  | done => false
  | entry .. => true

/-- The characters of a page whose lines are indented by `level` tabs, with a line end before each
line. -/
def text (level : Nat) : Page → List Char
  | done => []
  | entry line body next =>
    '\n' :: (List.replicate level '\t' ++ textOf line) ++ body.text (level + 1) ++ next.text level

/-- Every line of the page has characters, and none of them ends a line. -/
def Plain : Page → Prop
  | done => True
  | entry line body next =>
    textOf line ≠ [] ∧ (textOf line).all (!Text.isLineEnd ·) ∧ body.Plain ∧ next.Plain

end Page

/-- A rendered part as words: its line, the page under the line, and the power, kind and looseness
of a fragment. A block has no line of its own. -/
structure Phrase where
  line : List Item
  body : Page
  power : Nat
  isBlock : Bool
  loose : Bool
deriving DecidableEq

namespace Phrase

/-- Lines are indented below the line of the phrase. -/
def tail (p : Phrase) : Bool :=
  p.body.isSome && !p.isBlock

/-- The characters of a phrase. -/
def text (p : Phrase) : List Char :=
  if p.isBlock then (p.body.text 0).tail else textOf p.line ++ p.body.text 1

/-- The fragment that a phrase writes. -/
def fragment (p : Phrase) : Fragment :=
  ⟨String.ofList p.text, p.power, p.isBlock, p.tail, p.loose⟩

/-- One word that needs no brackets anywhere. -/
def atom (kind : Kind) (lexeme : String) : Phrase :=
  ⟨[word kind lexeme], .done, Power.atom, false, false⟩

/-- A phrase in brackets. -/
def bracketed (p : Phrase) : Phrase :=
  ⟨openGroup :: p.line ++ [closeGroup], .done, Power.atom, false, false⟩

/-- The first character of the text is `c`. -/
def startsWith (p : Phrase) (c : Char) : Bool :=
  p.text.head? = some c

/-- A phrase where operators have at least the power `power`. -/
def wrap (p : Phrase) (power : Nat) : Phrase :=
  if power ≤ p.power || p.tail || p.isBlock then p else p.bracketed

/-- A phrase directly after a symbol. -/
def glued (p : Phrase) (power : Nat) : Phrase :=
  if (p.wrap power).startsWith '|' then (p.wrap power).bracketed else p.wrap power

/-- A phrase that more text follows on the line. -/
def followed (p : Phrase) (power : Nat) : Phrase :=
  if (p.wrap power).loose then (p.wrap power).bracketed else p.wrap power

/-- A phrase at the start of a line. -/
def statement (p : Phrase) : Phrase :=
  if p.startsWith '\x60' && !p.tail then p.bracketed else p

/-- A right-hand side after its head. -/
def join (head : List Item) (right : Phrase) (power : Nat) : Phrase :=
  if right.isBlock then ⟨head, right.body, power, false, false⟩
  else ⟨head ++ gap :: right.line, right.body, power, false, right.loose⟩

/-- A binary operation. -/
def binary (op : Operator) (left right : Phrase) : Phrase :=
  let (leftPower, rightPower) :=
    match op.assoc with
    | .left => (op.power, op.power + 1)
    | .right => (op.power + 1, op.power)
  join ((left.followed leftPower).line ++ [gap, symbol op.symbol]) (right.wrap rightPower) op.power

/-- An absolute value. -/
def bars (operand : Phrase) : Phrase :=
  let inner := if operand.text.getLast?.any Text.isBlank then operand.bracketed else operand
  ⟨word .opening "|" :: inner.line ++ [word .closing "|"], .done, Power.atom, false, false⟩

/-- An operand with an operator after it. -/
def trailing (s : String) (operand : Phrase) : Phrase :=
  ⟨(operand.followed Power.trailing).line ++ [symbol s], .done, Power.trailing, false, s = "~"⟩

/-- An operand with an operator before it. -/
def leading (op : Operator) (operand : Phrase) : Phrase :=
  let operand := operand.glued op.power
  ⟨symbol op.symbol :: operand.line, operand.body, op.power, false, operand.loose⟩

/-- A range. -/
def range (start stop : Phrase) : Phrase :=
  join ((start.followed Power.range).line ++ [gap, symbol "~"]) (stop.wrap (Power.range + 1))
    Power.range

/-- A member access. -/
def get (target key : Phrase) : Phrase :=
  let key := key.glued (Power.get + 1)
  ⟨(target.followed Power.get).line ++ symbol "'" :: key.line, key.body, Power.get, false, key.loose⟩

/-- A function before its arguments, of which `last` is the last one. -/
def apply (function : Phrase) (arguments : List Phrase) (last : Phrase) : Phrase :=
  join ((function.followed (Power.apply + 1)).line ++
    arguments.flatMap fun p => gap :: (p.followed (Power.apply + 1)).line)
    (last.wrap (Power.apply + 1)) Power.apply

/-- A list of a first element, further ones, and a last one. -/
def list (first : Phrase) (middle : List Phrase) (last : Phrase) : Phrase :=
  join ((first.followed (Power.product + 1)).line ++
    middle.flatMap (fun p => symbol "," :: gap :: (p.followed (Power.product + 1)).line) ++
    [symbol ","]) (last.wrap (Power.product + 1)) Power.product

/-- An operator in brackets, without its left operand. -/
def pointFree (s : String) : Option Phrase → Phrase
  | none => ⟨[openGroup, symbol s, closeGroup], .done, Power.atom, false, false⟩
  | some preset =>
    ⟨openGroup :: symbol s :: gap :: (preset.wrap (Power.product + 1)).line ++ [closeGroup], .done,
      Power.atom, false, false⟩

/-- The page of some statements, one on each line. -/
def page : List Phrase → Page
  | [] => .done
  | p :: ps => .entry p.statement.line p.statement.body (page ps)

/-- Statements, one on each line. -/
def block (statements : List Phrase) : Phrase :=
  ⟨[], page statements, 0, true, false⟩

end Phrase

/-- The words of a parameter. -/
def Parameter.items (p : Parameter) : List Item :=
  if p.isRest then [symbol "~", word .identifier p.name] else [word .identifier p.name]

/-- The words of a parameter list and the question mark after it. -/
def Parameter.head (params : List Parameter) : List Item :=
  params.flatMap (fun p => p.items ++ [gap]) ++ [symbol "?"]

/-- The word of a literal. -/
def LiteralKind.word (raw : String) : LiteralKind → Item
  | number => .word .number raw
  | string => .word .string ("\x60" ++ raw ++ "\x60")
  | character => .word .character ("\\" ++ raw)
  | other _ => .word .number raw

namespace Expr

mutual

/-- An expression as a phrase. A tree that cannot be rendered gets some phrase. -/
def phrase : Expr → Phrase
  | literal kind raw => ⟨[kind.word raw], .done, Power.atom, false, false⟩
  | identifier name => .atom .identifier name
  | unit => .atom .unit "_"
  | emptyList => ⟨[openGroup, closeGroup], .done, Power.atom, false, false⟩
  | define target value => .join ((phrase target).line ++ [gap, symbol ":"]) (phrase value) Power.define
  | lambda params body => .join (Parameter.head params) ((phrase body).wrap Power.lambda) Power.lambda
  | binary s left right =>
    match Operator.binary? s with
    | none => .block []
    | some op => .binary op (phrase left) (phrase right)
  | unary s leads operand =>
    if s = Operator.bar then .bars (phrase operand)
    else if !leads then .trailing s (phrase operand)
    else
      match Operator.leading? s with
      | none => .block []
      | some op => .leading op (phrase operand)
  | range start stop => .range (phrase start) (phrase stop)
  | get target key => .get (phrase target) (phrase key)
  | apply function arguments =>
    match (phrases arguments).getLast? with
    | none => .block []
    | some last => .apply (phrase function) (phrases arguments).dropLast last
  | pointFree s none => .pointFree s none
  | pointFree s (some preset) => .pointFree s (some (phrase preset))
  | list elements =>
    match phrases elements with
    | [] => .block []
    | first :: others =>
      match others.getLast? with
      | none => .block []
      | some last => .list first others.dropLast last
  | block statements => .block (phrases statements)

/-- Expressions as phrases, from left to right. -/
def phrases : List Expr → List Phrase
  | [] => []
  | e :: es => phrase e :: phrases es

end

end Expr

end SignLang
