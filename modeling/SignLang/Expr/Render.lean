import SignLang.Expr
import SignLang.Operator
import SignLang.Text.Blank
import SignLang.Text.Case
import SignLang.Text.Lines
import SignLang.Tree

/-!
# Rendering

An expression is written back as source text, with no more brackets than its reading needs. Every
part becomes a `Fragment`: its text, the power of its outermost operator, and how it ends, so that
the form around it can tell whether it needs brackets there.

A block is written as lines indented under the header that owns it:

    f :
    	x : 1
    	x + 1

A tree built by hand may be malformed; the first malformed node, children before parents and from
left to right, is the one that is reported.
-/

namespace SignLang

/-- A rendered part. `isBlock`: it is a block, to be laid out under a header. `tail`: it ends in an
indented block, so nothing can follow on its line. `loose`: it ends in a tilde that an operand
after it would turn into a range. -/
structure Fragment where
  text : String
  power : Nat
  isBlock : Bool
  tail : Bool
  loose : Bool
deriving DecidableEq, Repr

namespace Fragment

/-- A text that needs no brackets anywhere. -/
def atom (text : String) : Fragment :=
  ⟨text, Power.atom, false, false, false⟩

/-- A fragment in brackets. -/
def bracketed (f : Fragment) : Fragment :=
  atom ("[" ++ f.text ++ "]")

/-- The first character of the text is `c`. -/
def startsWith (f : Fragment) (c : Char) : Bool :=
  f.text.toList.head? = some c

/-- A fragment where operators have at least the power `power`. A block, and what ends in one,
stands rightmost and takes no brackets. -/
def wrap (f : Fragment) (power : Nat) : Fragment :=
  if power ≤ f.power || f.tail || f.isBlock then f else f.bracketed

/-- A fragment directly after a symbol. A bar there could close an absolute value around it. -/
def glued (f : Fragment) (power : Nat) : Fragment :=
  let f := f.wrap power
  if f.startsWith '|' then f.bracketed else f

/-- A fragment that more text follows on the line. -/
def followed (f : Fragment) (power : Nat) : Fragment :=
  let f := f.wrap power
  if f.loose then f.bracketed else f

/-- A fragment at the start of a line, where a tick would start a comment. -/
def statement (f : Fragment) : Fragment :=
  if f.startsWith '\x60' && !f.tail then f.bracketed else f

/-- A right-hand side after its head: on the line of the head, or under it if it is a block. -/
def join (head : String) (right : Fragment) (power : Nat) : Fragment :=
  if right.isBlock then ⟨head ++ "\n" ++ Text.indent right.text, power, false, true, false⟩
  else ⟨head ++ " " ++ right.text, power, false, right.tail, right.loose⟩

end Fragment

/-- Why a tree has no text: an operator is not in the table, or a list that needs an item is
empty. -/
inductive RenderFault where
  | unknownBinary (symbol : String)
  | unknownLeading (symbol : String)
  | noArguments
  | noElements
deriving DecidableEq, Repr

/-- The label of the malformed node. -/
def RenderFault.rule : RenderFault → Rule
  | unknownBinary _ => .binary
  | unknownLeading _ => .unary
  | noArguments => .apply
  | noElements => .list

/-- A parameter as it is written. -/
def Parameter.text (p : Parameter) : String :=
  if p.isRest then "~" ++ p.name else p.name

/-- A literal as it is written. -/
def LiteralKind.write (raw : String) : LiteralKind → String
  | number => raw
  | string => "\x60" ++ raw ++ "\x60"
  | character => "\\" ++ raw
  | other name =>
    -- Capitals in the name of a kind make no difference.
    if Text.upper name = "STRING" then "\x60" ++ raw ++ "\x60"
    else if Text.upper name = "CHARACTER" then "\\" ++ raw
    else raw

namespace Fragment

/-- A binary operation. The operand on the side to which the operator groups may have its power. -/
def binary (op : Operator) (left right : Fragment) : Fragment :=
  let (leftPower, rightPower) :=
    match op.assoc with
    | .left => (op.power, op.power + 1)
    | .right => (op.power + 1, op.power)
  join ((left.followed leftPower).text ++ " " ++ op.symbol) (right.wrap rightPower) op.power

/-- An absolute value. A bar after a blank would not close. -/
def bars (operand : Fragment) : Fragment :=
  let inner := if operand.text.toList.getLast?.any Text.isBlank then operand.bracketed else operand
  atom ("|" ++ inner.text ++ "|")

/-- An operand with an operator after it. -/
def trailing (symbol : String) (operand : Fragment) : Fragment :=
  ⟨(operand.followed Power.trailing).text ++ symbol, Power.trailing, false, false, symbol = "~"⟩

/-- An operand with an operator before it. -/
def leading (op : Operator) (operand : Fragment) : Fragment :=
  let operand := operand.glued op.power
  if operand.isBlock then join op.symbol operand op.power
  else ⟨op.symbol ++ operand.text, op.power, false, operand.tail, operand.loose⟩

/-- A range. -/
def range (start stop : Fragment) : Fragment :=
  join ((start.followed Power.range).text ++ " ~") (stop.wrap (Power.range + 1)) Power.range

/-- A member access. -/
def get (target key : Fragment) : Fragment :=
  let key := key.glued (Power.get + 1)
  ⟨(target.followed Power.get).text ++ "'" ++ key.text, Power.get, false, key.tail, key.loose⟩

/-- A function before its arguments, of which `last` is the last one. -/
def apply (function : Fragment) (arguments : List Fragment) (last : Fragment) : Fragment :=
  let parts := (function :: arguments).map fun f => (f.followed (Power.apply + 1)).text
  join (" ".intercalate parts) (last.wrap (Power.apply + 1)) Power.apply

/-- A list, of which `last` is the last element. -/
def list (elements : List Fragment) (last : Fragment) : Fragment :=
  let items := elements.map fun f => (f.followed (Power.product + 1)).text
  join (", ".intercalate items ++ ",") (last.wrap (Power.product + 1)) Power.product

/-- An operator in brackets, without its left operand. -/
def pointFree (symbol : String) : Option Fragment → Fragment
  | none => atom ("[" ++ symbol ++ "]")
  | some preset => atom ("[" ++ symbol ++ " " ++ (preset.wrap (Power.product + 1)).text ++ "]")

/-- Statements, one on each line. -/
def block (statements : List Fragment) : Fragment :=
  ⟨"\n".intercalate (statements.map fun f => f.statement.text), 0, true, false, false⟩

end Fragment

namespace Expr

mutual

/-- An expression as a fragment. -/
def fragment : Expr → Except RenderFault Fragment
  | literal kind raw => .ok (.atom (kind.write raw))
  | identifier name => .ok (.atom name)
  | unit => .ok (.atom "_")
  | emptyList => .ok (.atom "[]")
  | define target value => do
    let target ← fragment target
    let value ← fragment value
    return .join (target.text ++ " :") value Power.define
  | lambda params body => do
    let body ← fragment body
    return .join (" ".intercalate (params.map Parameter.text ++ ["?"])) (body.wrap Power.lambda)
      Power.lambda
  | binary symbol left right => do
    let left ← fragment left
    let right ← fragment right
    match Operator.binary? symbol with
    | none => .error (.unknownBinary symbol)
    | some op => return .binary op left right
  | unary symbol leads operand => do
    let operand ← fragment operand
    if symbol = Operator.bar then return .bars operand
    else if !leads then return .trailing symbol operand
    else
      match Operator.leading? symbol with
      | none => .error (.unknownLeading symbol)
      | some op => return .leading op operand
  | range start stop => do
    let start ← fragment start
    let stop ← fragment stop
    return .range start stop
  | get target key => do
    let target ← fragment target
    let key ← fragment key
    return .get target key
  | apply function arguments => do
    let function ← fragment function
    let arguments ← fragments arguments
    match arguments.getLast? with
    | none => .error .noArguments
    | some last => return .apply function arguments.dropLast last
  | pointFree symbol none => .ok (.pointFree symbol none)
  | pointFree symbol (some preset) => do
    let preset ← fragment preset
    return .pointFree symbol (some preset)
  | list elements => do
    let elements ← fragments elements
    match elements.getLast? with
    | none => .error .noElements
    | some last => return .list elements.dropLast last
  | block statements => do
    let statements ← fragments statements
    return .block statements

/-- Expressions as fragments, from left to right. -/
def fragments : List Expr → Except RenderFault (List Fragment)
  | [] => .ok []
  | e :: es => do
    let f ← fragment e
    let fs ← fragments es
    return f :: fs

end

/-- An expression as source text. -/
def render (e : Expr) : Except RenderFault String := do
  let f ← fragment e
  return if f.isBlock then f.text else f.statement.text

end Expr

end SignLang
