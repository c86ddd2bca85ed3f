import SignLang.Text.Case
import SignLang.Tree.Part

/-!
# Import of expressions

Reading a labelled tree back, from the leaves up. A label of the export format makes a node of its
children, as many as that label has; every other label leaves a tree with its children read. A leaf
whose type is such a label is read as its only child would be.

`Expr.ofTree?` reads a tree that is an expression throughout.
-/

namespace SignLang

/-- The kind of the literal that a leaf of a type holds: the type in small letters. -/
def LiteralKind.ofLeafType (type : String) : LiteralKind :=
  if type = "NUMBER" then number
  else if type = "STRING" then string
  else if type = "CHARACTER" then character
  else ofName (Text.lower type)

/-- Why a labelled tree cannot be read, with the label at which it fails: the label has another
number of children, or needs a leaf where there is none. -/
inductive ImportFault where
  | wrongCount (rule : Rule)
  | noLeaf (rule : Rule)
deriving DecidableEq, Repr

/-- The label at which reading fails. -/
def ImportFault.rule : ImportFault → Rule
  | wrongCount rule => rule
  | noLeaf rule => rule

namespace Part

/-- What a label makes of its children, once they have been read. -/
def ofRule (rule : Rule) (children : List Part) : Except ImportFault Part :=
  match rule, children with
  | .literal, [leaf l] => .ok (node (.literal (.ofLeafType l.type) l.text) [])
  | .literal, [_] => .error (.noLeaf rule)
  | .identifier, [name] => .ok (node (.identifier name.text) [])
  | .unit, [] => .ok (node .unit [])
  | .define, [target, value] => .ok (node .define [target, value])
  | .parameter, [leaf l] => .ok (parameter ⟨l.text, l.type = "REST"⟩)
  | .parameter, [_] => .error (.noLeaf rule)
  | .parameters, params => .ok (several params)
  | .lambda, [params, body] => .ok (node .lambda [params, body])
  | .binary, [symbol, left, right] => .ok (node (.binary symbol.text) [left, right])
  | .unary, [leaf l, operand] => .ok (node (.unary l.text (l.type = "PREFIX")) [operand])
  | .unary, [_, _] => .error (.noLeaf rule)
  | .range, [start, stop] => .ok (node .range [start, stop])
  | .get, [target, key] => .ok (node .get [target, key])
  | .arguments, arguments => .ok (several arguments)
  | .apply, [function, arguments] => .ok (node .apply [function, arguments])
  | .pointFree, [symbol] => .ok (node (.pointFree symbol.text) [])
  | .pointFree, [symbol, preset] => .ok (node (.pointFree symbol.text) [preset])
  | .list, elements => .ok (node .list elements)
  | .emptyList, [] => .ok (node .emptyList [])
  | .block, statements => .ok (node .block statements)
  | _, _ => .error (.wrongCount rule)

/-- What any label makes of its children. -/
def ofLabel (label : String) (children : List Part) : Except ImportFault Part :=
  match Rule.ofLabel? label with
  | some rule => ofRule rule children
  | none => .ok (foreign label children)

/-- What a leaf reads as. -/
def ofLeaf (l : Leaf) : Except ImportFault Part :=
  match Rule.ofLabel? l.type with
  | some rule => ofRule rule [leaf l]
  | none => .ok (leaf l)

end Part

namespace Tree

mutual

/-- Reads a tree from the leaves up, children from left to right. -/
def read : Tree → Except ImportFault Part
  | leaf l => Part.ofLeaf l
  | node label children => do
    Part.ofLabel label (← readAll children)

/-- Reads trees from left to right. -/
def readAll : List Tree → Except ImportFault (List Part)
  | [] => .ok []
  | t :: rest => do
    let part ← read t
    return part :: (← readAll rest)

end

end Tree

/-- The expression that a tree exports. -/
def Expr.ofTree? (t : Tree) : Option Expr :=
  match t.read with
  | .ok part => part.toExpr?
  | .error _ => none

end SignLang
