import SignLang.Expr
import SignLang.Text.Case
import SignLang.Tree

/-!
# Export of expressions

Each form of expression has a label. What a form keeps besides its parts is written into leaves: a
name or a symbol as the text of a leaf, and the kind of a literal, the rest mark of a parameter and
the side of a unary operator as its type.
-/

namespace SignLang

/-- A parameter as a tree. -/
def Parameter.toTree (p : Parameter) : Tree :=
  .ofRule .parameter [.leaf ⟨if p.isRest then "REST" else "NAME", p.name⟩]

/-- The type of a leaf that holds a literal of a kind: the name of the kind in capitals. -/
def LiteralKind.leafType : LiteralKind → String
  | number => "NUMBER"
  | string => "STRING"
  | character => "CHARACTER"
  | other name => Text.upper name

/-- The type of a leaf that holds a unary operator. -/
def sideType (leads : Bool) : String :=
  if leads then "PREFIX" else "POSTFIX"

namespace Expr

mutual

/-- An expression as a labelled tree. -/
def toTree : Expr → Tree
  | literal kind raw => .ofRule .literal [.leaf ⟨kind.leafType, raw⟩]
  | identifier name => .ofRule .identifier [.leaf ⟨"NAME", name⟩]
  | unit => .ofRule .unit []
  | define target value => .ofRule .define [toTree target, toTree value]
  | lambda params body =>
    .ofRule .lambda [.ofRule .parameters (params.map Parameter.toTree), toTree body]
  | binary symbol left right => .ofRule .binary [.leaf ⟨"OP", symbol⟩, toTree left, toTree right]
  | unary symbol leads operand => .ofRule .unary [.leaf ⟨sideType leads, symbol⟩, toTree operand]
  | range start stop => .ofRule .range [toTree start, toTree stop]
  | get target key => .ofRule .get [toTree target, toTree key]
  | apply function arguments =>
    .ofRule .apply [toTree function, .ofRule .arguments (toTrees arguments)]
  | pointFree symbol none => .ofRule .pointFree [.leaf ⟨"OP", symbol⟩]
  | pointFree symbol (some preset) => .ofRule .pointFree [.leaf ⟨"OP", symbol⟩, toTree preset]
  | list elements => .ofRule .list (toTrees elements)
  | emptyList => .ofRule .emptyList []
  | block statements => .ofRule .block (toTrees statements)

/-- Expressions as labelled trees. -/
def toTrees : List Expr → List Tree
  | [] => []
  | e :: es => toTree e :: toTrees es

end

end Expr

end SignLang
