import SignLang.Expr
import SignLang.Text.Quoted
import SignLang.Tree

/-!
# Parts

What a labelled tree reads as before it is known to be an expression. A part may hold foreign trees
and bare leaves where an expression needs expressions. `Part.toExpr?` is the expression that a part
is, if it is one throughout; `Part.text` is the part as a text, which serves as its name where a
leaf is expected.
-/

namespace SignLang

/-- A node of the export format without its parts. -/
inductive Form where
  | literal (kind : LiteralKind) (raw : String)
  | identifier (name : String)
  | unit
  | define
  | lambda
  | binary (symbol : String)
  | unary (symbol : String) (leads : Bool)
  | range
  | get
  | apply
  | pointFree (symbol : String)
  | list
  | emptyList
  | block
deriving DecidableEq, Repr

/-- What a labelled tree reads as. -/
inductive Part where
  | leaf (leaf : Leaf)
  | foreign (label : String) (children : List Part)
  | parameter (p : Parameter)
  | several (parts : List Part)
  | node (form : Form) (parts : List Part)
deriving Repr

namespace Part

/-- Items in brackets, with commas between them. -/
def enumerated (opener closer : String) (items : List String) : String :=
  opener ++ ", ".intercalate items ++ closer

/-- Items in parentheses; a single one has a comma after it. -/
def grouped : List String → String
  | [item] => "(" ++ item ++ ",)"
  | items => enumerated "(" ")" items

/-- A name, and fields with their values. -/
def record (name : String) (fields : List (String × String)) : String :=
  name ++ enumerated "(" ")" (fields.map fun (field, value) => field ++ "=" ++ value)

/-- A truth value, written out. -/
def truth (b : Bool) : String :=
  if b then "True" else "False"

/-- A node written out, when its parts are. -/
def recordOf (parts : List String) : Form → String
  | .literal kind raw =>
    record "Literal" [("kind", Text.quoted kind.name), ("raw", Text.quoted raw)]
  | .identifier name => record "Identifier" [("name", Text.quoted name)]
  | .unit => record "Unit" []
  | .define => record "Define" (["target", "value"].zip parts)
  | .lambda => record "Lambda" (["params", "body"].zip parts)
  | .binary symbol =>
    record "BinaryOp" (("operator", Text.quoted symbol) :: ["left", "right"].zip parts)
  | .unary symbol leads =>
    record "UnaryOp"
      (("operator", Text.quoted symbol) :: ["operand", "is_prefix"].zip (parts ++ [truth leads]))
  | .range => record "Range" (["start", "end"].zip parts)
  | .get => record "Get" (["target", "key"].zip parts)
  | .apply => record "Apply" (["function", "arguments"].zip parts)
  | .pointFree symbol =>
    record "PointFreeOp" [("operator", Text.quoted symbol), ("preset", parts.headD "None")]
  | .list => record "List" [("elements", grouped parts)]
  | .emptyList => record "EmptyList" []
  | .block => record "Block" [("statements", grouped parts)]

mutual

/-- A part written out on one line. -/
def written : Part → String
  | leaf l => "Token(" ++ Text.quoted l.type ++ ", " ++ Text.quoted l.text ++ ")"
  | foreign label children =>
    "Tree(" ++ Text.quoted label ++ ", " ++ enumerated "[" "]" (writtenAll children) ++ ")"
  | parameter p =>
    record "Parameter" [("name", Text.quoted p.name), ("is_rest", truth p.isRest)]
  | several parts => grouped (writtenAll parts)
  | node form parts => recordOf (writtenAll parts) form

/-- Parts written out, one by one. -/
def writtenAll : List Part → List String
  | [] => []
  | part :: rest => written part :: writtenAll rest

end

/-- A part as a text: that of a leaf, or else the part written out. -/
def text : Part → String
  | leaf l => l.text
  | part => part.written

/-- The parameters that parts are, if they are no more than that. -/
def toParameters? : List Part → Option (List Parameter)
  | [] => some []
  | parameter p :: rest => (toParameters? rest).map (p :: ·)
  | _ => none

mutual

/-- The expression that a part is, if it is one throughout. -/
def toExpr? : Part → Option Expr
  | node (.literal kind raw) [] => some (.literal kind raw)
  | node (.identifier name) [] => some (.identifier name)
  | node .unit [] => some .unit
  | node .define [target, value] => do
    return .define (← toExpr? target) (← toExpr? value)
  | node .lambda [several params, body] => do
    return .lambda (← toParameters? params) (← toExpr? body)
  | node (.binary symbol) [left, right] => do
    return .binary symbol (← toExpr? left) (← toExpr? right)
  | node (.unary symbol leads) [operand] => do
    return .unary symbol leads (← toExpr? operand)
  | node .range [start, stop] => do
    return .range (← toExpr? start) (← toExpr? stop)
  | node .get [target, key] => do
    return .get (← toExpr? target) (← toExpr? key)
  | node .apply [function, several arguments] => do
    return .apply (← toExpr? function) (← toExprs? arguments)
  | node (.pointFree symbol) [] => some (.pointFree symbol none)
  | node (.pointFree symbol) [preset] => do
    return .pointFree symbol (some (← toExpr? preset))
  | node .list elements => do
    return .list (← toExprs? elements)
  | node .emptyList [] => some .emptyList
  | node .block statements => do
    return .block (← toExprs? statements)
  | _ => none

/-- The expressions that parts are. -/
def toExprs? : List Part → Option (List Expr)
  | [] => some []
  | part :: rest => do
    return (← toExpr? part) :: (← toExprs? rest)

end

end Part

end SignLang
