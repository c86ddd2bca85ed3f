/-!
# Labelled trees

The form in which expressions are exported: every node has a label and children, and names,
symbols and literal texts are leaves with a type. The labels of the export format are the `Rule`s.
`Tree.pretty` prints a tree, one line for each node, indented by its depth.
-/

namespace SignLang

/-- A leaf: a text and what it is. -/
structure Leaf where
  type : String
  text : String
deriving DecidableEq, Repr

/-- A labelled tree. -/
inductive Tree where
  | leaf (leaf : Leaf)
  | node (label : String) (children : List Tree)
deriving Repr

/-- A label of the export format. -/
inductive Rule where
  | literal
  | identifier
  | unit
  | define
  | parameter
  | parameters
  | lambda
  | binary
  | unary
  | range
  | get
  | arguments
  | apply
  | pointFree
  | list
  | emptyList
  | block
deriving DecidableEq, Repr

namespace Rule

/-- All labels of the export format. -/
def all : List Rule :=
  [literal, identifier, unit, define, parameter, parameters, lambda, binary, unary, range, get,
   arguments, apply, pointFree, list, emptyList, block]

/-- The label as it is written. -/
def label : Rule → String
  | literal => "literal"
  | identifier => "identifier"
  | unit => "unit"
  | define => "define"
  | parameter => "param"
  | parameters => "params"
  | lambda => "anonfn"
  | binary => "binop"
  | unary => "unop"
  | range => "range"
  | get => "get"
  | arguments => "args"
  | apply => "apply"
  | pointFree => "pointfree"
  | list => "list"
  | emptyList => "emptylist"
  | block => "block"

/-- The label that a text writes. -/
def ofLabel? (label : String) : Option Rule :=
  all.find? fun rule => rule.label = label

end Rule

namespace Tree

/-- A node of the export format. -/
def ofRule (rule : Rule) (children : List Tree) : Tree :=
  node rule.label children

/-- The space in front of a line at a depth. -/
def margin (depth : Nat) : String :=
  String.ofList (List.replicate (2 * depth) ' ')

mutual

/-- A tree as lines of text, from a depth on. A leaf that is an only child stands on the line of its
parent. -/
def prettyAt (depth : Nat) : Tree → String
  | leaf l => margin depth ++ l.text ++ "\n"
  | node label [leaf l] => margin depth ++ label ++ "\t" ++ l.text ++ "\n"
  | node label children => margin depth ++ label ++ "\n" ++ prettyAll (depth + 1) children

/-- Trees as lines of text, one after the other. -/
def prettyAll (depth : Nat) : List Tree → String
  | [] => ""
  | t :: rest => prettyAt depth t ++ prettyAll depth rest

end

/-- A tree as lines of text. -/
def pretty (t : Tree) : String :=
  prettyAt 0 t

end Tree

end SignLang
