/-!
# Expressions

The syntax trees of the language. A tree may be built by hand in any shape: operators are symbols
that need not be in the operator table, and argument lists may be empty. Equality of trees is
decidable.
-/

namespace SignLang

/-- The kind of a literal. Trees built by hand may name further kinds. -/
inductive LiteralKind where
  | number
  | string
  | character
  | other (name : String)
deriving DecidableEq, Repr

namespace LiteralKind

/-- The name of a literal kind. -/
def name : LiteralKind → String
  | number => "number"
  | string => "string"
  | character => "character"
  | other name => name

/-- The literal kind of a name. -/
def ofName (name : String) : LiteralKind :=
  if name = "number" then number
  else if name = "string" then string
  else if name = "character" then character
  else other name

end LiteralKind

/-- A parameter of a function. A rest parameter takes all remaining arguments. -/
structure Parameter where
  name : String
  isRest : Bool
deriving DecidableEq, Repr

/-- A syntax tree. -/
inductive Expr where
  | literal (kind : LiteralKind) (raw : String)
  | identifier (name : String)
  | unit
  | define (target value : Expr)
  | lambda (params : List Parameter) (body : Expr)
  | binary (symbol : String) (left right : Expr)
  | unary (symbol : String) (leads : Bool) (operand : Expr)
  | range (start stop : Expr)
  | get (target key : Expr)
  | apply (function : Expr) (arguments : List Expr)
  | pointFree (symbol : String) (preset : Option Expr)
  | list (elements : List Expr)
  | emptyList
  | block (statements : List Expr)
deriving Repr

namespace Expr

mutual

/-- Equality of two trees, decided part by part. -/
def decideEq (a b : Expr) : Decidable (a = b) := by
  cases a <;> cases b <;> try (apply isFalse; intro h; cases h; done)
  case literal.literal kind raw kind' raw' =>
    exact decidable_of_iff (kind = kind' ∧ raw = raw') (by simp)
  case identifier.identifier name name' => exact decidable_of_iff (name = name') (by simp)
  case unit.unit => exact isTrue rfl
  case define.define target value target' value' =>
    have := decideEq target target'
    have := decideEq value value'
    exact decidable_of_iff (target = target' ∧ value = value') (by simp)
  case lambda.lambda params body params' body' =>
    have := decideEq body body'
    exact decidable_of_iff (params = params' ∧ body = body') (by simp)
  case binary.binary symbol left right symbol' left' right' =>
    have := decideEq left left'
    have := decideEq right right'
    exact decidable_of_iff (symbol = symbol' ∧ left = left' ∧ right = right') (by simp)
  case unary.unary symbol leads operand symbol' leads' operand' =>
    have := decideEq operand operand'
    exact decidable_of_iff (symbol = symbol' ∧ leads = leads' ∧ operand = operand') (by simp)
  case range.range start stop start' stop' =>
    have := decideEq start start'
    have := decideEq stop stop'
    exact decidable_of_iff (start = start' ∧ stop = stop') (by simp)
  case get.get target key target' key' =>
    have := decideEq target target'
    have := decideEq key key'
    exact decidable_of_iff (target = target' ∧ key = key') (by simp)
  case apply.apply function arguments function' arguments' =>
    have := decideEq function function'
    have := decideEqList arguments arguments'
    exact decidable_of_iff (function = function' ∧ arguments = arguments') (by simp)
  case pointFree.pointFree symbol preset symbol' preset' =>
    have := decideEqOption preset preset'
    exact decidable_of_iff (symbol = symbol' ∧ preset = preset') (by simp)
  case list.list elements elements' =>
    have := decideEqList elements elements'
    exact decidable_of_iff (elements = elements') (by simp)
  case emptyList.emptyList => exact isTrue rfl
  case block.block statements statements' =>
    have := decideEqList statements statements'
    exact decidable_of_iff (statements = statements') (by simp)
termination_by structural a

/-- Equality of two lists of trees, decided element by element. -/
def decideEqList (as bs : List Expr) : Decidable (as = bs) :=
  match as, bs with
  | [], [] => isTrue rfl
  | [], _ :: _ => isFalse nofun
  | _ :: _, [] => isFalse nofun
  | a :: as, b :: bs =>
    have := decideEq a b
    have := decideEqList as bs
    decidable_of_iff (a = b ∧ as = bs) (by simp)
termination_by structural as

/-- Equality of two optional trees. -/
def decideEqOption (a b : Option Expr) : Decidable (a = b) :=
  match a, b with
  | none, none => isTrue rfl
  | none, some _ => isFalse nofun
  | some _, none => isFalse nofun
  | some a, some b =>
    have := decideEq a b
    decidable_of_iff (a = b) (by simp)
termination_by structural a

end

instance : DecidableEq Expr :=
  decideEq

/-- The name of a tree's form in the log. -/
def form : Expr → String
  | literal .. => "Literal"
  | identifier .. => "Identifier"
  | unit => "Unit"
  | define .. => "Define"
  | lambda .. => "Lambda"
  | binary .. => "BinaryOp"
  | unary .. => "UnaryOp"
  | range .. => "Range"
  | get .. => "Get"
  | apply .. => "Apply"
  | pointFree .. => "PointFreeOp"
  | list .. => "List"
  | emptyList => "EmptyList"
  | block .. => "Block"

end Expr

end SignLang
