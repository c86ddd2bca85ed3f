/-!
# Operators

The operator table. One symbol may have up to three entries, one for each fixity; the parser finds
out from the context which one is meant. The power of an entry says how tightly it binds.
Juxtaposition has no symbol, but stands on the same scale (`Power.apply`).
-/

namespace SignLang

/-- Where an operator stands: before its operand, between two operands, or after its operand. -/
inductive Fixity where
  | leading
  | binary
  | trailing
deriving DecidableEq, Repr

/-- The name of a fixity. -/
def Fixity.name : Fixity → String
  | .leading => "prefix"
  | .binary => "infix"
  | .trailing => "postfix"

/-- Which operand of a chain of equal operators groups first. -/
inductive Assoc where
  | left
  | right
deriving DecidableEq, Repr

/-- The name of an associativity. -/
def Assoc.name : Assoc → String
  | .left => "left"
  | .right => "right"

/-- An entry of the operator table. -/
structure Operator where
  symbol : String
  fixity : Fixity
  name : String
  power : Nat
  assoc : Assoc
deriving DecidableEq, Repr

namespace Power

/-- The power of a definition, and of the marks for export and import around one. -/
def define : Nat := 10

/-- The power of a function. -/
def lambda : Nat := 20

/-- The power of the comma. -/
def product : Nat := 30

/-- The power of a range. -/
def range : Nat := 35

/-- The power of an operator before its operand. -/
def leading : Nat := 105

/-- The power of juxtaposition. -/
def apply : Nat := 110

/-- The power of an operator after its operand. -/
def trailing : Nat := 115

/-- The power of a member access. -/
def get : Nat := 120

/-- The power of what needs no brackets anywhere. -/
def atom : Nat := 1000

end Power

namespace Operator

/-- The least power of an operator on the right of this one. A chain of left-associative operators
groups to the left because the right operand has to bind tighter. -/
def rightPower (op : Operator) : Nat :=
  if op.fixity = .binary ∧ op.assoc = .left then op.power + 1 else op.power

/-- The operators between two operands. -/
def binaryTable : List Operator :=
  [⟨":", .binary, "define", Power.define, .right⟩,
   ⟨"?", .binary, "lambda", Power.lambda, .right⟩,
   ⟨",", .binary, "product", Power.product, .left⟩,
   ⟨"~", .binary, "range", Power.range, .left⟩,
   ⟨"|", .binary, "or", 40, .left⟩,
   ⟨";", .binary, "xor", 41, .left⟩,
   ⟨"&", .binary, "and", 50, .left⟩,
   ⟨"<", .binary, "less", 70, .left⟩,
   ⟨"<=", .binary, "less_eq", 70, .left⟩,
   ⟨"=", .binary, "eq", 70, .left⟩,
   ⟨"==", .binary, "eq", 70, .left⟩,
   ⟨">=", .binary, "more_eq", 70, .left⟩,
   ⟨">", .binary, "more", 70, .left⟩,
   ⟨"!=", .binary, "neq", 70, .left⟩,
   ⟨"+", .binary, "add", 80, .left⟩,
   ⟨"-", .binary, "sub", 80, .left⟩,
   ⟨"*", .binary, "mul", 90, .left⟩,
   ⟨"/", .binary, "div", 90, .left⟩,
   ⟨"%", .binary, "mod", 90, .left⟩,
   ⟨"^", .binary, "power", 100, .right⟩,
   ⟨"'", .binary, "get", Power.get, .left⟩]

/-- The operators before their operand. The bar is written on both sides of its operand; its entry
names the absolute value. -/
def leadingTable : List Operator :=
  [⟨"#", .leading, "export", Power.define, .left⟩,
   ⟨"@", .leading, "import", Power.define, .left⟩,
   ⟨"-", .leading, "negate", Power.leading, .left⟩,
   ⟨"!", .leading, "not", Power.leading, .left⟩,
   ⟨"~", .leading, "rest", Power.leading, .left⟩,
   ⟨"$", .leading, "address", Power.leading, .left⟩,
   ⟨"|", .leading, "abs", Power.atom, .left⟩]

/-- The operators after their operand. -/
def trailingTable : List Operator :=
  [⟨"!", .trailing, "factorial", Power.trailing, .left⟩,
   ⟨"~", .trailing, "spread", Power.trailing, .left⟩]

/-- The entry of a symbol between two operands. -/
def binary? (symbol : String) : Option Operator :=
  binaryTable.find? (·.symbol = symbol)

/-- The entry of a symbol before its operand. -/
def leading? (symbol : String) : Option Operator :=
  leadingTable.find? (·.symbol = symbol)

/-- The entry of a symbol after its operand. -/
def trailing? (symbol : String) : Option Operator :=
  trailingTable.find? (·.symbol = symbol)

/-- The entry of a symbol at a fixity. -/
def find? (symbol : String) : Fixity → Option Operator
  | .leading => leading? symbol
  | .binary => binary? symbol
  | .trailing => trailing? symbol

/-- The symbols whose right operand may be a block of indented lines. -/
def blockSymbols : List String :=
  [":", "?"]

/-- The symbol that encloses an absolute value. -/
def bar : String :=
  "|"

/-- A symbol may stand in a group without its left operand. -/
def isPointFree (symbol : String) : Bool :=
  (binary? symbol).isSome && !blockSymbols.contains symbol

/-- A symbol may stand before an operand. A bar that encloses its operand is a bracket, so the
operator of that symbol never does. -/
def leadsOperand (symbol : String) : Bool :=
  symbol ≠ bar && (leading? symbol).isSome

end Operator

end SignLang
