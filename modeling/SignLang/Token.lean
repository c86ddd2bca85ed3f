import SignLang.Text.Quoted

/-!
# Tokens

A token is a lexeme with its kind and its place in the text. Tokens that stand for indentation are
not written in the text: they borrow the place of a written token and are marked synthetic.

* `Token.stop`, `Token.level`, `Token.payload` read a token's data off its lexeme.
* `Token.borrow` makes a synthetic token.
* `Token.dump` and `Token.describe` are the two ways in which a token is shown.
-/

namespace SignLang

/-- What a token is. -/
inductive Kind where
  | identifier
  | number
  | string
  | character
  | unit
  | operator
  | opening
  | closing
  | separator
  | indent
  | newline
  | ending
deriving DecidableEq, Repr

namespace Kind

/-- All kinds, in the order of their declaration. -/
def all : List Kind :=
  [identifier, number, string, character, unit, operator, opening, closing, separator, indent,
   newline, ending]

/-- The name of a kind in token dumps. -/
def label : Kind → String
  | identifier => "IDENT"
  | number => "NUMBER"
  | string => "STRING"
  | character => "CHAR"
  | unit => "UNIT"
  | operator => "OPERATOR"
  | opening => "OPEN"
  | closing => "CLOSE"
  | separator => "SEPARATOR"
  | indent => "INDENT"
  | newline => "NEWLINE"
  | ending => "EOF"

/-- The kind that a dump calls `label`. -/
def ofLabel? (label : String) : Option Kind :=
  all.find? fun kind => kind.label = label

end Kind

/-- A lexeme, its kind and its place. Lines and columns count from one, offsets from zero, all in
characters; a token built by hand may stand anywhere, also before the text. -/
structure Token where
  kind : Kind
  lexeme : String
  line : Int
  column : Int
  offset : Int
  synthetic : Bool
deriving DecidableEq, Repr

namespace Token

/-- The offset just after the lexeme. -/
def stop (t : Token) : Int :=
  t.offset + t.lexeme.length

/-- The depth of an indentation token, zero for every other kind. -/
def level (t : Token) : Nat :=
  if t.kind = .indent then t.lexeme.length else 0

/-- The lexeme without the marks that delimit a string or character literal. -/
def payload (t : Token) : String :=
  match t.kind with
  | .string => String.ofList (t.lexeme.toList.drop 1).dropLast
  | .character => String.ofList (t.lexeme.toList.drop 1)
  | _ => t.lexeme

/-- A synthetic token at the place of `t`. -/
def borrow (t : Token) (kind : Kind) (lexeme : String) : Token :=
  { t with kind, lexeme, synthetic := true }

/-- The token is an operator; if any symbols are given, one of them. -/
def isOperator (t : Token) (symbols : List String) : Bool :=
  t.kind = .operator && (symbols.isEmpty || symbols.contains t.lexeme)

/-- The token is the operator `symbol`. -/
def isSymbol (t : Token) (symbol : String) : Bool :=
  t.kind = .operator && t.lexeme = symbol

theorem isOperator_iff {t : Token} {symbols : List String} :
    t.isOperator symbols ↔ t.kind = .operator ∧ (symbols = [] ∨ t.lexeme ∈ symbols) := by
  simp [isOperator]

/-- Only operators are given symbols. -/
theorem kind_of_isOperator {t : Token} {symbols : List String} (h : t.isOperator symbols) :
    t.kind = .operator :=
  (isOperator_iff.mp h).1

theorem isSymbol_iff {t : Token} {symbol : String} :
    t.isSymbol symbol ↔ t.kind = .operator ∧ t.lexeme = symbol := by
  simp [isSymbol]

theorem isSymbol_of_kind {t : Token} (h : t.kind ≠ .operator) (symbol : String) :
    t.isSymbol symbol = false := by
  simp [isSymbol, h]

theorem isSymbol_of_lexeme {t : Token} {symbol : String} (h : t.lexeme ≠ symbol) :
    t.isSymbol symbol = false := by
  simp [isSymbol, h]

/-- The token on one line, with its kind and place. -/
def dump (t : Token) : String :=
  s!"Tok({t.kind.label}, {Text.quoted t.lexeme}, {t.line}:{t.column})"

/-- The token as a message names it. -/
def describe (t : Token) : String :=
  match t.kind with
  | .ending => "end of input"
  | .separator => "line break"
  | _ => s!"'{t.lexeme}'"

/-- The end of an empty text. -/
def emptyEnding : Token :=
  { kind := .ending, lexeme := "", line := 1, column := 1, offset := 0, synthetic := false }

end Token

end SignLang
