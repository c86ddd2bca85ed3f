import SignLang.Cursor

/-!
# Outcomes of the parser

Why the parser refuses a token list, and what it leaves behind. A failure knows two places: the
token to blame, which is where it is reported, and the token at which the parser stood.
-/

namespace SignLang.Parser

/-- Why a token list is refused. -/
inductive Fault where
  | unmatchedClosing (closer : Token)
  | unmatchedOpening (opener : Token)
  | mismatched (opener closer : Token)
  | leftOver (found : Token)
  | missingOperand (operator found : Token)
  | expectedOperand (found : Token)
  | badParameters
  | emptyBars
  | unclosed (opener found : Token)
  | tooDeep
deriving DecidableEq, Repr

/-- The wording of a fault. -/
def Fault.message : Fault → String
  | unmatchedClosing closer => s!"Unmatched closing bracket '{closer.lexeme}'"
  | unmatchedOpening opener => s!"Unmatched opening bracket '{opener.lexeme}'"
  | mismatched opener closer =>
    s!"Mismatched brackets: '{opener.lexeme}' at line {opener.line}, col {opener.column} " ++
      s!"closed by '{closer.lexeme}'"
  | leftOver found => s!"Unexpected {found.describe} after complete expression"
  | missingOperand operator found =>
    s!"Missing operand after '{operator.lexeme}', got {found.describe}"
  | expectedOperand found => s!"Expected an operand, got {found.describe}"
  | badParameters => "Lambda parameters must be identifiers"
  | emptyBars => "Empty absolute-value group"
  | unclosed opener found =>
    s!"Unexpected {found.describe} in group opened at line {opener.line}, col {opener.column}"
  | tooDeep => "Expression nested too deeply"

/-- A fault, the place to blame, and the place where the parser stood. -/
structure Failure where
  fault : Fault
  culprit : Cursor
  stopped : Cursor
deriving DecidableEq, Repr

/-- The refusal that a failure is reported as. -/
def Failure.diagnostic (f : Failure) : Diagnostic :=
  Diagnostic.ofParser f.fault.message (some f.culprit.here) f.culprit.window

/-- A failure at the place where the parser stands. -/
def fail {α : Type} (fault : Fault) (c : Cursor) : Except Failure α :=
  .error { fault, culprit := c, stopped := c }

/-- A failure that another place is to blame for. -/
def blame {α : Type} (fault : Fault) (culprit stopped : Cursor) : Except Failure α :=
  .error { fault, culprit, stopped }

end SignLang.Parser
