import SignLang.Layout
import SignLang.Parser.Expr
import SignLang.Scanner.Run

/-!
# Programs

The whole front end: a text is scanned, laid out and parsed, and the first stage that refuses it
has the last word.
-/

namespace SignLang

/-- The refusal of a text, by the stage that refuses it. -/
inductive Refusal where
  | lexical (failure : Scanner.Failure)
  | layout (failure : Layout.Failure)
  | parsing (failure : Parser.Failure)
deriving DecidableEq, Repr

/-- A refusal as it is reported. -/
def Refusal.diagnostic : Refusal → Diagnostic
  | lexical failure => failure.diagnostic
  | layout failure => failure.diagnostic
  | parsing failure => failure.diagnostic

/-- How deep a text may be nested: its levels of indentation and its expressions. -/
structure Limits where
  levels : Nat
  depth : Nat
deriving DecidableEq, Repr

/-- The limits of the front end. -/
def Limits.standard : Limits :=
  { levels := Layout.maxLevel, depth := Parser.maxDepth }

/-- The laid-out tokens of a text, within limits. -/
def layOutWithin (limits : Limits) (text : String) : Except Refusal (List Token) := do
  let tokens ← (scan text).mapError .lexical
  (normalizeWithin limits.levels tokens).mapError .layout

/-- The expression that a text writes, within limits. -/
def parseWithin (limits : Limits) (text : String) : Except Refusal Expr := do
  let tokens ← layOutWithin limits text
  (buildWithin limits.depth tokens).mapError .parsing

/-- The laid-out tokens of a text. -/
def layOut (text : String) : Except Refusal (List Token) :=
  layOutWithin .standard text

/-- The expression that a text writes. -/
def parse (text : String) : Except Refusal Expr :=
  parseWithin .standard text

end SignLang
