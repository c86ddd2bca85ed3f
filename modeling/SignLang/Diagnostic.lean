import SignLang.Token

/-!
# Diagnostics

What a reader of the front end is told when a text is refused: the stage that refused it, why, and
where. A diagnostic of the parser also shows a window of the tokens around the offending one.
-/

namespace SignLang

/-- The stage of the front end that refuses a text. -/
inductive Stage where
  | general
  | lexical
  | layout
  | parsing
deriving DecidableEq, Repr

/-- The name of a stage in diagnostics. -/
def Stage.name : Stage → String
  | .general => "syntax"
  | .lexical => "lex"
  | .layout => "structure"
  | .parsing => "parse"

/-- The lexeme of a token as a window shows it. -/
def Token.windowText (t : Token) : String :=
  match t.kind with
  | .ending => "<eof>"
  | .separator => "<sep>"
  | _ => t.lexeme

/-- The lexemes at most `radius` away from position `index`, the one at `index` marked. A position
outside the list marks nothing. -/
def window (tokens : List Token) (index radius : Int) : String :=
  let near := tokens.zipIdx.filter fun (_, i) => index - radius ≤ i && i ≤ index + radius
  " ".intercalate <| near.map fun (t, i) =>
    if index = i then ">>" ++ t.windowText ++ "<<" else t.windowText

/-- How many tokens a diagnostic shows on either side of the offending one. -/
def windowRadius : Int := 3

/-- A refusal: the stage, the reason and the place. -/
structure Diagnostic where
  stage : Stage
  message : String
  line : Int
  column : Int
  lexeme : Option String
  window : Option String
deriving DecidableEq, Repr

namespace Diagnostic

/-- A refusal by the layout stage, at a token. -/
def ofLayout (message : String) (token : Token) : Diagnostic :=
  { stage := .layout, message, line := token.line, column := token.column,
    lexeme := some token.lexeme, window := none }

/-- A refusal by the parser, at a token if there is one. The end of the input has no lexeme. -/
def ofParser (message : String) (token : Option Token) (window : String) : Diagnostic :=
  match token with
  | none =>
    { stage := .parsing, message, line := 0, column := 0, lexeme := none, window := some window }
  | some t =>
    { stage := .parsing, message, line := t.line, column := t.column,
      lexeme := if t.kind = .ending then none else some t.lexeme, window := some window }

/-- The reason, followed by the place. -/
def summary (d : Diagnostic) : String :=
  s!"{d.message} at line {d.line}, col {d.column}"

/-- The line that a command prints about the refusal. -/
def report (d : Diagnostic) : String :=
  s!"{d.stage.name} error at {d.line}:{d.column}: {d.message}"

end Diagnostic

end SignLang
