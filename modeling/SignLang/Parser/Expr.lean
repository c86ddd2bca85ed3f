import SignLang.Parser.Brackets

/-!
# The parser

Expressions are read by climbing binding powers: an operand, and then every operator that binds at
least as tightly as asked for, with an operand of its own on the right. The powers are those of the
operator table.

The functions below read one form each and are given the reader for the expressions inside it.
`parseExpr` ties the knot: its first argument is the number of expressions that may be nested in
one another. A loop has a turn for each token ahead of it, which is enough because each turn reads
at least one.
-/

namespace SignLang.Parser

/-- A reader of expressions whose operators have at least a given power. -/
abbrev Reader := Nat → Cursor → Except Failure (Expr × Cursor)

/-- How many expressions may be nested in one another. -/
def maxDepth : Nat := 256

/-- What has been read on the left of the cursor. An application or a list that the same loop has
built takes further arguments or elements. -/
inductive Left where
  | single (e : Expr)
  | applied (function : Expr) (arguments : List Expr)
  | listed (elements : List Expr)
deriving DecidableEq, Repr

namespace Left

/-- The expression on the left. -/
def expr : Left → Expr
  | single e => e
  | applied function arguments => .apply function arguments
  | listed elements => .list elements

/-- One more argument. -/
def argument (left : Left) (e : Expr) : Left :=
  match left with
  | applied function arguments => applied function (arguments ++ [e])
  | left => applied left.expr [e]

/-- One more element. -/
def element (left : Left) (e : Expr) : Left :=
  match left with
  | listed elements => listed (elements ++ [e])
  | left => listed [left.expr, e]

end Left

/-- The name of an identifier. -/
def nameOf? : Expr → Option String
  | .identifier name => some name
  | _ => none

/-- The parameters that an expression before a question mark names: an identifier, or an identifier
applied to identifiers. -/
def paramsOf? : Expr → Option (List Parameter)
  | .identifier name => some [⟨name, false⟩]
  | .apply function arguments =>
    ((function :: arguments).mapM nameOf?).map (·.map (⟨·, false⟩))
  | _ => none

/-- The expression that a binary operator makes of its operands. -/
def joined (symbol : String) (left right : Expr) : Expr :=
  if symbol = ":" ∧ (nameOf? left).isSome then .define left right
  else if symbol = "~" then .range left right
  else if symbol = "'" then .get left right
  else .binary symbol left right

/-- Reads the operand that the operator at `operator` waits for, from `c` on. -/
def parseRight (parse : Reader) (operator : Cursor) (power : Nat) (c : Cursor) :
    Except Failure (Expr × Cursor) :=
  if c.here.startsOperand then parse power c
  else blame (.missingOperand operator.here c.here) operator c

/-- Reads statements that separators divide, up to a closing bracket or the end of the input. -/
def parseStatements (parse : Reader) (turns : List Token) (c : Cursor) :
    Except Failure (List Expr × Cursor) :=
  if c.here.kind = .closing || c.here.kind = .ending then .ok ([], c)
  else do
    let (e, c) ← parse 0 c
    if c.here.kind = .separator then
      match turns with
      | [] => fail .tooDeep c
      | _ :: turns =>
        let (es, c) ← parseStatements parse turns c.advance
        return (e :: es, c)
    else
      return ([e], c)
termination_by structural turns

/-- A sequence of statements is a block, unless it is a single one. -/
def sequenced : List Expr → Expr
  | [e] => e
  | es => .block es

/-- Reads a sequence of statements. -/
def parseSequence (parse : Reader) (c : Cursor) : Except Failure (Expr × Cursor) := do
  let (es, c) ← parseStatements parse c.after c
  return (sequenced es, c)

/-- Moves over the closing bracket of the group that `opener` opens. -/
def expectClosing (opener c : Cursor) : Except Failure Cursor :=
  if c.here.kind = .closing then .ok c.advance
  else fail (.unclosed opener.here c.here) c

/-- Reads the inside of a group that lacks its left operand: an operator, and perhaps its right
operand, which a comma or a separator may follow. -/
def parsePointFree (parse : Reader) (c : Cursor) : Except Failure (Expr × Cursor) :=
  let inner := c.advance
  if inner.here.kind = .closing then .ok (.pointFree c.here.lexeme none, inner)
  else do
    let (preset, d) ← parseRight parse c (Power.product + 1) inner
    let rest := if d.here.isSymbol "," || d.here.kind = .separator then d.advance else d
    return (.pointFree c.here.lexeme (some preset), rest)

/-- Reads a group, from its opening bracket on. -/
def parseGroup (parse : Reader) (c : Cursor) : Except Failure (Expr × Cursor) :=
  let inner := c.advance
  if c.here.lexeme = Operator.bar then
    if inner.here.kind = .closing then blame .emptyBars c inner
    else do
      let (e, d) ← parseSequence parse inner
      let rest ← expectClosing c d
      return (.unary Operator.bar true e, rest)
  else if inner.here.kind = .closing then .ok (.emptyList, inner.advance)
  else do
    let (e, d) ← if inner.headsPointFree then parsePointFree parse inner
      else parseSequence parse inner
    let rest ← expectClosing c d
    return (e, rest)

/-- Reads a definition, from its name on. -/
def parseDefine (parse : Reader) (c : Cursor) : Except Failure (Expr × Cursor) := do
  let colon := c.advance
  let (value, d) ← parseRight parse colon Power.define colon.advance
  return (.define (.identifier c.here.lexeme) value, d)

/-- Reads a function with the parameters `params`, from the first of them on. -/
def parseLambda (parse : Reader) (params : List Parameter) (c : Cursor) :
    Except Failure (Expr × Cursor) := do
  let question := c.skip (Parameter.listWidth params)
  let (body, d) ← parseRight parse question Power.lambda question.advance
  return (.lambda params body, d)

/-- Reads an operand by its first token alone. -/
def parsePrimary (parse : Reader) (c : Cursor) : Except Failure (Expr × Cursor) :=
  match c.here.kind with
  | .identifier => .ok (.identifier c.here.lexeme, c.advance)
  | .number => .ok (.literal .number c.here.payload, c.advance)
  | .string => .ok (.literal .string c.here.payload, c.advance)
  | .character => .ok (.literal .character c.here.payload, c.advance)
  | .unit => .ok (.unit, c.advance)
  | .opening => parseGroup parse c
  | .operator =>
    if c.here.lexeme = "?" then parseLambda parse [] c
    else
      match (if c.here.lexeme = Operator.bar then none else Operator.leading? c.here.lexeme) with
      | some op => do
        let (operand, d) ← parseRight parse c op.rightPower c.advance
        return (.unary c.here.lexeme true operand, d)
      | none => fail (.expectedOperand c.here) c
  | _ => fail (.expectedOperand c.here) c

/-- A definition starts at the cursor: a name, and a colon directly after it. -/
def startsDefine (c : Cursor) : Bool :=
  c.here.kind = .identifier && c.next.isSymbol ":"

theorem startsDefine_iff {c : Cursor} :
    startsDefine c ↔ c.here.kind = .identifier ∧ c.next.isSymbol ":" := by
  simp [startsDefine]

/-- Reads an operand, or a definition or a function if the power asked for admits one. -/
def parseOperand (parse : Reader) (power : Nat) (c : Cursor) : Except Failure (Expr × Cursor) :=
  if power ≤ Power.define && startsDefine c then parseDefine parse c
  else
    match (if power ≤ Power.lambda then c.lambdaHead? else none) with
    | some params => parseLambda parse params c
    | none => parsePrimary parse c

/-- What the token after an operand does. -/
inductive Move where
  | stop
  | trail
  | join (op : Operator)
  | argue
deriving DecidableEq, Repr

/-- A token that can start an operand makes it an argument, if the power asked for admits one. -/
def argumentMove (power : Nat) (t : Token) : Move :=
  if power ≤ Power.apply && t.startsOperand then .argue else .stop

/-- The token at the cursor stands after the operand on its left and binds tightly enough. -/
def trails (power : Nat) (c : Cursor) : Bool :=
  (Operator.trailing? c.here.lexeme).any (power ≤ ·.power) && c.isTrailing

/-- What the token at the cursor does, with an operand on its left. -/
def moveAt (power : Nat) (c : Cursor) : Move :=
  if c.here.kind = .operator then
    if trails power c then .trail
    else
      match Operator.binary? c.here.lexeme with
      | some op => if op.power < power then .stop else .join op
      | none => argumentMove power c.here
  else argumentMove power c.here

/-- Reads the right operand of the binary operator at the cursor and joins it to the left. -/
def parseJoin (parse : Reader) (op : Operator) (left : Left) (c : Cursor) :
    Except Failure (Left × Cursor) :=
  if c.here.lexeme = "," then do
    let (e, d) ← parseRight parse c op.rightPower c.advance
    return (left.element e, d)
  else if c.here.lexeme = "?" then
    match paramsOf? left.expr with
    | none => blame .badParameters c c.advance
    | some params => do
      let (body, d) ← parseRight parse c op.rightPower c.advance
      return (.single (.lambda params body), d)
  else do
    let (right, d) ← parseRight parse c op.rightPower c.advance
    return (.single (joined c.here.lexeme left.expr right), d)

/-- Takes in what follows an operand, as long as it binds tightly enough. -/
def climb (parse : Reader) (power : Nat) (turns : List Token) (left : Left) (c : Cursor) :
    Except Failure (Expr × Cursor) :=
  match moveAt power c, turns with
  | .stop, _ => .ok (left.expr, c)
  | _, [] => fail .tooDeep c
  | .trail, _ :: turns =>
    climb parse power turns (.single (.unary c.here.lexeme false left.expr)) c.advance
  | .join op, _ :: turns => do
    let (left, c) ← parseJoin parse op left c
    climb parse power turns left c
  | .argue, _ :: turns => do
    let (e, c) ← parse (Power.apply + 1) c
    climb parse power turns (left.argument e) c
termination_by structural turns

/-- Reads an expression whose operators have at least the power asked for. -/
def parseExpr : Nat → Reader
  | 0, _, c => fail .tooDeep c
  | depth + 1, power, c => do
    let (e, c) ← parseOperand (parseExpr depth) power c
    climb (parseExpr depth) power c.after (.single e) c

/-- Reads all of a token list, from the cursor on, once its brackets are known to match. -/
def parseAll (depth : Nat) (c : Cursor) : Except Failure (Expr × Cursor) := do
  checkBrackets c
  let (e, c) ← parseSequence (parseExpr depth) c
  if c.here.kind = .ending then return (e, c)
  else fail (.leftOver c.here) c

end SignLang.Parser

namespace SignLang

/-- The expression that a list of laid-out tokens writes, with at most `depth` expressions nested in
one another. -/
def buildWithin (depth : Nat) (tokens : List Token) : Except Parser.Failure Expr :=
  (Parser.parseAll depth (Cursor.ofTokens tokens)).map (·.1)

/-- The expression that a list of laid-out tokens writes. -/
def build (tokens : List Token) : Except Parser.Failure Expr :=
  buildWithin Parser.maxDepth tokens

end SignLang
