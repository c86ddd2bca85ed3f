import SignLang.Proofs.Parser.Closing
import SignLang.Proofs.Parser.General

/-!
# The parser at positions

A cursor has a token at hand wherever it stands. A parser that keeps a position instead has to look the token up,
and a position may be outside of the list. `Positions.parseExpr` is the parser that reads at positions: it looks up
every token that it asks for, one after the other, moves its position by counting, and takes the parameters of a
function one by one, from the head that it has measured before. It stops where a position is outside of the list,
and where a loop takes more turns than there are tokens (`Positions.Stop`).

At a cursor of a list that ends with the end of the input, all that is looked up is there (`Positions.peek_index`,
`Positions.headLength_index`, `Positions.readParameters_index`).
-/

namespace SignLang

open Cursor SignLang.Parser

namespace Positions

/-- Why reading at positions ends without an expression. -/
inductive Stop where
  | outside (position : Nat)
  | endless
  | refused (fault : Fault) (culprit stopped : Nat)
deriving DecidableEq, Repr

/-- A failure, at positions. -/
def Stop.ofFailure (f : Failure) : Stop :=
  .refused f.fault f.culprit.index f.stopped.index

/-- What reading at positions comes to. -/
abbrev Outcome (α : Type) :=
  Except Stop α

/-- A reader of expressions, from a position on. -/
abbrev Reader :=
  Nat → Nat → Outcome (Expr × Nat)

section Parser

variable (tokens : List Token)

/-! ## Looking up and moving on -/

/-- The token at a position. -/
def tokenAt (i : Nat) : Outcome Token :=
  match tokens[i]? with
  | some t => .ok t
  | none => .error (.outside i)

/-- The token at a distance from a position; the last one if there is none. -/
def peek (i : Nat) (distance : Int) : Outcome Token :=
  if 0 ≤ i + distance ∧ i + distance < tokens.length then tokenAt tokens (i + distance).toNat
  else tokenAt tokens (tokens.length - 1)

/-- The position after one that is not the last. -/
def advance (i : Nat) : Outcome Nat :=
  if i + 1 < tokens.length then do
    let _ ← tokenAt tokens (i + 1)
    return i + 1
  else return i

/-- Refuses the list, and looks up the token to blame for the report. -/
def refuse {α : Type} (fault : Fault) (culprit stopped : Nat) : Outcome α := do
  let _ ← tokenAt tokens culprit
  .error (.refused fault culprit stopped)

/-! ## Looking ahead -/

/-- A definition starts at the position. -/
def startsDefine (i : Nat) : Outcome Bool := do
  let t ← tokenAt tokens i
  if t.kind = .identifier then
    let next ← peek tokens i 1
    return next.isSymbol ":"
  else return false

/-- The first position from `i` on that is not a name. -/
def pastNames (i : Nat) : Outcome Nat :=
  match h : tokens[i]? with
  | some t => if t.kind = .identifier then pastNames (i + 1) else .ok i
  | none => .error (.outside i)
termination_by tokens.length - i
decreasing_by
  have := (List.getElem?_eq_some_iff.1 h).1
  omega

/-- The position after a rest parameter, or the position itself if none is there. -/
def pastRest (i : Nat) : Outcome Nat := do
  let t ← tokenAt tokens i
  if t.isSymbol "~" then
    let name ← tokenAt tokens (i + 1)
    return if name.kind = .identifier then i + 2 else i
  else return i

/-- How many tokens of parameters are at the position, if a question mark follows them, and zero otherwise. -/
def headLength (i : Nat) : Outcome Nat := do
  let j ← pastNames tokens i
  let k ← pastRest tokens j
  if i < k then
    let question ← tokenAt tokens k
    return if question.isSymbol "?" then k - i else 0
  else return 0

/-- The token at the position stands after its operand. -/
def isTrailing (i : Nat) : Outcome Bool := do
  let t ← tokenAt tokens i
  let next ← peek tokens i 1
  if t.lexeme = "~" then return !next.startsOperand
  else
    let previous ← peek tokens i (-1)
    return previous.touches t && !previous.synthetic || !next.startsOperand

/-- The token at the position heads a group that lacks its left operand. -/
def headsPointFree (i : Nat) : Outcome Bool := do
  let t ← tokenAt tokens i
  if t.kind = .operator && Operator.isPointFree t.lexeme then
    let next ← peek tokens i 1
    return !(Operator.leadsOperand t.lexeme && t.touches next && !next.synthetic && next.startsOperand)
  else return false

/-- The token at the position stands after its operand and binds tightly enough. -/
def trails (power i : Nat) : Outcome Bool := do
  let t ← tokenAt tokens i
  if (Operator.trailing? t.lexeme).any (power ≤ ·.power) then isTrailing tokens i else return false

/-- What the token at the position does, with an operand on its left. -/
def moveAt (power i : Nat) : Outcome Move := do
  let t ← tokenAt tokens i
  if t.kind = .operator then
    let trailing ← trails tokens power i
    if trailing then return .trail
    else
      match Operator.binary? t.lexeme with
      | some op => return if op.power < power then .stop else .join op
      | none => return argumentMove power t
  else return argumentMove power t

/-- The position after the comma or separator that may end a group without left operand. -/
def pastComma (i : Nat) : Outcome Nat := do
  let t ← tokenAt tokens i
  if t.isSymbol "," || t.kind = .separator then advance tokens i else return i

/-! ## Reading -/

/-- Takes parameters up to a question mark. -/
def readParameters : Nat → Nat → Outcome (List Parameter × Nat)
  | 0, _ => .error .endless
  | turns + 1, i => do
    let t ← tokenAt tokens i
    if t.isSymbol "?" then return ([], i)
    else if t.isSymbol "~" then
      let j ← advance tokens i
      let name ← tokenAt tokens j
      let k ← advance tokens j
      let (params, l) ← readParameters turns k
      return (⟨name.lexeme, true⟩ :: params, l)
    else
      let j ← advance tokens i
      let (params, k) ← readParameters turns j
      return (⟨t.lexeme, false⟩ :: params, k)

variable (parse : Reader)

/-- Reads the operand that the operator at a position waits for. -/
def parseRight (operator power i : Nat) : Outcome (Expr × Nat) := do
  let t ← tokenAt tokens i
  if t.startsOperand then parse power i
  else
    let op ← tokenAt tokens operator
    refuse tokens (.missingOperand op t) operator i

/-- Reads statements that separators divide. -/
def parseStatements : Nat → Nat → Outcome (List Expr × Nat)
  | 0, _ => .error .endless
  | turns + 1, i => do
    let t ← tokenAt tokens i
    if t.kind = .closing || t.kind = .ending then return ([], i)
    else
      let (e, j) ← parse 0 i
      let u ← tokenAt tokens j
      if u.kind = .separator then
        let k ← advance tokens j
        let (es, l) ← parseStatements turns k
        return (e :: es, l)
      else return ([e], j)

/-- Reads a sequence of statements. -/
def parseSequence (i : Nat) : Outcome (Expr × Nat) := do
  let (es, j) ← parseStatements tokens parse tokens.length i
  return (sequenced es, j)

/-- Moves over the closing bracket of the group that is opened at a position. -/
def expectClosing (opener i : Nat) : Outcome Nat := do
  let t ← tokenAt tokens i
  if t.kind = .closing then advance tokens i
  else
    let o ← tokenAt tokens opener
    refuse tokens (.unclosed o t) i i

/-- Reads the inside of a group that lacks its left operand. -/
def parsePointFree (i : Nat) : Outcome (Expr × Nat) := do
  let op ← tokenAt tokens i
  let inner ← advance tokens i
  let t ← tokenAt tokens inner
  if t.kind = .closing then return (.pointFree op.lexeme none, inner)
  else
    let (preset, j) ← parseRight tokens parse i (Power.product + 1) inner
    let rest ← pastComma tokens j
    return (.pointFree op.lexeme (some preset), rest)

/-- Reads the inside of a group. -/
def parseInside (i : Nat) : Outcome (Expr × Nat) := do
  let free ← headsPointFree tokens i
  if free then parsePointFree tokens parse i else parseSequence tokens parse i

/-- Reads a group, from its opening bracket on. -/
def parseGroup (i : Nat) : Outcome (Expr × Nat) := do
  let opener ← tokenAt tokens i
  let inner ← advance tokens i
  let t ← tokenAt tokens inner
  if opener.lexeme = Operator.bar then
    if t.kind = .closing then refuse tokens .emptyBars i inner
    else
      let (e, j) ← parseSequence tokens parse inner
      let rest ← expectClosing tokens i j
      return (.unary Operator.bar true e, rest)
  else if t.kind = .closing then
    let rest ← expectClosing tokens i inner
    return (.emptyList, rest)
  else
    let (e, j) ← parseInside tokens parse inner
    let rest ← expectClosing tokens i j
    return (e, rest)

/-- Reads a definition, from its name on. -/
def parseDefine (i : Nat) : Outcome (Expr × Nat) := do
  let name ← tokenAt tokens i
  let colon ← advance tokens i
  let j ← advance tokens colon
  let (value, k) ← parseRight tokens parse colon Power.define j
  return (.define (.identifier name.lexeme) value, k)

/-- Reads a function, from its first parameter on. -/
def parseLambda (i : Nat) : Outcome (Expr × Nat) := do
  let (params, question) ← readParameters tokens tokens.length i
  let j ← advance tokens question
  let (body, k) ← parseRight tokens parse question Power.lambda j
  return (.lambda params body, k)

/-- Reads an operand by its first token alone. -/
def parsePrimary (i : Nat) : Outcome (Expr × Nat) := do
  let t ← tokenAt tokens i
  match t.kind with
  | .identifier => return (.identifier t.lexeme, ← advance tokens i)
  | .number => return (.literal .number t.payload, ← advance tokens i)
  | .string => return (.literal .string t.payload, ← advance tokens i)
  | .character => return (.literal .character t.payload, ← advance tokens i)
  | .unit => return (.unit, ← advance tokens i)
  | .opening => parseGroup tokens parse i
  | .operator =>
    if t.lexeme = "?" then
      let j ← advance tokens i
      let (body, k) ← parseRight tokens parse i Power.lambda j
      return (.lambda [] body, k)
    else
      match (if t.lexeme = Operator.bar then none else Operator.leading? t.lexeme) with
      | some op => do
        let j ← advance tokens i
        let (operand, k) ← parseRight tokens parse i op.rightPower j
        return (.unary t.lexeme true operand, k)
      | none => refuse tokens (.expectedOperand t) i i
  | _ => refuse tokens (.expectedOperand t) i i

/-- A definition starts at the position, and the power asked for admits one. -/
def definesAt (power i : Nat) : Outcome Bool :=
  if power ≤ Power.define then startsDefine tokens i else return false

/-- How many tokens of parameters are at the position, if a question mark follows them and the power asked for
admits a function, and zero otherwise. -/
def headWidth (power i : Nat) : Outcome Nat :=
  if power ≤ Power.lambda then headLength tokens i else return 0

/-- Reads an operand, or a definition or a function if the power asked for admits one. -/
def parseOperand (power i : Nat) : Outcome (Expr × Nat) := do
  let defines ← definesAt tokens power i
  if defines then parseDefine tokens parse i
  else
    let width ← headWidth tokens power i
    if width = 0 then parsePrimary tokens parse i else parseLambda tokens parse i

/-- Reads the right operand of the binary operator at a position and joins it to the left. -/
def parseJoin (op : Operator) (left : Left) (i : Nat) : Outcome (Left × Nat) := do
  let t ← tokenAt tokens i
  let j ← advance tokens i
  if t.lexeme = "," then
    let (e, k) ← parseRight tokens parse i op.rightPower j
    return (left.element e, k)
  else if t.lexeme = "?" then
    match paramsOf? left.expr with
    | none => refuse tokens .badParameters i j
    | some params => do
      let (body, k) ← parseRight tokens parse i op.rightPower j
      return (.single (.lambda params body), k)
  else
    let (right, k) ← parseRight tokens parse i op.rightPower j
    return (.single (joined t.lexeme left.expr right), k)

/-- Takes in what follows an operand, as long as it binds tightly enough. -/
def climb (power : Nat) : Nat → Left → Nat → Outcome (Expr × Nat)
  | 0, _, _ => .error .endless
  | turns + 1, left, i => do
    let t ← tokenAt tokens i
    let move ← moveAt tokens power i
    match move with
    | .stop => return (left.expr, i)
    | .trail => do
      let j ← advance tokens i
      climb power turns (.single (.unary t.lexeme false left.expr)) j
    | .join op => do
      let (left, j) ← parseJoin tokens parse op left i
      climb power turns left j
    | .argue => do
      let (e, j) ← parse (Power.apply + 1) i
      climb power turns (left.argument e) j

omit parse in
/-- Reads an expression whose operators have at least the power asked for. -/
def parseExpr : Nat → Reader
  | 0, _, i => refuse tokens .tooDeep i i
  | depth + 1, power, i => do
    let (e, j) ← parseOperand tokens (parseExpr depth) power i
    climb tokens (parseExpr depth) power tokens.length (.single e) j

omit parse in
/-- Reads all of the list, once its brackets are known to match. -/
def parseAll (depth : Nat) : Outcome (Expr × Nat) :=
  match bracketFault? tokens with
  | some (fault, culprit) => refuse tokens fault culprit 0
  | none => do
    let (e, i) ← parseSequence tokens (parseExpr tokens depth) 0
    let t ← tokenAt tokens i
    if t.kind = .ending then return (e, i)
    else refuse tokens (.leftOver t) i i

end Parser

/-- The expression that a list of laid-out tokens writes, read at positions. -/
def build (depth : Nat) (tokens : List Token) : Outcome Expr :=
  (parseAll (Cursor.ofTokens tokens).tokens depth).map (·.1)

/-! ## What is looked up is there -/

section Lookups

/-- What goes on after an outcome goes on with what it is. -/
lemma ok_bind {α β : Type} (a : α) (f : α → Outcome β) : (Except.ok a >>= f) = f a :=
  rfl

/-- What is returned is an outcome. -/
lemma pure_eq {α : Type} (a : α) : (pure a : Outcome α) = .ok a :=
  rfl

variable {tokens : List Token} {n : Nat} {c d : Cursor}

/-- A list has the tokens before a cursor, the one at hand, and those after it. -/
lemma length_tokens (c : Cursor) : c.tokens.length = c.index + 1 + c.after.length := by
  simp [Cursor.tokens, Cursor.index]
  omega

/-- The tokens ahead of a cursor are those from its position on. -/
lemma getElem?_index (h : c.tokens = tokens) (k : Nat) : tokens[c.index + k]? = c.ahead[k]? := by
  rw [← h, Cursor.tokens, List.getElem?_append_right (by simp [Cursor.index])]
  simp [Cursor.index, Cursor.ahead]

variable (h : c.tokens = tokens)
include h

/-- The token at hand is at the position of the cursor. -/
lemma tokenAt_index : tokenAt tokens c.index = .ok c.here := by
  have hget := getElem?_index h 0
  rw [Nat.add_zero] at hget
  rw [tokenAt, hget]
  rfl

/-- The last token is there. -/
lemma tokenAt_last : tokenAt tokens (tokens.length - 1) = .ok c.last := by
  have hlast : tokens[tokens.length - 1]? = some c.last := by
    rw [← List.getLast?_eq_getElem?, ← h]
    simp [Cursor.tokens, Cursor.last, List.getLast?_append, List.getLast?_cons]
  rw [tokenAt, hlast]

/-- What is looked up ahead of a cursor is there. -/
lemma peek_ahead (k : Nat) : peek tokens c.index (.ofNat k) = .ok (c.peek (.ofNat k)) := by
  have hlength := length_tokens c
  rw [h] at hlength
  unfold peek
  rw [Int.ofNat_eq_natCast]
  by_cases hk : k ≤ c.after.length
  · rw [if_pos (by omega), ← Nat.cast_add, Int.toNat_natCast, tokenAt, getElem?_index h]
    cases k with
    | zero => rfl
    | succ k =>
      obtain ⟨t, ht⟩ : ∃ t, c.after[k]? = some t := ⟨_, List.getElem?_eq_getElem hk⟩
      rw [Cursor.ahead, List.getElem?_cons_succ, ht]
      simp [Cursor.peek, List.getD_eq_getElem?_getD, ht]
  · rw [if_neg (by omega), tokenAt_last h]
    obtain ⟨k, rfl⟩ := Nat.exists_eq_succ_of_ne_zero (by omega : k ≠ 0)
    simp [Cursor.peek, show c.after.length ≤ k by omega]

/-- What is looked up behind a cursor is there. -/
lemma peek_behind (k : Nat) : peek tokens c.index (.negSucc k) = .ok (c.peek (.negSucc k)) := by
  have hlength := length_tokens c
  rw [h] at hlength
  have hindex : c.index = c.before.length := rfl
  unfold peek
  by_cases hk : k < c.before.length
  · obtain ⟨t, ht⟩ : ∃ t, c.before[k]? = some t := ⟨_, List.getElem?_eq_getElem hk⟩
    have hto : ((c.index : Int) + Int.negSucc k).toNat = c.before.length - 1 - k := by omega
    have hget : tokens[c.before.length - 1 - k]? = some t := by
      rw [← h, Cursor.tokens, List.getElem?_append_left (by rw [List.length_reverse]; omega),
        List.getElem?_reverse (by omega), ← ht]
      congr 1
      omega
    rw [if_pos (by omega), hto, tokenAt, hget]
    simp [Cursor.peek, List.getD_eq_getElem?_getD, ht]
  · rw [if_neg (by omega), tokenAt_last h]
    simp [Cursor.peek, not_lt.1 hk]

/-- What is looked up at a distance from a cursor is there. -/
theorem peek_index (distance : Int) : peek tokens c.index distance = .ok (c.peek distance) := by
  cases distance with
  | ofNat k => exact peek_ahead h k
  | negSucc k => exact peek_behind h k

/-- The next token is there. -/
lemma peek_next : peek tokens c.index 1 = .ok c.next := by
  rw [peek_index h]
  cases hafter : c.after with
  | nil => simp [Cursor.peek, Cursor.next, Cursor.last, hafter]
  | cons t rest => simp [Cursor.peek, Cursor.next, hafter]

/-- The token before is there, or the last one for it. -/
lemma peek_previous : peek tokens c.index (-1) = .ok c.previous := by
  refine (peek_index h (.negSucc 0)).trans ?_
  cases hbefore : c.before with
  | nil => simp [Cursor.peek, Cursor.previous, hbefore]
  | cons t rest => simp [Cursor.peek, Cursor.previous, hbefore]

/-- Moving on stays in the list. -/
theorem advance_index : advance tokens c.index = .ok c.advance.index := by
  have hlength := length_tokens c
  rw [h] at hlength
  unfold advance
  cases hafter : c.after with
  | nil =>
    rw [if_neg (by simp [hlength, hafter]), show c.advance = c by simp [Cursor.advance, hafter]]
    rfl
  | cons t rest =>
    have hindex : c.advance.index = c.index + 1 := by simp [advance_eq hafter, Cursor.index]
    rw [if_pos (by simp [hlength, hafter]), ← hindex, tokenAt_index (c.tokens_advance.trans h)]
    rfl

/-- A refusal that blames a cursor of the list blames its position. -/
lemma refuse_index {α : Type} (fault : Fault) (stopped : Nat) :
    refuse tokens fault c.index stopped = (.error (.refused fault c.index stopped) : Outcome α) := by
  rw [refuse, tokenAt_index h]
  rfl

/-- Whether a definition starts is found out within the list. -/
lemma startsDefine_index : startsDefine tokens c.index = .ok (Parser.startsDefine c) := by
  rw [startsDefine, tokenAt_index h, ok_bind, peek_next h]
  unfold Parser.startsDefine
  split
  · next hk => simp [hk, ok_bind, pure_eq]
  · next hk => simp [hk, pure_eq]

/-- Whether an operator stands after its operand is found out within the list. -/
lemma isTrailing_index : isTrailing tokens c.index = .ok c.isTrailing := by
  rw [isTrailing, tokenAt_index h, ok_bind, peek_next h, ok_bind, peek_previous h]
  unfold Cursor.isTrailing
  split
  · rfl
  · rfl

/-- Whether a group lacks its left operand is found out within the list. -/
lemma headsPointFree_index : headsPointFree tokens c.index = .ok c.headsPointFree := by
  rw [headsPointFree, tokenAt_index h, ok_bind, peek_next h, Cursor.headsPointFree]
  split
  · next hop => rw [hop, Bool.true_and]; rfl
  · next hop => rw [Bool.eq_false_iff.2 hop, Bool.false_and]; rfl

/-- Whether an operator trails is found out within the list. -/
lemma trails_index (power : Nat) : trails tokens power c.index = .ok (Parser.trails power c) := by
  rw [trails, tokenAt_index h, ok_bind, isTrailing_index h, Parser.trails]
  split
  · next hpower => rw [hpower, Bool.true_and]
  · next hpower => rw [Bool.eq_false_iff.2 hpower, Bool.false_and]; rfl

/-- What a token does is found out within the list. -/
lemma moveAt_index (power : Nat) : moveAt tokens power c.index = .ok (Parser.moveAt power c) := by
  rw [moveAt, tokenAt_index h, ok_bind, trails_index h, ok_bind, Parser.moveAt]
  split
  · split
    · rfl
    · cases Operator.binary? c.here.lexeme <;> rfl
  · rfl

/-- The comma or separator that may end a group is moved over within the list. -/
lemma pastComma_index : pastComma tokens c.index = .ok (Parser.pastComma c).index := by
  rw [pastComma, tokenAt_index h, ok_bind, advance_index h, Parser.pastComma]
  split <;> rfl

end Lookups

/-! ## Heads of functions -/

section Heads

variable {tokens : List Token} {c d m : Cursor} {names : List Token} {params : List Parameter}

/-- Where a token follows, the cursor that is moved on stands at the next position. -/
lemma index_advance (hafter : c.after ≠ []) : c.advance.index = c.index + 1 := by
  obtain ⟨t, rest, heq⟩ := List.exists_cons_of_ne_nil hafter
  simp [advance_eq heq, Cursor.index]

/-- Names that are ahead are passed, as the end of the input is no name. -/
lemma exists_passes_names (c : Cursor) (ends : c.Ends) :
    ∃ d, c.Passes d (c.ahead.takeWhile (·.kind = .identifier)) ∧ d.here.kind ≠ .identifier ∧
      d.ahead = c.ahead.dropWhile (·.kind = .identifier) := by
  have hsplit := (List.takeWhile_append_dropWhile (p := (·.kind = .identifier)) (l := c.ahead)).symm
  cases hdrop : c.ahead.dropWhile (·.kind = .identifier) with
  | nil =>
    have hlast : c.last ∈ c.ahead :=
      List.mem_of_getLast? (by simp [Cursor.last, Cursor.ahead, List.getLast?_cons])
    have hkind := List.dropWhile_eq_nil_iff.1 hdrop _ hlast
    simp [show c.last.kind = .ending from ends] at hkind
  | cons t rest =>
    rw [hdrop] at hsplit
    obtain ⟨d, hpass, hahead⟩ := exists_passes hsplit
    refine ⟨d, hpass, ?_, hahead⟩
    have hhead := List.head?_dropWhile_not (·.kind = .identifier) c.ahead
    rw [hdrop] at hhead
    obtain ⟨rfl, -⟩ := List.cons.inj hahead
    simpa using hhead

/-- A rest parameter at a cursor is a tilde and a name, which are passed, and otherwise there is none. -/
lemma restOf_ahead (ends : c.Ends) :
    (c.here.isSymbol "~" ∧ c.advance.here.kind = .identifier) ∧ c.Passes c.advance.advance [c.here, c.advance.here] ∧
        Parameter.restOf c.ahead = [⟨c.advance.here.lexeme, true⟩] ∨
      ¬(c.here.isSymbol "~" ∧ c.advance.here.kind = .identifier) ∧ Parameter.restOf c.ahead = [] := by
  by_cases htilde : c.here.isSymbol "~"
  · obtain ⟨t, rest, hafter⟩ := ends.exists_after (by simp [kind_of_isSymbol htilde])
    have hrest : Parameter.restOf c.ahead =
        if c.advance.here.kind = .identifier then [⟨c.advance.here.lexeme, true⟩] else [] := by
      simp [Cursor.ahead, advance_eq hafter, hafter, Parameter.restOf, htilde]
    by_cases hname : c.advance.here.kind = .identifier
    · obtain ⟨u, rest', hafter'⟩ := ends.advance.exists_after (by simp [hname])
      rw [if_pos hname] at hrest
      exact .inl ⟨⟨htilde, hname⟩, ⟨rfl, by simp [hafter], rfl, by simp [hafter'], rfl⟩, hrest⟩
    · rw [if_neg hname] at hrest
      exact .inr ⟨fun h => hname h.2, hrest⟩
  · refine .inr ⟨fun h => htilde h.1, ?_⟩
    unfold Parameter.restOf
    split
    · next heq =>
      obtain ⟨rfl, -⟩ := List.cons.inj heq
      simp [htilde]
    · rfl

/-- Parameter lists are written one after the other. -/
lemma listWidth_append (params params' : List Parameter) :
    Parameter.listWidth (params ++ params') = Parameter.listWidth params + Parameter.listWidth params' := by
  induction params with
  | nil => simp [Parameter.listWidth]
  | cons p params ih => simp [Parameter.listWidth, ih, Nat.add_assoc]

/-- Only no parameters at all are written with no tokens. -/
lemma listWidth_eq_zero : Parameter.listWidth params = 0 ↔ params = [] := by
  cases params with
  | nil => simp [Parameter.listWidth]
  | cons p params =>
    have hwidth : p.width ≠ 0 := by
      unfold Parameter.width
      split <;> decide
    simp [Parameter.listWidth, hwidth]

/-- A token that is no name ends the names, and one that is a name does not. -/
lemma pastNames_index (h : c.tokens = tokens) :
    pastNames tokens c.index = if c.here.kind = .identifier then pastNames tokens (c.index + 1) else .ok c.index := by
  have hget : tokens[c.index]? = some c.here := by simpa [Cursor.ahead] using getElem?_index h 0
  rw [pastNames]
  split
  · next heq =>
    obtain rfl := Option.some.inj (hget.symm.trans heq)
    rfl
  · next heq =>
    rw [hget] at heq
    cases heq

/-- Names are passed within the list. -/
lemma pastNames_of_passes (h : c.tokens = tokens) (hpass : c.Passes d names)
    (hnames : ∀ t ∈ names, t.kind = .identifier) (hd : d.here.kind ≠ .identifier) :
    pastNames tokens c.index = .ok d.index := by
  induction names generalizing c with
  | nil =>
    obtain rfl : c = d := hpass
    rw [pastNames_index h, if_neg hd]
  | cons t names ih =>
    obtain ⟨rfl, hafter, hpass⟩ := hpass
    obtain ⟨hk, hnames⟩ := List.forall_mem_cons.1 hnames
    rw [pastNames_index h, if_pos hk, ← index_advance hafter]
    exact ih (c.tokens_advance.trans h) hpass hnames

/-- Names are taken as parameters, one in each turn. -/
lemma readParameters_names (h : c.tokens = tokens) (hpass : c.Passes d names)
    (hnames : ∀ t ∈ names, t.kind = .identifier) {turns j : Nat}
    (hrest : readParameters tokens turns d.index = .ok (params, j)) :
    readParameters tokens (names.length + turns) c.index =
      .ok (names.map (Parameter.mk ·.lexeme false) ++ params, j) := by
  induction names generalizing c with
  | nil =>
    obtain rfl : c = d := hpass
    rwa [List.length_nil, Nat.zero_add]
  | cons t names ih =>
    obtain ⟨rfl, -, hpass⟩ := hpass
    obtain ⟨hk, hnames⟩ := List.forall_mem_cons.1 hnames
    have hsymbol (symbol : String) : c.here.isSymbol symbol = false := by simp [Token.isSymbol, hk]
    rw [List.length_cons, Nat.add_right_comm, readParameters, tokenAt_index h, ok_bind, hsymbol, hsymbol,
      if_neg Bool.false_ne_true, if_neg Bool.false_ne_true, advance_index h, ok_bind,
      ih (c.tokens_advance.trans h) hpass hnames]
    rfl

/-- A rest parameter at a cursor is passed within the list, and taken before a question mark. -/
lemma exists_passes_rest (h : c.tokens = tokens) (ends : c.Ends) :
    ∃ ts m, c.Passes m ts ∧ ts.length = Parameter.listWidth (Parameter.restOf c.ahead) ∧
      pastRest tokens c.index = .ok m.index ∧
      (m.here.isSymbol "?" → ∀ turns, ts.length < turns →
        readParameters tokens turns c.index = .ok (Parameter.restOf c.ahead, m.index)) := by
  have hquestion {m : Cursor} (hm : m.tokens = tokens) (hq : m.here.isSymbol "?") (turns : Nat) :
      readParameters tokens (turns + 1) m.index = .ok ([], m.index) := by
    rw [readParameters, tokenAt_index hm, ok_bind, if_pos hq]
    rfl
  have hadvance : c.advance.tokens = tokens := c.tokens_advance.trans h
  rcases restOf_ahead ends with ⟨⟨htilde, hname⟩, hpass, hrest⟩ | ⟨hnot, hrest⟩
  · refine ⟨_, _, hpass, by rw [hrest]; rfl, ?_, fun hq turns hturns => ?_⟩
    · rw [pastRest, tokenAt_index h, ok_bind, if_pos htilde, ← index_advance hpass.2.1, tokenAt_index hadvance,
        ok_bind, if_pos hname, pure_eq, hpass.index_eq]
      rfl
    · obtain ⟨turns, rfl⟩ := Nat.exists_eq_add_of_le' (show 2 ≤ turns by simp at hturns; omega)
      have hother : c.here.isSymbol "?" = false := by
        simp [Token.isSymbol, lexeme_of_isSymbol htilde]
      rw [readParameters, tokenAt_index h, ok_bind, hother, if_neg Bool.false_ne_true, if_pos htilde,
        advance_index h, ok_bind, tokenAt_index hadvance, ok_bind, advance_index hadvance, ok_bind,
        hquestion (c.advance.tokens_advance.trans hadvance) hq, hrest]
      rfl
  · refine ⟨[], c, rfl, by rw [hrest]; rfl, ?_, fun hq turns hturns => ?_⟩
    · rw [pastRest, tokenAt_index h, ok_bind]
      split
      · next htilde =>
        obtain ⟨t, rest, hafter⟩ := ends.exists_after (by simp [kind_of_isSymbol htilde])
        have hname : c.advance.here.kind ≠ .identifier := fun hk => hnot ⟨htilde, hk⟩
        rw [← index_advance (by simp [hafter]), tokenAt_index hadvance, ok_bind, if_neg hname]
        rfl
      · rfl
    · obtain ⟨turns, rfl⟩ := Nat.exists_eq_add_of_le' (show 1 ≤ turns from hturns)
      rw [hquestion h hq, hrest]

/-- The parameters at a cursor are passed within the list, and taken before a question mark. -/
lemma exists_passes_parameters (h : c.tokens = tokens) (ends : c.Ends) :
    ∃ ts m, c.Passes m ts ∧ ts.length = Parameter.listWidth (Parameter.listOf c.ahead) ∧
      headLength tokens c.index = .ok (if ts ≠ [] ∧ m.here.isSymbol "?" then ts.length else 0) ∧
      (m.here.isSymbol "?" → ∀ turns, ts.length < turns →
        readParameters tokens turns c.index = .ok (Parameter.listOf c.ahead, m.index)) := by
  obtain ⟨d, hpass, hd, hahead⟩ := exists_passes_names c ends
  have hnames : ∀ t ∈ c.ahead.takeWhile (·.kind = .identifier), t.kind = .identifier :=
    fun t ht => by simpa using List.mem_takeWhile_imp ht
  have hlist : Parameter.listOf c.ahead =
      (c.ahead.takeWhile (·.kind = .identifier)).map (Parameter.mk ·.lexeme false) ++ Parameter.restOf d.ahead := by
    rw [Parameter.listOf, ← hahead]
  generalize c.ahead.takeWhile (·.kind = .identifier) = names at hpass hnames hlist
  have hd' : d.tokens = tokens := hpass.tokens_eq.trans h
  obtain ⟨ts, m, hrest, hwidth, hpast, hread⟩ := exists_passes_rest hd' (hpass.skip_eq ▸ ends.skip _)
  have hwhole : c.Passes m (names ++ ts) := passes_append.2 ⟨d, hpass, hrest⟩
  refine ⟨names ++ ts, m, hwhole, ?_, ?_, fun hq turns hturns => ?_⟩
  · rw [hlist, listWidth_append, Parameter.listWidth_names, List.length_append, hwidth]
  · have hindex := hwhole.index_eq
    rw [headLength, pastNames_of_passes h hpass hnames hd, ok_bind, hpast, ok_bind,
      tokenAt_index (hwhole.tokens_eq.trans h), hindex, ok_bind, pure_eq, pure_eq, Nat.add_sub_cancel_left]
    by_cases hnil : names ++ ts = []
    · simp [hnil]
    · rw [if_pos (Nat.lt_add_of_pos_right (List.length_pos_of_ne_nil hnil))]
      simp [hnil]
  · rw [List.length_append] at hturns
    obtain ⟨more, rfl⟩ := Nat.exists_eq_add_of_le (show names.length ≤ turns by omega)
    rw [hlist]
    exact readParameters_names h hpass hnames (hread hq more (by omega))

/-- The head of a function is measured within the list. -/
theorem headLength_index (h : c.tokens = tokens) (ends : c.Ends) :
    headLength tokens c.index = .ok (c.lambdaHead?.elim 0 Parameter.listWidth) := by
  obtain ⟨ts, m, hpass, hwidth, hlength, -⟩ := exists_passes_parameters h ends
  have hm : c.skip (Parameter.listWidth (Parameter.listOf c.ahead)) = m := by rw [← hwidth, hpass.skip_eq]
  have hnil : ts = [] ↔ Parameter.listOf c.ahead = [] := by
    rw [← List.length_eq_zero_iff, hwidth, listWidth_eq_zero]
  have hhead : c.lambdaHead? =
      if ts ≠ [] ∧ m.here.isSymbol "?" then some (Parameter.listOf c.ahead) else none := by
    change (if (Parameter.listOf c.ahead).isEmpty then none
      else if (c.skip (Parameter.listWidth (Parameter.listOf c.ahead))).here.isSymbol "?" then
        some (Parameter.listOf c.ahead)
      else none) = _
    rw [hm]
    by_cases hempty : Parameter.listOf c.ahead = []
    · simp [hempty, hnil.2 hempty]
    · simp [hempty, mt hnil.1 hempty]
  rw [hlength, hhead]
  split
  · rw [hwidth]
    rfl
  · rfl

/-- The parameters of a function are taken within the list, up to the question mark. -/
theorem readParameters_index (h : c.tokens = tokens) (ends : c.Ends) (hhead : c.lambdaHead? = some params) :
    readParameters tokens tokens.length c.index = .ok (params, (c.skip (Parameter.listWidth params)).index) := by
  obtain ⟨ts, m, hpass, hwidth, -, hread⟩ := exists_passes_parameters h ends
  obtain ⟨rfl, hq⟩ := lambdaHead?_eq_some hhead
  have hlength := length_tokens c
  have hafter := hpass.length_after
  rw [← hwidth, hpass.skip_eq] at hq ⊢
  exact hread hq _ (by rw [← h]; omega)

/-- The question mark after parameters is as many positions on as they are tokens. -/
lemma index_skip_of_lambdaHead? (ends : c.Ends) (hhead : c.lambdaHead? = some params) :
    (c.skip (Parameter.listWidth params)).index = c.index + Parameter.listWidth params := by
  obtain ⟨ts, m, hpass, hwidth, -, -⟩ := exists_passes_parameters (rfl : c.tokens = c.tokens) ends
  obtain ⟨rfl, -⟩ := lambdaHead?_eq_some hhead
  rw [← hwidth, hpass.skip_eq, hpass.index_eq]

/-- Whether a definition is read is found out within the list. -/
lemma definesAt_index (h : c.tokens = tokens) (power : Nat) :
    definesAt tokens power c.index = .ok (power ≤ Power.define && Parser.startsDefine c) := by
  rw [definesAt, startsDefine_index h]
  split
  · next hp => rw [decide_eq_true hp, Bool.true_and]
  · next hp => rw [decide_eq_false hp, Bool.false_and]; rfl

/-- Whether a function is read is found out within the list. -/
lemma headWidth_index (h : c.tokens = tokens) (ends : c.Ends) (power : Nat) :
    headWidth tokens power c.index =
      .ok ((if power ≤ Power.lambda then c.lambdaHead? else none).elim 0 Parameter.listWidth) := by
  rw [headWidth, headLength_index h ends]
  split <;> rfl

end Heads

end Positions

end SignLang
