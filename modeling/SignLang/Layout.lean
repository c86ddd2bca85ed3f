import SignLang.Diagnostic
import SignLang.Line

/-!
# Layout

Lines that are indented below a line are the operand of the block operators that end it. `Outline`
is that nesting, `Outline.nest` finds it or refuses the indentation, and `Outline.tokens` writes it
out with brackets and separators, so that the parser need not look at lines.

    f :              f : [ x : 1 <sep> x + 1 ]
    	x : 1
    	x + 1

Literals are single tokens, so nothing inside them is mistaken for indentation.
-/

namespace SignLang

namespace Layout

/-- Why an indentation is refused. -/
inductive Fault where
  | unexpectedIndent
  | jump (fromLevel toLevel : Nat)
  | tooDeep
deriving DecidableEq, Repr

/-- The wording of a fault. -/
def Fault.message : Fault → String
  | unexpectedIndent => "Unexpected indent: previous line does not end in ':' or '?'"
  | jump fromLevel toLevel => s!"Indentation jumps from level {fromLevel} to {toLevel}"
  | tooDeep => "Indentation nested too deeply"

/-- A fault, and the token at which it shows. -/
structure Failure where
  fault : Fault
  token : Token
deriving DecidableEq, Repr

/-- The refusal that a fault is reported as. -/
def Failure.diagnostic (f : Failure) : Diagnostic :=
  Diagnostic.ofLayout f.fault.message f.token

/-- The level of indentation that is too deep. -/
def maxLevel : Nat := 500

end Layout

open Layout

/-- Lines nested under their headers: a line, the lines indented below it, and the lines that
follow at the same level. -/
inductive Outline where
  | done
  | entry (line : Line) (body next : Outline)
deriving DecidableEq, Repr

namespace Outline

/-- The nesting of lines of which the first stands at `level`, and the others there or deeper. The
lines deeper than `level` that directly follow a line are its body: one level deeper, under a line
that ends in a block operator, and below the level `limit`. -/
def nest (limit level : Nat) : List Line → Except Failure Outline
  | [] => .ok .done
  | line :: rest =>
    if level < line.level then .error ⟨.unexpectedIndent, line.first⟩
    else
      match _h : rest.takeWhile (level < ·.level) with
      | [] => do
        let next ← nest limit level rest
        return .entry line .done next
      | first :: others =>
        if line.headers.isEmpty then .error ⟨.unexpectedIndent, first.first⟩
        else if first.level ≠ level + 1 then .error ⟨.jump level first.level, first.first⟩
        else if limit ≤ first.level then .error ⟨.tooDeep, first.first⟩
        else do
          let body ← nest limit (level + 1) (first :: others)
          let next ← nest limit level (rest.dropWhile (level < ·.level))
          return .entry line body next
termination_by lines => lines.length
decreasing_by
  · exact Nat.lt_succ_self _
  · have body_le := (List.takeWhile_sublist (p := (level < ·.level)) (l := rest)).length_le
    rw [_h] at body_le
    exact Nat.lt_succ_of_le body_le
  · exact Nat.lt_succ_of_le (List.dropWhile_sublist _).length_le

/-- The token that divides what stands before an outline from it. -/
def separator : Outline → List Token
  | done => []
  | entry line _ _ => [line.first.borrow .separator "\n"]

/-- A line with its body in brackets: one opening bracket after each block operator, and as many
closing ones after the body. A line without body stands as it is. -/
def enclose (line : Line) (body : List Token) : List Token :=
  match body.getLast? with
  | none => line.tokens
  | some last =>
    line.stem ++ line.headers.flatMap (fun op => [op, op.borrow .opening "["]) ++ body ++
      line.headers.map fun _ => last.borrow .closing "]"

/-- The tokens of an outline, nested lines in brackets and sibling lines divided by separators. -/
def tokens : Outline → List Token
  | done => []
  | entry line body next => enclose line body.tokens ++ next.separator ++ next.tokens

/-- The number of lines that have a body. -/
def blocks : Outline → Nat
  | done => 0
  | entry _ done next => next.blocks
  | entry _ body next => body.blocks + 1 + next.blocks

end Outline

/-- The layout of a token list: its lines, their nesting, and the end of the input. -/
structure Layout where
  lines : List Line
  outline : Outline
  ending : Token
deriving DecidableEq, Repr

namespace Layout

/-- The first line of the deepest level. -/
def deepest? : List Line → Option Line
  | [] => none
  | line :: rest =>
    match deepest? rest with
    | none => some line
    | some other => if line.level < other.level then some other else some line

/-- The layout of a token list, with all levels below `limit`. Too deep a nesting is reported at the
deepest line. -/
def ofTokensWithin (limit : Nat) (tokens : List Token) : Except Failure Layout :=
  let lines := Line.split tokens
  match Outline.nest limit 0 lines with
  | .ok outline => .ok { lines, outline, ending := endingOf tokens }
  | .error failure =>
    if failure.fault = .tooDeep then
      .error ⟨.tooDeep, ((deepest? lines).map (·.first)).getD failure.token⟩
    else .error failure

/-- The layout of a token list. -/
def ofTokens (tokens : List Token) : Except Failure Layout :=
  ofTokensWithin maxLevel tokens

/-- The laid-out tokens, up to and with the end of the input. -/
def tokens (layout : Layout) : List Token :=
  layout.outline.tokens ++ [layout.ending]

end Layout

/-- A token list with its indentation turned into brackets and separators, with all levels below
`limit`. -/
def normalizeWithin (limit : Nat) (tokens : List Token) : Except Layout.Failure (List Token) :=
  (Layout.ofTokensWithin limit tokens).map (·.tokens)

/-- A token list with its indentation turned into brackets and separators. -/
def normalize (tokens : List Token) : Except Layout.Failure (List Token) :=
  normalizeWithin Layout.maxLevel tokens

end SignLang
