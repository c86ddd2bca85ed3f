import SignLang.Parser.Basic

/-!
# Brackets

Every opening bracket needs a closing one of its family: a bar for a bar, and any closing bracket
for any other opening one. The check keeps the brackets that are still open on a stack, innermost
first, each with its position.
-/

namespace SignLang.Parser

/-- The brackets that are open at some point of a token list, each with its position. -/
abbrev OpenBrackets := List (Token × Nat)

/-- Two brackets are of one family. -/
def sameFamily (opener closer : Token) : Bool :=
  (opener.lexeme = Operator.bar) = (closer.lexeme = Operator.bar)

/-- The open brackets after one more token, or a fault and the position to blame. -/
def trackBracket (opened : OpenBrackets) (entry : Token × Nat) :
    Except (Fault × Nat) OpenBrackets :=
  match entry.1.kind with
  | .opening => .ok (entry :: opened)
  | .closing =>
    match opened with
    | [] => .error (.unmatchedClosing entry.1, entry.2)
    | opener :: outer =>
      if sameFamily opener.1 entry.1 then .ok outer
      else .error (.mismatched opener.1 entry.1, entry.2)
  | _ => .ok opened

/-- The open brackets after a list of tokens. -/
def trackBrackets (opened : OpenBrackets) :
    List (Token × Nat) → Except (Fault × Nat) OpenBrackets
  | [] => .ok opened
  | entry :: rest =>
    match trackBracket opened entry with
    | .error found => .error found
    | .ok opened => trackBrackets opened rest

/-- A fault in the brackets of a token list, with the position to blame. -/
def bracketFault? (tokens : List Token) : Option (Fault × Nat) :=
  match trackBrackets [] tokens.zipIdx with
  | .error found => some found
  | .ok [] => none
  | .ok (opener :: _) => some (.unmatchedOpening opener.1, opener.2)

/-- Refuses a token list whose brackets do not match. The whole list is looked at, wherever the
cursor stands. -/
def checkBrackets (c : Cursor) : Except Failure Unit :=
  match bracketFault? c.tokens with
  | none => .ok ()
  | some (fault, position) => blame fault (c.moveTo position) c

end SignLang.Parser
