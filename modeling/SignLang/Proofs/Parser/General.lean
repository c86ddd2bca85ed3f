import SignLang.Proofs.Brackets
import SignLang.Proofs.Limits
import SignLang.Proofs.Parser.Abreast
import SignLang.Proofs.Parser.Settled
import SignLang.Proofs.Parser.WellFormed

/-!
# Special forms without looking ahead

Before an operand the parser looks ahead: a name with a colon after it starts a definition, and names with a
question mark after them start a function (`parseOperand`). Colon and question mark are operators too, which
make the same of an operand on their left. So it would be enough to look ahead for functions that take a rest
parameter, which no operand writes. `parseGeneral` is the parser that does so; it reads a name as an
operand, applies it to the names after it, and turns this into parameters when the question mark comes
(`climb_names`).

Main statement:

* `buildGenerally_eq_buildWithin`: both parsers come to the same outcome for all token lists, where no limit
  on nesting is in the way.
-/

namespace SignLang

open Cursor SignLang.Parser

namespace Parser

/-! ## The general parser -/

/-- Reads an operand, or a function that takes a rest parameter if the power asked for admits one. -/
def parseGeneralOperand (parse : Reader) (power : Nat) (c : Cursor) : Except Failure (Expr × Cursor) :=
  match (if power ≤ Power.lambda then c.lambdaHead? else none) with
  | some params => if params.any (·.isRest) then parseLambda parse params c else parsePrimary parse c
  | none => parsePrimary parse c

/-- Reads an expression whose operators have at least the power asked for, and leaves definitions and
functions to their operators. -/
def parseGeneral : Nat → Reader
  | 0, _, c => fail .tooDeep c
  | depth + 1, power, c => do
    let (e, c) ← parseGeneralOperand (parseGeneral depth) power c
    climb (parseGeneral depth) power c.after (.single e) c

/-- Reads all of a token list with a reader of expressions, once its brackets are known to match. -/
def parseAllWith (parse : Reader) (c : Cursor) : Except Failure (Expr × Cursor) := do
  checkBrackets c
  let (e, c) ← parseSequence parse c
  if c.here.kind = .ending then return (e, c)
  else fail (.leftOver c.here) c

/-- All of a token list is read with the parser of expressions. -/
lemma parseAll_eq (depth : Nat) (c : Cursor) : parseAll depth c = parseAllWith (parseExpr depth) c :=
  rfl

/-- The outcome is not that something is nested too deeply: no limit is in the way. -/
def Fits {α : Type} (x : Except Failure α) : Prop :=
  ∀ f, x = .error f → f.fault ≠ .tooDeep

/-- An outcome that a lower limit is not in the way of is the outcome of the higher one. -/
lemma Curbs.eq_of_fits {α : Type} {x y : Except Failure α} (h : Curbs x y) (hfits : Fits x) : x = y :=
  h.resolve_right fun ⟨f, hf, hdeep⟩ => hfits f hf hdeep

end Parser

/-- The expression that a list of laid-out tokens writes for the general parser, with at most `depth`
expressions nested in one another. -/
def buildGenerally (depth : Nat) (tokens : List Token) : Except Parser.Failure Expr :=
  (Parser.parseAllWith (Parser.parseGeneral depth) (Cursor.ofTokens tokens)).map (·.1)

/-! ## Heads of functions -/

namespace Parameter

/-- Names are written with as many tokens. -/
lemma listWidth_names (ts : List Token) : listWidth (ts.map (Parameter.mk ·.lexeme false)) = ts.length := by
  induction ts with
  | nil => rfl
  | cons t ts ih => simp [listWidth, width, ih, Nat.add_comm]

end Parameter

namespace Cursor

/-- Moving over tokens leaves as many fewer ahead. -/
lemma Passes.length_after {c d : Cursor} {ts : List Token} (h : c.Passes d ts) :
    c.after.length = d.after.length + ts.length := by
  have hlength := congrArg List.length h.ahead_eq
  simp only [ahead, List.length_append, List.length_cons] at hlength
  omega

/-- A head of a function without rest parameter is a row of names, and a question mark follows it. -/
lemma exists_names_of_lambdaHead? {c : Cursor} {params : List Parameter} (h : c.lambdaHead? = some params)
    (hrest : params.any (·.isRest) = false) :
    ∃ names, (∀ t ∈ c.here :: names, t.kind = .identifier) ∧
      params = (c.here :: names).map (Parameter.mk ·.lexeme false) ∧
      c.Passes (c.skip (Parameter.listWidth params)) (c.here :: names) ∧
      (c.skip (Parameter.listWidth params)).here.isSymbol "?" := by
  have hne := ne_nil_of_lambdaHead? h
  obtain ⟨hparams, hq⟩ := lambdaHead?_eq_some h
  -- a rest parameter is the only one that is no name
  have hnil : Parameter.restOf (c.ahead.dropWhile (·.kind = .identifier)) = [] := by
    refine (Parameter.restOf_cases _).resolve_right ?_
    rintro ⟨t, -, -, hsome⟩
    simp [hparams, Parameter.listOf, hsome] at hrest
  rw [Parameter.listOf, hnil, List.append_nil] at hparams
  have hahead := (List.takeWhile_append_dropWhile (p := (·.kind = .identifier)) (l := c.ahead)).symm
  generalize hnames : c.ahead.takeWhile (·.kind = .identifier) = names at hparams hahead
  have hall : ∀ t ∈ names, t.kind = .identifier := by
    rw [← hnames]
    exact fun t ht => by simpa using List.mem_takeWhile_imp ht
  cases hdrop : c.ahead.dropWhile (·.kind = .identifier) with
  | nil =>
    -- the question mark is ahead, and it is no name
    have hmem : (c.skip (Parameter.listWidth params)).here ∈ names := by
      rw [hdrop, List.append_nil] at hahead
      rw [← hahead]
      exact (Reaches.ahead_suffix ⟨_, rfl⟩).subset List.mem_cons_self
    rw [Token.isSymbol_of_kind (by simp [hall _ hmem])] at hq
    cases hq
  | cons t rest =>
    rw [hdrop] at hahead
    obtain ⟨d, hpass, -⟩ := exists_passes hahead
    obtain rfl : c.skip (Parameter.listWidth params) = d := by
      rw [hparams, Parameter.listWidth_names, hpass.skip_eq]
    cases names with
    | nil => exact absurd hparams hne
    | cons first names =>
      obtain rfl : c.here = first := hpass.1
      exact ⟨names, hall, hparams, hpass, hq⟩

end Cursor

namespace Parser

/-! ## Operators that make special forms -/

section Climb

variable {parse : Reader} {p : Nat} {c d : Cursor} {left : Left}

/-- An operator that joins takes its right operand, and what is joined is on the left. -/
lemma climb_join {op : Operator} (hmove : moveAt p c = .join op) (t : Token) (turns : List Token) :
    climb parse p (t :: turns) left c =
      parseJoin parse op left c >>= fun r => climb parse p turns r.1 r.2 := by
  conv_lhs => unfold climb
  rw [hmove]

/-- After a name, a colon makes a definition. -/
lemma climb_colon (hcolon : c.here.isSymbol ":") (hp : p ≤ Power.define) (name : String) (t : Token)
    (turns : List Token) :
    climb parse p (t :: turns) (.single (.identifier name)) c =
      parseRight parse c Power.define c.advance >>= fun r =>
        climb parse p turns (.single (.define (.identifier name) r.1)) r.2 := by
  have hmove : moveAt p c = .join colon := by rw [moveAt_colon hcolon, if_neg (Nat.not_lt.2 hp)]
  rw [climb_join hmove]
  simp only [parseJoin, lexeme_of_isSymbol hcolon]
  exact bind_assoc _ _ _

/-- After names, a question mark makes a function. -/
lemma climb_question (hq : c.here.isSymbol "?") (hp : p ≤ Power.lambda) {params : List Parameter}
    (hparams : paramsOf? left.expr = some params) (t : Token) (turns : List Token) :
    climb parse p (t :: turns) left c =
      parseRight parse c Power.lambda c.advance >>= fun r =>
        climb parse p turns (.single (.lambda params r.1)) r.2 := by
  have hmove : moveAt p c = .join question := by rw [moveAt_question hq, if_neg (Nat.not_lt.2 hp)]
  rw [climb_join hmove]
  simp only [parseJoin, lexeme_of_isSymbol hq, hparams]
  exact bind_assoc _ _ _

/-- What is on the left once names have been read. -/
def Left.ofNames (first : Token) : List Token → Left
  | [] => .single (.identifier first.lexeme)
  | names => .applied (.identifier first.lexeme) (names.map (.identifier ·.lexeme))

/-- A name that is read is one more argument. -/
lemma Left.argument_ofNames (first : Token) (names : List Token) (t : Token) :
    (ofNames first names).argument (.identifier t.lexeme) = ofNames first (names ++ [t]) := by
  cases names <;> simp [ofNames, argument, expr]

/-- Names that have been read are parameters. -/
lemma paramsOf?_ofNames (first : Token) (names : List Token) :
    paramsOf? (Left.ofNames first names).expr = some ((first :: names).map (Parameter.mk ·.lexeme false)) := by
  have hnames (ts : List Token) :
      (ts.map fun t => Expr.identifier t.lexeme).mapM nameOf? = some (ts.map (·.lexeme)) := by
    induction ts with
    | nil => rfl
    | cons t ts ih => simp [List.mapM_cons, nameOf?, ih]
  cases names with
  | nil => rfl
  | cons t ts =>
    change Option.map _ (((first :: t :: ts).map fun t => Expr.identifier t.lexeme).mapM nameOf?) = _
    rw [hnames]
    simp

/-- A name that is read as an argument ends before the next name, and before a question mark. -/
lemma parseGeneral_name {depth : Nat} (hk : c.here.kind = .identifier)
    (hnext : c.advance.here.kind = .identifier ∨ c.advance.here.isSymbol "?") :
    parseGeneral (depth + 1) (Power.apply + 1) c = .ok (.identifier c.here.lexeme, c.advance) := by
  have hstop : moveAt (Power.apply + 1) c.advance = .stop := by
    rcases hnext with hname | hq
    · simp [moveAt, argumentMove, hname]
    · rw [moveAt_question hq, if_pos (by decide)]
  have hoperand (parse : Reader) :
      parseGeneralOperand parse (Power.apply + 1) c = .ok (.identifier c.here.lexeme, c.advance) := by
    simp [parseGeneralOperand, parsePrimary, hk, Power.apply, Power.lambda]
  rw [parseGeneral, hoperand]
  change climb _ _ c.advance.after _ c.advance = _
  unfold climb
  rw [hstop]
  rfl

/-- Names that lead to a question mark are taken in as arguments, and turned into parameters there. -/
lemma climb_names (depth : Nat) (first : Token) (before : List Token) {names : List Token}
    (hnames : ∀ t ∈ names, t.kind = .identifier) (hpass : c.Passes d names) (hq : d.here.isSymbol "?")
    (hp : p ≤ Power.lambda) {turns : List Token} (hturns : names.length < turns.length) :
    climb (parseGeneral (depth + 1)) p turns (.ofNames first before) c =
      parseRight (parseGeneral (depth + 1)) d Power.lambda d.advance >>= fun r =>
        climb (parseGeneral (depth + 1)) p (turns.drop (names.length + 1))
          (.single (.lambda ((first :: (before ++ names)).map (Parameter.mk ·.lexeme false)) r.1)) r.2 := by
  induction names generalizing c before turns with
  | nil =>
    obtain rfl : c = d := hpass
    obtain ⟨t, turns, rfl, -⟩ := exists_cons_of_lt_length hturns
    rw [climb_question hq hp (paramsOf?_ofNames first before), List.append_nil]
    rfl
  | cons name names ih =>
    obtain ⟨rfl, -, hrest⟩ := hpass
    obtain ⟨hname, hnames⟩ := List.forall_mem_cons.1 hnames
    obtain ⟨t, turns, rfl, hlt⟩ := exists_cons_of_lt_length hturns
    have hmove : moveAt p c = .argue := by
      have hle : p ≤ Power.apply := hp.trans (by decide)
      simp [moveAt, argumentMove, hname, Token.startsOperand, hle]
    have hnext : c.advance.here.kind = .identifier ∨ c.advance.here.isSymbol "?" := by
      cases names with
      | nil =>
        obtain rfl : c.advance = d := hrest
        exact .inr hq
      | cons next names =>
        obtain rfl : c.advance.here = next := hrest.1
        exact .inl (hnames _ List.mem_cons_self)
    conv_lhs => unfold climb
    rw [hmove]
    simp only [parseGeneral_name hname hnext]
    change climb _ _ turns ((Left.ofNames first before).argument _) c.advance = _
    rw [Left.argument_ofNames, ih _ hnames hrest (by simpa using hlt), List.append_assoc]
    rfl

end Climb

/-! ## The general parser agrees -/

/-- The parser and the general parser agree on the cursors of a list that have fewer than `n` tokens after the
one at hand, and no limit on nesting is in the way there. -/
def Accords (tokens : List Token) (n depth depth' : Nat) : Prop :=
  Settles tokens n (·.fault ≠ .tooDeep) (parseExpr depth) (parseGeneral depth')

/-- The forms of the parser fail about tokens, not about limits. -/
lemma allows_fits (tokens : List Token) : Allows tokens (·.fault ≠ .tooDeep) := by
  refine ⟨fun f hf heq => ?_, fun _ _ _ _ _ _ _ => by simp⟩
  rw [heq] at hf
  exact hf

section Level

variable {tokens : List Token} {n depth depth' p : Nat} {c : Cursor} (h : Accords tokens n depth depth')
include h

/-- The right operand of an operator is read alike, and so is what follows the form that is made of it. -/
lemma Accords.right (operator : Cursor) (power : Nat) (form : Expr → Expr) {turns : List Token}
    (hc : c.Within tokens n) (hturns : c.after.length ≤ turns.length + 1) :
    Settled (·.fault ≠ .tooDeep)
      (parseRight (parseExpr depth) operator power c >>= fun r =>
        climb (parseExpr depth) p r.2.after (.single (form r.1)) r.2)
      (parseRight (parseGeneral depth') operator power c >>= fun r =>
        climb (parseGeneral depth') p turns (.single (form r.1)) r.2) := by
  have allows := allows_fits tokens
  refine .bind (h.parseRight allows _ _ hc) fun r hr => ?_
  have hread := h.sound (parseRight_eq_ok.1 hr).2
  have hlt : r.2.after.length + 1 ≤ c.after.length := (hread.progress hc.ends).2
  exact h.climb allows p _ (hc.read hread) le_rfl (by omega)

/-- A definition is read as a name that a colon follows. -/
lemma Accords.define (hc : c.Within tokens (n + 1)) (hp : p ≤ Power.define) (hdefine : startsDefine c) :
    Settled (·.fault ≠ .tooDeep) (parseExpr (depth + 1) p c) (parseGeneral (depth' + 1) p c) := by
  have hhead := lambdaHead?_of_startsDefine hdefine
  obtain ⟨hk, hop, hlexeme⟩ := of_startsDefine hdefine
  have hcolon := Token.isSymbol_iff.2 ⟨hop, hlexeme⟩
  have hcolon' := hc.advance_succ (by simp [hk])
  obtain ⟨t, turns, hturns⟩ := hcolon'.ends.exists_after (by simp [hop])
  have hfast : parseExpr (depth + 1) p c =
      parseRight (parseExpr depth) c.advance Power.define c.advance.advance >>= fun r =>
        climb (parseExpr depth) p r.2.after (.single (.define (.identifier c.here.lexeme) r.1)) r.2 := by
    rw [parseExpr, parseOperand, if_pos (by simp [hp, hdefine])]
    exact bind_assoc _ _ _
  have hgeneral : parseGeneral (depth' + 1) p c =
      parseRight (parseGeneral depth') c.advance Power.define c.advance.advance >>= fun r =>
        climb (parseGeneral depth') p turns (.single (.define (.identifier c.here.lexeme) r.1)) r.2 := by
    rw [← climb_colon hcolon hp _ t turns, ← hturns, parseGeneral, parseGeneralOperand, hhead, ite_self]
    simp only [parsePrimary, hk]
    rfl
  have hle : c.advance.advance.after.length ≤ turns.length + 1 := by
    rw [advance_eq hturns]
    exact Nat.le_succ _
  rw [hfast, hgeneral]
  exact h.right _ _ (.define (.identifier c.here.lexeme)) hcolon'.advance hle

/-- A function without rest parameter is read as names that a question mark follows. -/
lemma Accords.function (hdepth : n ≤ depth') (hc : c.Within tokens (n + 1)) (hp : p ≤ Power.lambda)
    (hdefine : ¬(p ≤ Power.define ∧ startsDefine c)) {params : List Parameter}
    (hhead : c.lambdaHead? = some params) (hrest : params.any (·.isRest) = false) :
    Settled (·.fault ≠ .tooDeep) (parseExpr (depth + 1) p c) (parseGeneral (depth' + 1) p c) := by
  obtain ⟨names, hnames, hparams, hpass, hq⟩ := exists_names_of_lambdaHead? hhead hrest
  obtain ⟨hk, hnames⟩ := List.forall_mem_cons.1 hnames
  have hquestion := hc.skip (Parameter.listWidth params)
  generalize hm : c.skip (Parameter.listWidth params) = m at hpass hq hquestion
  obtain ⟨-, -, hpass⟩ := hpass
  have hbody := hquestion.advance_succ (by simp [kind_of_isSymbol hq])
  -- names are read as arguments, within one more expression
  have hlength := hc.ends.length_advance (by simp [hk])
  have hlt := hc.length_lt
  obtain ⟨depth', rfl⟩ := Nat.exists_eq_succ_of_ne_zero (by omega : depth' ≠ 0)
  have hbefore := hpass.length_after
  have hafter := hquestion.ends.length_advance (by simp [kind_of_isSymbol hq])
  have hturns : names.length < c.advance.after.length := by omega
  have hfast : parseExpr (depth + 1) p c =
      parseRight (parseExpr depth) m Power.lambda m.advance >>= fun r =>
        climb (parseExpr depth) p r.2.after (.single (.lambda params r.1)) r.2 := by
    rw [parseExpr, parseOperand, if_neg (by simpa using hdefine), if_pos hp, hhead]
    simp only [parseLambda, hm]
    exact bind_assoc _ _ _
  have hgeneral : parseGeneral (depth' + 1 + 1) p c =
      parseRight (parseGeneral (depth' + 1)) m Power.lambda m.advance >>= fun r =>
        climb (parseGeneral (depth' + 1)) p (c.advance.after.drop (names.length + 1))
          (.single (.lambda params r.1)) r.2 := by
    rw [parseGeneral, parseGeneralOperand, if_pos hp, hhead]
    simp only [hrest, Bool.false_eq_true, if_false, parsePrimary, hk]
    rw [hparams]
    exact climb_names depth' c.here [] hnames hpass hq hp hturns
  rw [hfast, hgeneral]
  refine h.right _ _ (.lambda params) hbody ?_
  rw [List.length_drop]
  omega

/-- The general parser reads alike with one more expression nested, where there is one more token. -/
lemma Accords.succ (hdepth : n ≤ depth') : Accords tokens (n + 1) (depth + 1) (depth' + 1) := by
  have allows := allows_fits tokens
  refine ⟨fun p c hc => ?_, Reads.of_parseExpr _⟩
  by_cases hdefine : p ≤ Power.define ∧ startsDefine c
  · exact h.define hc hdefine.1 hdefine.2
  by_cases hfunction :
      ∃ params, p ≤ Power.lambda ∧ c.lambdaHead? = some params ∧ params.any (·.isRest) = false
  · obtain ⟨params, hp, hhead, hrest⟩ := hfunction
    exact h.function hdepth hc hp hdefine hhead hrest
  -- otherwise both parsers read the operand in one way
  have hoperand (parse : Reader) : parseGeneralOperand parse p c = parseOperand parse p c := by
    rw [parseOperand, if_neg (by simpa using hdefine), parseGeneralOperand]
    cases hhead : (if p ≤ Power.lambda then c.lambdaHead? else none) with
    | none => rfl
    | some params =>
      refine if_pos ?_
      by_contra hrest
      split_ifs at hhead with hp
      exact hfunction ⟨params, hp, hhead, by simpa using hrest⟩
  rw [parseGeneral, hoperand]
  refine .bind (h.parseOperand allows p hc) fun r hr => ?_
  exact h.climb allows p _ (hc.read_succ (Sound.operand h.sound hr) rfl) le_rfl le_rfl

omit h in
/-- The general parser agrees with the parser where enough expressions may be nested for the tokens ahead. -/
lemma Accords.of_le (hdepth : n ≤ depth) (hdepth' : n ≤ depth') : Accords tokens n depth depth' := by
  induction n generalizing depth depth' with
  | zero => exact ⟨fun p c hc => absurd hc.length_lt (Nat.not_lt_zero _), Reads.of_parseExpr _⟩
  | succ n ih =>
    obtain ⟨depth, rfl⟩ := Nat.exists_eq_succ_of_ne_zero (by omega : depth ≠ 0)
    obtain ⟨depth', rfl⟩ := Nat.exists_eq_succ_of_ne_zero (by omega : depth' ≠ 0)
    have hle := Nat.le_of_succ_le_succ hdepth'
    exact (ih (Nat.le_of_succ_le_succ hdepth) hle).succ hle

end Level

/-! ## Token lists -/

/-- A bracket is not refused because of limits. -/
lemma ne_tooDeep_of_trackBracket {opened : OpenBrackets} {entry : Token × Nat} {found : Fault × Nat}
    (h : trackBracket opened entry = .error found) : found.1 ≠ .tooDeep := by
  unfold trackBracket at h
  split at h
  case h_1 | h_3 => cases h
  case h_2 =>
    split at h
    · cases h
      simp
    · split at h <;> cases h
      simp

/-- The check of brackets fails about brackets, not about limits. -/
lemma fits_checkBrackets (c : Cursor) : Fits (checkBrackets c) := by
  intro f hf
  unfold checkBrackets at hf
  split at hf
  · cases hf
  next fault position hfault =>
    cases hf
    change fault ≠ .tooDeep
    unfold bracketFault? at hfault
    split at hfault
    · next found htrack =>
      cases hfault
      obtain ⟨before, entry, after, kept, -, -, hentry⟩ := exists_of_trackBrackets_error htrack
      exact ne_tooDeep_of_trackBracket hentry
    · cases hfault
    · cases hfault
      simp

/-- Whole token lists are read alike. -/
lemma Accords.parseAllWith {c : Cursor} {n depth depth' : Nat} (h : Accords c.tokens n depth depth')
    (ends : c.Ends) (hlt : c.after.length < n) :
    Settled (·.fault ≠ .tooDeep) (parseAllWith (parseExpr depth) c) (parseAllWith (parseGeneral depth') c) :=
  .bind ⟨rfl, fits_checkBrackets c⟩ fun _ _ => .bind (h.parseSequence ⟨rfl, ends, hlt⟩) fun _ _ =>
    .ite (fun _ => .ok _) fun _ => .error (by simp)

section Readers

variable {parse parse' : Reader} (h : ∀ p c, Curbs (parse p c) (parse' p c))
include h

/-- An operand of the general parser is read within the lower limit or not at all. -/
lemma Curbs.parseGeneralOperand (p : Nat) (c : Cursor) :
    Curbs (parseGeneralOperand parse p c) (parseGeneralOperand parse' p c) := by
  unfold Parser.parseGeneralOperand
  split
  · exact .ite (.parseLambda h _ c) (.parsePrimary h c)
  · exact .parsePrimary h c

end Readers

/-- The general parser reads an expression within the lower limit or refuses it as nested too deeply. -/
lemma Curbs.parseGeneral {depth depth' : Nat} (hle : depth ≤ depth') (p : Nat) (c : Cursor) :
    Curbs (parseGeneral depth p c) (parseGeneral depth' p c) :=
  .of_succ (fun _ _ => rfl) (fun _ _ h p c => .bind (.parseGeneralOperand h p c) fun r =>
    .climb h p r.2.after (.single r.1) r.2) hle p c

end Parser

/-- The general parser reads a token list within the lower limit or refuses it as nested too deeply. -/
lemma curbs_buildGenerally {depth depth' : Nat} (hle : depth ≤ depth') (tokens : List Token) :
    Curbs (buildGenerally depth tokens) (buildGenerally depth' tokens) :=
  .map (.bind (.refl _) fun _ => .bind (.parseSequence (Curbs.parseGeneral hle) _) fun _ => .refl _) _

/-- No more tokens are ahead of the first one than the list has. -/
lemma Cursor.length_after_ofTokens (tokens : List Token) : (ofTokens tokens).after.length ≤ tokens.length := by
  cases tokens with
  | nil => exact le_rfl
  | cons t rest =>
    unfold ofTokens
    dsimp only
    split <;> simp

/-- Where as many expressions may be nested as there are tokens, both parsers come to the same outcome, and
the limits are not in the way of it. -/
lemma settled_buildGenerally {tokens : List Token} {depth depth' : Nat} (hdepth : tokens.length < depth)
    (hdepth' : tokens.length < depth') :
    Settled (·.fault ≠ .tooDeep) (buildWithin depth tokens) (buildGenerally depth' tokens) := by
  have hlt := Nat.lt_succ_of_le (Cursor.length_after_ofTokens tokens)
  rw [buildWithin, parseAll_eq]
  exact ((Accords.of_le hdepth hdepth').parseAllWith (Cursor.ofTokens_ends tokens) hlt).map _

/-- Looking ahead for definitions and functions changes nothing. Every token list is read as the same
expression, or refused by the same failure, if definitions and functions are left to the colon and the
question mark, so that only functions with a rest parameter are looked ahead for. This holds where enough
expressions may be nested, and also within any other limits, unless one of them is in the way. -/
theorem buildGenerally_eq_buildWithin (tokens : List Token) :
    (∀ depth depth', tokens.length < depth → tokens.length < depth' →
      buildGenerally depth' tokens = buildWithin depth tokens ∧ Fits (buildWithin depth tokens)) ∧
    ∀ depth depth', Fits (buildWithin depth tokens) → Fits (buildGenerally depth' tokens) →
      buildGenerally depth' tokens = buildWithin depth tokens := by
  refine ⟨fun depth depth' => settled_buildGenerally, fun depth depth' hfits hfits' => ?_⟩
  have hlt (n : Nat) : tokens.length < max n (tokens.length + 1) := by omega
  have hfast : buildWithin depth tokens = buildWithin (max depth (tokens.length + 1)) tokens :=
    (curbs_buildWithin (Nat.le_max_left ..) tokens).eq_of_fits hfits
  have hgeneral : buildGenerally depth' tokens = buildGenerally (max depth' (tokens.length + 1)) tokens :=
    (curbs_buildGenerally (Nat.le_max_left ..) tokens).eq_of_fits hfits'
  rw [hfast, hgeneral]
  exact (settled_buildGenerally (hlt depth) (hlt depth')).1

/-- The tokens of `f : a b ? a!`: a named function of two parameters. -/
def functionTokens : List Token :=
  [(.identifier, "f"), (.operator, ":"), (.identifier, "a"), (.identifier, "b"), (.operator, "?"),
    (.identifier, "a"), (.operator, "!"), (.ending, "")].map
      fun (kind, lexeme) => Token.emptyEnding.borrow kind lexeme

/-- A named function is read as such without looking ahead, and refused alike where its body is missing. -/
theorem buildGenerally_functionTokens :
    buildGenerally maxDepth functionTokens = .ok (.define (.identifier "f")
      (.lambda [⟨"a", false⟩, ⟨"b", false⟩] (.unary "!" false (.identifier "a")))) ∧
    ∃ f, buildGenerally maxDepth (functionTokens.take 5) = .error f ∧
      f.fault.message = "Missing operand after '?', got end of input" := by
  have hok : build functionTokens = .ok (.define (.identifier "f")
      (.lambda [⟨"a", false⟩, ⟨"b", false⟩] (.unary "!" false (.identifier "a")))) := by
    decide +kernel
  have herror : (build (functionTokens.take 5)).mapError (·.fault.message) =
      .error "Missing operand after '?', got end of input" := by
    decide +kernel
  have hwhole := (buildGenerally_eq_buildWithin functionTokens).1 maxDepth maxDepth (by decide) (by decide)
  have hfront :=
    (buildGenerally_eq_buildWithin (functionTokens.take 5)).1 maxDepth maxDepth (by decide) (by decide)
  refine ⟨hwhole.1.trans hok, ?_⟩
  rw [hfront.1]
  change ∃ f, build (functionTokens.take 5) = .error f ∧ _
  cases h : build (functionTokens.take 5) with
  | ok e =>
    rw [h] at herror
    cases herror
  | error f =>
    rw [h] at herror
    exact ⟨f, rfl, Except.error.inj herror⟩

end SignLang
