import SignLang.Proofs.Parser.Level

/-!
# Token lists that part

Two token lists match up to a place and go on in different ways from there (`Concurs`). They may part
where a closing bracket or the end of the input stops the parser, or after a block operator, if the
operands that follow it there are known to be read alike. What the parser reads from the first list
before the lists part, it reads from the second one (`Parser.Reads.concurs`).
-/

namespace SignLang

open SignLang.Parser

variable {place : Int → Int → Prop} {operand : List Token → List Token → Prop} {n : Nat}

/-- The token lists match up to where they part: at a token that stops the parser, when no bracket is
open that was opened after the `n` ones before, or after a block operator with operands that `operand`
relates. -/
inductive Concurs (place : Int → Int → Prop) (operand : List Token → List Token → Prop) :
    Nat → List Token → List Token → Prop where
  | halt {t t' : Token} {ts ts' : List Token} :
    t.kind = .closing ∨ t.kind = .ending →
    t'.kind = .closing ∨ t'.kind = .ending →
    Concurs place operand 0 (t :: ts) (t' :: ts')
  | turn {n : Nat} {op op' t t' : Token} {ts ts' : List Token} :
    op.Matches place op' →
    op.isOperator Operator.blockSymbols →
    operand (t :: ts) (t' :: ts') →
    Concurs place operand n (op :: t :: ts) (op' :: t' :: ts')
  | cons {n m : Nat} {t t' : Token} {ts ts' : List Token} :
    t.Matches place t' →
    heightAfter n [t] = some m →
    Concurs place operand m ts ts' →
    Concurs place operand n (t :: ts) (t' :: ts')

/-- A block operator is neither a name nor a tilde. -/
lemma Parser.other_of_block {t : Token} (h : t.isOperator Operator.blockSymbols) :
    t.kind ≠ .identifier ∧ t.isSymbol "~" = false := by
  obtain ⟨hk, hlexeme | hlexeme⟩ := Token.isOperator_blockSymbols_iff.1 h <;>
    simp [Token.isSymbol, hk, hlexeme]

namespace Concurs

variable {ts ts' : List Token}

/-- Token lists that part are not empty. -/
lemma exists_cons (h : Concurs place operand n ts ts') :
    (∃ t us, ts = t :: us) ∧ ∃ t us, ts' = t :: us := by
  cases h with
  | halt _ _ | turn _ _ _ | cons _ _ _ => exact ⟨⟨_, _, rfl⟩, _, _, rfl⟩

/-- Matching lists go on to lists that part. -/
lemma append {xs xs' : List Token} (h : List.Forall₂ (Token.Matches place) xs xs') {m : Nat}
    (hheight : heightAfter n xs = some m) (hts : Concurs place operand m ts ts') :
    Concurs place operand n (xs ++ ts) (xs' ++ ts') := by
  induction h generalizing n with
  | nil =>
    cases hheight
    exact hts
  | @cons t t' xs xs' ht _ ih =>
    rw [← List.singleton_append, heightAfter_append] at hheight
    obtain ⟨k, hk, hrest⟩ := Option.bind_eq_some_iff.1 hheight
    exact .cons ht hk (ih hrest)

/-- The parameters ahead are the same. -/
lemma listOf_eq (h : Concurs place operand n ts ts') : Parameter.listOf ts' = Parameter.listOf ts := by
  have hstop {t : Token} (h : t.kind = .closing ∨ t.kind = .ending) :
      t.kind ≠ .identifier ∧ t.isSymbol "~" = false := by
    obtain ⟨hname, hop⟩ := Token.kind_of_isEnd (Token.isEnd_of_stop h)
    exact ⟨hname, Token.isSymbol_of_kind hop _⟩
  induction h with
  | halt h h' => rw [Parameter.listOf_eq_nil (hstop h).1 (hstop h).2, Parameter.listOf_eq_nil (hstop h').1 (hstop h').2]
  | turn hop h _ =>
    obtain ⟨hk, htilde⟩ := other_of_block h
    obtain ⟨hk', htilde'⟩ := other_of_block ((hop.isOperator_eq _).trans h)
    rw [Parameter.listOf_eq_nil hk htilde, Parameter.listOf_eq_nil hk' htilde']
  | @cons n m t t' ts ts' ht _ h ih =>
    by_cases hk : t.kind = .identifier
    · rw [Parameter.listOf_name (ht.kind_eq.trans hk), Parameter.listOf_name hk, ih, ht.lexeme_eq]
    · rw [Parameter.listOf_other (ht.kind_eq ▸ hk), Parameter.listOf_other hk]
      -- only a tilde and a name are left, which the next tokens tell
      cases h with
      | halt h h' => simp [Parameter.restOf, (hstop h).1, (hstop h').1]
      | turn hu _ _ | cons hu _ _ =>
        rw [Parameter.restOf, Parameter.restOf, ht.isSymbol_eq, hu.kind_eq, hu.lexeme_eq]

end Concurs

/-- A block operator says what to do after an operand by itself. -/
lemma Parser.moveAt_of_block {c : Cursor} (h : c.here.isOperator Operator.blockSymbols) (p : Nat) :
    (c.here.lexeme = ":" ∨ c.here.lexeme = "?") ∧ moveAt p c = match Operator.binary? c.here.lexeme with
      | some op => if op.power < p then .stop else .join op
      | none => .stop := by
  obtain ⟨hk, hlexeme⟩ := Token.isOperator_blockSymbols_iff.1 h
  refine ⟨hlexeme, ?_⟩
  have htrails : trails p c = false := by
    refine trails_eq_false ?_
    rcases hlexeme with hlexeme | hlexeme <;> rw [hlexeme] <;> decide
  rw [moveAt, if_pos hk, htrails]
  rcases hlexeme with hlexeme | hlexeme <;> rw [hlexeme] <;> rfl

/-- The operand of a block operator is read at the power of a definition or of a function. -/
lemma Parser.rightPower_of_block {c : Cursor} (h : c.here.isOperator Operator.blockSymbols) {p : Nat}
    {op : Operator} (hmove : moveAt p c = .join op) :
    op.rightPower = Power.define ∨ op.rightPower = Power.lambda := by
  obtain ⟨hlexeme, heq⟩ := moveAt_of_block h p
  rw [hmove] at heq
  have hcolon : Operator.binary? ":" = some ⟨":", .binary, "define", Power.define, .right⟩ := by decide
  have hquestion : Operator.binary? "?" = some ⟨"?", .binary, "lambda", Power.lambda, .right⟩ := by decide
  rcases hlexeme with hlexeme | hlexeme
  · rw [hlexeme, hcolon] at heq
    dsimp only at heq
    split at heq
    · cases heq
    · cases heq
      exact .inl rfl
  · rw [hlexeme, hquestion] at heq
    dsimp only at heq
    split at heq
    · cases heq
    · cases heq
      exact .inr rfl

namespace Cursor

variable {c c' : Cursor}

/-- A block operator heads no group without left operand. -/
lemma headsPointFree_of_block (h : c.here.isOperator Operator.blockSymbols) : c.headsPointFree = false := by
  have hcontains : Operator.blockSymbols.contains c.here.lexeme := by
    simpa [Operator.blockSymbols] using (Token.isOperator_blockSymbols_iff.1 h).2
  simp only [headsPointFree, Operator.isPointFree, hcontains, Bool.not_true, Bool.and_false,
    Bool.false_and]

/-- The tokens ahead of two cursors match up to where they part. -/
def Concurs (place : Int → Int → Prop) (operand : List Token → List Token → Prop) (n : Nat)
    (c c' : Cursor) : Prop :=
  SignLang.Concurs place operand n c.ahead c'.ahead

/-- The tokens ahead of two cursors match up to where they part, and so do those directly behind. -/
structure Pursues (place : Int → Int → Prop) (operand : List Token → List Token → Prop) (n : Nat)
    (c c' : Cursor) : Prop where
  concurs : c.Concurs place operand n c'
  previous : c.previous.Matches place c'.previous

namespace Concurs

/-- The cursors are where the lists part, or at a block operator before that, or before that. -/
lemma cases (h : c.Concurs place operand n c') :
    n = 0 ∧ (c.here.kind = .closing ∨ c.here.kind = .ending) ∧
        (c'.here.kind = .closing ∨ c'.here.kind = .ending) ∨
      c.here.Matches place c'.here ∧ (c.here.isOperator Operator.blockSymbols ∧
          operand c.advance.ahead c'.advance.ahead ∨
        ∃ m, heightAfter n [c.here] = some m ∧ c.advance.Pursues place operand m c'.advance) := by
  unfold Concurs at h
  generalize hts : c.ahead = ts at h
  generalize hts' : c'.ahead = ts' at h
  cases h with
  | halt hstop hstop' =>
    obtain ⟨rfl, -⟩ := List.cons.inj hts
    obtain ⟨rfl, -⟩ := List.cons.inj hts'
    exact .inl ⟨rfl, hstop, hstop'⟩
  | turn hop hblock hoperand =>
    obtain ⟨rfl, hadvance⟩ := advance_of_ahead hts
    obtain ⟨rfl, hadvance'⟩ := advance_of_ahead hts'
    exact .inr ⟨hop, .inl ⟨hblock, by rw [hadvance, hadvance']; exact hoperand⟩⟩
  | cons ht hheight h =>
    obtain ⟨⟨u, us, rfl⟩, u', us', rfl⟩ := h.exists_cons
    obtain ⟨rfl, hadvance⟩ := advance_of_ahead hts
    obtain ⟨rfl, hadvance'⟩ := advance_of_ahead hts'
    have hprevious {c : Cursor} {t u : Token} {us : List Token} (hts : c.ahead = t :: u :: us) :
        c.advance.previous = c.here :=
      previous_advance fun hnil => by simp [ahead, hnil] at hts
    refine .inr ⟨ht, .inr ⟨_, hheight, ?_, ?_⟩⟩
    · unfold Concurs
      rw [hadvance, hadvance']
      exact h
    · rw [hprevious hts, hprevious hts']
      exact ht

/-- Where nothing stops the parser, the cursors are at matching tokens. -/
lemma here (h : c.Concurs place operand n c') (hstop : ¬(c.here.kind = .closing ∨ c.here.kind = .ending)) :
    c.here.Matches place c'.here := by
  rcases h.cases with ⟨-, h, -⟩ | ⟨h, -⟩
  · exact absurd h hstop
  · exact h

/-- At a token that is neither a bracket nor a block operator the cursors move on alike. -/
lemma advance (h : c.Concurs place operand n c') (hending : c.here.kind ≠ .ending)
    (hbracket : c.here.isBracket = false) (hblock : c.here.isOperator Operator.blockSymbols = false) :
    c.here.Matches place c'.here ∧ c.advance.Pursues place operand n c'.advance := by
  rcases h.cases with ⟨-, hstop | hstop, -⟩ | ⟨hhere, ⟨hop, -⟩ | ⟨m, hheight, hnext⟩⟩
  · simp [Token.isBracket, hstop] at hbracket
  · exact absurd hstop hending
  · rw [hop] at hblock
    cases hblock
  · rw [heightAfter_other hbracket] at hheight
    cases hheight
    exact ⟨hhere, hnext⟩

/-- At an operator that takes no block the cursors move on alike. -/
lemma advance_operator (h : c.Concurs place operand n c') (hk : c.here.kind = .operator)
    (hblock : c.here.isOperator Operator.blockSymbols = false) :
    c.here.Matches place c'.here ∧ c.advance.Pursues place operand n c'.advance :=
  h.advance (by simp [hk]) (by simp [Token.isBracket, hk]) hblock

/-- So they do at a name, a literal or a separator. -/
lemma advance_other (h : c.Concurs place operand n c') (hop : c.here.kind ≠ .operator)
    (hending : c.here.kind ≠ .ending) (hbracket : c.here.isBracket = false) :
    c.here.Matches place c'.here ∧ c.advance.Pursues place operand n c'.advance :=
  h.advance hending hbracket (by simp [Token.isOperator, hop])

/-- At an opening bracket the cursors move into it. -/
lemma opening (h : c.Concurs place operand n c') (hk : c.here.kind = .opening) :
    c.here.Matches place c'.here ∧ c.advance.Pursues place operand (n + 1) c'.advance := by
  rcases h.cases with ⟨-, hstop | hstop, -⟩ | ⟨hhere, ⟨hop, -⟩ | ⟨m, hheight, hnext⟩⟩
  · simp [hk] at hstop
  · simp [hk] at hstop
  · simp [Token.isOperator, hk] at hop
  · rw [heightAfter_opening hk] at hheight
    cases hheight
    exact ⟨hhere, hnext⟩

/-- At a closing bracket the cursors move out of the bracket that they are in. -/
lemma closing (h : c.Concurs place operand (n + 1) c') (hk : c.here.kind = .closing) :
    c.here.Matches place c'.here ∧ c.advance.Pursues place operand n c'.advance := by
  rcases h.cases with ⟨hn, -⟩ | ⟨hhere, ⟨hop, -⟩ | ⟨m, hheight, hnext⟩⟩
  · cases hn
  · simp [Token.isOperator, hk] at hop
  · rw [heightAfter_closing hk] at hheight
    cases hheight
    exact ⟨hhere, hnext⟩

/-- Where nothing stops the parser at one cursor, nothing does at the other. -/
lemma not_stops (h : c.Concurs place operand n c') (hgo : ¬(c.here.kind = .closing ∨ c.here.kind = .ending)) :
    ¬(c'.here.kind = .closing ∨ c'.here.kind = .ending) := by
  rw [(h.here hgo).kind_eq]
  exact hgo

/-- What stops the parser at one cursor is met by what stops it at the other. -/
lemma stops (h : c.Concurs place operand n c') (hstop : c.here.kind = .closing ∨ c.here.kind = .ending) :
    c'.here.kind = .closing ∨ c'.here.kind = .ending := by
  rcases h.cases with ⟨-, -, hstop'⟩ | ⟨hhere, -⟩
  · exact hstop'
  · rw [hhere.kind_eq]
    exact hstop

lemma startsOperand_eq (h : c.Concurs place operand n c') :
    c'.here.startsOperand = c.here.startsOperand := by
  rcases h.cases with ⟨-, hstop, hstop'⟩ | ⟨hhere, -⟩
  · rw [Token.startsOperand_of_isEnd (Token.isEnd_of_stop hstop),
      Token.startsOperand_of_isEnd (Token.isEnd_of_stop hstop')]
  · exact hhere.startsOperand_eq

lemma isSymbol_eq (h : c.Concurs place operand n c') (symbol : String) :
    c'.here.isSymbol symbol = c.here.isSymbol symbol := by
  rcases h.cases with ⟨-, hstop, hstop'⟩ | ⟨hhere, -⟩
  · rw [Token.isSymbol_of_kind (Token.kind_of_isEnd (Token.isEnd_of_stop hstop)).2,
      Token.isSymbol_of_kind (Token.kind_of_isEnd (Token.isEnd_of_stop hstop')).2]
  · exact hhere.isSymbol_eq symbol

/-- What is no separator for one cursor is none for the other. -/
lemma kind_ne_separator (h : c.Concurs place operand n c') (hk : c.here.kind ≠ .separator) :
    c'.here.kind ≠ .separator := by
  rcases h.cases with ⟨-, -, hstop' | hstop'⟩ | ⟨hhere, -⟩
  · simp [hstop']
  · simp [hstop']
  · rw [hhere.kind_eq]
    exact hk

/-- What does not close a bracket for one cursor that is in one does not for the other. -/
lemma kind_ne_closing (h : c.Concurs place operand (n + 1) c') (hk : c.here.kind ≠ .closing) :
    c'.here.kind ≠ .closing := by
  rcases h.cases with ⟨hn, -⟩ | ⟨hhere, -⟩
  · cases hn
  · rw [hhere.kind_eq]
    exact hk

/-- The cursors stand at the head of a group without left operand, or none of them does. -/
lemma headsPointFree_eq (unique : Relator.BiUnique place) (h : c.Concurs place operand n c') :
    c'.headsPointFree = c.headsPointFree := by
  rcases h.cases with ⟨-, hstop, hstop'⟩ | ⟨hhere, ⟨hop, -⟩ | ⟨m, -, hnext⟩⟩
  · have hfree {t : Cursor} (h : t.here.kind = .closing ∨ t.here.kind = .ending) :
        t.headsPointFree = false := by
      simp [headsPointFree, (Token.kind_of_isEnd (Token.isEnd_of_stop h)).2]
    rw [hfree hstop, hfree hstop']
  · rw [headsPointFree_of_block hop, headsPointFree_of_block ((hhere.isOperator_eq _).trans hop)]
  · refine headsPointFree_eq_of_matches unique hhere ?_ fun hstart => ?_
    · rw [← here_advance, ← here_advance, hnext.concurs.startsOperand_eq]
    · rw [← here_advance] at hstart
      rw [← here_advance, ← here_advance]
      refine hnext.concurs.here fun hstop => ?_
      rw [Token.startsOperand_of_isEnd (Token.isEnd_of_stop hstop)] at hstart
      cases hstart

/-- At the head of a group without left operand the cursors move on alike. -/
lemma advance_pointFree (h : c.Concurs place operand n c') (hfree : c.headsPointFree) :
    c.here.Matches place c'.here ∧ c.advance.Pursues place operand n c'.advance := by
  refine h.advance_operator (kind_of_headsPointFree hfree) ?_
  by_contra hblock
  rw [headsPointFree_of_block (by simpa using hblock)] at hfree
  cases hfree

/-- The cursors move on alike over the comma or separator that may end a group. -/
lemma pastComma (h : c.Concurs place operand n c') :
    (Parser.pastComma c).Concurs place operand n (Parser.pastComma c') := by
  unfold Parser.pastComma
  have hcomma := h.isSymbol_eq ","
  by_cases hk : c.here.kind = .separator
  · obtain ⟨hhere, hnext⟩ := h.advance_other (by simp [hk]) (by simp [hk]) (by simp [Token.isBracket, hk])
    rw [if_pos (by simp [hk]), if_pos (by simp [hhere.kind_eq, hk])]
    exact hnext.concurs
  · have hk' := h.kind_ne_separator hk
    simp only [hk, hk', decide_false, Bool.or_false, hcomma]
    split
    · next hsymbol =>
      obtain ⟨hop, hlexeme⟩ := Token.isSymbol_iff.1 hsymbol
      exact (h.advance_operator hop (by simp [Token.isOperator, Operator.blockSymbols, hlexeme])).2.concurs
    · exact h

/-- A definition starts at both cursors or at none. -/
lemma startsDefine_eq (h : c.Concurs place operand n c') : startsDefine c' = startsDefine c := by
  unfold startsDefine
  rcases h.cases with ⟨-, hstop, hstop'⟩ | ⟨hhere, ⟨hop, -⟩ | ⟨m, -, hnext⟩⟩
  · simp [(Token.kind_of_isEnd (Token.isEnd_of_stop hstop)).1,
      (Token.kind_of_isEnd (Token.isEnd_of_stop hstop')).1]
  · simp [hhere.kind_eq, Token.kind_of_isOperator hop]
  · rw [hhere.kind_eq, ← here_advance, ← here_advance, hnext.concurs.isSymbol_eq]

/-- Cursors move on alike over names and tildes. -/
lemma skip (h : c.Concurs place operand n c') {k : Nat} (hk : ∀ t ∈ c.ahead.take k,
    t.kind = .identifier ∨ t.isSymbol "~") : (c.skip k).Concurs place operand n (c'.skip k) := by
  induction k generalizing c c' with
  | zero => exact h
  | succ k ih =>
    have hhere := hk c.here (by simp [ahead])
    have hnext : c.advance.Pursues place operand n c'.advance := by
      rcases hhere with hhere | hhere
      · exact (h.advance_other (by simp [hhere]) (by simp [hhere]) (by simp [Token.isBracket, hhere])).2
      · obtain ⟨hop, hlexeme⟩ := Token.isSymbol_iff.1 hhere
        exact (h.advance_operator hop (by simp [Token.isOperator, Operator.blockSymbols, hlexeme])).2
    refine ih hnext.concurs fun t ht => hk t ?_
    by_cases hafter : c.after = []
    · rw [show c.advance = c by simp [Cursor.advance, hafter]] at ht
      exact List.take_subset_take_left _ (Nat.le_succ k) ht
    · rw [ahead_eq_cons hafter, List.take_succ_cons]
      exact List.mem_cons_of_mem _ ht

/-- The parameters of a function are the same, and the cursors move on alike over them. -/
lemma lambdaHead?_eq (h : c.Concurs place operand n c') : c'.lambdaHead? = c.lambdaHead? ∧
    ∀ params, c.lambdaHead? = some params →
      (c.skip (Parameter.listWidth params)).Concurs place operand n
        (c'.skip (Parameter.listWidth params)) := by
  have hlist : Parameter.listOf (c'.here :: c'.after) = Parameter.listOf (c.here :: c.after) :=
    SignLang.Concurs.listOf_eq h
  have hskip : (c.skip (Parameter.listWidth (Parameter.listOf (c.here :: c.after)))).Concurs place operand n
      (c'.skip (Parameter.listWidth (Parameter.listOf (c.here :: c.after)))) :=
    h.skip (mem_parameters c.ahead)
  refine ⟨?_, fun params hparams => ?_⟩
  · unfold lambdaHead?
    dsimp only
    rw [hlist, hskip.isSymbol_eq "?"]
  · rw [(lambdaHead?_eq_some hparams).1]
    exact hskip

end Concurs

/-- What a token does after an operand is the same for both cursors. -/
lemma Pursues.moveAt_eq (unique : Relator.BiUnique place) (h : c.Pursues place operand n c') (p : Nat) :
    moveAt p c' = moveAt p c := by
  rcases h.concurs.cases with ⟨-, hstop, hstop'⟩ | ⟨hhere, ⟨hop, -⟩ | ⟨m, -, hnext⟩⟩
  · rw [moveAt_of_isEnd (Token.isEnd_of_stop hstop), moveAt_of_isEnd (Token.isEnd_of_stop hstop')]
  · rw [(moveAt_of_block hop p).2, (moveAt_of_block ((hhere.isOperator_eq _).trans hop) p).2,
      hhere.lexeme_eq]
  · refine moveAt_eq_of_matches unique h.previous hhere ?_ p
    rw [← here_advance, ← here_advance, hnext.concurs.startsOperand_eq]

/-- A reading has led the cursors on alike, or both to the end of the input. -/
def Lands (place : Int → Int → Prop) (operand : List Token → List Token → Prop) (n : Nat)
    (d d' : Cursor) : Prop :=
  d.Pursues place operand n d' ∨ d.here.kind = .ending ∧ d'.here.kind = .ending

end Cursor

namespace Parser

open Cursor

variable {c c' d : Cursor} {p : Nat} {e : Expr}

/-- The operand of a block operator where the lists part is read from both lists up to their ends. -/
def ReadsAlike (operand : List Token → List Token → Prop) : Prop :=
  ∀ {c c' d : Cursor} {p : Nat} {e : Expr}, operand c.ahead c'.ahead →
    p = Power.define ∨ p = Power.lambda → Reads (.expr p) c e d →
    d.here.kind = .ending ∧ ∃ d', Reads (.expr p) c' e d' ∧ d'.here.kind = .ending

/-- An expression starts with a token that can start an operand. -/
lemma Reads.startsOperand (h : Reads (.expr p) c e d) : c.here.startsOperand := by
  have hlambda {c : Cursor} {params : List Parameter} (h : c.lambdaHead? = some params) :
      c.here.startsOperand := by
    by_cases hk : c.here.kind = .identifier
    · simp [Token.startsOperand, hk]
    cases hq : c.here.isSymbol "?" with
    | true => simp [Token.startsOperand, Token.isSymbol_iff.1 hq]
    | false =>
      cases ht : c.here.isSymbol "~" with
      | true =>
        simp only [Token.startsOperand, Token.isSymbol_iff.1 ht]
        decide
      | false =>
        rw [lambdaHead?_eq_none (continuesHead_other hk hq ht c.after)] at h
        cases h
  cases h with
  | expr hoperand _ =>
    cases hoperand with
    | define _ hstarts =>
      simp [Token.startsOperand, (startsDefine_iff.1 hstarts).1]
    | lambda _ _ hhead => exact hlambda hhead
    | primary _ _ hprimary =>
      cases hprimary with
      | atom ha =>
        unfold atom? at ha
        split at ha
        case h_6 => cases ha
        all_goals next hk => simp [Token.startsOperand, hk]
      | thunk hq => simp [Token.startsOperand, Token.isSymbol_iff.1 hq]
      | leading hk _ hbar hop => simp [Token.startsOperand, hk, Operator.leadsOperand, hbar, hop]
      | bars hk | emptyGroup hk | bareSymbol hk | preset hk | group hk => simp [Token.startsOperand, hk]

/-- Nothing is taken in at the end of an expression. -/
lemma Reads.eq_of_isEnd {left : Left} (h : Reads (.climb p left) c e d) (hend : c.here.isEnd) :
    e = left.expr ∧ d = c := by
  have hmove := moveAt_of_isEnd hend p
  cases h with
  | stop => exact ⟨rfl, rfl⟩
  | trail h | join h | argue h =>
    rw [hmove] at h
    cases h

/-- The operand on the right of a block operator is read from both lists. -/
lemma Reads.right_of_block (alike : ReadsAlike operand) (hc : c.Concurs place operand n c')
    (hblock : c.here.isOperator Operator.blockSymbols) (hp : p = Power.define ∨ p = Power.lambda)
    (h : Reads (.expr p) c.advance e d)
    (ih : ∀ {m : Cursor}, c.advance.Concurs place operand n m →
      ∃ d', Reads (.expr p) m e d' ∧ d.Lands place operand n d') :
    c'.here.isOperator Operator.blockSymbols ∧ c'.here.lexeme = c.here.lexeme ∧
      c'.advance.here.startsOperand ∧
      ∃ d', Reads (.expr p) c'.advance e d' ∧ d.Lands place operand n d' := by
  have hk := Token.kind_of_isOperator hblock
  rcases hc.cases with ⟨-, hstop, -⟩ | ⟨hhere, ⟨-, hoperand⟩ | ⟨m, hheight, hnext⟩⟩
  · simp [hk] at hstop
  · obtain ⟨hd, d', h', hd'⟩ := alike hoperand hp h
    exact ⟨(hhere.isOperator_eq _).trans hblock, hhere.lexeme_eq, h'.startsOperand, d', h', .inr ⟨hd, hd'⟩⟩
  · rw [heightAfter_other (by simp [Token.isBracket, hk])] at hheight
    cases hheight
    obtain ⟨d', h', hd'⟩ := ih hnext.concurs
    exact ⟨(hhere.isOperator_eq _).trans hblock, hhere.lexeme_eq, h'.startsOperand, d', h', hd'⟩

/-- Cursors that were led to the end of a group were led there alike, and leave it alike. -/
lemma closing_of_lands {d d' : Cursor}
    (h : d.Concurs place operand (n + 1) d' ∨ d.here.kind = .ending ∧ d'.here.kind = .ending)
    (hclosing : d.here.kind = .closing) :
    d.here.Matches place d'.here ∧ d.advance.Pursues place operand n d'.advance := by
  rcases h with h | ⟨hending, -⟩
  · exact h.closing hclosing
  · simp [hending] at hclosing

/-- Where a reading has led the cursors. After statements nothing is said about what is behind. -/
def Task.Lands (place : Int → Int → Prop) (operand : List Token → List Token → Prop) (n : Nat)
    (d d' : Cursor) : Task → Prop
  | .statements _ => d.Concurs place operand n d' ∨ d.here.kind = .ending ∧ d'.here.kind = .ending
  | _ => d.Lands place operand n d'

/-- What has to match behind the cursors for a task: what follows an operand may depend on it. -/
def Task.Watches (place : Int → Int → Prop) (c c' : Cursor) : Task → Prop
  | .climb _ _ => c.previous.Matches place c'.previous
  | _ => True

/-- What follows an operand is read from both lists, also at their ends. -/
lemma Reads.climb_of_lands {left : Left} {f : Expr} {d₁ : Cursor} (h : Reads (.climb p left) d f d₁) {d' : Cursor}
    (hd : d.Lands place operand n d')
    (ih : ∀ {m : Cursor}, d.Concurs place operand n m → d.previous.Matches place m.previous →
      ∃ d', Reads (.climb p left) m f d' ∧ d₁.Lands place operand n d') :
    ∃ d₁', Reads (.climb p left) d' f d₁' ∧ d₁.Lands place operand n d₁' := by
  rcases hd with hd | ⟨hk, hk'⟩
  · exact ih hd.concurs hd.previous
  · obtain ⟨rfl, rfl⟩ := h.eq_of_isEnd (by simp [Token.isEnd, hk])
    exact ⟨d', .stop (moveAt_ending hk'), .inr ⟨hk, hk'⟩⟩

/-- What the parser reads before token lists part, it reads from both. -/
theorem Reads.concurs (unique : Relator.BiUnique place) (alike : ReadsAlike operand) {task : Task}
    (h : Reads task c e d) : ∀ {n : Nat} {c' : Cursor}, c.Concurs place operand n c' →
      task.Watches place c c' → ∃ d', Reads task c' e d' ∧ task.Lands place operand n d d' := by
  induction h with
  | @done es c hstop =>
    intro n c' hc _
    exact ⟨c', .done (hc.stops hstop), .inl hc⟩
  | @last es c e d hgo _ hsep ih =>
    intro n c' hc _
    obtain ⟨d', hd', hlands⟩ := ih hc trivial
    rcases hlands with hlands | ⟨hk, hk'⟩
    · exact ⟨d', .last (hc.not_stops hgo) hd' (hlands.concurs.kind_ne_separator hsep), .inl hlands.concurs⟩
    · exact ⟨d', .last (hc.not_stops hgo) hd' (by simp [hk']), .inr ⟨hk, hk'⟩⟩
  | @more es c e d f d₁ hgo _ hsep _ ih ih' =>
    intro n c' hc _
    obtain ⟨d', hd', hlands⟩ := ih hc trivial
    rcases hlands with hlands | ⟨hk, -⟩
    · obtain ⟨hhere, hnext⟩ :=
        hlands.concurs.advance_other (by simp [hsep]) (by simp [hsep]) (by simp [Token.isBracket, hsep])
      obtain ⟨d₁', hd₁', hlands'⟩ := ih' hnext.concurs trivial
      exact ⟨d₁', .more (hc.not_stops hgo) hd' (hhere.kind_eq.trans hsep) hd₁', hlands'⟩
    · simp [hk] at hsep
  | expr _ hclimb ih ih' =>
    intro n c' hc _
    obtain ⟨m', hm', hlands⟩ := ih hc trivial
    obtain ⟨d', hd', hlands'⟩ := hclimb.climb_of_lands hlands fun hc hprevious => ih' hc hprevious
    exact ⟨d', .expr hm' hd', hlands'⟩
  | @define p c e d hp hstarts hstart hread ih =>
    intro n c' hc _
    have hstarts' : startsDefine c' := hc.startsDefine_eq.trans hstarts
    obtain ⟨hname, hop, hcolon⟩ := of_startsDefine hstarts
    obtain ⟨hhere, hnext⟩ :=
      hc.advance_other (by simp [hname]) (by simp [hname]) (by simp [Token.isBracket, hname])
    have hblock := Token.isOperator_blockSymbols_iff.2 ⟨hop, .inl hcolon⟩
    obtain ⟨-, -, hstart', d', hd', hlands⟩ := hread.right_of_block alike hnext.concurs hblock (.inl rfl)
      fun hm => ih hm trivial
    rw [← hhere.lexeme_eq]
    exact ⟨d', .define hp hstarts' hstart' hd', hlands⟩
  | @lambda p c params e d hdefine hp hhead hstart hread ih =>
    intro n c' hc _
    obtain ⟨hhead', hskip⟩ := hc.lambdaHead?_eq
    obtain ⟨hop, hquestion⟩ := Token.isSymbol_iff.1 (lambdaHead?_eq_some hhead).2
    have hblock := Token.isOperator_blockSymbols_iff.2 ⟨hop, .inr hquestion⟩
    obtain ⟨-, -, hstart', d', hd', hlands⟩ := hread.right_of_block alike (hskip params hhead) hblock
      (.inr rfl) fun hm => ih hm trivial
    exact ⟨d', .lambda (by rwa [hc.startsDefine_eq]) hp (hhead'.trans hhead) hstart' hd', hlands⟩
  | primary hdefine hlambda _ ih =>
    intro n c' hc _
    obtain ⟨d', hd', hlands⟩ := ih hc trivial
    exact ⟨d', .primary (by rwa [hc.startsDefine_eq]) (by rwa [hc.lambdaHead?_eq.1]) hd', hlands⟩
  | @atom c e ha =>
    intro n c' hc _
    have hop : c.here.kind ≠ .operator := by
      intro hk
      simp [atom?, hk] at ha
    obtain ⟨hhere, hnext⟩ := hc.advance_other hop (kind_ne_ending_of_atom? ha) (isBracket_of_atom? ha)
    refine ⟨c'.advance, .atom ?_, .inl hnext⟩
    rw [← ha, atom?, atom?, hhere.kind_eq, hhere.lexeme_eq, hhere.payload_eq]
  | @thunk c e d hq hstart hread ih =>
    intro n c' hc _
    obtain ⟨hop, hquestion⟩ := Token.isSymbol_iff.1 hq
    have hblock := Token.isOperator_blockSymbols_iff.2 ⟨hop, .inr hquestion⟩
    obtain ⟨-, -, hstart', d', hd', hlands⟩ := hread.right_of_block alike hc hblock (.inr rfl)
      fun hm => ih hm trivial
    exact ⟨d', .thunk ((hc.isSymbol_eq "?").trans hq) hstart' hd', hlands⟩
  | @leading c op e d hk hq hbar hop hstart _ ih =>
    intro n c' hc _
    have hblock : c.here.isOperator Operator.blockSymbols = false := by
      by_contra hblock
      rcases (moveAt_of_block (by simpa using hblock) 0).1 with hlexeme | hlexeme
      · rw [hlexeme, show Operator.leading? ":" = none by decide] at hop
        cases hop
      · exact hq hlexeme
    obtain ⟨hhere, hnext⟩ := hc.advance_operator hk hblock
    obtain ⟨d', hd', hlands⟩ := ih hnext.concurs trivial
    rw [← hhere.lexeme_eq] at hq hbar hop ⊢
    exact ⟨d', .leading (hhere.kind_eq.trans hk) hq hbar hop (hnext.concurs.startsOperand_eq.trans hstart) hd',
      hlands⟩
  | @bars c e d hk hbar hne _ hclosing ih =>
    intro n c' hc _
    obtain ⟨hhere, hnext⟩ := hc.opening hk
    obtain ⟨d', hd', hlands⟩ := ih hnext.concurs trivial
    obtain ⟨hlast, hafter⟩ := closing_of_lands hlands hclosing
    exact ⟨d'.advance, .bars (hhere.kind_eq.trans hk) (hhere.lexeme_eq.trans hbar)
      (hnext.concurs.kind_ne_closing hne) hd' (hlast.kind_eq.trans hclosing), .inl hafter⟩
  | @emptyGroup c hk hbar hclosing =>
    intro n c' hc _
    obtain ⟨hhere, hnext⟩ := hc.opening hk
    obtain ⟨hlast, hafter⟩ := hnext.concurs.closing hclosing
    exact ⟨_, .emptyGroup (hhere.kind_eq.trans hk) (by rw [hhere.lexeme_eq]; exact hbar)
      (hlast.kind_eq.trans hclosing), .inl hafter⟩
  | @bareSymbol c hk hbar hfree hclosing =>
    intro n c' hc _
    obtain ⟨hhere, hnext⟩ := hc.opening hk
    obtain ⟨hsymbol, hinner⟩ := hnext.concurs.advance_pointFree hfree
    obtain ⟨hlast, hafter⟩ := hinner.concurs.closing hclosing
    rw [← hsymbol.lexeme_eq]
    exact ⟨_, .bareSymbol (hhere.kind_eq.trans hk) (by rw [hhere.lexeme_eq]; exact hbar)
      ((hnext.concurs.headsPointFree_eq unique).trans hfree) (hlast.kind_eq.trans hclosing), .inl hafter⟩
  | @preset c e d hk hbar hfree hstart _ hclosing ih =>
    intro n c' hc _
    obtain ⟨hhere, hnext⟩ := hc.opening hk
    obtain ⟨hsymbol, hinner⟩ := hnext.concurs.advance_pointFree hfree
    obtain ⟨d', hd', hlands⟩ := ih hinner.concurs trivial
    rcases hlands with hlands | ⟨hend, -⟩
    · obtain ⟨hlast, hafter⟩ := hlands.concurs.pastComma.closing hclosing
      rw [← hsymbol.lexeme_eq]
      exact ⟨_, .preset (hhere.kind_eq.trans hk) (by rw [hhere.lexeme_eq]; exact hbar)
        ((hnext.concurs.headsPointFree_eq unique).trans hfree)
        (hinner.concurs.startsOperand_eq.trans hstart) hd' (hlast.kind_eq.trans hclosing), .inl hafter⟩
    · rw [pastComma_of_stop (.inr hend), hend] at hclosing
      cases hclosing
  | @group c e d hk hbar hne hfree _ hclosing ih =>
    intro n c' hc _
    obtain ⟨hhere, hnext⟩ := hc.opening hk
    obtain ⟨d', hd', hlands⟩ := ih hnext.concurs trivial
    obtain ⟨hlast, hafter⟩ := closing_of_lands hlands hclosing
    exact ⟨d'.advance, .group (hhere.kind_eq.trans hk) (by rw [hhere.lexeme_eq]; exact hbar)
      (hnext.concurs.kind_ne_closing hne) (by rwa [hnext.concurs.headsPointFree_eq unique]) hd'
      (hlast.kind_eq.trans hclosing), .inl hafter⟩
  | @stop p left c hmove =>
    intro n c' hc hprevious
    have hpursues : c.Pursues place operand n c' := ⟨hc, hprevious⟩
    exact ⟨c', .stop ((hpursues.moveAt_eq unique p).trans hmove), .inl hpursues⟩
  | @trail p left c e d hmove _ ih =>
    intro n c' hc hprevious
    have hpursues : c.Pursues place operand n c' := ⟨hc, hprevious⟩
    have hk := kind_of_moveAt hmove (by simp) (by simp)
    have hblock : c.here.isOperator Operator.blockSymbols = false := by
      by_contra hblock
      have heq := (moveAt_of_block (by simpa using hblock) p).2
      rw [hmove] at heq
      split at heq
      · split at heq <;> cases heq
      · cases heq
    obtain ⟨hhere, hnext⟩ := hc.advance_operator hk hblock
    obtain ⟨d', hd', hlands⟩ := ih hnext.concurs hnext.previous
    rw [← hhere.lexeme_eq] at hd'
    exact ⟨d', .trail ((hpursues.moveAt_eq unique p).trans hmove) hd', hlands⟩
  | @join p op left left' c e d f d₁ hmove hstart hread hjoin hclimb ih ih' =>
    intro n c' hc hprevious
    have hpursues : c.Pursues place operand n c' := ⟨hc, hprevious⟩
    have hmove' := (hpursues.moveAt_eq unique p).trans hmove
    have hright : c'.here.lexeme = c.here.lexeme ∧ c'.advance.here.startsOperand ∧
        ∃ d', Reads (.expr op.rightPower) c'.advance e d' ∧ d.Lands place operand n d' := by
      cases hblock : c.here.isOperator Operator.blockSymbols with
      | true =>
        exact (hread.right_of_block alike hc hblock (rightPower_of_block hblock hmove)
          fun hm => ih hm trivial).2
      | false =>
        obtain ⟨hhere, hnext⟩ := hc.advance_operator (kind_of_moveAt hmove (by simp) (by simp)) hblock
        exact ⟨hhere.lexeme_eq, hnext.concurs.startsOperand_eq.trans hstart, ih hnext.concurs trivial⟩
    obtain ⟨hlexeme, hstart', d', hd', hlands⟩ := hright
    obtain ⟨d₁', hd₁', hlands'⟩ := hclimb.climb_of_lands hlands fun hc hprevious => ih' hc hprevious
    exact ⟨d₁', .join hmove' hstart' hd' (by rw [hlexeme]; exact hjoin) hd₁', hlands'⟩
  | @argue p left c e d f d₁ hmove _ hclimb ih ih' =>
    intro n c' hc hprevious
    have hpursues : c.Pursues place operand n c' := ⟨hc, hprevious⟩
    obtain ⟨d', hd', hlands⟩ := ih hc trivial
    obtain ⟨d₁', hd₁', hlands'⟩ := hclimb.climb_of_lands hlands fun hc hprevious => ih' hc hprevious
    exact ⟨d₁', .argue ((hpursues.moveAt_eq unique p).trans hmove) hd' hd₁', hlands'⟩

end Parser

end SignLang
