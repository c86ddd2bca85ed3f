import SignLang.Proofs.Parser.Moves
import SignLang.Proofs.Token

/-!
# Parsing the same tokens at other places

The parser looks at what tokens say and at whether written tokens touch, never at their places. Two
cursors whose tokens ahead match (`Cursor.Abreast`) are therefore read alike, one function of the parser
after the other, and within the same limit. The second list may go on where the first one ends, as long
as no operand and no operator follows there: a program is read inside of a group, or before other
statements, as it is read alone.

* `Carries.parseExpr`: expressions are read alike.
* `Carries.statements`: so are the statements of a sequence.
* `Carries.statements_append`: statements that others follow.
-/

namespace SignLang

/-- The tokens ahead of two cursors match up to the end of the first list, where the second one goes on
with `tail`. -/
inductive Aligned (place : Int → Int → Prop) (tail : List Token) : List Token → List Token → Prop where
  | halt {e : Token} :
    e.kind = .ending →
    tail.head?.any Token.isEnd →
    Aligned place tail [e] tail
  | cons {t t' : Token} {ts ts' : List Token} :
    t.Matches place t' →
    Aligned place tail ts ts' →
    Aligned place tail (t :: ts) (t' :: ts')

namespace Aligned

variable {place : Int → Int → Prop} {tail ts ts' : List Token}

lemma exists_isEnd (h : tail.head?.any Token.isEnd) :
    ∃ e' rest', tail = e' :: rest' ∧ e'.isEnd := by
  cases tail with
  | nil => cases h
  | cons e' rest' => exact ⟨e', rest', rfl, h⟩

lemma tail_ne_nil (h : Aligned place tail ts ts') : tail ≠ [] := by
  induction h with
  | halt _ htail =>
    obtain ⟨e', rest', rfl, -⟩ := exists_isEnd htail
    simp
  | cons _ _ ih => exact ih

lemma length_add (h : Aligned place tail ts ts') : ts'.length + 1 = ts.length + tail.length := by
  induction h with
  | halt _ _ => simp [Nat.add_comm]
  | cons _ _ ih =>
    rw [List.length_cons, List.length_cons]
    omega

lemma of_forall₂ {e : Token} (h : List.Forall₂ (Token.Matches place) ts ts')
    (he : e.kind = .ending) (htail : tail.head?.any Token.isEnd) :
    Aligned place tail (ts ++ [e]) (ts' ++ tail) := by
  induction h with
  | nil => exact .halt he htail
  | cons h _ ih => exact .cons h ih

/-- The parameters ahead are the same. -/
lemma listOf_eq (h : Aligned place tail ts ts') : Parameter.listOf ts' = Parameter.listOf ts := by
  induction h with
  | @halt e he htail =>
    have hnone {t : Token} {rest : List Token} (h : t.isEnd) : Parameter.listOf (t :: rest) = [] :=
      Parameter.listOf_eq_nil (Token.kind_of_isEnd h).1
        (Token.isSymbol_of_kind (Token.kind_of_isEnd h).2 _) rest
    obtain ⟨e', rest', rfl, he'⟩ := exists_isEnd htail
    rw [hnone he', hnone (by simp [Token.isEnd, he])]
  | @cons t t' ts ts' ht h ih =>
    by_cases hk : t.kind = .identifier
    · rw [Parameter.listOf_name (ht.kind_eq.trans hk), Parameter.listOf_name hk, ih, ht.lexeme_eq]
    · rw [Parameter.listOf_other (ht.kind_eq ▸ hk), Parameter.listOf_other hk]
      -- only a tilde and a name are left, which the next tokens tell
      cases h with
      | @halt e he htail =>
        obtain ⟨e', rest', rfl, he'⟩ := exists_isEnd htail
        simp [Parameter.restOf, he, (Token.kind_of_isEnd he').1]
      | cons hu _ => rw [Parameter.restOf, Parameter.restOf, ht.isSymbol_eq, hu.kind_eq, hu.lexeme_eq]

end Aligned

/-- Parameters are written with names and tildes. -/
lemma mem_parameters (ts : List Token) :
    ∀ t ∈ ts.take (Parameter.listWidth (Parameter.listOf ts)), t.kind = .identifier ∨ t.isSymbol "~" := by
  induction ts with
  | nil => simp
  | cons t ts ih =>
    by_cases hk : t.kind = .identifier
    · rw [Parameter.listOf_name hk, Parameter.listWidth, Parameter.width, if_neg (by simp), Nat.add_comm,
        List.take_succ_cons]
      exact List.forall_mem_cons.2 ⟨by simp [hk], ih⟩
    · rw [Parameter.listOf_other hk]
      cases ts with
      | nil => simp [Parameter.restOf, Parameter.listWidth]
      | cons u ts =>
        rw [Parameter.restOf]
        split
        · next htilde =>
          simp only [Bool.and_eq_true, decide_eq_true_eq] at htilde
          simp [Parameter.listWidth, Parameter.width, htilde.1, htilde.2]
        · simp [Parameter.listWidth]

/-- Parameters are written with names and operators. -/
lemma kind_of_mem_parameters (ts : List Token) :
    ∀ t ∈ ts.take (Parameter.listWidth (Parameter.listOf ts)),
      t.kind = .identifier ∨ t.kind = .operator :=
  fun t ht => (mem_parameters ts t ht).imp_right Parser.kind_of_isSymbol

namespace Cursor

/-- The tokens ahead of two cursors match. -/
def Abreast (place : Int → Int → Prop) (tail : List Token) (c c' : Cursor) : Prop :=
  Aligned place tail c.ahead c'.ahead

/-- The tokens ahead of two cursors match, and so do those directly behind them. -/
structure Follows (place : Int → Int → Prop) (tail : List Token) (c c' : Cursor) : Prop where
  abreast : c.Abreast place tail c'
  previous : c.previous.Matches place c'.previous

variable {place : Int → Int → Prop} {tail : List Token} {c c' : Cursor}

namespace Abreast

/-- Both cursors stand at matching tokens, or the first one at the end of its list. -/
lemma cases (h : c.Abreast place tail c') :
    c.here.kind = .ending ∧ c'.here.isEnd ∧ c.after = [] ∧ c'.ahead = tail ∨
      c.here.Matches place c'.here ∧ c.advance.Follows place tail c'.advance := by
  unfold Abreast at h
  generalize hts : c.ahead = ts at h
  generalize hts' : c'.ahead = ts' at h
  cases h with
  | halt he htail =>
    obtain ⟨rfl, hafter⟩ := List.cons.inj hts
    obtain ⟨e', rest', rfl, he'⟩ := Aligned.exists_isEnd htail
    obtain ⟨rfl, -⟩ := List.cons.inj hts'
    exact .inl ⟨he, he', hafter, rfl⟩
  | @cons t t' us us' ht h =>
    obtain ⟨rfl, hafter⟩ := List.cons.inj hts
    obtain ⟨rfl, hafter'⟩ := List.cons.inj hts'
    obtain ⟨u, us, rfl⟩ : ∃ u vs, us = u :: vs := by
      cases h with
      | halt _ _ => exact ⟨_, _, rfl⟩
      | cons _ _ => exact ⟨_, _, rfl⟩
    obtain ⟨u', us', rfl⟩ : ∃ u vs, us' = u :: vs := by
      cases h with
      | halt _ htail =>
        obtain ⟨e', rest', rfl, -⟩ := Aligned.exists_isEnd htail
        exact ⟨_, _, rfl⟩
      | cons _ _ => exact ⟨_, _, rfl⟩
    refine .inr ⟨ht, ?_⟩
    rw [advance_eq hafter, advance_eq hafter']
    exact ⟨h, ht⟩

/-- Before the end of the first list the cursors stand at matching tokens and go on abreast. -/
lemma advance (h : c.Abreast place tail c') (hk : c.here.kind ≠ .ending) :
    c.here.Matches place c'.here ∧ c.advance.Follows place tail c'.advance :=
  h.cases.resolve_left fun h => hk h.1

lemma length_le (h : c.Abreast place tail c') : c.after.length ≤ c'.after.length := by
  have hlength := Aligned.length_add h
  have hpos := List.length_pos_iff.2 (Aligned.tail_ne_nil h)
  simp only [ahead, List.length_cons] at hlength
  omega

lemma startsOperand_eq (h : c.Abreast place tail c') :
    c'.here.startsOperand = c.here.startsOperand := by
  rcases h.cases with ⟨hk, hend, -⟩ | ⟨hhere, -⟩
  · rw [Token.startsOperand_of_isEnd hend, Token.startsOperand_of_isEnd (by simp [Token.isEnd, hk])]
  · exact hhere.startsOperand_eq

lemma isSymbol_eq (h : c.Abreast place tail c') (symbol : String) :
    c'.here.isSymbol symbol = c.here.isSymbol symbol := by
  rcases h.cases with ⟨hk, hend, -⟩ | ⟨hhere, -⟩
  · rw [Token.isSymbol_of_kind (Token.kind_of_isEnd hend).2, Token.isSymbol_of_kind (by simp [hk])]
  · exact hhere.isSymbol_eq symbol

/-- Where statements end in the first list, they do so in the second one, unless others follow. -/
lemma isStop (h : c.Abreast place tail c') (hend : c.here.kind = .closing ∨ c.here.kind = .ending)
    (hsep : c'.here.kind ≠ .separator) : c'.here.kind = .closing ∨ c'.here.kind = .ending := by
  rcases h.cases with ⟨-, hend', -⟩ | ⟨hhere, -⟩
  · simpa [Token.isEnd, hsep] using hend'
  · rw [hhere.kind_eq]
    exact hend

lemma not_isStop (h : c.Abreast place tail c') (hend : ¬(c.here.kind = .closing ∨ c.here.kind = .ending)) :
    ¬(c'.here.kind = .closing ∨ c'.here.kind = .ending) := by
  rw [(h.advance fun hk => hend (.inr hk)).1.kind_eq]
  exact hend

/-- Cursors abreast stay so over tokens before the end of the first list. -/
lemma skip (h : c.Abreast place tail c') {n : Nat} (hn : ∀ t ∈ c.ahead.take n, t.kind ≠ .ending) :
    (c.skip n).Abreast place tail (c'.skip n) := by
  induction n generalizing c c' with
  | zero => exact h
  | succ n ih =>
    have hk : c.here.kind ≠ .ending := hn _ (by simp [ahead])
    refine ih (h.advance hk).2.abreast fun t ht => hn t ?_
    by_cases hafter : c.after = []
    · rw [show c.advance = c by simp [Cursor.advance, hafter]] at ht
      exact List.take_subset_take_left _ (Nat.le_succ n) ht
    · rw [ahead_eq_cons hafter, List.take_succ_cons]
      exact List.mem_cons_of_mem _ ht

/-- The parameters of a function are the same, and the cursors are abreast after them. -/
lemma lambdaHead?_eq (h : c.Abreast place tail c') : c'.lambdaHead? = c.lambdaHead? ∧
    ∀ params, c.lambdaHead? = some params →
      (c.skip (Parameter.listWidth params)).Abreast place tail (c'.skip (Parameter.listWidth params)) := by
  have hlist : Parameter.listOf (c'.here :: c'.after) = Parameter.listOf (c.here :: c.after) :=
    Aligned.listOf_eq h
  have hskip : (c.skip (Parameter.listWidth (Parameter.listOf (c.here :: c.after)))).Abreast place tail
      (c'.skip (Parameter.listWidth (Parameter.listOf (c.here :: c.after)))) :=
    h.skip fun t ht => by rcases kind_of_mem_parameters c.ahead t ht with hk | hk <;> simp [hk]
  refine ⟨?_, fun params hparams => ?_⟩
  · unfold lambdaHead?
    dsimp only
    rw [hlist, hskip.isSymbol_eq "?"]
  · rw [(lambdaHead?_eq_some hparams).1]
    exact hskip

end Abreast

/-- What a token does after an operand depends on the tokens next to it. -/
lemma moveAt_eq_of_matches (unique : Relator.BiUnique place) (hprevious : c.previous.Matches place c'.previous)
    (hhere : c.here.Matches place c'.here) (hnext : c'.next.startsOperand = c.next.startsOperand) (p : Nat) :
    Parser.moveAt p c' = Parser.moveAt p c := by
  have hargument : Parser.argumentMove p c'.here = Parser.argumentMove p c.here := by
    rw [Parser.argumentMove, Parser.argumentMove, hhere.startsOperand_eq]
  unfold Parser.moveAt
  rw [hhere.kind_eq, hhere.lexeme_eq, hargument]
  split
  · next hk =>
    have htrailing : c'.isTrailing = c.isTrailing := by
      unfold isTrailing
      rw [hhere.lexeme_eq, hnext]
      -- only a written token behind the operator is asked whether they touch
      have htouches : (c'.previous.touches c'.here && !c'.previous.synthetic) =
          (c.previous.touches c.here && !c.previous.synthetic) := by
        rw [hprevious.synthetic_eq]
        cases hs : c.previous.synthetic with
        | true => simp
        | false => rw [hprevious.touches_eq unique hhere (.inl hs) (.inr hk)]
      rw [htouches]
    rw [Parser.trails, Parser.trails, hhere.lexeme_eq, htrailing]
  · rfl

/-- Whether a token heads a group without left operand depends on it and the next one. -/
lemma headsPointFree_eq_of_matches (unique : Relator.BiUnique place) (hhere : c.here.Matches place c'.here)
    (hstarts : c'.next.startsOperand = c.next.startsOperand)
    (hnext : c.next.startsOperand → c.next.Matches place c'.next) :
    c'.headsPointFree = c.headsPointFree := by
  unfold headsPointFree
  rw [hhere.kind_eq, hhere.lexeme_eq, hstarts]
  by_cases hop : c.here.kind = .operator
  · cases hstart : c.next.startsOperand with
    | false => simp
    | true =>
      have htouches : (c'.here.touches c'.next && !c'.next.synthetic) =
          (c.here.touches c.next && !c.next.synthetic) := by
        rw [(hnext hstart).synthetic_eq]
        cases hs : c.next.synthetic with
        | true => simp
        | false => rw [hhere.touches_eq unique (hnext hstart) (.inr hop) (.inl hs)]
      simp only [Bool.and_assoc (Operator.leadsOperand _), htouches]
  · simp [hop]

/-- What a token does after an operand is the same for both cursors. -/
lemma Follows.moveAt_eq (unique : Relator.BiUnique place) (h : c.Follows place tail c') (p : Nat) :
    Parser.moveAt p c' = Parser.moveAt p c := by
  rcases h.abreast.cases with ⟨hk, hend, -⟩ | ⟨hhere, hnext⟩
  · rw [Parser.moveAt_of_isEnd hend, Parser.moveAt_ending hk]
  · refine moveAt_eq_of_matches unique h.previous hhere ?_ p
    rw [← here_advance, ← here_advance, hnext.abreast.startsOperand_eq]

/-- The cursors stand at the head of a group without left operand, or none of them does. -/
lemma Abreast.headsPointFree_eq (unique : Relator.BiUnique place) (h : c.Abreast place tail c')
    (hk : c.here.kind ≠ .ending) : c'.headsPointFree = c.headsPointFree := by
  obtain ⟨hhere, hnext⟩ := h.advance hk
  refine headsPointFree_eq_of_matches unique hhere ?_ fun hstart => ?_
  · rw [← here_advance, ← here_advance, hnext.abreast.startsOperand_eq]
  · rw [← here_advance] at hstart
    rw [← here_advance, ← here_advance]
    exact (hnext.abreast.advance (Parser.kind_ne_ending_of_startsOperand hstart)).1

end Cursor

namespace Parser

/-- The ways in which statements are read. -/
lemma parseStatements_eq_ok {parse : Reader} {turns : List Token} {c d : Cursor} {es : List Expr} :
    parseStatements parse turns c = .ok (es, d) ↔
      (c.here.kind = .closing ∨ c.here.kind = .ending) ∧ es = [] ∧ d = c ∨
      ¬(c.here.kind = .closing ∨ c.here.kind = .ending) ∧ ∃ e m, parse 0 c = .ok (e, m) ∧
        (m.here.kind ≠ .separator ∧ es = [e] ∧ d = m ∨
          m.here.kind = .separator ∧ ∃ t rest fs, turns = t :: rest ∧ es = e :: fs ∧
            parseStatements parse rest m.advance = .ok (fs, d)) := by
  have hstop : (decide (c.here.kind = .closing) || decide (c.here.kind = .ending)) = true ↔
      (c.here.kind = .closing ∨ c.here.kind = .ending) := by simp
  constructor
  · intro h
    unfold parseStatements at h
    split at h
    · next hend =>
      cases h
      exact .inl ⟨hstop.1 hend, rfl, rfl⟩
    · next hend =>
      obtain ⟨⟨e, m⟩, he, h⟩ := bind_eq_ok.1 h
      refine .inr ⟨mt hstop.2 hend, e, m, he, ?_⟩
      dsimp only at h
      split at h
      · next hsep =>
        cases turns with
        | nil => cases h
        | cons t rest =>
          obtain ⟨⟨fs, n⟩, hrest, h⟩ := bind_eq_ok.1 h
          cases h
          exact .inr ⟨hsep, t, rest, fs, rfl, rfl, hrest⟩
      · next hsep =>
        cases h
        exact .inl ⟨hsep, rfl, rfl⟩
  · rintro (⟨hend, rfl, rfl⟩ | ⟨hend, e, m, he, hm⟩)
    · rw [parseStatements.eq_def, if_pos (hstop.2 hend)]
    · rw [parseStatements.eq_def, if_neg (mt hstop.1 hend)]
      refine bind_eq_ok.2 ⟨(e, m), he, ?_⟩
      dsimp only
      rcases hm with ⟨hsep, rfl, rfl⟩ | ⟨hsep, t, rest, fs, rfl, rfl, hrest⟩
      · rw [if_neg hsep]
        rfl
      · rw [if_pos hsep]
        exact bind_eq_ok.2 ⟨(fs, d), hrest, rfl⟩

/-- The reader reads matching tokens alike. -/
def Carries (place : Int → Int → Prop) (tail : List Token) (parse : Reader) : Prop :=
  ∀ ⦃p c c' e d⦄, c.Abreast place tail c' → parse p c = .ok (e, d) →
    ∃ d', parse p c' = .ok (e, d') ∧ d.Follows place tail d'

section Carries

variable {place : Int → Int → Prop} {tail : List Token} {parse : Reader} {c c' d : Cursor} {p : Nat}
  {e : Expr}

lemma Carries.right (carries : Carries place tail parse) {operator : Cursor} (operator' : Cursor)
    (hc : c.Abreast place tail c') (h : parseRight parse operator p c = .ok (e, d)) :
    ∃ d', parseRight parse operator' p c' = .ok (e, d') ∧ d.Follows place tail d' := by
  obtain ⟨hstart, h⟩ := parseRight_eq_ok.1 h
  obtain ⟨d', h', hd⟩ := carries hc h
  exact ⟨d', parseRight_eq_ok.2 ⟨hc.startsOperand_eq.trans hstart, h'⟩, hd⟩

/-- Statements are read alike, unless the second list goes on with others. -/
lemma Carries.statements (carries : Carries place tail parse) {turns turns' : List Token} {es : List Expr}
    (hc : c.Abreast place tail c') (hturns : turns.length ≤ turns'.length)
    (h : parseStatements parse turns c = .ok (es, d)) :
    ∃ d', d.Abreast place tail d' ∧
      (d'.here.kind ≠ .separator → parseStatements parse turns' c' = .ok (es, d')) := by
  induction turns generalizing turns' c c' es with
  | nil =>
    rcases parseStatements_eq_ok.1 h with ⟨hend, rfl, rfl⟩ | ⟨hend, e, m, he, hm⟩
    · exact ⟨c', hc, fun hsep => parseStatements_eq_ok.2 (.inl ⟨hc.isStop hend hsep, rfl, rfl⟩)⟩
    · obtain ⟨m', he', hm'⟩ := carries hc he
      rcases hm with ⟨-, rfl, rfl⟩ | ⟨-, t, rest, fs, heq, -⟩
      · exact ⟨m', hm'.abreast, fun hsep => parseStatements_eq_ok.2
          (.inr ⟨hc.not_isStop hend, e, m', he', .inl ⟨hsep, rfl, rfl⟩⟩)⟩
      · cases heq
  | cons t turns ih =>
    rcases parseStatements_eq_ok.1 h with ⟨hend, rfl, rfl⟩ | ⟨hend, e, m, he, hm⟩
    · exact ⟨c', hc, fun hsep => parseStatements_eq_ok.2 (.inl ⟨hc.isStop hend hsep, rfl, rfl⟩)⟩
    · obtain ⟨m', he', hm'⟩ := carries hc he
      rcases hm with ⟨-, rfl, rfl⟩ | ⟨hsep, t, rest, fs, heq, rfl, hrest⟩
      · exact ⟨m', hm'.abreast, fun hsep => parseStatements_eq_ok.2
          (.inr ⟨hc.not_isStop hend, e, m', he', .inl ⟨hsep, rfl, rfl⟩⟩)⟩
      · cases heq
        obtain ⟨hhere, hnext⟩ := hm'.abreast.advance (by simp [hsep])
        obtain ⟨t', turns', rfl, hle⟩ := exists_cons_of_lt_length hturns
        obtain ⟨d', hd, hrest'⟩ := ih hnext.abreast hle hrest
        refine ⟨d', hd, fun hsep' => parseStatements_eq_ok.2 (.inr ⟨hc.not_isStop hend, e, m', he', .inr
          ⟨hhere.kind_eq.trans hsep, t', turns', fs, rfl, rfl, hrest' hsep'⟩⟩)⟩

/-- Inside of a group, where the second list cannot go on with other statements. -/
lemma Carries.sequence (carries : Carries place tail parse) (hc : c.Abreast place tail c')
    (h : parseSequence parse c = .ok (e, d)) (hd : d.here.kind = .closing)
    (hne : c.here.kind ≠ .closing) : ∃ d', parseSequence parse c' = .ok (e, d') ∧
      d'.here.kind = .closing ∧ d.advance.Follows place tail d'.advance ∧ c'.here.kind ≠ .closing := by
  obtain ⟨⟨es, m⟩, hs, h⟩ := bind_eq_ok.1 h
  cases h
  have hending : c.here.kind ≠ .ending := by
    intro hk
    rcases parseStatements_eq_ok.1 hs with ⟨-, -, rfl⟩ | ⟨hend, -⟩
    · rw [hd] at hk
      cases hk
    · exact hend (.inr hk)
  obtain ⟨d', hd', hs'⟩ := carries.statements hc hc.length_le hs
  obtain ⟨hhere, hnext⟩ := hd'.advance (by simp [hd])
  have hclosing : d'.here.kind = .closing := hhere.kind_eq.trans hd
  refine ⟨d', bind_eq_ok.2 ⟨(es, d'), hs' (by simp [hclosing]), rfl⟩, hclosing, hnext, ?_⟩
  rw [(hc.advance hending).1.kind_eq]
  exact hne

lemma Carries.pointFree (carries : Carries place tail parse) (hc : c.Abreast place tail c')
    (hk : c.here.kind = .operator) (h : parsePointFree parse c = .ok (e, d))
    (hd : d.here.kind = .closing) : ∃ d', parsePointFree parse c' = .ok (e, d') ∧
      d'.here.kind = .closing ∧ d.advance.Follows place tail d'.advance := by
  obtain ⟨hhere, hinner⟩ := hc.advance (by simp [hk])
  unfold parsePointFree at h ⊢
  dsimp only at h ⊢
  rw [hhere.lexeme_eq]
  split at h
  · next hclosing =>
    cases h
    obtain ⟨hhere', hnext⟩ := hinner.abreast.advance (by simp [hclosing])
    have hclosing' := hhere'.kind_eq.trans hclosing
    exact ⟨c'.advance, by rw [if_pos hclosing'], hclosing', hnext⟩
  · obtain ⟨⟨preset, m⟩, hright, h⟩ := bind_eq_ok.1 h
    cases h
    obtain ⟨m', hright', hm⟩ := carries.right c' hinner.abreast hright
    have hstart := (parseRight_eq_ok.1 hright').1
    have hne : c'.advance.here.kind ≠ .closing := by
      intro hclosing
      simp [Token.startsOperand, hclosing] at hstart
    rw [if_neg hne]
    -- the group ends after the operand, so neither cursor is at the end of its list
    have hending : m.here.kind ≠ .ending := by
      intro hk
      dsimp only at hd
      rw [if_neg (by simp [Token.isSymbol, hk])] at hd
      rw [hd] at hk
      cases hk
    obtain ⟨hhere', hnext⟩ := hm.abreast.advance hending
    refine ⟨_, bind_eq_ok.2 ⟨(preset, m'), hright', rfl⟩, ?_⟩
    dsimp only at hd ⊢
    rw [hhere'.isSymbol_eq, hhere'.kind_eq]
    split at hd
    · next hcomma =>
      rw [if_pos hcomma]
      obtain ⟨hhere'', hnext'⟩ := hnext.abreast.advance (by simp [hd])
      exact ⟨hhere''.kind_eq.trans hd, by rwa [if_pos hcomma]⟩
    · next hcomma =>
      rw [if_neg hcomma]
      exact ⟨hhere'.kind_eq.trans hd, by rwa [if_neg hcomma]⟩

lemma Carries.group (unique : Relator.BiUnique place) (carries : Carries place tail parse)
    (hc : c.Abreast place tail c') (hk : c.here.kind = .opening) (h : parseGroup parse c = .ok (e, d)) :
    ∃ d', parseGroup parse c' = .ok (e, d') ∧ d.Follows place tail d' := by
  obtain ⟨hhere, hinner⟩ := hc.advance (by simp [hk])
  unfold parseGroup at h ⊢
  dsimp only at h ⊢
  rw [hhere.lexeme_eq]
  split at h
  · next hbar =>
    rw [if_pos hbar]
    split at h
    · cases h
    · next hne =>
      obtain ⟨e', m, hs, hclosing, rfl, rfl⟩ := (closed_eq_ok (.unary Operator.bar true)).1 h
      obtain ⟨m', hs', hclosing', hnext, hne'⟩ := carries.sequence hinner.abreast hs hclosing hne
      rw [if_neg hne']
      exact ⟨m'.advance, (closed_eq_ok (.unary Operator.bar true)).2 ⟨e', m', hs', hclosing', rfl, rfl⟩, hnext⟩
  · next hbar =>
    rw [if_neg hbar]
    split at h
    · next hempty =>
      cases h
      obtain ⟨hhere', hnext⟩ := hinner.abreast.advance (by simp [hempty])
      exact ⟨c'.advance.advance, by rw [if_pos (hhere'.kind_eq.trans hempty)], hnext⟩
    · next hne =>
      split at h
      · next hfree =>
        obtain ⟨e', m, hs, hclosing, rfl, rfl⟩ := (closed_eq_ok fun e => e).1 h
        have hop := Cursor.kind_of_headsPointFree hfree
        have hending : c.advance.here.kind ≠ .ending := by simp [hop]
        have hne' : c'.advance.here.kind ≠ .closing := by
          rw [(hinner.abreast.advance hending).1.kind_eq]
          exact hne
        obtain ⟨m', hs', hclosing', hnext⟩ := carries.pointFree hinner.abreast hop hs hclosing
        rw [if_neg hne', hinner.abreast.headsPointFree_eq unique hending, if_pos hfree]
        exact ⟨m'.advance, (closed_eq_ok fun e => e).2 ⟨e, m', hs', hclosing', rfl, rfl⟩, hnext⟩
      · next hfree =>
        obtain ⟨e', m, hs, hclosing, rfl, rfl⟩ := (closed_eq_ok fun e => e).1 h
        obtain ⟨m', hs', hclosing', hnext, hne'⟩ := carries.sequence hinner.abreast hs hclosing hne
        have hfree' : ¬c'.advance.headsPointFree := by
          by_cases hending : c.advance.here.kind = .ending
          · rcases hinner.abreast.cases with ⟨-, hend, -⟩ | ⟨hhere', -⟩
            · simp [Cursor.headsPointFree, (Token.kind_of_isEnd hend).2]
            · simp [Cursor.headsPointFree, hhere'.kind_eq, hending]
          · rwa [hinner.abreast.headsPointFree_eq unique hending]
        rw [if_neg hne', if_neg hfree']
        exact ⟨m'.advance, (closed_eq_ok fun e => e).2 ⟨e, m', hs', hclosing', rfl, rfl⟩, hnext⟩

lemma Carries.lambda (carries : Carries place tail parse) {params : List Parameter}
    (hc : (c.skip (Parameter.listWidth params)).Abreast place tail
      (c'.skip (Parameter.listWidth params)))
    (hk : (c.skip (Parameter.listWidth params)).here.kind = .operator)
    (h : parseLambda parse params c = .ok (e, d)) :
    ∃ d', parseLambda parse params c' = .ok (e, d') ∧ d.Follows place tail d' := by
  obtain ⟨⟨body, m⟩, hright, h⟩ := bind_eq_ok.1 h
  cases h
  obtain ⟨-, hnext⟩ := hc.advance (by simp [hk])
  obtain ⟨m', hright', hm⟩ := carries.right _ hnext.abreast hright
  exact ⟨m', bind_eq_ok.2 ⟨(body, m'), hright', rfl⟩, hm⟩

lemma Carries.primary (unique : Relator.BiUnique place) (carries : Carries place tail parse)
    (hc : c.Abreast place tail c') (h : parsePrimary parse c = .ok (e, d)) :
    ∃ d', parsePrimary parse c' = .ok (e, d') ∧ d.Follows place tail d' := by
  have hending : c.here.kind ≠ .ending := by
    intro hk
    simp [parsePrimary, hk, fail] at h
  obtain ⟨hhere, hnext⟩ := hc.advance hending
  unfold parsePrimary at h ⊢
  rw [hhere.kind_eq, hhere.lexeme_eq, hhere.payload_eq]
  split at h
  case h_6 hk => exact carries.group unique hc hk h
  case h_7 hk =>
    split at h
    · next hq =>
      rw [if_pos hq]
      exact carries.lambda hc hk h
    · next hq =>
      rw [if_neg hq]
      split at h
      · next op hop =>
        obtain ⟨⟨operand, m⟩, hright, h⟩ := bind_eq_ok.1 h
        cases h
        obtain ⟨m', hright', hm⟩ := carries.right c' hnext.abreast hright
        exact ⟨m', bind_eq_ok.2 ⟨(operand, m'), hright', rfl⟩, hm⟩
      · cases h
  case h_8 => cases h
  all_goals
    cases h
    exact ⟨c'.advance, rfl, hnext⟩

lemma Carries.operand (unique : Relator.BiUnique place) (carries : Carries place tail parse)
    (hc : c.Abreast place tail c') (h : parseOperand parse p c = .ok (e, d)) :
    ∃ d', parseOperand parse p c' = .ok (e, d') ∧ d.Follows place tail d' := by
  obtain ⟨hhead, hskip⟩ := hc.lambdaHead?_eq
  have hdefine : startsDefine c' = startsDefine c := by
    unfold startsDefine
    rcases hc.cases with ⟨hk, hend, -⟩ | ⟨hhere, hnext⟩
    · simp [hk, (Token.kind_of_isEnd hend).1]
    · rw [hhere.kind_eq, ← Cursor.here_advance, ← Cursor.here_advance, hnext.abreast.isSymbol_eq]
  unfold parseOperand at h ⊢
  rw [hdefine, hhead]
  split at h
  · next hstarts =>
    rw [if_pos hstarts]
    obtain ⟨⟨value, m⟩, hright, h⟩ := bind_eq_ok.1 h
    cases h
    rw [Bool.and_eq_true] at hstarts
    obtain ⟨hname, hcolon, -⟩ := of_startsDefine hstarts.2
    obtain ⟨hhere, hnext⟩ := hc.advance (by simp [hname])
    obtain ⟨-, hnext'⟩ := hnext.abreast.advance (by simp [hcolon])
    obtain ⟨m', hright', hm⟩ := carries.right c'.advance hnext'.abreast hright
    refine ⟨m', bind_eq_ok.2 ⟨(value, m'), hright', ?_⟩, hm⟩
    rw [hhere.lexeme_eq]
    rfl
  · next hstarts =>
    rw [if_neg hstarts]
    split at h
    · next params hparams =>
      split at hparams
      · next hp =>
        have hq := (Cursor.lambdaHead?_eq_some hparams).2
        exact carries.lambda (hskip params hparams) (kind_of_isSymbol hq) h
      · cases hparams
    · exact carries.primary unique hc h

lemma Carries.join (carries : Carries place tail parse) (hc : c.Abreast place tail c')
    (hending : c.here.kind ≠ .ending) {op : Operator} {left left' : Left}
    (h : parseJoin parse op left c = .ok (left', d)) :
    ∃ d', parseJoin parse op left c' = .ok (left', d') ∧ d.Follows place tail d' := by
  obtain ⟨hhere, hnext⟩ := hc.advance hending
  unfold parseJoin at h ⊢
  rw [hhere.lexeme_eq]
  split at h
  · next hcomma =>
    obtain ⟨⟨e, m⟩, hright, h⟩ := bind_eq_ok.1 h
    cases h
    obtain ⟨m', hright', hm⟩ := carries.right c' hnext.abreast hright
    rw [if_pos hcomma]
    exact ⟨m', bind_eq_ok.2 ⟨(e, m'), hright', rfl⟩, hm⟩
  · next hcomma =>
    rw [if_neg hcomma]
    split at h
    · next hq =>
      rw [if_pos hq]
      split at h
      · cases h
      · next params hparams =>
        obtain ⟨⟨e, m⟩, hright, h⟩ := bind_eq_ok.1 h
        cases h
        obtain ⟨m', hright', hm⟩ := carries.right c' hnext.abreast hright
        exact ⟨m', bind_eq_ok.2 ⟨(e, m'), hright', rfl⟩, hm⟩
    · next hq =>
      rw [if_neg hq]
      obtain ⟨⟨e, m⟩, hright, h⟩ := bind_eq_ok.1 h
      cases h
      obtain ⟨m', hright', hm⟩ := carries.right c' hnext.abreast hright
      exact ⟨m', bind_eq_ok.2 ⟨(e, m'), hright', rfl⟩, hm⟩

lemma Carries.climb (unique : Relator.BiUnique place) (carries : Carries place tail parse)
    {turns turns' : List Token} {left : Left} (hc : c.Follows place tail c')
    (hturns : turns.length ≤ turns'.length) (h : climb parse p turns left c = .ok (e, d)) :
    ∃ d', Parser.climb parse p turns' left c' = .ok (e, d') ∧ d.Follows place tail d' := by
  induction turns generalizing turns' left c c' with
  | nil =>
    unfold Parser.climb at h ⊢
    rw [hc.moveAt_eq unique]
    split at h
    case h_1 hmove =>
      cases h
      exact ⟨c', by rw [hmove], hc⟩
    case h_2 => cases h
    all_goals contradiction
  | cons t turns ih =>
    obtain ⟨t', turns', rfl, hle⟩ := exists_cons_of_lt_length hturns
    have hending (hne : moveAt p c ≠ .stop) : c.here.kind ≠ .ending := fun hk => hne (moveAt_ending hk)
    unfold Parser.climb at h ⊢
    rw [hc.moveAt_eq unique]
    split at h
    case h_1 hmove =>
      cases h
      exact ⟨c', by rw [hmove], hc⟩
    case h_2 => contradiction
    case h_3 hmove heq =>
      cases heq
      obtain ⟨hhere, hnext⟩ := hc.abreast.advance (hending (by simp [hmove]))
      rw [hmove, hhere.lexeme_eq]
      exact ih hnext hle h
    case h_4 op hmove heq =>
      cases heq
      obtain ⟨⟨left', m⟩, hjoin, h⟩ := bind_eq_ok.1 h
      obtain ⟨m', hjoin', hm⟩ := carries.join hc.abreast (hending (by simp [hmove])) hjoin
      obtain ⟨d', h', hd⟩ := ih hm hle h
      rw [hmove]
      exact ⟨d', bind_eq_ok.2 ⟨(left', m'), hjoin', h'⟩, hd⟩
    case h_5 hmove heq =>
      cases heq
      obtain ⟨⟨a, m⟩, harg, h⟩ := bind_eq_ok.1 h
      obtain ⟨m', harg', hm⟩ := carries hc.abreast harg
      obtain ⟨d', h', hd⟩ := ih hm hle h
      rw [hmove]
      exact ⟨d', bind_eq_ok.2 ⟨(a, m'), harg', h'⟩, hd⟩

/-- Matching tokens are read alike, within any limit. -/
theorem Carries.parseExpr (unique : Relator.BiUnique place) (depth : Nat) :
    Carries place tail (parseExpr depth) := by
  induction depth with
  | zero =>
    intro p c c' e d _ h
    cases h
  | succ depth ih =>
    intro p c c' e d hc h
    obtain ⟨⟨e', m⟩, hoperand, h⟩ := bind_eq_ok.1 h
    obtain ⟨m', hoperand', hm⟩ := ih.operand unique hc hoperand
    obtain ⟨d', h', hd⟩ := ih.climb unique hm hm.abreast.length_le h
    exact ⟨d', bind_eq_ok.2 ⟨(e', m'), hoperand', h'⟩, hd⟩

/-- The last statement before others, which a separator divides from it. -/
lemma append_last {separator : Token} {rest' turns' : List Token} {fs : List Expr} {m m' : Cursor}
    (hm : m.Abreast place (separator :: rest') m') (hseparator : separator.kind = .separator)
    (hne : rest' ≠ []) (hk : m.here.kind = .ending) (he : parse 0 c' = .ok (e, m'))
    (hend : ¬(c'.here.kind = .closing ∨ c'.here.kind = .ending)) (hturns : rest'.length ≤ turns'.length)
    (hrest : ∀ m : Cursor, m.ahead = rest' → ∀ turns : List Token, m.after.length ≤ turns.length →
      ∃ f, parseStatements parse turns m = .ok (fs, f) ∧ f.here.kind = .ending) :
    ∃ f, parseStatements parse turns' c' = .ok (e :: fs, f) ∧ f.here.kind = .ending := by
  obtain ⟨-, -, -, hahead⟩ := hm.cases.resolve_right fun h => h.1.inside hk
  obtain ⟨hhere, hafter⟩ := List.cons.inj hahead
  have hnext : m'.advance.ahead = rest' := by
    have := Cursor.ahead_eq_cons (c := m') (by rwa [hafter])
    rw [hahead] at this
    exact (List.cons.inj this).2.symm
  have hpos := List.length_pos_iff.2 hne
  obtain ⟨t', turns', rfl, -⟩ := exists_cons_of_lt_length (hpos.trans_le hturns)
  obtain ⟨f, hf, hfk⟩ := hrest m'.advance hnext turns' (by
    have := congrArg List.length hnext
    simp only [Cursor.ahead, List.length_cons] at this hturns
    omega)
  exact ⟨f, parseStatements_eq_ok.2 (.inr ⟨hend, e, m', he, .inr
    ⟨by rw [hhere, hseparator], t', turns', fs, rfl, rfl, hf⟩⟩), hfk⟩

/-- Statements that others follow are read before them. -/
theorem Carries.statements_append {depth : Nat} {separator : Token} {rest' : List Token}
    (carries : Carries place (separator :: rest') (Parser.parseExpr depth))
    (hseparator : separator.kind = .separator) (hne : rest' ≠ []) {turns turns' : List Token}
    {es fs : List Expr} (hc : c.Abreast place (separator :: rest') c') (hstart : c.here.kind ≠ .ending)
    (hlast : ∀ us t e, c.ahead = us ++ [t, e] → t.kind ≠ .separator)
    (hturns : turns.length + rest'.length ≤ turns'.length)
    (h : parseStatements (Parser.parseExpr depth) turns c = .ok (es, d)) (hd : d.here.kind = .ending)
    (hrest : ∀ m : Cursor, m.ahead = rest' → ∀ turns : List Token, m.after.length ≤ turns.length →
      ∃ f, parseStatements (Parser.parseExpr depth) turns m = .ok (fs, f) ∧ f.here.kind = .ending) :
    ∃ f, parseStatements (Parser.parseExpr depth) turns' c' = .ok (es ++ fs, f) ∧
      f.here.kind = .ending := by
  induction turns generalizing turns' c c' es with
  | nil =>
    obtain ⟨hend, e, m, he, hm⟩ := (parseStatements_eq_ok.1 h).resolve_left fun h => by
      obtain ⟨-, -, rfl⟩ := h
      exact hstart hd
    obtain ⟨m', he', hm'⟩ := carries hc he
    rcases hm with ⟨-, rfl, rfl⟩ | ⟨-, t, rest, fs, heq, -⟩
    · exact append_last hm'.abreast hseparator hne hd he' (hc.not_isStop hend) (by simpa using hturns)
        hrest
    · cases heq
  | cons t turns ih =>
    obtain ⟨hend, e, m, he, hm⟩ := (parseStatements_eq_ok.1 h).resolve_left fun h => by
      obtain ⟨-, -, rfl⟩ := h
      exact hstart hd
    obtain ⟨m', he', hm'⟩ := carries hc he
    rcases hm with ⟨-, rfl, rfl⟩ | ⟨hsep, t, rest, gs, heq, rfl, hgs⟩
    · exact append_last hm'.abreast hseparator hne hd he' (hc.not_isStop hend)
        (by simp only [List.length_cons] at hturns; omega) hrest
    · cases heq
      obtain ⟨hhere, hnext⟩ := hm'.abreast.advance (by simp [hsep])
      obtain ⟨t', turns', rfl, hturns'⟩ :=
        exists_cons_of_lt_length (l := turns') (n := turns.length + rest'.length)
          (by simp only [List.length_cons] at hturns; omega)
      -- what is ahead after the separator is a last part of what was ahead before
      have hsuffix : m.advance.ahead <:+ c.ahead :=
        ((Reads.of_parseExpr depth he).reaches.trans (.advance m)).ahead_suffix
      have hstart' : m.advance.here.kind ≠ .ending := by
        intro hk
        obtain ⟨-, -, hafter, -⟩ := hnext.abreast.cases.resolve_right fun h => h.1.inside hk
        have hafter' : m.after ≠ [] := by
          intro hnil
          rw [show m.advance = m by simp [Cursor.advance, hnil], hsep] at hk
          cases hk
        obtain ⟨us, hus⟩ : m.ahead <:+ c.ahead := (Reads.of_parseExpr depth he).reaches.ahead_suffix
        rw [Cursor.ahead_eq_cons hafter', Cursor.ahead, hafter] at hus
        exact hlast us m.here m.advance.here hus.symm hsep
      obtain ⟨f, hf, hfk⟩ := ih hnext.abreast hstart' (fun us t e heq => by
          obtain ⟨vs, hvs⟩ := hsuffix
          exact hlast (vs ++ us) t e (by rw [← hvs, heq, List.append_assoc]))
        hturns' hgs
      exact ⟨f, parseStatements_eq_ok.2 (.inr ⟨hc.not_isStop hend, e, m', he', .inr
        ⟨hhere.kind_eq.trans hsep, t', turns', gs ++ fs, rfl, rfl, hf⟩⟩), hfk⟩

end Carries

end Parser

end SignLang
