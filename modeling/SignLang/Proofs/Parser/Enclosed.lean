import SignLang.Proofs.Parser.Parting

/-!
# Operands in brackets

The operand of a block operator may stand in brackets, and another block operator may start it. Then each
operator may have brackets around what follows it, or only the last one: the operand is the same
(`Parser.Yields.flatten`, `Parser.Yields.nest`, `Parser.Yields.bracketed`).
-/

namespace SignLang

open SignLang.Parser

/-- Tokens that stop an operand before them, and lead to the end of the input. -/
structure Halts (tail : List Token) : Prop where
  stops : ∃ t ts, tail = t :: ts ∧ (t.kind = .closing ∨ t.kind = .ending)
  ends : ∃ ts t, tail = ts ++ [t] ∧ t.kind = .ending

namespace Halts

variable {tail : List Token}

lemma ending {t : Token} (h : t.kind = .ending) : Halts [t] :=
  ⟨⟨t, [], rfl, .inr h⟩, [], t, rfl, h⟩

lemma cons {t : Token} (hk : t.kind = .closing) (h : Halts tail) : Halts (t :: tail) := by
  obtain ⟨ts, last, rfl, hlast⟩ := h.ends
  exact ⟨⟨t, _, rfl, .inl hk⟩, t :: ts, last, rfl, hlast⟩

/-- A cursor before such tokens is in a list with an end. -/
lemma ends_cursor (h : Halts tail) {c : Cursor} {ts : List Token} (hc : c.ahead = ts ++ tail) : c.Ends := by
  obtain ⟨us, last, rfl, hlast⟩ := h.ends
  have hgetLast : c.ahead.getLast? = some c.last := by
    simp [Cursor.last, Cursor.ahead, List.getLast?_cons]
  rw [hc, ← List.append_assoc, List.getLast?_concat] at hgetLast
  rw [Cursor.Ends, ← Option.some.inj hgetLast]
  exact hlast

/-- A cursor at such tokens is at the end of an expression. -/
lemma isEnd (h : Halts tail) {c : Cursor} (hc : c.ahead = tail) : c.here.isEnd := by
  obtain ⟨t, ts, rfl, hstop⟩ := h.stops
  obtain ⟨rfl, -⟩ := List.cons.inj hc
  exact Token.isEnd_of_stop hstop

lemma ne_nil (h : Halts tail) : tail ≠ [] := by
  obtain ⟨t, ts, rfl, -⟩ := h.stops
  simp

end Halts

/-- A cursor that is moved over level tokens to a bracket that closes stands at the first one that is not
opened among them. -/
lemma Cursor.Levels.ahead_eq {c d : Cursor} (h : c.Levels d) {body tail : List Token} {closer : Token}
    (hc : c.ahead = body ++ closer :: tail) (hbody : heightAfter 0 body = some 0)
    (hinside : ∀ t ∈ body, t.kind ≠ .ending) (hcloser : closer.kind = .closing)
    (hd : d.here.kind = .closing ∨ d.here.kind = .ending) : d.ahead = closer :: tail := by
  obtain ⟨ts, hpass, hts⟩ := h
  have hahead := hpass.ahead_eq
  rw [hc] at hahead
  rcases List.append_eq_append_iff.1 hahead with ⟨us, rfl, hus⟩ | ⟨us, rfl, hus⟩
  · cases us with
    | nil => exact hus.symm
    | cons u us =>
      obtain ⟨rfl, -⟩ := List.cons.inj hus
      rw [heightAfter_append, hbody, Option.bind_some, heightAfter_zero_closing hcloser] at hts
      cases hts
  · cases us with
    | nil => exact hus
    | cons u us =>
      obtain ⟨rfl, -⟩ := List.cons.inj hus
      rcases hd with hd | hd
      · rw [heightAfter_append, hts, Option.bind_some, heightAfter_zero_closing hd] at hbody
        cases hbody
      · exact absurd hd (hinside d.here (by simp))

namespace Parser

open Cursor

variable {place : Int → Int → Prop} {c c' d : Cursor} {p : Nat} {e : Expr}

/-! ## Operands that are known by their first token -/

/-- An operand that starts with neither a name nor a tilde is known by its first token. -/
lemma Reads.primary_of_operand (h : Reads (.operand p) c e d) (hk : c.here.kind ≠ .identifier)
    (ht : c.here.isSymbol "~" = false) : Reads .primary c e d := by
  cases h with
  | define _ hstarts => exact absurd (startsDefine_iff.1 hstarts).1 hk
  | lambda _ _ hhead =>
    rw [lambdaHead?_other hk ht] at hhead
    cases hhead
  | primary _ _ h => exact h

/-- An operand that starts with neither a name nor a tilde, and ends where an expression does, is read at
any power. -/
lemma Reads.expr_of_primary (h : Reads .primary c e d) (hk : c.here.kind ≠ .identifier)
    (ht : c.here.isSymbol "~" = false) (hend : d.here.isEnd) (p : Nat) : Reads (.expr p) c e d :=
  Takes.stop (.primary h (fun _ => by simp [startsDefine, hk]) fun _ => lambdaHead?_other hk ht)
    (moveAt_of_isEnd hend p)

/-- A block operator starts an operand only as the mark of a function without parameters. -/
lemma Reads.thunk_of_block (h : Reads .primary c e d) (hblock : c.here.isOperator Operator.blockSymbols) :
    c.here.isSymbol "?" ∧ ∃ body, e = .lambda [] body ∧ Reads (.expr Power.lambda) c.advance body d := by
  have hop := Token.isOperator_blockSymbols_iff.1 hblock
  cases h with
  | atom ha => simp [atom?, hop.1] at ha
  | thunk hq _ hbody => exact ⟨hq, _, rfl, hbody⟩
  | leading _ hq _ hop' =>
    rw [hop.2.resolve_right hq, show Operator.leading? ":" = none by decide] at hop'
    cases hop'
  | bars hk | emptyGroup hk | bareSymbol hk | preset hk | group hk => simp [hop.1] at hk

/-! ## Operands that are read alike -/

/-- Whatever is read from the tokens before one tail is read from those before another. -/
def Yields (ts tail ts' tail' : List Token) : Prop :=
  ∀ {c c' d : Cursor} {p : Nat} {e : Expr}, c.ahead = ts ++ tail → c'.ahead = ts' ++ tail' →
    Reads (.expr p) c e d → d.ahead = tail ∧ ∃ d', Reads (.expr p) c' e d' ∧ d'.ahead = tail'

/-- Operands that are read alike before the end of the input are read alike where token lists part. -/
lemma Yields.readsAlike {ts ts' : List Token} {ending ending' : Token} (hending : ending.kind = .ending)
    (hending' : ending'.kind = .ending) (h : Yields ts [ending] ts' [ending']) :
    ReadsAlike fun us us' => us = ts ++ [ending] ∧ us' = ts' ++ [ending'] := by
  rintro c c' d p e ⟨hc, hc'⟩ - hread
  obtain ⟨hd, d', hread', hd'⟩ := h hc hc' hread
  rw [(List.cons.inj hd).1]
  exact ⟨hending, d', hread', by rw [(List.cons.inj hd').1]; exact hending'⟩

/-- Whatever is read up to the end of a list with balanced brackets is read from another such list, which
matches it up to the operand of a block operator that is read alike. -/
theorem Yields.statements {ts ts' stem stem' : List Token} {op op' ending ending' : Token} {height : Nat}
    (h : Yields ts [ending] ts' [ending']) (unique : Relator.BiUnique place)
    (hstem : List.Forall₂ (Token.Matches place) stem stem') (hlevel : heightAfter 0 stem = some 0)
    (hop : op.Matches place op') (hblock : op.isOperator Operator.blockSymbols)
    (hne : ts ≠ [] ∧ ts' ≠ []) (hending : ending.kind = .ending) (hending' : ending'.kind = .ending)
    (hc : c.ahead = stem ++ op :: (ts ++ [ending])) (hc' : c'.ahead = stem' ++ op' :: (ts' ++ [ending']))
    (hheight : heightAfter 0 c'.ahead = some height) (hread : Reads (.statements []) c e d)
    (hd : d.here.kind = .ending) : ∃ d', Reads (.statements []) c' e d' ∧ d'.here.kind = .ending := by
  obtain ⟨t, us, rfl⟩ := List.exists_cons_of_ne_nil hne.1
  obtain ⟨t', us', rfl⟩ := List.exists_cons_of_ne_nil hne.2
  have hconcurs : c.Concurs place
      (fun vs vs' => vs = t :: us ++ [ending] ∧ vs' = t' :: us' ++ [ending']) 0 c' := by
    rw [Cursor.Concurs, hc, hc']
    exact .append hstem hlevel (.turn hop hblock ⟨rfl, rfl⟩)
  obtain ⟨d', hread', hlands⟩ := hread.concurs unique (h.readsAlike hending hending') hconcurs trivial
  refine ⟨d', hread', ?_⟩
  rcases hlands with hlands | ⟨-, hd'⟩
  · refine (hlands.stops (.inr hd)).resolve_left fun hclosing => ?_
    -- a bracket that closes would be one too many
    have ends' : c'.Ends := (Halts.ending hending').ends_cursor (hc'.trans (by simp : _ = (stem' ++ op' :: t' :: us') ++ [ending']))
    obtain ⟨passed, hpass, hpassed⟩ := hread'.levels ends'
    rw [hpass.ahead_eq, heightAfter_append, hpassed, Option.bind_some, Cursor.ahead,
      heightAfter_zero_closing hclosing] at hheight
    cases hheight
  · exact hd'

section Group

variable {opener opener' closer closer' : Token} {body body' tail tail' : List Token}

/-- The tokens are a group before a tail: a body in brackets that it does not close. -/
structure IsGroup (opener closer : Token) (body tail : List Token) : Prop where
  opening : opener.kind = .opening
  bar : opener.lexeme ≠ Operator.bar
  closing : closer.kind = .closing
  ne_nil : body ≠ []
  level : heightAfter 0 body = some 0
  inside : ∀ t ∈ body, t.kind ≠ .ending
  halts : Halts tail

/-- A cursor at a group moves into it. -/
lemma IsGroup.advance (h : IsGroup opener closer body tail)
    (hc : c.ahead = opener :: (body ++ [closer]) ++ tail) :
    c.Ends ∧ c.here = opener ∧ c.advance.ahead = body ++ closer :: tail := by
  refine ⟨h.halts.ends_cursor hc, ?_⟩
  have hc : c.ahead = opener :: (body ++ closer :: tail) := by simpa using hc
  exact advance_of_ne_nil hc (by simp)

/-- What is read in a group up to a bracket that closes is all of the group. -/
lemma IsGroup.closed {m : Cursor} (h : IsGroup opener closer body tail)
    (hc : c.ahead = body ++ closer :: tail) (hlevels : c.Levels m)
    (hm : m.here.kind = .closing ∨ m.here.kind = .ending) :
    m.here.kind = .closing ∧ m.advance.ahead = tail := by
  obtain ⟨hhere, hadvance⟩ := advance_of_ne_nil (hlevels.ahead_eq hc h.level h.inside h.closing hm)
    h.halts.ne_nil
  exact ⟨by rw [hhere, h.closing], hadvance⟩

/-- The body of a group does not start with a bracket that closes. -/
lemma IsGroup.kind_ne_closing (h : IsGroup opener closer body tail) (hc : c.ahead = body ++ closer :: tail) :
    c.here.kind ≠ .closing := by
  intro hk
  have hall := (Levels.refl c).ahead_eq hc h.level h.inside h.closing (.inl hk)
  rw [hc] at hall
  exact h.ne_nil (by simpa using hall)

/-- A group is read alike if its bodies match. -/
lemma Reads.primary_of_group (unique : Relator.BiUnique place) (hg : IsGroup opener closer body tail)
    (hg' : IsGroup opener' closer' body' tail') (hbody : List.Forall₂ (Token.Matches place) body body')
    (hc : c.ahead = opener :: (body ++ [closer]) ++ tail)
    (hc' : c'.ahead = opener' :: (body' ++ [closer']) ++ tail') (h : Reads .primary c e d) :
    d.ahead = tail ∧ ∃ d', Reads .primary c' e d' ∧ d'.ahead = tail' := by
  obtain ⟨ends, hhere, hin⟩ := hg.advance hc
  obtain ⟨ends', hhere', hin'⟩ := hg'.advance hc'
  have hopening' : c'.here.kind = .opening := by rw [hhere', hg'.opening]
  have hbar' : c'.here.lexeme ≠ Operator.bar := by rw [hhere']; exact hg'.bar
  have hconcurs : c.advance.Concurs place (fun _ _ => False) 0 c'.advance := by
    rw [Cursor.Concurs, hin, hin']
    exact .append hbody hg.level (.halt (.inl hg.closing) (.inl hg'.closing))
  have alike : ReadsAlike fun _ _ => False := fun h => h.elim
  cases h with
  | atom ha => simp [atom?, hhere, hg.opening] at ha
  | thunk hq => simp [Token.isSymbol, hhere, hg.opening] at hq
  | leading hk => simp [hhere, hg.opening] at hk
  | bars _ hbar => exact absurd (hhere ▸ hbar) hg.bar
  | emptyGroup _ _ hclosing => exact absurd hclosing (hg.kind_ne_closing hin)
  | bareSymbol _ _ hfree hclosing =>
    have hoperator := kind_of_headsPointFree hfree
    obtain ⟨hsymbol, hnext⟩ := hconcurs.advance_pointFree hfree
    have hfree' := (hconcurs.headsPointFree_eq unique).trans hfree
    obtain ⟨-, hd⟩ := hg.closed hin (.of_operator ends.advance hoperator) (.inl hclosing)
    obtain ⟨hclosing', hd'⟩ := hg'.closed hin'
      (.of_operator ends'.advance (kind_of_headsPointFree hfree')) (hnext.concurs.stops (.inl hclosing))
    rw [← hsymbol.lexeme_eq]
    exact ⟨hd, _, .bareSymbol hopening' hbar' hfree' hclosing', hd'⟩
  | @preset _ e m _ _ hfree hstart hread hclosing =>
    obtain ⟨hsymbol, hnext⟩ := hconcurs.advance_pointFree hfree
    have hfree' := (hconcurs.headsPointFree_eq unique).trans hfree
    obtain ⟨m', hread', hlands⟩ := hread.concurs unique alike hnext.concurs trivial
    have hlands : m.Pursues place (fun _ _ => False) 0 m' := by
      refine hlands.resolve_right fun hend => ?_
      simp [pastComma_of_stop (.inr hend.1), hend.1] at hclosing
    have hlevels {c m : Cursor} (ends : c.Ends) (hfree : c.headsPointFree)
        (hread : Reads (.expr (Power.product + 1)) c.advance e m) : c.Levels (pastComma m) :=
      ((Levels.of_operator ends (kind_of_headsPointFree hfree)).trans (hread.levels ends.advance)).trans
        (levels_pastComma (hread.progress ends.advance).1)
    obtain ⟨-, hd⟩ := hg.closed hin (hlevels ends.advance hfree hread) (.inl hclosing)
    obtain ⟨hclosing', hd'⟩ := hg'.closed hin' (hlevels ends'.advance hfree' hread')
      (hlands.concurs.pastComma.stops (.inl hclosing))
    rw [← hsymbol.lexeme_eq]
    exact ⟨hd, _, .preset hopening' hbar' hfree' (hnext.concurs.startsOperand_eq.trans hstart) hread' hclosing',
      hd'⟩
  | @group _ _ m _ _ _ hfree hread hclosing =>
    obtain ⟨m', hread', hlands⟩ := hread.concurs unique alike hconcurs trivial
    have hlands : m.Concurs place (fun _ _ => False) 0 m' := by
      refine hlands.resolve_right fun hend => ?_
      simp [hend.1] at hclosing
    obtain ⟨-, hd⟩ := hg.closed hin (hread.levels ends.advance) (.inl hclosing)
    obtain ⟨hclosing', hd'⟩ := hg'.closed hin' (hread'.levels ends'.advance) (hlands.stops (.inl hclosing))
    exact ⟨hd, _, .group hopening' hbar' (hg'.kind_ne_closing hin')
      (by rwa [hconcurs.headsPointFree_eq unique]) hread' hclosing', hd'⟩

/-- A group before a tail is read as one with a matching body before another. -/
lemma Yields.group (unique : Relator.BiUnique place) (hg : IsGroup opener closer body tail)
    (hg' : IsGroup opener' closer' body' tail') (hbody : List.Forall₂ (Token.Matches place) body body') :
    Yields (opener :: (body ++ [closer])) tail (opener' :: (body' ++ [closer'])) tail' := by
  intro c c' d p e hc hc' h
  have hkind := (hg.advance hc).2.1 ▸ hg.opening
  have hkind' := (hg'.advance hc').2.1 ▸ hg'.opening
  cases h with
  | expr hoperand hclimb =>
    obtain ⟨hm, d', hprimary', hd'⟩ := (hoperand.primary_of_operand (by simp [hkind])
      (Token.isSymbol_of_kind (by simp [hkind]) _)).primary_of_group unique hg hg' hbody hc hc'
    obtain ⟨rfl, rfl⟩ := hclimb.eq_of_isEnd (hg.halts.isEnd hm)
    exact ⟨hm, d', hprimary'.expr_of_primary (by simp [hkind'])
      (Token.isSymbol_of_kind (by simp [hkind']) _) (hg'.halts.isEnd hd') p, hd'⟩

end Group

section Step

variable {opener closer op op' : Token} {ts tail ts' tail' : List Token}

/-- A function without parameters is read where an expression ends after its body. -/
lemma Reads.expr_of_thunk {body : Expr} (hq : c.here.isSymbol "?")
    (h : Reads (.expr Power.lambda) c.advance body d) (hend : d.here.isEnd) (p : Nat) :
    Reads (.expr p) c (.lambda [] body) d := by
  obtain ⟨hk, hlexeme⟩ := Token.isSymbol_iff.1 hq
  exact Reads.expr_of_primary (.thunk hq h.startsOperand h) (by simp [hk])
    (Token.isSymbol_of_lexeme (by simp [hlexeme])) hend p

/-- What a block operator starts is a function without parameters, whose body is read from tokens that are
read alike. -/
lemma Yields.thunk (h : Yields ts tail ts' tail') (htail : Halts tail)
    (hop : op.isOperator Operator.blockSymbols) (hc : c.ahead = op :: (ts ++ tail))
    (hc' : c'.ahead = ts' ++ tail') (hread : Reads (.expr p) c e d) :
    d.ahead = tail ∧ op.isSymbol "?" ∧ ∃ body d', e = .lambda [] body ∧
      Reads (.expr Power.lambda) c' body d' ∧ d'.ahead = tail' := by
  obtain ⟨rfl, hadvance⟩ := advance_of_ne_nil hc (by simp [htail.ne_nil])
  obtain ⟨hk, ht⟩ := other_of_block hop
  cases hread with
  | expr hoperand hclimb =>
    obtain ⟨hq, body, rfl, hbody⟩ := (hoperand.primary_of_operand hk ht).thunk_of_block hop
    obtain ⟨hm, d', hbody', hd'⟩ := h hadvance hc' hbody
    obtain ⟨rfl, rfl⟩ := hclimb.eq_of_isEnd (htail.isEnd hm)
    exact ⟨hm, hq, body, d', rfl, hbody', hd'⟩

/-- A block operator in brackets is read in a sequence of statements. -/
lemma Reads.statements_of_block (h : Reads .primary c e d) (hopening : c.here.kind = .opening)
    (hbar : c.here.lexeme ≠ Operator.bar) (hblock : c.advance.here.isOperator Operator.blockSymbols) :
    ∃ m, Reads (.statements []) c.advance e m ∧ d = m.advance := by
  have hfree := headsPointFree_of_block hblock
  cases h with
  | atom ha => simp [atom?, hopening] at ha
  | thunk hq => simp [Token.isSymbol, hopening] at hq
  | leading hk => simp [hopening] at hk
  | bars _ h => exact absurd h hbar
  | emptyGroup _ _ hclosing => simp [Token.isOperator, hclosing] at hblock
  | bareSymbol _ _ h | preset _ _ h =>
    rw [hfree] at h
    cases h
  | group _ _ _ _ hread _ => exact ⟨_, hread, rfl⟩

/-- The operand of a block operator in brackets is read without the brackets, if what follows the operator
is. -/
lemma Yields.flatten (hopener : opener.kind = .opening) (hbar : opener.lexeme ≠ Operator.bar)
    (hcloser : closer.kind = .closing) (hop : op.isOperator Operator.blockSymbols)
    (hop' : op.Same op') (htail : Halts tail) (htail' : Halts tail')
    (h : Yields ts (closer :: tail) ts' tail') :
    Yields (opener :: op :: (ts ++ [closer])) tail (op' :: ts') tail' := by
  intro c c' d p e hc hc' hread
  have hc : c.ahead = opener :: op :: (ts ++ closer :: tail) := by simpa using hc
  obtain ⟨rfl, hin⟩ := advance_of_ahead hc
  obtain ⟨rfl, hin'⟩ := advance_of_ne_nil hc' (by simp [htail'.ne_nil])
  have hhere : c.advance.here = op := (List.cons.inj hin).1
  have hthunk {p : Nat} {e : Expr} {d : Cursor} (hread : Reads (.expr p) c.advance e d) :=
    h.thunk (.cons hcloser htail) hop hin hin' hread
  cases hread with
  | expr hoperand hclimb =>
    obtain ⟨m, hstatements, rfl⟩ := (hoperand.primary_of_operand (by simp [hopener])
      (by simp [Token.isSymbol, hopener])).statements_of_block hopener hbar (by rwa [hhere])
    cases hstatements with
    | done hstop =>
      rw [hhere] at hstop
      rcases hstop with hstop | hstop <;> simp [Token.isOperator, hstop] at hop
    | more _ hexpr hsep =>
      rw [(List.cons.inj (hthunk hexpr).1).1, hcloser] at hsep
      cases hsep
    | last _ hexpr _ =>
      obtain ⟨hm, hq, body, d', rfl, hbody', hd'⟩ := hthunk hexpr
      obtain ⟨-, hadvance⟩ := advance_of_ne_nil hm htail.ne_nil
      obtain ⟨rfl, rfl⟩ := hclimb.eq_of_isEnd (htail.isEnd hadvance)
      exact ⟨hadvance, d', hbody'.expr_of_thunk ((hop'.isSymbol_eq "?").trans hq) (htail'.isEnd hd') p, hd'⟩

/-- The operand of a block operator is read in brackets, if what follows the operator is. -/
lemma Yields.nest (hopener : opener.kind = .opening) (hbar : opener.lexeme ≠ Operator.bar)
    (hcloser : closer.kind = .closing) (hop : op'.isOperator Operator.blockSymbols)
    (hop' : op'.Same op) (htail : Halts tail) (htail' : Halts tail')
    (h : Yields ts' tail' ts (closer :: tail)) :
    Yields (op' :: ts') tail' (opener :: op :: (ts ++ [closer])) tail := by
  intro c c' d p e hc hc' hread
  have hc' : c'.ahead = opener :: op :: (ts ++ closer :: tail) := by simpa using hc'
  obtain ⟨rfl, hin⟩ := advance_of_ahead hc'
  obtain ⟨rfl, hin'⟩ := advance_of_ne_nil hin (by simp)
  obtain ⟨hd, hq, body, m, rfl, hbody, hm⟩ := h.thunk htail' hop hc hin' hread
  have hoperator : c'.advance.here.kind = .operator :=
    hop'.kind_eq.trans (Token.kind_of_isOperator hop)
  have hclosing : m.here.kind = .closing := by rw [(List.cons.inj hm).1, hcloser]
  have hthunk := hbody.expr_of_thunk ((hop'.isSymbol_eq "?").trans hq) (by simp [Token.isEnd, hclosing]) 0
  obtain ⟨-, hadvance⟩ := advance_of_ne_nil hm htail.ne_nil
  have hgroup : Reads .primary c' (.lambda [] body) m.advance := by
    have hlast : Reads (.statements []) c'.advance (sequenced ([] ++ [.lambda [] body])) m :=
      .last (by simp [hoperator]) hthunk (by simp [hclosing])
    refine .group hopener hbar (by simp [hoperator]) ?_ hlast hclosing
    rw [headsPointFree_of_block ((hop'.isOperator_eq _).trans hop)]
    simp
  exact ⟨hd, m.advance, hgroup.expr_of_primary (by simp [hopener]) (by simp [Token.isSymbol, hopener])
    (htail.isEnd hadvance) p, hadvance⟩

end Step

/-! ## Brackets after every operator -/

section Brackets

variable {op last opener closer : Token} {ops ops' body body' tail tail' : List Token}

/-- What follows the block operator `op` if each of the operators `ops` after it has its operand in
brackets, and so has `op`. -/
def bracketed (last : Token) (body : List Token) (op : Token) : List Token → List Token
  | [] => op.borrow .opening "[" :: (body ++ [last.borrow .closing "]"])
  | next :: ops =>
    op.borrow .opening "[" :: next :: (bracketed last body next ops ++ [last.borrow .closing "]"])

/-- A run of block operators with a bracket after each, up to the brackets that close. -/
lemma cons_bracketed (last : Token) (body : List Token) (op : Token) (ops : List Token) :
    op :: bracketed last body op ops =
      (op :: ops).flatMap (fun op => [op, op.borrow .opening "["]) ++ body ++
        (op :: ops).map fun _ => last.borrow .closing "]" := by
  induction ops generalizing op with
  | nil => simp [bracketed]
  | cons next ops ih =>
    have hlast (ts : List Token) : (ts.map fun _ => last.borrow .closing "]") ++ [last.borrow .closing "]"] =
        last.borrow .closing "]" :: ts.map fun _ => last.borrow .closing "]" := by
      simp [← List.replicate_succ, ← List.replicate_succ']
    rw [bracketed, ← List.cons_append, ih, List.append_assoc, hlast]
    simp

/-- The operand of a block operator is read alike with a bracket after each further operator and with one
after the last of them. -/
theorem Yields.bracketed {place place' : Int → Int → Prop} (unique : Relator.BiUnique place)
    (unique' : Relator.BiUnique place') (hbody : List.Forall₂ (Token.Matches place) body body')
    (hbody' : List.Forall₂ (Token.Matches place') body' body) (hops : List.Forall₂ Token.Same ops ops')
    (hblock : ∀ op ∈ ops, op.isOperator Operator.blockSymbols) (hlevel : heightAfter 0 body = some 0)
    (op last : Token) (htail : Halts tail) (hg : IsGroup opener closer body' tail') :
    Yields (bracketed last body op ops) tail (ops' ++ opener :: (body' ++ [closer])) tail' ∧
      Yields (ops' ++ opener :: (body' ++ [closer])) tail' (bracketed last body op ops) tail := by
  have hbar (op : Token) : (op.borrow .opening "[").lexeme ≠ Operator.bar := by
    simp [Token.borrow, Operator.bar]
  -- the brackets after the first operator are the outermost ones, so the tail grows on the way inside
  induction hops generalizing op tail with
  | nil =>
    have hne : body ≠ [] := by
      rintro rfl
      exact hg.ne_nil (List.forall₂_nil_left_iff.1 hbody)
    have hg' : IsGroup (op.borrow .opening "[") (last.borrow .closing "]") body tail :=
      ⟨rfl, hbar op, rfl, hne, hlevel, (Token.kind_ne_ending_of_matches hbody).1, htail⟩
    exact ⟨Yields.group unique hg' hg hbody, Yields.group unique' hg hg' hbody'⟩
  | @cons next next' ops ops' hnext _ ih =>
    rw [List.forall_mem_cons] at hblock
    have htail' : Halts (last.borrow .closing "]" :: tail) := .cons rfl htail
    obtain ⟨ih, ih'⟩ := ih hblock.2 next htail'
    have hblock' := (hnext.isOperator_eq _).trans hblock.1
    exact ⟨Yields.flatten rfl (hbar op) rfl hblock.1 hnext htail hg.halts ih,
      Yields.nest rfl (hbar op) rfl hblock' hnext.symm htail hg.halts ih'⟩

end Brackets

end Parser

end SignLang
