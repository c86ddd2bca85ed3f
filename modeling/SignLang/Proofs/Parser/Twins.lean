import SignLang.Proofs.Layout.Twins
import SignLang.Proofs.Parser.Level

/-!
# Parsing related token lists side by side

The parser runs over related token lists side by side (`Cursor.Beside`): each of its functions reads the
same from both and leaves its cursors side by side, or fails on both with the same fault and blames the same
place. Nothing is asked of the lists but that related tokens are akin and that the same neighbours touch, so
this holds of lists that are refused as well.

* `beside_buildWithin`: lists of which the same neighbours touch.
* `twins_buildWithin`: lists that differ in how their brackets are written.
-/

namespace SignLang

open Token

variable {r : Token → Token → Prop} {ts us : List Token}

/-- A relation that holds of akin tokens only, and of what is borrowed from tokens in it. -/
structure Token.Likening (r : Token → Token → Prop) : Prop where
  akin : ∀ {t u}, r t u → t.Akin u
  borrow : ∀ {t u} kind lexeme, r t u → r (t.borrow kind lexeme) (u.borrow kind lexeme)

/-- Twins are akin. -/
lemma Token.Twinning.likening (hr : Twinning r) : Likening r :=
  ⟨fun h => (hr.twin h).akin, hr.borrow⟩

/-! ## Neighbours -/

/-- Of each token but the last one, whether the next one is written directly after it. -/
def touching (ts : List Token) : List Bool :=
  List.zipWith Token.touches ts ts.tail

lemma tail_touching (t : Token) (ts : List Token) : (touching (t :: ts)).tail = touching ts := by
  cases ts with
  | nil => rfl
  | cons u ts => rfl

/-- One more token at the end touches the one before it or not. -/
lemma touching_concat (t u : Token) (ts : List Token) :
    touching (t :: (ts ++ [u])) = touching (t :: ts) ++ [(ts.getLastD t).touches u] := by
  induction ts generalizing t with
  | nil => rfl
  | cons t' ts ih =>
    have htail := congrArg (t.touches t' :: ·) (ih t')
    rwa [← List.getLastD_cons] at htail

/-- Where the same neighbours touch, two neighbours do so in both lists or in none. -/
lemma touches_of_touching {ts' us' : List Token} {t u t' u' : Token} (hlength : us.length = ts.length)
    (h : touching (us ++ t' :: u' :: us') = touching (ts ++ t :: u :: ts')) :
    t'.touches u' = t.touches u := by
  induction ts generalizing us with
  | nil =>
    obtain rfl := List.length_eq_zero_iff.1 hlength
    exact (List.cons.inj h).1
  | cons x ts ih =>
    cases us with
    | nil => cases hlength
    | cons y us =>
      apply ih (Nat.succ.inj hlength)
      have htail := congrArg List.tail h
      rwa [List.cons_append, List.cons_append, tail_touching, tail_touching] at htail

/-- The same neighbours touch in lists of twins. -/
lemma touching_twins (hr : Twinning r) (h : List.Forall₂ r ts us) : touching us = touching ts := by
  induction h with
  | nil => rfl
  | cons htu h ih =>
    cases h with
    | nil => rfl
    | cons htu' h => exact congrArg₂ List.cons ((hr.twin htu).touches_eq (hr.twin htu')) ih

/-! ## Cursors -/

/-- Two cursors at the same place of related lists. -/
structure Cursor.Twins (r : Token → Token → Prop) (c c' : Cursor) : Prop where
  before : List.Forall₂ r c.before c'.before
  here : r c.here c'.here
  after : List.Forall₂ r c.after c'.after

/-- Two cursors at the same place of related lists of which the same neighbours touch. -/
structure Cursor.Beside (r : Token → Token → Prop) (c c' : Cursor) : Prop extends c.Twins r c' where
  ends : c.Ends
  touching_eq : touching c'.tokens = touching c.tokens

-- At the start, the token behind a cursor is the last one of the list, which is no neighbour. The parser asks
-- what is behind only after it has read an operand.
/-- Two cursors side by side that have moved on from the start of their lists. -/
structure Cursor.Past (r : Token → Token → Prop) (c c' : Cursor) : Prop extends c.Beside r c' where
  started : c.before ≠ []

namespace Cursor.Twins

variable {c c' : Cursor}

lemma index_eq (h : c.Twins r c') : c'.index = c.index :=
  h.before.length_eq.symm

lemma tokens (h : c.Twins r c') : List.Forall₂ r c.tokens c'.tokens :=
  List.rel_append (List.rel_reverse h.before) (.cons h.here h.after)

lemma advance (h : c.Twins r c') : c.advance.Twins r c'.advance := by
  obtain ⟨before, here, after⟩ := c
  obtain ⟨before', here', after'⟩ := c'
  obtain ⟨hbefore, hhere, hafter⟩ := h
  cases hafter with
  | nil => exact ⟨hbefore, hhere, .nil⟩
  | cons hnext hafter => exact ⟨.cons hhere hbefore, hnext, hafter⟩

lemma next (h : c.Twins r c') : r c.next c'.next := by
  rw [← here_advance, ← here_advance]
  exact h.advance.here

lemma last (h : c.Twins r c') : r c.last c'.last := by
  have hlast := forall₂_getLast? h.after
  rw [Cursor.last, Cursor.last, List.getLastD_eq_getLast?, List.getLastD_eq_getLast?]
  generalize c.after.getLast? = x at hlast
  generalize c'.after.getLast? = y at hlast
  cases hlast with
  | none => exact h.here
  | some hlast => exact hlast

lemma moveTo (h : c.Twins r c') (n : Nat) : (c.moveTo n).Twins r (c'.moveTo n) := by
  have hdrop : List.Forall₂ r (c.tokens.drop n) (c'.tokens.drop n) := List.forall₂_drop n h.tokens
  have htake : List.Forall₂ r (c.tokens.take n) (c'.tokens.take n) := List.forall₂_take n h.tokens
  unfold Cursor.moveTo
  generalize c.tokens.drop n = ts at hdrop
  generalize c'.tokens.drop n = us at hdrop
  cases hdrop with
  | nil => exact h
  | cons hhere hafter => exact ⟨List.rel_reverse htake, hhere, hafter⟩

end Cursor.Twins

namespace Cursor

variable {c c' : Cursor}

/-- There is a token behind a cursor that has moved on, and a related one behind the other cursor. -/
lemma Past.exists_before (h : c.Past r c') : ∃ t u before before', c.before = t :: before ∧
    c'.before = u :: before' ∧ r t u ∧ before'.length = before.length := by
  have hbefore := h.before
  have hstarted := h.started
  generalize c.before = ts at hbefore hstarted
  generalize c'.before = us at hbefore
  cases hbefore with
  | nil => exact absurd rfl hstarted
  | cons htu hbefore => exact ⟨_, _, _, _, rfl, rfl, htu, hbefore.length_eq.symm⟩

/-- The tokens behind cursors that have moved on are related. -/
lemma Past.previous (h : c.Past r c') : r c.previous c'.previous := by
  obtain ⟨t, u, before, before', heq, heq', htu, -⟩ := h.exists_before
  rw [Cursor.previous, Cursor.previous, heq, heq']
  exact htu

/-- The token behind a cursor that has moved on touches the one at hand in both lists or in none. -/
lemma Past.touches_eq (h : c.Past r c') : c'.previous.touches c'.here = c.previous.touches c.here := by
  obtain ⟨t, u, before, before', heq, heq', -, hlength⟩ := h.exists_before
  have htouching := h.touching_eq
  rw [Cursor.tokens, Cursor.tokens, heq, heq', List.reverse_cons, List.reverse_cons, List.append_assoc,
    List.append_assoc] at htouching
  rw [Cursor.previous, Cursor.previous, heq, heq']
  refine touches_of_touching ?_ htouching
  rw [List.length_reverse, List.length_reverse, hlength]

/-- A token stands after its operand in both lists or in none. -/
lemma Past.isTrailing_eq (hr : Likening r) (h : c.Past r c') (hk : c.here.kind = .operator) :
    c'.isTrailing = c.isTrailing := by
  unfold Cursor.isTrailing
  rw [(hr.akin h.here).lexeme_of_kind hk (by decide), (hr.akin h.next).startsOperand_eq, h.touches_eq,
    (hr.akin h.previous).synthetic_eq]

namespace Beside

lemma advance (h : c.Beside r c') : c.advance.Beside r c'.advance :=
  ⟨h.toTwins.advance, h.ends.advance, by rw [tokens_advance, tokens_advance, h.touching_eq]⟩

lemma skip (h : c.Beside r c') (n : Nat) : (c.skip n).Beside r (c'.skip n) := by
  induction n generalizing c c' with
  | zero => exact h
  | succ n ih => exact ih h.advance

lemma moveTo (h : c.Beside r c') (n : Nat) : (c.moveTo n).Beside r (c'.moveTo n) where
  toTwins := h.toTwins.moveTo n
  ends := ends_of_tokens_eq (c.tokens_moveTo n) h.ends
  touching_eq := by rw [tokens_moveTo, tokens_moveTo, h.touching_eq]

/-- Before the end of the input, the cursors move on from the start. -/
lemma past (h : c.Beside r c') (hk : c.here.kind ≠ .ending) : c.advance.Past r c'.advance := by
  obtain ⟨t, rest, hafter⟩ := h.ends.exists_after hk
  refine ⟨h.advance, ?_⟩
  rw [advance_eq hafter]
  exact List.cons_ne_nil _ _

/-- The token at hand touches the next one in both lists or in none. -/
lemma touches_eq (h : c.Beside r c') (hk : c.here.kind ≠ .ending) :
    c'.here.touches c'.next = c.here.touches c.next := by
  obtain ⟨t, rest, hafter⟩ := h.ends.exists_after hk
  have hlength := h.after.length_eq
  have hne : c.after ≠ [] := by simp [hafter]
  have hne' : c'.after ≠ [] := List.ne_nil_of_length_pos (hlength ▸ List.length_pos_iff.2 hne)
  have hpast := (h.past hk).touches_eq
  rwa [previous_advance hne, previous_advance hne', here_advance, here_advance] at hpast

/-- A token heads a group without left operand in both lists or in none. -/
lemma headsPointFree_eq (hr : Likening r) (h : c.Beside r c') : c'.headsPointFree = c.headsPointFree := by
  have hhere := hr.akin h.here
  have hnext := hr.akin h.next
  unfold Cursor.headsPointFree
  rw [hhere.kind_eq]
  by_cases hk : c.here.kind = .operator
  · rw [hhere.lexeme_of_kind hk (by decide), h.touches_eq (by simp [hk]), hnext.synthetic_eq,
      hnext.startsOperand_eq]
  · simp [hk]

end Beside

end Cursor

/-- Related token lists start with the same parameters. -/
lemma likened_listOf (hr : Likening r) (h : List.Forall₂ r ts us) :
    Parameter.listOf us = Parameter.listOf ts := by
  have hrest {ts us : List Token} (h : List.Forall₂ r ts us) :
      Parameter.restOf us = Parameter.restOf ts := by
    cases h with
    | nil => rfl
    | cons htilde h =>
      cases h with
      | nil => rfl
      | cons hname _ =>
        have hname := hr.akin hname
        rw [Parameter.restOf, Parameter.restOf, (hr.akin htilde).isSymbol_eq, hname.kind_eq]
        split
        · next hand =>
          simp only [Bool.and_eq_true, decide_eq_true_eq] at hand
          rw [hname.lexeme_of_kind hand.2 (by decide)]
        · rfl
  induction h with
  | nil => rfl
  | @cons t u ts us htu h ih =>
    have hakin := hr.akin htu
    by_cases hk : t.kind = .identifier
    · have hk' : u.kind = .identifier := hakin.kind_eq.trans hk
      simp only [Parameter.listOf, hk, hk', List.takeWhile_cons_of_pos, List.dropWhile_cons_of_pos,
        decide_true, List.map_cons, List.cons_append, hakin.lexeme_of_kind hk (by decide)] at ih ⊢
      rw [ih]
    · have hk' : ¬u.kind = .identifier := fun h => hk (hakin.kind_eq.symm.trans h)
      simp only [Parameter.listOf, hk, hk', List.takeWhile_cons_of_neg, List.dropWhile_cons_of_neg,
        decide_false, List.map_nil, List.nil_append, Bool.false_eq_true, not_false_eq_true]
      exact hrest (.cons htu h)

/-- A function has the same parameters in both lists. -/
lemma Cursor.Beside.lambdaHead?_eq (hr : Likening r) {c c' : Cursor} (h : c.Beside r c') :
    c'.lambdaHead? = c.lambdaHead? := by
  unfold Cursor.lambdaHead?
  dsimp only
  rw [likened_listOf hr (.cons h.here h.after), (hr.akin (h.skip _).here).isSymbol_eq]

namespace Parser

/-! ## Outcomes -/

/-- The same fault, of related tokens. -/
inductive Fault.Like (r : Token → Token → Prop) : Fault → Fault → Prop where
  | unmatchedClosing {closer closer' : Token} :
    r closer closer' →
    Like r (.unmatchedClosing closer) (.unmatchedClosing closer')
  | unmatchedOpening {opener opener' : Token} :
    r opener opener' →
    Like r (.unmatchedOpening opener) (.unmatchedOpening opener')
  | mismatched {opener opener' closer closer' : Token} :
    r opener opener' →
    r closer closer' →
    Like r (.mismatched opener closer) (.mismatched opener' closer')
  | leftOver {found found' : Token} :
    r found found' →
    Like r (.leftOver found) (.leftOver found')
  | missingOperand {operator operator' found found' : Token} :
    r operator operator' →
    r found found' →
    Like r (.missingOperand operator found) (.missingOperand operator' found')
  | expectedOperand {found found' : Token} :
    r found found' →
    Like r (.expectedOperand found) (.expectedOperand found')
  | badParameters :
    Like r .badParameters .badParameters
  | emptyBars :
    Like r .emptyBars .emptyBars
  | unclosed {opener opener' found found' : Token} :
    r opener opener' →
    r found found' →
    Like r (.unclosed opener found) (.unclosed opener' found')
  | tooDeep :
    Like r .tooDeep .tooDeep

/-- The same fault, at the same places. -/
structure Failure.Beside (r : Token → Token → Prop) (f g : Failure) : Prop where
  fault : f.fault.Like r g.fault
  culprit : f.culprit.Beside r g.culprit
  stopped : f.stopped.Beside r g.stopped

/-- Failures that blame the same place. -/
def Failure.Twins (r : Token → Token → Prop) (f g : Failure) : Prop :=
  f.culprit.Twins r g.culprit

/-- The same was read, up to related places. -/
def ReadTwins {α : Type} (S : Cursor → Cursor → Prop) (x y : α × Cursor) : Prop :=
  y.1 = x.1 ∧ S x.2 y.2

/-- A reader reads the same from related lists and moves on, or fails on both. -/
def Pairs (r : Token → Token → Prop) (parse : Reader) : Prop :=
  ∀ power c c', c.Beside r c' →
    Agree (Failure.Beside r) (ReadTwins (Cursor.Past r)) (parse power c) (parse power c')

variable {parse : Reader} {c c' o o' : Cursor}

/-- Both fail where they stand. -/
lemma agree_fail {α : Type} {S : α → α → Prop} {fault fault' : Fault} (hfault : fault.Like r fault')
    (h : c.Beside r c') : Agree (Failure.Beside r) S (fail fault c) (fail fault' c') :=
  .error ⟨hfault, h, h⟩

/-- What is made of the same readings agrees if it does so for each of them. -/
lemma agree_bind {α β : Type} {S : Cursor → Cursor → Prop} {T : β → β → Prop}
    {x y : Except Failure (α × Cursor)} {f g : α × Cursor → Except Failure β}
    (h : Agree (Failure.Beside r) (ReadTwins S) x y)
    (hfg : ∀ a d d', S d d' → Agree (Failure.Beside r) T (f (a, d)) (g (a, d'))) :
    Agree (Failure.Beside r) T (x >>= f) (y >>= g) := by
  apply h.bind
  rintro ⟨_, d⟩ ⟨a, d'⟩ ⟨rfl, hd⟩
  exact hfg a d d' hd

namespace Pairs

/-! ## Forms -/

/-- The operand of an operator. -/
lemma right (hr : Likening r) (hp : Pairs r parse) (power : Nat) (ho : o.Beside r o')
    (h : c.Beside r c') : Agree (Failure.Beside r) (ReadTwins (Cursor.Past r))
      (parseRight parse o power c) (parseRight parse o' power c') := by
  unfold parseRight
  rw [(hr.akin h.here).startsOperand_eq]
  split
  · exact hp power c c' h
  · exact .error ⟨.missingOperand ho.here h.here, ho, h⟩

/-- Statements. Where there are none, nothing is moved over. -/
lemma statements (hr : Likening r) (hp : Pairs r parse) {turns turns' : List Token}
    (hturns : turns'.length = turns.length) (h : c.Beside r c') :
    Agree (Failure.Beside r) (ReadTwins (Cursor.Beside r)) (parseStatements parse turns c)
      (parseStatements parse turns' c') := by
  induction turns generalizing turns' c c' with
  | nil =>
    obtain rfl := List.length_eq_zero_iff.1 hturns
    unfold parseStatements
    rw [(hr.akin h.here).kind_eq]
    split
    · exact .ok ⟨rfl, h⟩
    · refine agree_bind (hp 0 c c' h) fun e d d' hd => ?_
      dsimp only
      rw [(hr.akin hd.here).kind_eq]
      split
      · exact agree_fail .tooDeep hd.toBeside
      · exact .ok ⟨rfl, hd.toBeside⟩
  | cons t turns ih =>
    cases turns' with
    | nil => cases hturns
    | cons t' turns' =>
      rw [List.length_cons, List.length_cons, Nat.add_right_cancel_iff] at hturns
      unfold parseStatements
      rw [(hr.akin h.here).kind_eq]
      split
      · exact .ok ⟨rfl, h⟩
      · refine agree_bind (hp 0 c c' h) fun e d d' hd => ?_
        dsimp only
        rw [(hr.akin hd.here).kind_eq]
        split
        · exact agree_bind (ih hturns hd.advance) fun _ _ _ hd => .ok ⟨rfl, hd⟩
        · exact .ok ⟨rfl, hd.toBeside⟩

/-- A sequence of statements. -/
lemma sequence (hr : Likening r) (hp : Pairs r parse) (h : c.Beside r c') :
    Agree (Failure.Beside r) (ReadTwins (Cursor.Beside r)) (parseSequence parse c)
      (parseSequence parse c') :=
  agree_bind (hp.statements hr h.after.length_eq.symm h) fun _ _ _ hd => .ok ⟨rfl, hd⟩

/-- The closing bracket of a group. -/
lemma closing (hr : Likening r) (ho : o.Beside r o') (h : c.Beside r c') :
    Agree (Failure.Beside r) (Cursor.Past r) (expectClosing o c) (expectClosing o' c') := by
  unfold expectClosing
  rw [(hr.akin h.here).kind_eq]
  split
  · next hk => exact .ok (h.past (by simp [hk]))
  · exact agree_fail (.unclosed ho.here h.here) h

/-- A form whose inside runs up to the closing bracket of a group. -/
lemma closed (hr : Likening r) (ho : o.Beside r o') {x y : Except Failure (Expr × Cursor)}
    (h : Agree (Failure.Beside r) (ReadTwins (Cursor.Beside r)) x y) (form : Expr → Expr) :
    Agree (Failure.Beside r) (ReadTwins (Cursor.Past r))
      (x >>= fun (e, d) => expectClosing o d >>= fun rest => return (form e, rest))
      (y >>= fun (e, d) => expectClosing o' d >>= fun rest => return (form e, rest)) := by
  refine agree_bind h fun e d d' hd => ?_
  exact (closing hr ho hd).bind fun _ _ hrest => .ok ⟨rfl, hrest⟩

/-- The inside of a group without left operand. -/
lemma pointFree (hr : Likening r) (hp : Pairs r parse) (h : c.Beside r c')
    (hk : c.here.kind = .operator) : Agree (Failure.Beside r) (ReadTwins (Cursor.Beside r))
      (parsePointFree parse c) (parsePointFree parse c') := by
  have hlexeme : c'.here.lexeme = c.here.lexeme := (hr.akin h.here).lexeme_of_kind hk (by decide)
  unfold parsePointFree
  dsimp only
  rw [(hr.akin h.advance.here).kind_eq, hlexeme]
  split
  · exact .ok ⟨rfl, h.advance⟩
  · refine agree_bind (hp.right hr _ h h.advance) fun preset d d' hd => ?_
    have hhere := hr.akin hd.here
    dsimp only
    rw [hhere.isSymbol_eq, hhere.kind_eq]
    refine .ok ⟨rfl, ?_⟩
    dsimp only
    split
    · exact hd.advance
    · exact hd.toBeside

/-- A group. -/
lemma group (hr : Likening r) (hp : Pairs r parse) (h : c.Beside r c') :
    Agree (Failure.Beside r) (ReadTwins (Cursor.Past r)) (parseGroup parse c) (parseGroup parse c') := by
  have hbar : (c'.here.lexeme = Operator.bar) = (c.here.lexeme = Operator.bar) := by
    have := (hr.akin h.here).isBar_eq
    rwa [Token.isBar, Token.isBar, decide_eq_decide, ← eq_iff_iff] at this
  unfold parseGroup
  dsimp only
  simp only [hbar, (hr.akin h.advance.here).kind_eq, h.advance.headsPointFree_eq hr]
  split
  · split
    · exact .error ⟨.emptyBars, h, h.advance⟩
    · exact closed hr h (hp.sequence hr h.advance) (.unary Operator.bar true)
  split
  · next hk => exact .ok ⟨rfl, h.advance.past (by simp [hk])⟩
  split
  · next hheads =>
    exact closed hr h (hp.pointFree hr h.advance (Cursor.kind_of_headsPointFree hheads)) id
  · exact closed hr h (hp.sequence hr h.advance) id

/-- A definition. -/
lemma define (hr : Likening r) (hp : Pairs r parse) (h : c.Beside r c')
    (hk : c.here.kind = .identifier) : Agree (Failure.Beside r) (ReadTwins (Cursor.Past r))
      (parseDefine parse c) (parseDefine parse c') := by
  unfold parseDefine
  rw [(hr.akin h.here).lexeme_of_kind hk (by decide)]
  exact agree_bind (hp.right hr _ h.advance h.advance.advance) fun _ _ _ hd => .ok ⟨rfl, hd⟩

/-- A function. -/
lemma lambda (hr : Likening r) (hp : Pairs r parse) (params : List Parameter) (h : c.Beside r c') :
    Agree (Failure.Beside r) (ReadTwins (Cursor.Past r)) (parseLambda parse params c)
      (parseLambda parse params c') := by
  have hquestion := h.skip (Parameter.listWidth params)
  exact agree_bind (hp.right hr _ hquestion hquestion.advance) fun _ _ _ hd => .ok ⟨rfl, hd⟩

/-- An operand that its first token tells. -/
lemma primary (hr : Likening r) (hp : Pairs r parse) (h : c.Beside r c') :
    Agree (Failure.Beside r) (ReadTwins (Cursor.Past r)) (parsePrimary parse c)
      (parsePrimary parse c') := by
  have hhere := hr.akin h.here
  have hpayload {k : Kind} (hk : c.here.kind = k) (hne : k ≠ .opening ∧ k ≠ .closing) :
      c'.here.payload = c.here.payload := by
    rw [Token.payload, Token.payload, hhere.kind_eq, hhere.lexeme_of_kind hk hne]
  unfold parsePrimary
  rw [hhere.kind_eq]
  split
  case h_1 hk =>
    rw [hhere.lexeme_of_kind hk (by decide)]
    exact .ok ⟨rfl, h.past (by simp [hk])⟩
  case h_2 hk | h_3 hk | h_4 hk =>
    rw [hpayload hk (by decide)]
    exact .ok ⟨rfl, h.past (by simp [hk])⟩
  case h_5 hk => exact .ok ⟨rfl, h.past (by simp [hk])⟩
  case h_6 => exact hp.group hr h
  case h_7 hk =>
    rw [hhere.lexeme_of_kind hk (by decide)]
    split
    · exact hp.lambda hr [] h
    split
    · exact agree_bind (hp.right hr _ h h.advance) fun _ _ _ hd => .ok ⟨rfl, hd⟩
    · exact agree_fail (.expectedOperand h.here) h
  case h_8 => exact agree_fail (.expectedOperand h.here) h

/-- An operand. -/
lemma operand (hr : Likening r) (hp : Pairs r parse) (power : Nat) (h : c.Beside r c') :
    Agree (Failure.Beside r) (ReadTwins (Cursor.Past r)) (parseOperand parse power c)
      (parseOperand parse power c') := by
  have hstarts : startsDefine c' = startsDefine c := by
    rw [startsDefine, startsDefine, (hr.akin h.here).kind_eq, (hr.akin h.next).isSymbol_eq]
  unfold parseOperand
  rw [hstarts, h.lambdaHead?_eq hr]
  split
  · next hdefine =>
    rw [Bool.and_eq_true] at hdefine
    exact hp.define hr h (startsDefine_iff.1 hdefine.2).1
  split
  · exact hp.lambda hr _ h
  · exact hp.primary hr h

/-- What a token does after an operand is the same in both lists. -/
lemma moveAt_eq (hr : Likening r) (power : Nat) (h : c.Past r c') :
    moveAt power c' = moveAt power c := by
  have hhere := hr.akin h.here
  unfold moveAt argumentMove
  rw [hhere.kind_eq, hhere.startsOperand_eq]
  split
  · next hk =>
    rw [trails, trails, hhere.lexeme_of_kind hk (by decide), h.isTrailing_eq hr hk]
  · rfl

/-- The right operand of a binary operator. -/
lemma join (hr : Likening r) (hp : Pairs r parse) (op : Operator) (left : Left) (h : c.Beside r c')
    (hk : c.here.kind = .operator) : Agree (Failure.Beside r) (ReadTwins (Cursor.Past r))
      (parseJoin parse op left c) (parseJoin parse op left c') := by
  have hright := hp.right hr op.rightPower h h.advance
  unfold parseJoin
  rw [(hr.akin h.here).lexeme_of_kind hk (by decide)]
  split
  · exact agree_bind hright fun _ _ _ hd => .ok ⟨rfl, hd⟩
  split
  · split
    · exact .error ⟨.badParameters, h, h.advance⟩
    · exact agree_bind hright fun _ _ _ hd => .ok ⟨rfl, hd⟩
  · exact agree_bind hright fun _ _ _ hd => .ok ⟨rfl, hd⟩

/-- What follows an operand. -/
lemma climb (hr : Likening r) (hp : Pairs r parse) (power : Nat) {turns turns' : List Token}
    (hturns : turns'.length = turns.length) (left : Left) (h : c.Past r c') :
    Agree (Failure.Beside r) (ReadTwins (Cursor.Past r)) (climb parse power turns left c)
      (climb parse power turns' left c') := by
  induction turns generalizing turns' left c c' with
  | nil =>
    obtain rfl := List.length_eq_zero_iff.1 hturns
    unfold Parser.climb
    rw [moveAt_eq hr power h]
    split
    · exact .ok ⟨rfl, h⟩
    · exact agree_fail .tooDeep h.toBeside
    all_goals next heq => cases heq
  | cons t turns ih =>
    cases turns' with
    | nil => cases hturns
    | cons t' turns' =>
      rw [List.length_cons, List.length_cons, Nat.add_right_cancel_iff] at hturns
      unfold Parser.climb
      rw [moveAt_eq hr power h]
      cases hmove : moveAt power c with
      | stop => exact .ok ⟨rfl, h⟩
      | trail =>
        have hk : c.here.kind = .operator := kind_of_moveAt hmove (by simp) (by simp)
        dsimp only
        rw [(hr.akin h.here).lexeme_of_kind hk (by decide)]
        exact ih hturns _ (h.past (by simp [hk]))
      | join op =>
        have hk : c.here.kind = .operator := kind_of_moveAt hmove (by simp) (by simp)
        exact agree_bind (hp.join hr op left h.toBeside hk) fun _ _ _ hd => ih hturns _ hd
      | argue =>
        exact agree_bind (hp _ c c' h.toBeside) fun _ _ _ hd => ih hturns _ hd

/-- Expressions are read alike within any depth. -/
theorem parseExpr (hr : Likening r) (depth : Nat) : Pairs r (parseExpr depth) := by
  induction depth with
  | zero =>
    intro power c c' h
    exact agree_fail .tooDeep h
  | succ depth ih =>
    intro power c c' h
    refine agree_bind (ih.operand hr power h) fun e d d' hd => ?_
    exact ih.climb hr power hd.after.length_eq.symm _ hd

end Pairs

/-! ## Brackets -/

/-- Open brackets at the same positions of related lists. -/
def BracketTwins (r : Token → Token → Prop) : OpenBrackets → OpenBrackets → Prop :=
  List.Forall₂ fun x y => r x.1 y.1 ∧ y.2 = x.2

/-- The same fault in the brackets, at the same position. -/
def BracketsAt (r : Token → Token → Prop) (f g : Fault × Nat) : Prop :=
  f.1.Like r g.1 ∧ g.2 = f.2

/-- The brackets of related lists match alike, or the same position is to blame. -/
lemma twins_trackBrackets (hr : Likening r) {opened opened' entries entries' : OpenBrackets}
    (ho : BracketTwins r opened opened') (h : BracketTwins r entries entries') :
    Agree (BracketsAt r) (BracketTwins r) (trackBrackets opened entries)
      (trackBrackets opened' entries') := by
  induction h generalizing opened opened' with
  | nil => exact .ok ho
  | @cons x y entries entries' hxy h ih =>
    have hakin := hr.akin hxy.1
    have hone : Agree (BracketsAt r) (BracketTwins r) (trackBracket opened x)
        (trackBracket opened' y) := by
      unfold trackBracket
      rw [hakin.kind_eq]
      split
      · exact .ok (.cons hxy ho)
      · cases ho with
        | nil => exact .error ⟨.unmatchedClosing hxy.1, hxy.2⟩
        | cons hopener houter =>
          have hfamily : ∀ a b : Token × Nat, sameFamily a.1 b.1 = decide (a.1.isBar = b.1.isBar) := by
            intro a b
            rw [sameFamily, Token.isBar, Token.isBar, decide_eq_decide, decide_eq_decide, eq_iff_iff]
          dsimp only
          rw [hfamily, hfamily, hakin.isBar_eq, (hr.akin hopener.1).isBar_eq]
          split
          · exact .ok houter
          · exact .error ⟨.mismatched hopener.1 hxy.1, hxy.2⟩
      · exact .ok ho
    rw [trackBrackets, trackBrackets]
    generalize trackBracket opened x = a at hone
    generalize trackBracket opened' y = b at hone
    cases hone with
    | ok ho => exact ih ho
    | error hf => exact .error hf

/-- Related lists have the same bracket fault, or none. -/
lemma twins_bracketFault? (hr : Likening r) (h : List.Forall₂ r ts us) :
    Option.Rel (BracketsAt r) (bracketFault? ts) (bracketFault? us) := by
  have hentries (n : Nat) : BracketTwins r (ts.zipIdx n) (us.zipIdx n) := by
    induction h generalizing n with
    | nil => exact .nil
    | cons htu _ ih => exact .cons ⟨htu, rfl⟩ (ih (n + 1))
  have htrack := twins_trackBrackets hr (List.Forall₂.nil : BracketTwins r [] []) (hentries 0)
  unfold bracketFault?
  generalize trackBrackets [] ts.zipIdx = x at htrack
  generalize trackBrackets [] us.zipIdx = y at htrack
  cases htrack with
  | error hf => exact .some hf
  | ok ho =>
    cases ho with
    | nil => exact .none
    | cons hopener _ => exact .some ⟨.unmatchedOpening hopener.1, hopener.2⟩

/-- The brackets of a whole list are checked alike. -/
lemma beside_checkBrackets (hr : Likening r) (h : c.Beside r c') :
    Agree (Failure.Beside r) (fun _ _ => True) (checkBrackets c) (checkBrackets c') := by
  have hfault := twins_bracketFault? hr h.tokens
  unfold checkBrackets
  generalize bracketFault? c.tokens = x at hfault
  generalize bracketFault? c'.tokens = y at hfault
  cases hfault with
  | none => exact .ok trivial
  | @some f g hposition =>
    obtain ⟨fault, position⟩ := f
    obtain ⟨fault', position'⟩ := g
    obtain ⟨hlike, rfl : position' = position⟩ := hposition
    exact .error ⟨hlike, h.moveTo position', h⟩

/-- All of a list is read alike. -/
lemma beside_parseAll (hr : Likening r) (depth : Nat) (h : c.Beside r c') :
    Agree (Failure.Beside r) (ReadTwins (Cursor.Beside r)) (parseAll depth c) (parseAll depth c') := by
  refine (beside_checkBrackets hr h).bind fun _ _ _ => ?_
  refine agree_bind ((Pairs.parseExpr hr depth).sequence hr h) fun e d d' hd => ?_
  dsimp only
  rw [(hr.akin hd.here).kind_eq]
  split
  · exact .ok ⟨rfl, hd⟩
  · exact agree_fail (.leftOver hd.here) hd

end Parser

/-! ## Whole lists -/

/-- What is borrowed from a token touches it in both lists or in none. -/
lemma Token.Akin.touches_borrow {t u : Token} (h : t.Akin u) (kind : Kind) (lexeme : String) :
    u.touches (u.borrow kind lexeme) = t.touches (t.borrow kind lexeme) := by
  have hself (t : Token) : t.touches (t.borrow kind lexeme) = decide (t.lexeme.length = 0) := by
    simp [touches, stop, borrow]
  rw [hself, hself, h.length_eq]

/-- Related lists have related cursors before them. -/
lemma Cursor.beside_ofTokens (hr : Likening r) (h : List.Forall₂ r ts us)
    (htouching : touching us = touching ts) (hne : ts ≠ []) : (ofTokens ts).Beside r (ofTokens us) := by
  have ends := ofTokens_ends ts
  cases h with
  | nil => exact absurd rfl hne
  | @cons t u ts us htu h =>
    have htwins : Cursor.Twins r ⟨[], t, ts⟩ ⟨[], u, us⟩ := ⟨.nil, htu, h⟩
    have hlast : r (ts.getLastD t) (us.getLastD u) := htwins.last
    unfold ofTokens at ends ⊢
    dsimp only at ends ⊢
    rw [(hr.akin hlast).kind_eq]
    split at ends
    · next hending =>
      rw [if_pos hending, if_pos hending]
      exact ⟨htwins, ends, htouching⟩
    · next hending =>
      rw [if_neg hending, if_neg hending]
      refine ⟨⟨.nil, htu, List.rel_append h (.cons (hr.borrow .ending "" hlast) .nil)⟩, ends, ?_⟩
      calc touching (u :: (us ++ [(us.getLastD u).borrow .ending ""]))
        _ = touching (u :: us) ++ [(us.getLastD u).touches ((us.getLastD u).borrow .ending "")] :=
          touching_concat _ _ _
        _ = touching (t :: ts) ++ [(ts.getLastD t).touches ((ts.getLastD t).borrow .ending "")] := by
          rw [htouching, (hr.akin hlast).touches_borrow]
        _ = touching (t :: (ts ++ [(ts.getLastD t).borrow .ending ""])) := (touching_concat _ _ _).symm

/-- Related lists of which the same neighbours touch write the same expression, or none, and then for the same
fault at the same places. -/
theorem beside_buildWithin (hr : Likening r) (depth : Nat) (h : List.Forall₂ r ts us)
    (htouching : touching us = touching ts) (hne : ts ≠ []) :
    Agree (Parser.Failure.Beside r) (fun e e' => e' = e) (buildWithin depth ts)
      (buildWithin depth us) :=
  (Parser.beside_parseAll hr depth (Cursor.beside_ofTokens hr h htouching hne)).map fun _ _ h => h.1

/-- Related lists write the same expression, or none, and then the same place is to blame. -/
theorem twins_buildWithin (hr : Twinning r) (depth : Nat) {ts us : List Token}
    (h : List.Forall₂ r ts us) (hne : ts ≠ []) :
    Agree (Parser.Failure.Twins r) (fun e e' => e' = e) (buildWithin depth ts)
      (buildWithin depth us) :=
  (beside_buildWithin hr.likening depth h (touching_twins hr h) hne).imp_error fun _ _ h => h.culprit.toTwins

end SignLang
