import SignLang.Proofs.Layout.Brackets
import SignLang.Proofs.Parser.Enclosed

/-!
# Where separators stand

Separators are put between indented lines, and brackets around those. In laid-out tokens a pair of brackets
with a separator inside is therefore one that the layout stage has put in: it follows a block operator, and
nothing but the end of an expression follows it (`Outline.housed`).
-/

namespace SignLang

open SignLang.Parser

/-- Brackets with a separator inside are no bars, stand directly after a block operator, and the end of an
expression follows them. -/
def Housed (ts : List Token) : Prop :=
  ∀ ⦃before inside after : List Token⦄ ⦃opener closer : Token⦄,
    ts = before ++ opener :: (inside ++ closer :: after) → opener.kind = .opening →
    closer.kind = .closing → heightAfter 0 inside = some 0 → (∃ t ∈ inside, t.kind = .separator) →
      before.getLast?.any (·.isOperator Operator.blockSymbols) ∧ opener.lexeme ≠ Operator.bar ∧
        after.head?.all Token.isEnd

variable {ts us body : List Token} {op opener closer : Token}

/-- A bracket that opens in a level list closes in it. -/
lemma exists_closer {before inside after : List Token} (hlevel : heightAfter 0 (before ++ opener :: ts) = some 0)
    (hopener : opener.kind = .opening) (hinside : heightAfter 0 inside = some 0)
    (h : ts ++ us = inside ++ closer :: after) :
    ∃ rest, ts = inside ++ closer :: rest ∧ after = rest ++ us := by
  -- a front of the inside does not close the bracket, while the level list does
  have hfront (front : List Token) : inside ≠ ts ++ front := by
    rintro rfl
    rw [heightAfter_append, Option.bind_eq_some_iff] at hlevel hinside
    obtain ⟨height, -, hrest⟩ := hlevel
    obtain ⟨height', hts, -⟩ := hinside
    rw [heightAfter_opening hopener] at hrest
    have hcount := heightAfter_count hrest
    have hcount' := heightAfter_count hts
    omega
  rcases List.append_eq_append_iff.1 h with ⟨front, hts, -⟩ | ⟨_ | ⟨t, rest⟩, hts, hrest⟩
  · exact absurd hts (hfront front)
  · exact absurd (by simpa using hts.symm) (hfront [])
  · obtain ⟨rfl, rfl⟩ := List.cons.inj hrest
    exact ⟨rest, hts, rfl⟩

/-- The last token of a list is the last one of a longer list that ends with it. -/
lemma any_getLast?_append {p : Token → Bool} (ts : List Token) (h : us.getLast?.any p) :
    (ts ++ us).getLast?.any p := by
  obtain ⟨t, ht, hp⟩ := (Option.any_eq_true _ _).1 h
  simp [List.getLast?_append, ht, hp]

namespace Housed

/-- Tokens without a separator have none in brackets. -/
lemma of_forall (h : ∀ t ∈ ts, t.kind ≠ .separator) : Housed ts := by
  rintro before inside after opener closer rfl - - - ⟨t, ht, hk⟩
  exact absurd hk (h t (by simp [ht]))

/-- A token that opens nothing may stand before other tokens. -/
lemma cons {t : Token} (hk : t.kind ≠ .opening) (h : Housed ts) : Housed (t :: ts) := by
  intro before inside after opener closer heq hopener hcloser hinside hsep
  cases before with
  | nil =>
    obtain ⟨rfl, -⟩ := List.cons.inj heq
    exact absurd hopener hk
  | cons t' before =>
    obtain ⟨-, heq⟩ := List.cons.inj heq
    obtain ⟨hlast, hrest⟩ := h heq hopener hcloser hinside hsep
    exact ⟨any_getLast?_append [t'] hlast, hrest⟩

/-- Two lists may stand one after the other, if an expression ends between them or no separator is in the
first one. -/
lemma append (h : Housed ts) (hlevel : heightAfter 0 ts = some 0) (h' : Housed us)
    (hstart : (∀ t ∈ ts, t.kind ≠ .separator) ∨ us.head?.all Token.isEnd) : Housed (ts ++ us) := by
  intro before inside after opener closer heq hopener hcloser hinside hsep
  rcases List.append_eq_append_iff.1 heq with ⟨rest, rfl, hus⟩ | ⟨_ | ⟨t, rest⟩, rfl, hrest⟩
  · obtain ⟨hlast, hbar, hend⟩ := h' hus hopener hcloser hinside hsep
    exact ⟨any_getLast?_append _ hlast, hbar, hend⟩
  · -- the bracket is the first token of the second list, and no block operator is before it there
    have hfirst : us = [] ++ opener :: (inside ++ closer :: after) := hrest.symm
    obtain ⟨hlast, -⟩ := h' hfirst hopener hcloser hinside hsep
    cases hlast
  · obtain ⟨rfl, htail⟩ := List.cons.inj hrest
    have htail : rest ++ us = inside ++ closer :: after := htail.symm
    obtain ⟨rest', rfl, rfl⟩ := exists_closer hlevel hopener hinside htail
    obtain ⟨hlast, hbar, hend⟩ := h rfl hopener hcloser hinside hsep
    refine ⟨hlast, hbar, ?_⟩
    cases rest' with
    | cons t rest' => exact hend
    | nil =>
      obtain ⟨s, hs, hk⟩ := hsep
      exact hstart.resolve_left fun hall => hall s (by simp [hs]) hk

/-- A level body may stand in brackets after a block operator. -/
lemma bracketed (h : Housed body) (hlevel : heightAfter 0 body = some 0)
    (hop : op.isOperator Operator.blockSymbols) (hbar : opener.lexeme ≠ Operator.bar)
    (hcloser : closer.kind = .closing) : Housed (op :: opener :: (body ++ [closer])) := by
  have hclosed : Housed (body ++ [closer]) :=
    h.append hlevel (.of_forall (by simp [hcloser])) (.inr (by simp [Token.isEnd, hcloser]))
  intro before inside after opener' closer' heq hopener' hcloser' hinside hsep
  rcases before with _ | ⟨t, _ | ⟨t', before⟩⟩
  · obtain ⟨rfl, -⟩ := List.cons.inj heq
    simp [Token.isOperator, hopener'] at hop
  · obtain ⟨rfl, htail⟩ := List.cons.inj heq
    have htail : opener :: (body ++ [closer]) = opener' :: (inside ++ closer' :: after) := htail
    obtain ⟨rfl, henclosed⟩ := List.cons.inj htail
    refine ⟨hop, hbar, ?_⟩
    -- what the bracket encloses is the body, so that nothing is left
    rcases List.append_eq_append_iff.1 henclosed with ⟨front, -, hfront⟩ | ⟨_ | ⟨t, rest⟩, rfl, hrest⟩
    · have hlength := congrArg List.length hfront
      simp only [List.length_append, List.length_cons, List.length_nil] at hlength
      rw [List.length_eq_zero_iff.1 (by omega : after.length = 0)]
      rfl
    · obtain ⟨-, rfl⟩ := List.cons.inj hrest
      rfl
    · obtain ⟨rfl, -⟩ := List.cons.inj hrest
      rw [heightAfter_append, hinside, Option.bind_some, heightAfter_zero_closing hcloser'] at hlevel
      cases hlevel
  · obtain ⟨-, heq⟩ := List.cons.inj heq
    obtain ⟨-, heq⟩ := List.cons.inj heq
    obtain ⟨hlast, hrest⟩ := hclosed heq hopener' hcloser' hinside hsep
    exact ⟨any_getLast?_append [t, t'] hlast, hrest⟩

end Housed

/-- A level body in brackets after a block operator is level. -/
lemma heightAfter_bracketed (hlevel : heightAfter 0 body = some 0)
    (hop : op.isOperator Operator.blockSymbols) (hopener : opener.kind = .opening)
    (hcloser : closer.kind = .closing) : heightAfter 0 (op :: opener :: (body ++ [closer])) = some 0 := by
  have hother : op.isBracket = false := by simp [Token.isBracket, Token.kind_of_isOperator hop]
  rw [heightAfter_other hother, heightAfter_opening hopener, heightAfter_append,
    heightAfter_add 1 hlevel, Option.bind_some, heightAfter_closing hcloser]
  rfl

namespace Outline

/-- Each of several block operators may have a bracket after it. -/
lemma housed_headers {ops : List Token} (hops : ∀ t ∈ op :: ops, t.isOperator Operator.blockSymbols)
    (h : Housed body) (hlevel : heightAfter 0 body = some 0) (last : Token) :
    Housed (op :: bracketed last body op ops) ∧ heightAfter 0 (op :: bracketed last body op ops) = some 0 := by
  have hbar (op : Token) : (op.borrow .opening "[").lexeme ≠ Operator.bar := by
    simp [Token.borrow, Operator.bar]
  induction ops generalizing op with
  | nil =>
    rw [List.forall_mem_cons] at hops
    exact ⟨h.bracketed hlevel hops.1 (hbar op) rfl, heightAfter_bracketed hlevel hops.1 rfl rfl⟩
  | cons next ops ih =>
    rw [List.forall_mem_cons] at hops
    obtain ⟨hnext, hlevel'⟩ := ih hops.2
    exact ⟨hnext.bracketed hlevel' hops.1 (hbar op) rfl, heightAfter_bracketed hlevel' hops.1 rfl rfl⟩

/-- A line without separators may enclose a body. -/
lemma housed_enclose {line : Line} (hline : Balanced line.tokens)
    (hsep : ∀ t ∈ line.tokens, t.kind ≠ .separator) (h : Housed body) (hlevel : heightAfter 0 body = some 0) :
    Housed (enclose line body) := by
  unfold enclose
  split
  · exact .of_forall hsep
  · next last _ =>
    have hstem : ∀ t ∈ line.stem, t.kind ≠ .separator := fun t ht =>
      hsep t (by rw [← line.stem_append_headers]; exact List.mem_append_left _ ht)
    rw [List.append_assoc, List.append_assoc]
    refine .append (.of_forall hstem) ((balanced_stem hline).heightAfter 0) ?_ (.inl hstem)
    cases hheaders : line.headers with
    | nil => simpa using h
    | cons op ops =>
      have hops := (housed_headers (fun t ht => Line.isOperator_of_mem_headers (hheaders ▸ ht)) h hlevel last).1
      rw [cons_bracketed, List.append_assoc] at hops
      exact hops

/-- In laid-out lines with balanced brackets, a separator stands in brackets only where the layout stage has
put them. -/
theorem housed {o : Outline} (hlines : ∀ line ∈ o.lines, Balanced line.tokens)
    (hsep : ∀ line ∈ o.lines, ∀ t ∈ line.tokens, t.kind ≠ .separator) :
    Housed o.tokens ∧ Balanced o.tokens := by
  induction o with
  | done => exact ⟨.of_forall (by simp [tokens]), rfl⟩
  | entry line body next ihbody ihnext =>
    simp only [lines, List.forall_mem_cons, List.forall_mem_append] at hlines hsep
    obtain ⟨hbody, hbody'⟩ := ihbody hlines.2.1 hsep.2.1
    obtain ⟨hnext, hnext'⟩ := ihnext hlines.2.2 hsep.2.2
    have hline := housed_enclose hlines.1 hsep.1 hbody (hbody'.heightAfter 0)
    have hline' := balanced_enclose hlines.1 hbody'
    have hbalanced : Balanced (enclose line body.tokens ++ next.separator) := by
      rw [Balanced, openAfter_append, hline', Option.bind_some, openAfter_separator]
    constructor
    · rw [tokens, List.append_assoc]
      refine hline.append (hline'.heightAfter 0) ?_ (.inr ?_)
      · cases next with
        | done => exact hnext
        | entry => exact .cons (by simp [Token.borrow]) hnext
      · cases next <;> simp [separator, tokens, Token.isEnd, Token.borrow]
    · rw [tokens, Balanced, openAfter_append, hbalanced, Option.bind_some]
      exact hnext'

end Outline

end SignLang
