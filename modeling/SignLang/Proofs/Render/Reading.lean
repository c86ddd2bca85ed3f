import SignLang.Proofs.Layout.Stream
import SignLang.Proofs.Parser.Moves

/-!
# Reading rendered expressions

The laid-out tokens of a rendered expression are read as that expression. An expression stands bare
where its power and what follows admit it, and in brackets otherwise, those of the text or those of
the layout (`Expr.Placed`); in either case the parser takes it in (`Expr.Placed.takes`) and then finds
what follows.

* `Expr.Ends`: what may follow an expression that stands bare.
* `Expr.Absorbed`: the parser takes in the tokens of an expression, at every power that admits it.
* `Expr.absorbed_of_printable`: it does for every printable expression.
-/

namespace SignLang

open Item SignLang.Parser

/-! ## First tokens -/

/-- The first token of a line is the first of its stream. -/
lemma streamOf_cons (t : Token) (us body : List Token) :
    ∃ rest, streamOf (t :: us) body = t :: rest := by
  unfold streamOf
  split
  · exact ⟨us, rfl⟩
  · rw [encloseFrom]
    split
    · exact ⟨_, rfl⟩
    · exact ⟨_, rfl⟩

/-- A token starts an operand if its word does. -/
lemma Token.Spells.startsOperand_eq {t : Token} {kind : Kind} {lexeme : String} {offset : Int}
    (h : t.Spells kind lexeme offset) : t.startsOperand = (Item.word kind lexeme).startsOperand := by
  cases kind <;> simp [Token.startsOperand, Item.startsOperand, h.kind_eq, h.lexeme_eq]

/-- A token is a header if its word is. -/
lemma Token.Spells.isHeader_eq {t : Token} {kind : Kind} {lexeme : String} {offset : Int}
    (h : t.Spells kind lexeme offset) : t.isHeader = (Item.word kind lexeme).isHeader := by
  simp [Token.isHeader, Token.isOperator, Item.isHeader, h.kind_eq, h.lexeme_eq,
    Operator.blockSymbols]

/-- The last token of a legible line is a header if its last word is. -/
lemma Legible.isHeader_getLast? {line : List Item} (h : Legible line) {offset : Int}
    {us : List Token} (hus : Spelled offset line us) :
    us.getLast?.all (!·.isHeader) = !line.getLast?.any isHeader := by
  obtain ⟨a, kind, lexeme, rfl, -⟩ := h.exists_last_word
  obtain ⟨us, t, rfl, ht⟩ := hus.getLast?
  simp [ht.isHeader_eq]

/-- A line that starts with an operand has a first token. -/
lemma Leads.exists_token {line : List Item} (h : Leads line) {offset : Int} {us : List Token}
    (hus : Spelled offset line us) :
    ∃ kind lexeme rest t ts, line = word kind lexeme :: rest ∧ us = t :: ts ∧
      t.Spells kind lexeme offset ∧ t.startsOperand := by
  obtain ⟨hfirst, -⟩ := h
  cases line with
  | nil => cases hfirst
  | cons i line =>
    cases i with
    | gap => cases hfirst
    | word kind lexeme =>
      obtain ⟨t, ts, rfl, ht, -⟩ := hus
      exact ⟨kind, lexeme, line, t, ts, rfl, rfl, ht, ht.startsOperand_eq.trans hfirst⟩

/-- The first token of a line that starts with an operand. -/
lemma Leads.here {line : List Item} (h : Leads line) {offset : Int} {us body : List Token}
    (hus : Spelled offset line us) {c d : Cursor} (hpass : c.Passes d (streamOf us body)) :
    ∃ kind lexeme rest, line = word kind lexeme :: rest ∧ c.here.Spells kind lexeme offset ∧
      c.here.startsOperand := by
  obtain ⟨kind, lexeme, rest, t, ts, rfl, rfl, ht, hstart⟩ := h.exists_token hus
  obtain ⟨more, hmore⟩ := streamOf_cons t ts body
  rw [hmore] at hpass
  obtain ⟨rfl, -⟩ := hpass
  exact ⟨kind, lexeme, rest, rfl, ht, hstart⟩

/-- An operator that leads an operand touches it. -/
lemma Leads.next {s : String} {line : List Item} (h : Leads (symbol s :: line)) (hs : s ≠ "?")
    {offset : Int} {us body : List Token} (hus : Spelled offset (symbol s :: line) us) {c d : Cursor}
    (hpass : c.Passes d (streamOf us body)) :
    c.here.touches c.next ∧ c.next.synthetic = false ∧ c.next.startsOperand := by
  obtain ⟨hfirst, hsecond⟩ := h
  have hnext := (hsecond s line rfl).resolve_left hs
  cases line with
  | nil => cases hnext
  | cons i line =>
    cases i with
    | gap => cases hnext
    | word kind lexeme =>
      obtain ⟨t, _, rfl, ht, t', us, rfl, ht', -⟩ := hus
      have hleads : Operator.leadsOperand s := by
        simpa [symbol, Item.startsOperand, hs] using hfirst
      have hheader : t.isHeader = false := by
        have hall : ∀ s ∈ ["#", "@", "-", "!", "~", "$"], (symbol s).isHeader = false := by decide
        rw [ht.isHeader_eq]
        exact hall s (Operator.mem_of_leadsOperand hleads)
      obtain ⟨rest, hrest⟩ := streamOf_cons t' us body
      have hstream : streamOf (t :: t' :: us) body = t :: t' :: rest := by
        rw [← hrest]
        exact @streamOf_append body [t] (t' :: us) (by simpa using hheader)
      rw [hstream] at hpass
      obtain ⟨rfl, -, rfl, -⟩ := hpass
      rw [Cursor.here_advance] at ht'
      refine ⟨?_, ht'.written, ht'.startsOperand_eq.trans hnext⟩
      simp [Token.touches, Token.stop, ht'.offset_eq, ht.offset_eq, ht.lexeme_eq]

/-- What starts with an operand is read as one, and not as a group that lacks its left operand. -/
lemma Leads.first {line : List Item} (h : Leads line) {offset : Int} {us body : List Token}
    (hus : Spelled offset line us) {c d : Cursor} (hpass : c.Passes d (streamOf us body)) :
    c.here.startsOperand ∧ c.headsPointFree = false := by
  obtain ⟨kind, lexeme, rest, rfl, hhere, hstart⟩ := h.here hus hpass
  refine ⟨hstart, ?_⟩
  by_cases hfree : kind = .operator ∧ Operator.isPointFree lexeme
  · obtain ⟨rfl, hfree⟩ := hfree
    have hquestion : lexeme ≠ "?" := by
      rintro rfl
      exact absurd hfree (by decide)
    have hleads : Operator.leadsOperand lexeme := by
      simpa [Item.startsOperand, hquestion] using h.1
    obtain ⟨htouches, hwritten, hnext⟩ := Leads.next h hquestion hus hpass
    simp [Cursor.headsPointFree, hhere.lexeme_eq, hleads, htouches, hwritten, hnext]
  · rw [Cursor.headsPointFree, hhere.kind_eq, hhere.lexeme_eq]
    rw [not_and] at hfree
    by_cases hkind : kind = .operator
    · simp [hfree hkind]
    · simp [hkind]

/-- The first token of a sound phrase starts an operand. -/
lemma Phrase.Streams.first {p : Phrase} {ts : List Token} (h : p.Streams ts) (sound : p.Sound)
    {c d : Cursor} (hpass : c.Passes d ts) : c.here.startsOperand ∧ c.headsPointFree = false := by
  obtain ⟨offset, us, outline, hus, -, rfl⟩ := h
  exact sound.first.first hus hpass

/-! ## Bare and bracketed expressions -/

/-- A phrase that more text follows stands bare if it binds tightly enough and does not end loosely, and
in brackets otherwise. -/
lemma Phrase.followed_cases (p : Phrase) (ht : p.tail = false) (hb : p.isBlock = false) (q : Nat) :
    p.followed q = p ∧ q ≤ p.power ∧ p.loose = false ∨ p.followed q = p.bracketed := by
  unfold followed wrap
  by_cases hbare : (q ≤ p.power || p.tail || p.isBlock) = true
  · simp only [if_pos hbare]
    split
    · exact .inr rfl
    · next hloose => exact .inl ⟨rfl, by simpa [ht, hb] using hbare, by simpa using hloose⟩
  · simp only [if_neg hbare]
    exact .inr rfl

namespace Expr

/-- The expression as what the parser has on the left: an application and a list take further
arguments or elements. -/
def leftOf : Expr → Left
  | apply function arguments => .applied function arguments
  | list elements => .listed elements
  | e => .single e

/-- The expression on the left is the one that stands there. -/
@[simp] lemma expr_leftOf (e : Expr) : e.leftOf.expr = e := by
  cases e <;> rfl

/-- The power at which the last operand of an expression is read. -/
def reach : Expr → Nat
  | define .. => Power.define
  | lambda .. => Power.lambda
  | binary s .. => ((Operator.binary? s).map Operator.rightPower).getD Power.atom
  | unary s leads _ =>
    if leads && s ≠ Operator.bar then ((Operator.leading? s).map Operator.rightPower).getD Power.atom
    else Power.atom
  | range .. => Power.range + 1
  | get .. => Power.get + 1
  | apply .. => Power.apply + 1
  | list .. => Power.product + 1
  | _ => Power.atom

/-- The power from which on nothing after the expression may bind. Nothing at all follows indented
lines. -/
def edge (e : Expr) : Nat :=
  if e.phrase.tail then 0 else e.reach

/-- What may follow an expression that stands bare and is read at the power `p`: nothing that binds
tightly enough, no operand after a tilde, no head of a function that its names could begin, and no
colon that would make a definition of it. -/
structure Ends (p : Nat) (e : Expr) (d : Cursor) : Prop where
  stop : moveAt e.edge d = .stop
  loose : e.phrase.loose → d.here.startsOperand = false
  clear : continuesHead d.ahead = false
  name : p ≤ Power.define → (nameOf? e).isSome → d.here.isSymbol ":" = false

/-- An expression may end where no operand and no operator follows. -/
lemma Ends.of_isEnd {d : Cursor} (h : d.here.isEnd) (p : Nat) (e : Expr) : e.Ends p d := by
  obtain ⟨hname, hop⟩ := Token.kind_of_isEnd h
  exact ⟨moveAt_of_isEnd h _, fun _ => Token.startsOperand_of_isEnd h, continuesHead_of_kind hname hop _,
    fun _ _ => Token.isSymbol_of_kind hop _⟩

/-- The tokens of an expression are read as that expression. -/
structure Absorbed (e : Expr) : Prop where
  takes : ∀ {ts c d p}, e.phrase.isBlock = false → e.phrase.Streams ts → c.Passes d ts →
    e.Ends p d → p ≤ e.phrase.power ∨ e.isPrefixed → Takes p c e.leftOf d
  clear : ∀ {ts rest}, e.phrase.isBlock = false → e.phrase.Streams ts →
    Power.lambda < e.phrase.power ∨ e.isLedArgument → continuesHead rest = false →
    continuesHead (ts ++ rest) = false
  block : ∀ {ts c d}, e.Hangs → e.phrase.Streams ts → c.Passes d ts → d.here.kind = .closing →
    Reads (.statements []) c e d ∧ c.here.startsOperand ∧ c.headsPointFree = false

/-- The tokens place an expression: bare, if `bare` holds, or in brackets. -/
inductive Placed (bare : Prop) (e : Expr) (ts : List Token) : Prop where
  | bare : bare → e.phrase.isBlock = false → e.phrase.Streams ts → Placed bare e ts
  | grouped {inside : List Token} : e.Hangs ∨ e.phrase.isBlock = false →
    e.phrase.Streams inside → Bracketed inside ts → Placed bare e ts

section Placing

variable {e : Expr} {q : Nat} {ts : List Token}

/-- The tokens of a phrase in brackets are those of the phrase, in brackets. -/
lemma bracketed_streams (ht : e.phrase.tail = false) (hb : e.phrase.isBlock = false)
    (h : e.phrase.bracketed.Streams ts) : ∃ inside, e.phrase.Streams inside ∧ Bracketed inside ts := by
  obtain ⟨offset, us, outline, hus, hout, rfl⟩ := h
  cases hout
  obtain ⟨t, us, t', offset', _, rfl, hopen, hus, hclose⟩ := spelled_enclosed hus
  refine ⟨us, ⟨offset', us, .done, hus, ?_, rfl⟩, t, t', hopen.kind_eq, hopen.lexeme_eq,
    hclose.kind_eq, rfl⟩
  rw [Phrase.body_eq_done ht hb]
  exact .done

/-- A phrase in brackets places its expression. -/
lemma Placed.of_bracketed {bare : Prop} (ht : e.phrase.tail = false) (hb : e.phrase.isBlock = false)
    (h : e.phrase.bracketed.Streams ts) : e.Placed bare ts := by
  obtain ⟨inside, hs, hts⟩ := bracketed_streams ht hb h
  exact .grouped (.inr hb) hs hts

/-- A wrapped phrase places its expression. -/
lemma Placed.of_wrap (hb : e.phrase.isBlock = false) (h : (e.phrase.wrap q).Streams ts) :
    e.Placed (q ≤ e.phrase.power ∨ e.phrase.tail) ts := by
  unfold Phrase.wrap at h
  split at h
  · next hbare => exact .bare (by simpa [hb] using hbare) hb h
  · next hbare =>
    simp only [Bool.or_eq_true, not_or, Bool.not_eq_true] at hbare
    exact .of_bracketed hbare.1.2 hb h

/-- Nothing is below a phrase that more text follows. -/
lemma Inner.body_followed (inner : e.Inner) (q : Nat) : (e.phrase.followed q).body = .done :=
  Phrase.body_eq_done (Phrase.tail_followed inner.1 _) (Phrase.isBlock_followed inner.2 _)

/-- The line of a phrase that more text follows places its expression. -/
lemma Placed.of_followed (inner : e.Inner) {offset : Int} (h : Spelled offset (e.phrase.followed q).line ts) :
    e.Placed (q ≤ e.phrase.power ∧ e.phrase.loose = false) ts := by
  have hs : (e.phrase.followed q).Streams ts := ⟨offset, ts, .done, h, inner.body_followed q ▸ .done, rfl⟩
  obtain ⟨ht, hb⟩ := inner
  rcases e.phrase.followed_cases ht hb q with ⟨heq, hbare⟩ | heq
  · exact .bare hbare hb (heq ▸ hs)
  · exact .of_bracketed ht hb (heq ▸ hs)

/-- A phrase that is glued to a symbol places its expression. -/
lemma Placed.of_glued (hglues : e.Glues q) (h : (e.phrase.glued q).Streams ts) :
    e.Placed (e.phrase.glued q = e.phrase ∧ (q ≤ e.phrase.power ∨ e.phrase.tail)) ts := by
  obtain ⟨⟨hb, -⟩, hbar⟩ := hglues
  by_cases hbare : (q ≤ e.phrase.power || e.phrase.tail || e.phrase.isBlock) = true
  · have hwrap : e.phrase.wrap q = e.phrase := by rw [Phrase.wrap, if_pos hbare]
    by_cases hstarts : e.phrase.startsWith '|' = true
    · have hglued : e.phrase.glued q = e.phrase.bracketed := by
        rw [Phrase.glued, hwrap, if_pos hstarts]
      refine .of_bracketed ?_ hb (hglued ▸ h)
      by_contra ht
      rw [hbar (by simpa using ht)] at hstarts
      cases hstarts
    · have hglued : e.phrase.glued q = e.phrase := by
        rw [Phrase.glued, hwrap, if_neg hstarts]
      exact .bare ⟨hglued, by simpa [hb] using hbare⟩ hb (hglued ▸ h)
  · have hwrap : e.phrase.wrap q = e.phrase.bracketed := by rw [Phrase.wrap, if_neg hbare]
    have hglued : e.phrase.glued q = e.phrase.bracketed := by
      rw [Phrase.glued, hwrap, if_neg]
      simp [Phrase.startsWith, Phrase.text, Phrase.bracketed, openGroup, Item.text]
    simp only [Bool.or_eq_true, not_or, Bool.not_eq_true] at hbare
    exact .of_bracketed hbare.1.2 hb (hglued ▸ h)

end Placing

/-- The tokens of a head end in a word before which no block operator stands, or in a word that takes
no block. -/
def HeadEnds (hs : List Token) : Prop :=
  hs.getLast?.all (!·.isHeader) ∨ ∃ us op, hs = us ++ [op] ∧ us.getLast?.all (!·.isHeader)

/-- The tokens of a head and of the right-hand side after it, which may be a block below it. -/
lemma Placed.of_join {e : Expr} {q power : Nat} {head : List Item} {ts : List Token}
    (hang : e.Hangs ∨ e.phrase.isBlock = false)
    (hends : ∀ {offset hs}, Spelled offset head hs → HeadEnds hs)
    (hblock : e.phrase.isBlock → ∀ {offset hs}, Spelled offset head hs → hs.getLast?.any (·.isHeader))
    (h : (Phrase.join head (e.phrase.wrap q) power).Streams ts) :
    ∃ offset hs rest, ts = hs ++ rest ∧ Spelled offset head hs ∧
      e.Placed (q ≤ e.phrase.power ∨ e.phrase.tail) rest := by
  obtain ⟨offset, us, outline, hus, hout, rfl⟩ := h
  cases hb : e.phrase.isBlock with
  | true =>
    have hangs : e.Hangs := hang.resolve_right (by simp [hb])
    have hwrap : e.phrase.wrap q = e.phrase := by simp [Phrase.wrap, hb]
    have hsome := hangs.spec.2.2
    simp only [Phrase.join, hwrap, hb, if_true] at hus hout
    have hbody := hout.tokens_ne_nil hsome
    have hop := hblock hb hus
    have hline : e.phrase.line = [] := by
      cases e with
      | block statements => rfl
      | _ => exact hangs.elim
    obtain ⟨us, op, rfl, hlast⟩ : ∃ us' op, us = us' ++ [op] ∧ us'.getLast?.all (!·.isHeader) := by
      refine (hends hus).resolve_left fun hnot => ?_
      obtain ⟨init, last, rfl⟩ := (List.eq_nil_or_concat' us).resolve_left (by
        rintro rfl
        cases hop)
      rw [List.getLast?_concat] at hop hnot
      simp [show last.isHeader from hop] at hnot
    rw [List.getLast?_concat, Option.any_some] at hop
    obtain ⟨rest, hrest, hbracketed⟩ := @streamOf_headers _ us [] op hlast hop rfl hbody
    refine ⟨offset, us ++ [op], rest, by rw [hrest]; simp, hus, .grouped (.inl hangs) ?_ hbracketed⟩
    exact ⟨0, [], outline, by rw [hline]; rfl, hout, rfl⟩
  | false =>
    have hwb := Phrase.isBlock_wrap hb q
    simp only [Phrase.join, hwb, Bool.false_eq_true, if_false] at hus hout
    obtain ⟨hs, rs, rfl, hhs, hrs⟩ := spelled_append.1 hus
    have hstreams : (e.phrase.wrap q).Streams (streamOf rs outline.tokens) :=
      ⟨_, rs, outline, hrs, hout, rfl⟩
    rcases hends hhs with hlast | ⟨us, op, rfl, hlast⟩
    · exact ⟨offset, hs, _, streamOf_append hlast, hhs, .of_wrap hb hstreams⟩
    · rw [List.append_assoc]
      obtain ⟨rest, hrest, hcase⟩ := @streamOf_join outline.tokens us rs op hlast
      refine ⟨offset, us ++ [op], rest, by rw [List.singleton_append, hrest]; simp, hhs, ?_⟩
      rcases hcase with rfl | ⟨hbody, hbracketed⟩
      · exact .of_wrap hb hstreams
      · refine .grouped (.inr hb) ?_ hbracketed
        have hwrap : e.phrase.wrap q = e.phrase := by
          unfold Phrase.wrap at hout ⊢
          split at hout
          · rw [if_pos ‹_›]
          · cases hout
            exact absurd rfl hbody
        rwa [hwrap] at hstreams

/-- An expression that ends before a closing bracket is read as the sequence before it. -/
lemma Absorbed.sequence {e : Expr} (h : e.Absorbed) (readable : e.Readable)
    (hang : e.Hangs ∨ e.phrase.isBlock = false) {ts : List Token} (hs : e.phrase.Streams ts)
    {c d : Cursor} (hpass : c.Passes d ts) (hd : d.here.kind = .closing) :
    Reads (.statements []) c e d ∧ c.here.startsOperand ∧ c.headsPointFree = false := by
  rcases hang with hang | hb
  · exact h.block hang hs hpass hd
  · have hend : d.here.isEnd := by simp [Token.isEnd, hd]
    obtain ⟨hstart, hfree⟩ := hs.first (readable.1 hb) hpass
    have htakes := h.takes hb hs hpass (Ends.of_isEnd hend 0 e) (.inl (Nat.zero_le _))
    have hread := htakes.stop (moveAt_of_isEnd hend 0)
    rw [expr_leftOf] at hread
    refine ⟨@Reads.last [] c e d ?_ hread (by simp [hd]), hstart, hfree⟩
    rintro (hc | hc) <;> simp [Token.startsOperand, hc] at hstart

section Placed

variable {bare : Prop} {e : Expr} {ts : List Token} {c d : Cursor} {p : Nat}

/-- An expression in brackets is read as an operand. -/
lemma Absorbed.group {inside : List Token} (h : e.Absorbed) (readable : e.Readable)
    (hang : e.Hangs ∨ e.phrase.isBlock = false) (hs : e.phrase.Streams inside)
    (hts : Bracketed inside ts) (hpass : c.Passes d ts) :
    Reads .primary c e d ∧ c.here.kind = .opening := by
  obtain ⟨opener, closer, hopen, hlexeme, hclose, rfl⟩ := hts
  rw [List.cons_append] at hpass
  obtain ⟨rfl, -, hpass⟩ := hpass
  obtain ⟨m, hinside, rfl, -, rfl⟩ := Cursor.passes_append.1 hpass
  obtain ⟨hread, hstart, hfree⟩ := h.sequence readable hang hs hinside hclose
  refine ⟨.group hopen (by rw [hlexeme]; decide) ?_ (by simp [hfree]) hread hclose, hopen⟩
  intro hc
  simp [Token.startsOperand, hc] at hstart

/-- An expression that stands somewhere starts an operand there. -/
lemma Placed.first (h : e.Placed bare ts) (readable : e.Readable) (hpass : c.Passes d ts) :
    c.here.startsOperand := by
  cases h with
  | bare _ hb hs => exact (hs.first (readable.1 hb) hpass).1
  | grouped hang hs hts =>
    obtain ⟨opener, closer, hopen, -, -, rfl⟩ := hts
    rw [List.cons_append] at hpass
    simp [Token.startsOperand, hpass.1, hopen]

/-- An expression that stands somewhere is taken in there: as it is if it stands bare, and as a
single operand if it stands in brackets. -/
lemma Placed.takes (h : e.Placed bare ts) (abs : e.Absorbed) (readable : e.Readable)
    (hpass : c.Passes d ts)
    (hbare : e.phrase.isBlock = false → bare → e.Ends p d ∧ (p ≤ e.phrase.power ∨ e.isPrefixed)) :
    ∃ left : Left, left.expr = e ∧ (bare ∧ left = e.leftOf ∨ left = .single e) ∧ Takes p c left d := by
  cases h with
  | bare hb hblock hs =>
    obtain ⟨hends, hpower⟩ := hbare hblock hb
    exact ⟨e.leftOf, e.expr_leftOf, .inl ⟨hb, rfl⟩, abs.takes hblock hs hpass hends hpower⟩
  | grouped hang hs hts =>
    obtain ⟨hread, hopen⟩ := abs.group readable hang hs hts hpass
    obtain ⟨hdefine, hlambda⟩ := starts_of_opening hopen
    exact ⟨.single e, rfl, .inr rfl, .primary hread (fun _ => hdefine) fun _ => hlambda⟩

/-- An expression that stands on the right of an operator is read there, if nothing binds after it. -/
lemma Placed.reads (h : e.Placed bare ts) (abs : e.Absorbed) (readable : e.Readable)
    (hpass : c.Passes d ts)
    (hbare : e.phrase.isBlock = false → bare → e.Ends p d ∧ (p ≤ e.phrase.power ∨ e.isPrefixed))
    (hstop : moveAt p d = .stop) : Reads (.expr p) c e d := by
  obtain ⟨left, rfl, -, htakes⟩ := h.takes abs readable hpass hbare
  exact htakes.stop hstop

/-- An argument does not lead to the question mark of a function. -/
lemma Placed.clear (h : e.Placed bare ts) (abs : e.Absorbed)
    (hbare : bare → Power.lambda < e.phrase.power ∨ e.isLedArgument) {rest : List Token}
    (hrest : continuesHead rest = false) : continuesHead (ts ++ rest) = false := by
  cases h with
  | bare hb hblock hs => exact abs.clear hblock hs (hbare hb) hrest
  | grouped hang hs hts =>
    obtain ⟨opener, closer, hopen, -, -, rfl⟩ := hts
    rw [List.cons_append, List.cons_append]
    exact continuesHead_of_kind (by simp [hopen]) (by simp [hopen]) _

end Placed

end Expr

end SignLang
