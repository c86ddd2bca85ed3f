import SignLang.Proofs.Layout.Groups
import SignLang.Proofs.Parser.Words

/-!
# Where blocks stand

A block of several statements comes from lines that are indented below a block operator. Such a block is
the value of a definition, the right operand of a colon or the body of a function, and nothing that stands
on the same line follows it. `Expr.Seated` says so of an expression, place by place, and `Reads.seats`
that the parser reads nothing else from tokens in which all separators are housed.
-/

namespace SignLang

namespace Expr

/-- What a part of an expression is to the whole. -/
inductive Place where
  | value
  | colon
  | body
  | statement
  | last
  | inner
deriving DecidableEq, Repr

/-- The last of several parts, and those that others follow. -/
def rowOf (es : List Expr) : List (Place × Expr) :=
  es.dropLast.map (.inner, ·) ++ es.getLast?.toList.map (.last, ·)

/-- The parts of an expression. A part is inner if words of the expression follow it. -/
def parts : Expr → List (Place × Expr)
  | literal _ _ | identifier _ | unit | emptyList | pointFree _ none => []
  | define target value => [(.inner, target), (.value, value)]
  | lambda _ body => [(.body, body)]
  | binary symbol left right => [(.inner, left), (if symbol = ":" then .colon else .last, right)]
  | unary _ leads operand => [(if leads then .last else .inner, operand)]
  | range start stop => [(.inner, start), (.last, stop)]
  | get target key => [(.inner, target), (.last, key)]
  | apply function arguments => (.inner, function) :: rowOf arguments
  | pointFree _ (some preset) => [(.last, preset)]
  | list elements => rowOf elements
  | block statements => statements.map (.statement, ·)

/-- The expression is a sequence of statements. -/
def isBlock : Expr → Bool
  | block _ => true
  | _ => false

/-- A block may stand in the place. -/
def Place.holdsBlock : Place → Bool
  | value | colon | body => true
  | statement | last | inner => false

/-- There is no block in the expression. -/
inductive Blockless : Expr → Prop where
  | mk {e} :
    e.isBlock = false →
    (∀ part ∈ e.parts, Blockless part.2) →
    Blockless e

/-- The expression may stand in the place: it has no block if words of the same line follow, and is a block
only where one is held. -/
inductive Seated : Place → Expr → Prop where
  | inner {e} :
    e.Blockless →
    Seated .inner e
  | outer {place e} :
    place ≠ .inner →
    (e.isBlock → place.holdsBlock ∧ 2 ≤ e.parts.length) →
    (∀ part ∈ e.parts, Seated part.1 part.2) →
    Seated place e

variable {place place' : Place} {e : Expr} {es : List Expr}

/-- What has no block may stand anywhere. -/
lemma Blockless.seated (h : e.Blockless) (place : Place) : Seated place e := by
  induction h generalizing place with
  | @mk e hblock hparts ih =>
    by_cases hplace : place = .inner
    · rw [hplace]
      exact .inner (.mk hblock hparts)
    · exact .outer hplace (by simp [hblock]) fun part hpart => ih part hpart part.1

/-- A block stands only where one is held. -/
lemma Seated.isBlock_eq_false (h : Seated place e) (hplace : place.holdsBlock = false) : e.isBlock = false := by
  cases h with
  | inner h =>
    cases h with
    | mk hblock => exact hblock
  | outer _ hblock _ =>
    by_contra hne
    have := (hblock (by simpa using hne)).1
    rw [hplace] at this
    cases this

/-- A form other than a block may stand last if its parts may stand in it. -/
lemma Seated.form (h : e.isBlock = false) (hparts : ∀ part ∈ e.parts, Seated part.1 part.2) : Seated .last e :=
  .outer (by decide) (by simp [h]) hparts

/-- What may stand last may stand in any other place where nothing follows, if a block is held there. -/
lemma Seated.mono (h : Seated place e) (hplace : place ≠ .inner) (hplace' : place' ≠ .inner)
    (hblock : e.isBlock → place'.holdsBlock) : Seated place' e := by
  cases h with
  | inner => exact absurd rfl hplace
  | outer _ hheld hparts => exact .outer hplace' (fun hb => ⟨hblock hb, (hheld hb).2⟩) hparts

/-- What is no block may stand in any place where nothing follows. -/
lemma Seated.of_last (h : Seated .last e) (hplace : place ≠ .inner) : Seated place e := by
  refine h.mono (by decide) hplace fun hb => ?_
  rw [h.isBlock_eq_false rfl] at hb
  cases hb

/-- The last of several parts is outer, and the others are inner. -/
lemma forall_mem_rowOf {P : Place × Expr → Prop} {init : List Expr} {last : Expr} :
    (∀ part ∈ rowOf (init ++ [last]), P part) ↔ (∀ e ∈ init, P (.inner, e)) ∧ P (.last, last) := by
  rw [rowOf, List.dropLast_concat, List.getLast?_concat, List.forall_mem_append, List.forall_mem_map]
  simp

/-- The parts in a row are those that are listed. -/
lemma forall_mem_rowOf_iff {P : Expr → Prop} : (∀ part ∈ rowOf es, P part.2) ↔ ∀ e ∈ es, P e := by
  rcases List.eq_nil_or_concat' es with rfl | ⟨init, last, rfl⟩
  · simp [rowOf]
  · rw [forall_mem_rowOf, List.forall_mem_append, List.forall_mem_singleton]

/-- The parts of what has no block have none. -/
lemma Blockless.part (h : e.Blockless) : ∀ part ∈ e.parts, part.2.Blockless := by
  cases h with
  | mk _ hparts => exact hparts

end Expr

namespace Cursor

variable {c d m : Cursor}

/-- The token before the cursor is a block operator. -/
def afterHeader (c : Cursor) : Bool :=
  c.before.head?.any (·.isOperator Operator.blockSymbols)

/-- What is read from the cursor on is the value of a definition or the body of a function, if a block
operator stands before it. -/
def place (c : Cursor) : Expr.Place :=
  if c.afterHeader then .value else .last

/-- Whether a cursor stands after a block operator is seen from the token it has moved over. -/
lemma Ends.afterHeader_advance (ends : c.Ends) (h : c.here.kind ≠ .ending) :
    c.advance.afterHeader = c.here.isOperator Operator.blockSymbols := by
  obtain ⟨t, rest, e⟩ := ends.exists_after h
  simp [advance_eq e, afterHeader]

/-- What is level is moved over. -/
lemma Levels.exists_passes (h : c.Levels d) : ∃ ts, c.Passes d ts := by
  obtain ⟨ts, hpass, -⟩ := h
  exact ⟨ts, hpass⟩

/-- A separator is still there from an earlier cursor on. -/
lemma Divides.prepend (h : ∃ ts, c.Passes m ts) (h' : m.Divides d) : c.Divides d := by
  obtain ⟨ts, hpass⟩ := h
  obtain ⟨us, hpass', t, ht, hk⟩ := h'
  exact ⟨ts ++ us, passes_append.2 ⟨m, hpass, hpass'⟩, t, List.mem_append_right _ ht, hk⟩

/-- A separator is still there up to a later cursor. -/
lemma Divides.append (h : c.Divides m) (h' : ∃ ts, m.Passes d ts) : c.Divides d := by
  obtain ⟨ts, hpass, t, ht, hk⟩ := h
  obtain ⟨us, hpass'⟩ := h'
  exact ⟨ts ++ us, passes_append.2 ⟨m, hpass, hpass'⟩, t, List.mem_append_left _ ht, hk⟩

/-- A group with a separator inside follows a block operator, is not in bars, and ends an expression. -/
lemma Divides.housed (h : c.advance.Divides d) (hlevel : c.advance.Levels d) (housed : Housed c.tokens)
    (ends : c.Ends) (ends' : d.Ends) (hc : c.here.kind = .opening) (hd : d.here.kind = .closing) :
    c.afterHeader ∧ c.here.lexeme ≠ Operator.bar ∧ d.advance.here.isEnd := by
  obtain ⟨inside, hpass, t, ht, hk⟩ := h
  obtain ⟨ts, hpass', hts⟩ := hlevel
  obtain rfl : ts = inside := List.append_cancel_right (hpass'.ahead_eq.symm.trans hpass.ahead_eq)
  obtain ⟨u, rest, e⟩ := ends.exists_after (by simp [hc])
  obtain ⟨u', rest', e'⟩ := ends'.exists_after (by simp [hd])
  have htokens : c.tokens = c.before.reverse ++ c.here :: (ts ++ d.here :: d.advance.ahead) := by
    rw [← ahead_eq_cons (by simp [e']), ← hpass.ahead_eq, ← ahead_eq_cons (by simp [e])]
    rfl
  obtain ⟨hbefore, hbar, hafter⟩ := housed htokens hc hd hts ⟨t, ht, hk⟩
  refine ⟨?_, hbar, ?_⟩
  · rwa [List.getLast?_reverse] at hbefore
  · simpa [ahead] using hafter

end Cursor

namespace Parser

open Cursor

/-- The expression has no block, or it ends where an expression does and has a separator in its tokens. -/
def Clean (c : Cursor) (e : Expr) (d : Cursor) : Prop :=
  e.Blockless ∨ d.here.isEnd ∧ c.Divides d

/-- What may be the value of a definition may stand in any place that holds a block. -/
lemma seated_held {place : Expr.Place} {e : Expr} (h : Expr.Seated .value e) (hplace : place.holdsBlock) :
    Expr.Seated place e := by
  refine h.mono (by decide) ?_ fun _ => hplace
  rintro rfl
  cases hplace

/-- The elements of what has no block have none. -/
lemma Left.blockless_elements {left : Left} (h : left.expr.Blockless) : ∀ e ∈ left.elements, e.Blockless := by
  cases left with
  | listed es => exact Expr.forall_mem_rowOf_iff.1 h.part
  | single | applied => exact List.forall_mem_singleton.2 h

/-- A symbol between two operands makes a form whose last part is the right one. -/
lemma seated_joined {symbol : String} {l r : Expr} (hl : l.Blockless)
    (hr : Expr.Seated (if symbol ∈ Operator.blockSymbols then .value else .last) r) (hq : symbol ≠ "?") :
    Expr.Seated .last (joined symbol l r) ∧ (r.Blockless → (joined symbol l r).Blockless) := by
  have hcolon : symbol = ":" → Expr.Seated .value r := by
    rintro rfl
    exact hr
  have hlast : symbol ≠ ":" → Expr.Seated .last r := by
    intro hne
    rwa [if_neg (by simp [Operator.blockSymbols, hne, hq])] at hr
  unfold joined
  split
  · next h =>
    refine ⟨.form rfl ?_, fun hr => .mk rfl ?_⟩
    · simpa [Expr.parts] using ⟨.inner hl, hcolon h.1⟩
    · simpa [Expr.parts] using ⟨hl, hr⟩
  split
  · next h =>
    refine ⟨.form rfl ?_, fun hr => .mk rfl ?_⟩
    · simpa [Expr.parts] using ⟨.inner hl, hlast (by simp [h])⟩
    · simpa [Expr.parts] using ⟨hl, hr⟩
  split
  · next h =>
    refine ⟨.form rfl ?_, fun hr => .mk rfl ?_⟩
    · simpa [Expr.parts] using ⟨.inner hl, hlast (by simp [h])⟩
    · simpa [Expr.parts] using ⟨hl, hr⟩
  · refine ⟨.form rfl ?_, fun hr => .mk rfl ?_⟩
    · have hright : Expr.Seated (if symbol = ":" then .colon else .last) r := by
        split
        · next h => exact seated_held (hcolon h) rfl
        · next h => exact hlast h
      simpa [Expr.parts] using ⟨.inner hl, hright⟩
    · simpa [Expr.parts] using ⟨hl, hr⟩

/-- A further operand on the right of what has no block may stand last. -/
lemma Left.seated_of_join? {left left' : Left} {symbol : String} {r : Expr} (hleft : left.expr.Blockless)
    (hr : Expr.Seated (if symbol ∈ Operator.blockSymbols then .value else .last) r)
    (h : left.join? symbol r = some left') :
    Expr.Seated .last left'.expr ∧ (r.Blockless → left'.expr.Blockless) := by
  obtain ⟨rfl, rfl⟩ | ⟨rfl, params, -, rfl⟩ | ⟨-, hq, rfl⟩ := Left.join?_cases h
  · rw [if_neg (by decide)] at hr
    have helements := left.blockless_elements hleft
    rw [Left.element_eq]
    refine ⟨.form rfl ?_, fun hr => .mk rfl ?_⟩
    · exact Expr.forall_mem_rowOf.2 ⟨fun e he => .inner (helements e he), hr⟩
    · exact Expr.forall_mem_rowOf_iff.2
        (List.forall_mem_append.2 ⟨helements, List.forall_mem_singleton.2 hr⟩)
  · rw [if_pos (by decide)] at hr
    refine ⟨.form rfl ?_, fun hr => .mk rfl ?_⟩
    · simpa [Left.expr, Expr.parts] using seated_held hr rfl
    · simpa [Left.expr, Expr.parts] using hr
  · exact seated_joined hleft hr hq

/-- A further argument of what has no block may stand last. -/
lemma Left.seated_argument {left : Left} {e : Expr} (hleft : left.expr.Blockless) (he : Expr.Seated .last e) :
    Expr.Seated .last (left.argument e).expr ∧ (e.Blockless → (left.argument e).expr.Blockless) := by
  obtain ⟨f, args, heq, hf, hargs⟩ : ∃ f args, (left.argument e).expr = .apply f (args ++ [e]) ∧ f.Blockless ∧
      ∀ a ∈ args, a.Blockless := by
    cases left with
    | applied f args =>
      have hparts := List.forall_mem_cons.1 hleft.part
      exact ⟨f, args, rfl, hparts.1, Expr.forall_mem_rowOf_iff.1 hparts.2⟩
    | single | listed => exact ⟨_, [], rfl, hleft, List.forall_mem_nil _⟩
  rw [heq]
  refine ⟨.form rfl ?_, fun he => .mk rfl ?_⟩
  · exact List.forall_mem_cons.2 ⟨.inner hf, Expr.forall_mem_rowOf.2 ⟨fun a ha => .inner (hargs a ha), he⟩⟩
  · exact List.forall_mem_cons.2 ⟨hf, Expr.forall_mem_rowOf_iff.2
      (List.forall_mem_append.2 ⟨hargs, List.forall_mem_singleton.2 he⟩)⟩

/-- A task starts where the parser comes to it. -/
def Task.Awaits (c : Cursor) : Task → Prop
  | .statements _ => c.afterHeader = false
  | .climb _ left => c.afterHeader = false ∧ (left.expr.Blockless ∨ c.here.isEnd)
  | _ => True

/-- What a task reads has its blocks where they may stand. -/
def Task.Seats (c : Cursor) (e : Expr) (d : Cursor) : Task → Prop
  | .statements es =>
    ∃ fs, e = sequenced (es ++ fs) ∧ (fs = [] → d = c) ∧ (∀ f ∈ fs, Expr.Seated .statement f) ∧
      (fs.length ≤ 1 ∧ (∀ f ∈ fs, f.Blockless) ∨ c.Divides d)
  | .climb _ left =>
    (left.expr.Blockless → Expr.Seated .last e ∧ Clean c e d) ∧ (¬left.expr.Blockless → e = left.expr ∧ d = c) ∧
      d.afterHeader = false
  | _ => Expr.Seated c.place e ∧ Clean c e d ∧ d.afterHeader = false

section Forms

variable {c d m : Cursor} {e e' : Expr}

/-- What is read after an operator may be a block if that one is a block operator. -/
lemma place_advance (ends : c.Ends) (hk : c.here.kind = .operator) :
    c.advance.place = if c.here.lexeme ∈ Operator.blockSymbols then .value else .last := by
  rw [Cursor.place, ends.afterHeader_advance (by simp [hk])]
  simp [Token.isOperator, hk, Operator.blockSymbols]

/-- A block operator is an operator. -/
lemma afterHeader_advance_other (ends : c.Ends) (hk : c.here.kind ≠ .operator) (hne : c.here.kind ≠ .ending) :
    c.advance.afterHeader = false := by
  rw [ends.afterHeader_advance hne]
  simp [Token.isOperator, hk]

/-- An operator after an operand is no block operator. -/
lemma afterHeader_of_trail {p : Nat} (ends : c.Ends) (hmove : moveAt p c = .trail) :
    c.advance.afterHeader = false := by
  rw [ends.afterHeader_advance (by simp [kind_of_moveAt hmove (by simp) (by simp)])]
  rcases lexeme_of_trails (trails_of_trail hmove) with h | h <;>
    simp [Token.isOperator, Operator.blockSymbols, h]

/-- A form whose last part is read from a later cursor on is read as that part is. -/
lemma seats_form (hseated : Expr.Seated .last e') (hblockless : e.Blockless → e'.Blockless)
    (hclean : Clean m e d) (hlevel : c.Levels m) : Expr.Seated c.place e' ∧ Clean c e' d := by
  constructor
  · refine hseated.of_last ?_
    unfold Cursor.place
    split <;> decide
  · exact hclean.imp hblockless fun h => ⟨h.1, h.2.prepend hlevel.exists_passes⟩

/-- A form without blocks may stand anywhere. -/
lemma seats_blockless (h : e.Blockless) : Expr.Seated c.place e ∧ Clean c e d :=
  ⟨h.seated _, .inl h⟩

/-- A function is read as its body is. -/
lemma seats_lambda (ends : m.Ends) (hq : m.here.isSymbol "?") (hlevel : c.Levels m) (params : List Parameter)
    (hseated : Expr.Seated m.advance.place e) (hclean : Clean m.advance e d) :
    Expr.Seated c.place (.lambda params e) ∧ Clean c (.lambda params e) d := by
  obtain ⟨hk, hlexeme⟩ := Token.isSymbol_iff.1 hq
  rw [place_advance ends hk, hlexeme, if_pos (by decide)] at hseated
  refine seats_form ?_ (fun h => .mk rfl ?_) hclean (hlevel.trans (.of_operator ends hk))
  · exact .form rfl (List.forall_mem_singleton.2 (seated_held hseated rfl))
  · exact List.forall_mem_singleton.2 h

/-- A group is read as its statements are. It is a block, or has one inside, only after a block operator. -/
lemma seats_group (ends : c.Ends) (housed : Housed c.tokens) (hc : c.here.kind = .opening)
    (hne : c.advance.here.kind ≠ .closing) (hs : Reads (.statements []) c.advance e d)
    (hclosing : d.here.kind = .closing) (h : (Task.statements []).Seats c.advance e d) :
    Expr.Seated c.place e ∧ Clean c e d.advance ∧ (c.here.lexeme = Operator.bar → e.Blockless) := by
  have ends' := (hs.progress ends.advance).1
  obtain ⟨fs, rfl, hnil, hfs, hdivides⟩ := h
  rw [List.nil_append]
  cases fs with
  | nil =>
    rw [hnil rfl] at hclosing
    exact absurd hclosing hne
  | cons f fs =>
    rcases hdivides with ⟨hlength, hall⟩ | hdivides
    · obtain rfl : fs = [] := by simpa using hlength
      have hf := hall f List.mem_cons_self
      exact ⟨hf.seated _, .inl hf, fun _ => hf⟩
    · obtain ⟨hheader, hbar, hend⟩ := hdivides.housed (hs.levels ends.advance) housed ends ends' hc hclosing
      refine ⟨?_, .inr ⟨hend, ?_⟩, fun h => absurd h hbar⟩
      · rw [Cursor.place, hheader]
        cases fs with
        | nil => exact (hfs f List.mem_cons_self).mono (by decide) (by decide) fun _ => rfl
        | cons g fs =>
          have hlength : 2 ≤ (Expr.block (f :: g :: fs)).parts.length := by simp [Expr.parts]
          exact .outer (by decide) (fun _ => ⟨rfl, hlength⟩) (List.forall_mem_map.2 hfs)
      · exact (hdivides.prepend ⟨_, ends.passes (by simp [hc])⟩).append ⟨_, ends'.passes (by simp [hclosing])⟩

/-- A preset operand is read as it stands. -/
lemma seats_preset (ends : c.Ends) (housed : Housed c.tokens) (hc : c.here.kind = .opening)
    (hfree : c.advance.headsPointFree) (he : Reads (.expr (Power.product + 1)) c.advance.advance e d)
    (hclosing : (pastComma d).here.kind = .closing) (hseated : Expr.Seated c.advance.advance.place e)
    (hclean : Clean c.advance.advance e d) :
    Expr.Seated c.place (.pointFree c.advance.here.lexeme (some e)) ∧
      Clean c (.pointFree c.advance.here.lexeme (some e)) (pastComma d).advance := by
  have hk := kind_of_headsPointFree hfree
  have ends' := (he.progress ends.advance.advance).1
  have ends'' := (pastComma_progress ends').1
  have hsymbol : c.advance.here.lexeme ∉ Operator.blockSymbols := by
    simp only [Cursor.headsPointFree, Operator.isPointFree, Bool.and_eq_true] at hfree
    simpa using hfree.1.2.2
  rw [place_advance ends.advance hk, if_neg hsymbol] at hseated
  have hform : Expr.Seated .last (.pointFree c.advance.here.lexeme (some e)) :=
    .form rfl (List.forall_mem_singleton.2 hseated)
  rcases hclean with hblockless | ⟨-, hdivides⟩
  · exact seats_blockless (.mk rfl (List.forall_mem_singleton.2 hblockless))
  · have hlevel := (Levels.of_operator ends.advance hk).trans
      ((he.levels ends.advance.advance).trans (levels_pastComma ends'))
    have hdivides' : c.advance.Divides (pastComma d) :=
      (hdivides.append (levels_pastComma ends').exists_passes).prepend
        (Levels.of_operator ends.advance hk).exists_passes
    obtain ⟨-, -, hend⟩ := hdivides'.housed hlevel housed ends ends'' hc hclosing
    have hlevel' : c.Divides (pastComma d).advance :=
      (hdivides'.prepend ⟨_, ends.passes (by simp [hc])⟩).append ⟨_, ends''.passes (by simp [hclosing])⟩
    exact seats_form hform id (.inr ⟨hend, hlevel'⟩) (.refl c)

/-- Nothing goes on after an operand with a block in it. -/
lemma blockless_of_move {p : Nat} {left : Left} {move : Move} (h : left.expr.Blockless ∨ c.here.isEnd)
    (hmove : moveAt p c = move) (hne : move ≠ .stop) : left.expr.Blockless := by
  refine h.resolve_right fun hend => hne ?_
  rw [← hmove, moveAt_of_isEnd hend]

end Forms

/-- Blocks are read only where they may stand, if all separators are housed. -/
theorem Reads.seats {task c e d} (h : Reads task c e d) (ends : c.Ends) (housed : Housed c.tokens)
    (awaits : task.Awaits c) : task.Seats c e d := by
  generalize hlist : c.tokens = ts at housed
  induction h with
  | done _ => exact ⟨[], by simp, fun _ => rfl, List.forall_mem_nil _, .inl ⟨Nat.zero_le _, List.forall_mem_nil _⟩⟩
  | @last es c e d _ _ _ ih =>
    obtain ⟨hseated, hclean, -⟩ := ih ends trivial hlist
    rw [Cursor.place, show c.afterHeader = false from awaits] at hseated
    refine ⟨[e], rfl, by simp, List.forall_mem_singleton.2 (hseated.of_last (by decide)), ?_⟩
    exact hclean.imp (fun h => ⟨le_rfl, List.forall_mem_singleton.2 h⟩) And.right
  | @more es c e d f d' _ he hsep hrest ih ih' =>
    have ends' := (he.progress ends).1
    obtain ⟨hseated, -, -⟩ := ih ends trivial hlist
    rw [Cursor.place, show c.afterHeader = false from awaits] at hseated
    have hstart : d.advance.afterHeader = false := afterHeader_advance_other ends' (by simp [hsep]) (by simp [hsep])
    obtain ⟨fs, rfl, -, hfs, -⟩ := ih' ends'.advance hstart
      (d.tokens_advance.trans (he.reaches.tokens_eq.trans hlist))
    have hdivides : d.Divides d.advance := ⟨[d.here], ends'.passes (by simp [hsep]), d.here, by simp, hsep⟩
    refine ⟨e :: fs, by simp, by simp, List.forall_mem_cons.2 ⟨hseated.of_last (by decide), hfs⟩, .inr ?_⟩
    exact (hdivides.prepend (he.levels ends).exists_passes).append (hrest.levels ends'.advance).exists_passes
  | @expr p c e d f d' hoperand hclimb ih ih' =>
    have ends' := (hoperand.progress ends).1
    obtain ⟨hseated, hclean, hafter⟩ := ih ends trivial hlist
    obtain ⟨hmore, hstop, hafter'⟩ := ih' ends' ⟨hafter, hclean.imp_right And.left⟩
      (hoperand.reaches.tokens_eq.trans hlist)
    by_cases hblockless : e.Blockless
    · obtain ⟨hseated', hclean'⟩ := hmore hblockless
      obtain ⟨hseated'', hclean''⟩ := seats_form hseated' id hclean' (hoperand.levels ends)
      exact ⟨hseated'', hclean'', hafter'⟩
    · obtain ⟨rfl, rfl⟩ := hstop hblockless
      exact ⟨hseated, hclean, hafter⟩
  | @define _ c e d _ hdef hstart he ih =>
    obtain ⟨hid, hk, hlexeme⟩ := of_startsDefine hdef
    obtain ⟨hseated, hclean, hafter⟩ := ih ends.advance.advance trivial
      (c.advance.tokens_advance.trans (c.tokens_advance.trans hlist))
    rw [place_advance ends.advance hk, hlexeme, if_pos (by decide)] at hseated
    have hname : (Expr.identifier c.here.lexeme).Blockless := .mk rfl (List.forall_mem_nil _)
    have hlevel := (Levels.advance ends (by simp [hid]) (by simp [Token.isBracket, hid])).trans
      (.of_operator ends.advance hk)
    have hform : Expr.Seated .last (.define (.identifier c.here.lexeme) e) :=
      .form rfl (by simpa [Expr.parts] using ⟨.inner hname, hseated⟩)
    obtain ⟨hform', hclean'⟩ := seats_form hform
      (fun h => .mk rfl (by simpa [Expr.parts] using ⟨hname, h⟩)) hclean hlevel
    exact ⟨hform', hclean', hafter⟩
  | @lambda _ c params e d _ _ hhead hstart _ ih =>
    obtain ⟨rfl, hq⟩ := lambdaHead?_eq_some hhead
    have ends' := ends.skip (Parameter.listWidth (Parameter.listOf c.ahead))
    have htokens : (c.skip (Parameter.listWidth (Parameter.listOf c.ahead))).tokens = c.tokens :=
      Cursor.Reaches.tokens_eq ⟨_, rfl⟩
    obtain ⟨hseated, hclean, hafter⟩ := ih ends'.advance trivial
      ((Cursor.tokens_advance _).trans (htokens.trans hlist))
    obtain ⟨hform, hclean'⟩ := seats_lambda ends' hq (Levels.skip ends (kind_of_mem_parameters c.ahead)) _
      hseated hclean
    exact ⟨hform, hclean', hafter⟩
  | primary _ _ _ ih => exact ih ends trivial hlist
  | @atom c e ha =>
    have hne := kind_ne_ending_of_atom? ha
    obtain ⟨-, -, hop⟩ := Token.words_of_atom? ha
    have hblockless : e.Blockless := by
      unfold atom? at ha
      split at ha <;> cases ha <;> exact .mk rfl (List.forall_mem_nil _)
    exact ⟨hblockless.seated _, .inl hblockless, afterHeader_advance_other ends hop hne⟩
  | @thunk c e d hq hstart _ ih =>
    obtain ⟨hseated, hclean, hafter⟩ := ih ends.advance trivial (c.tokens_advance.trans hlist)
    obtain ⟨hform, hclean'⟩ := seats_lambda ends hq (.refl c) [] hseated hclean
    exact ⟨hform, hclean', hafter⟩
  | @leading c op e d hk hq hbar hop hstart _ ih =>
    obtain ⟨hseated, hclean, hafter⟩ := ih ends.advance trivial (c.tokens_advance.trans hlist)
    rw [place_advance ends hk, if_neg (not_block_of_leading? hop)] at hseated
    have hform : Expr.Seated .last (.unary c.here.lexeme true e) :=
      .form rfl (List.forall_mem_singleton.2 hseated)
    obtain ⟨hform', hclean'⟩ := seats_form hform (fun h => .mk rfl (List.forall_mem_singleton.2 h)) hclean
      (.of_operator ends hk)
    exact ⟨hform', hclean', hafter⟩
  | @bars c e d hc hbar hne hs hclosing ih =>
    have ends' := (hs.progress ends.advance).1
    have hstart := afterHeader_advance_other ends (by simp [hc]) (by simp [hc])
    have hseats := ih ends.advance hstart (c.tokens_advance.trans hlist)
    obtain ⟨-, -, hblockless⟩ := seats_group ends (hlist ▸ housed) hc hne hs hclosing hseats
    have hform : (Expr.unary Operator.bar true e).Blockless :=
      .mk rfl (List.forall_mem_singleton.2 (hblockless hbar))
    exact ⟨hform.seated _, .inl hform, afterHeader_advance_other ends' (by simp [hclosing]) (by simp [hclosing])⟩
  | @emptyGroup c hc _ hclosing =>
    have hform : Expr.emptyList.Blockless := .mk rfl (List.forall_mem_nil _)
    exact ⟨hform.seated _, .inl hform,
      afterHeader_advance_other ends.advance (by simp [hclosing]) (by simp [hclosing])⟩
  | @bareSymbol c hc _ hfree hclosing =>
    have hform : (Expr.pointFree c.advance.here.lexeme none).Blockless := .mk rfl (List.forall_mem_nil _)
    exact ⟨hform.seated _, .inl hform,
      afterHeader_advance_other ends.advance.advance (by simp [hclosing]) (by simp [hclosing])⟩
  | @preset c e d hc _ hfree hstart hs hclosing ih =>
    have ends' := (hs.progress ends.advance.advance).1
    obtain ⟨hseated, hclean, -⟩ := ih ends.advance.advance trivial
      (c.advance.tokens_advance.trans (c.tokens_advance.trans hlist))
    obtain ⟨hform, hclean'⟩ := seats_preset ends (hlist ▸ housed) hc hfree hs hclosing hseated hclean
    exact ⟨hform, hclean', afterHeader_advance_other (pastComma_progress ends').1 (by simp [hclosing])
      (by simp [hclosing])⟩
  | @group c e d hc _ hne _ hs hclosing ih =>
    have ends' := (hs.progress ends.advance).1
    have hstart := afterHeader_advance_other ends (by simp [hc]) (by simp [hc])
    have hseats := ih ends.advance hstart (c.tokens_advance.trans hlist)
    obtain ⟨hseated, hclean, -⟩ := seats_group ends (hlist ▸ housed) hc hne hs hclosing hseats
    exact ⟨hseated, hclean, afterHeader_advance_other ends' (by simp [hclosing]) (by simp [hclosing])⟩
  | stop _ => exact ⟨fun hb => ⟨hb.seated _, .inl hb⟩, fun _ => ⟨rfl, rfl⟩, awaits.1⟩
  | @trail p left c e d hm _ ih =>
    have hblockless := blockless_of_move awaits.2 hm (by simp)
    have hk := kind_of_moveAt hm (by simp) (by simp)
    have hform : (Expr.unary c.here.lexeme false left.expr).Blockless :=
      .mk rfl (List.forall_mem_singleton.2 hblockless)
    obtain ⟨hmore, -, hafter⟩ := ih ends.advance ⟨afterHeader_of_trail ends hm, .inl hform⟩
      (c.tokens_advance.trans hlist)
    obtain ⟨hseated, hclean⟩ := hmore hform
    refine ⟨fun _ => ⟨hseated, ?_⟩, fun h => absurd hblockless h, hafter⟩
    exact (seats_form hseated id hclean (.of_operator ends hk)).2
  | @join p op left left' c e d f d' hm hstart he hleft _ ih ih' =>
    have hblockless := blockless_of_move awaits.2 hm (by simp)
    have hk := kind_of_moveAt hm (by simp) (by simp)
    have ends' := (he.progress ends.advance).1
    obtain ⟨hseated, hclean, hafter⟩ := ih ends.advance trivial (c.tokens_advance.trans hlist)
    rw [place_advance ends hk] at hseated
    obtain ⟨hseated', hblockless'⟩ := Left.seated_of_join? hblockless hseated hleft
    obtain ⟨hmore, hstop, hafter'⟩ := ih' ends' ⟨hafter, hclean.imp hblockless' And.left⟩
      (he.reaches.tokens_eq.trans (c.tokens_advance.trans hlist))
    have hlevel := Levels.of_operator ends hk
    refine ⟨fun _ => ?_, fun h => absurd hblockless h, hafter'⟩
    by_cases hform : left'.expr.Blockless
    · obtain ⟨hseated'', hclean'⟩ := hmore hform
      exact ⟨hseated'', (seats_form hseated'' id hclean' (hlevel.trans (he.levels ends.advance))).2⟩
    · obtain ⟨rfl, rfl⟩ := hstop hform
      exact ⟨hseated', (seats_form hseated' hblockless' hclean hlevel).2⟩
  | @argue p left c e d f d' hm he _ ih ih' =>
    have hblockless := blockless_of_move awaits.2 hm (by simp)
    have ends' := (he.progress ends).1
    obtain ⟨hseated, hclean, hafter⟩ := ih ends trivial hlist
    rw [Cursor.place, awaits.1] at hseated
    obtain ⟨hseated', hblockless'⟩ := Left.seated_argument hblockless hseated
    obtain ⟨hmore, hstop, hafter'⟩ := ih' ends' ⟨hafter, hclean.imp hblockless' And.left⟩
      (he.reaches.tokens_eq.trans hlist)
    refine ⟨fun _ => ?_, fun h => absurd hblockless h, hafter'⟩
    by_cases hform : (left.argument e).expr.Blockless
    · obtain ⟨hseated'', hclean'⟩ := hmore hform
      exact ⟨hseated'', (seats_form hseated'' id hclean' (he.levels ends)).2⟩
    · obtain ⟨rfl, rfl⟩ := hstop hform
      exact ⟨hseated', (seats_form hseated' hblockless' hclean (.refl c)).2⟩

end Parser

end SignLang
