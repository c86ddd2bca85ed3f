import SignLang.Proofs.Render.Regular

/-!
# Whatever the parser makes is well formed

`Expr.WellFormed` says what a form owes to its name: an operator that the table has for it, as many parts as it is
made of, and parts of the right shape. Whatever tokens the parser reads, in whatever order, the forms that it makes
have all of this (`Reads.wellFormed`), up to the one that an empty list of tokens makes. In particular they are
renderable.
-/

namespace SignLang

open SignLang.Parser

namespace Expr

/-- The form has what it needs: an operator that the table of operators has where the form puts it, parts of
the shape that the form asks for, and no fewer of them than its name says. -/
def WellFormed : Expr → Prop
  | literal kind _ => kind ∈ [.number, .string, .character]
  | identifier _ | unit | emptyList | range _ _ | get _ _ => True
  | define target _ => ∃ name, target = identifier name
  | lambda params _ => ∀ p ∈ params.dropLast, p.isRest = false
  | binary s left _ =>
    (Operator.binary? s).isSome ∧ s ∉ ["?", ",", "~", "'"] ∧ (s = ":" → ∀ name, left ≠ identifier name)
  | unary s leads _ => if leads then (Operator.leading? s).isSome else s ∈ ["!", "~"]
  | apply _ arguments => arguments ≠ []
  | pointFree s _ => (Operator.binary? s).isSome ∧ s ∉ [":", "?"]
  | list elements => 2 ≤ elements.length
  | block statements => 2 ≤ statements.length

/-- What holds of every form with one property holds throughout of every expression with the other. -/
lemma Throughout.mono {P Q : Expr → Prop} {e : Expr} (h : e.Throughout P) (hPQ : ∀ e, P e → Q e) :
    e.Throughout Q := by
  induction h with
  | mk hself _ ih => exact .mk (hPQ _ hself) ih

/-- A form that has what it needs is rendered. -/
lemma WellFormed.renderable {e : Expr} (h : e.WellFormed) : e.Renderable := by
  cases e with
  | binary => exact h.1
  | unary =>
    intro hleads _
    subst hleads
    exact h
  | apply => exact h
  | list elements =>
    rintro rfl
    simp [WellFormed] at h
  | _ => trivial

end Expr

namespace Parameter

/-- The rest parameter at the front of a list is one at most. -/
lemma restOf_cases (ts : List Token) :
    restOf ts = [] ∨ ∃ t ∈ ts, t.kind = .identifier ∧ restOf ts = [⟨t.lexeme, true⟩] := by
  unfold restOf
  split
  · split
    · next h =>
      simp only [Bool.and_eq_true, decide_eq_true_eq] at h
      exact .inr ⟨_, List.mem_cons_of_mem _ List.mem_cons_self, h.2, rfl⟩
    · exact .inl rfl
  · exact .inl rfl

/-- Only the last parameter takes the rest. -/
lemma isRest_of_mem_dropLast (ts : List Token) : ∀ p ∈ (listOf ts).dropLast, p.isRest = false := by
  have hnames : ∀ p ∈ (ts.takeWhile (·.kind = .identifier)).map (Parameter.mk ·.lexeme false),
      p.isRest = false := by
    simp
  rcases restOf_cases (ts.dropWhile (·.kind = .identifier)) with hnil | ⟨t, -, -, hsome⟩
  · rw [listOf, hnil, List.append_nil]
    exact fun p hp => hnames p (List.mem_of_mem_dropLast hp)
  · rw [listOf, hsome, List.dropLast_concat]
    exact hnames

end Parameter

namespace Parser

open SignLang.Expr

variable {P : Expr → Prop} {c d : Cursor} {e : Expr} {left left' : Left}

/-! ## Parts -/

/-- On the left there are elements, unless it is the empty list. -/
lemma Left.elements_ne_nil (h : left.expr ≠ .list []) : left.elements ≠ [] := by
  cases left with
  | single | applied => exact List.cons_ne_nil _ _
  | listed es =>
    rintro rfl
    exact h rfl

/-- The elements on the left have the property if what is on the left has. -/
lemma Left.throughout_elements (h : left.expr.Throughout P) : ∀ e ∈ left.elements, e.Throughout P := by
  cases left with
  | single | applied => exact List.forall_mem_singleton.2 h
  | listed es => exact forall_mem_rowOf_iff.1 h.part

/-- The parts of a function with one more argument. -/
lemma Left.parts_of_argument (hleft : left.expr.Throughout P) (he : e.Throughout P) :
    ∃ f args, (left.argument e).expr = .apply f (args ++ [e]) ∧
      ∀ part ∈ (Expr.apply f (args ++ [e])).parts, part.2.Throughout P := by
  obtain ⟨f, args, heq, hf, hargs⟩ : ∃ f args, (left.argument e).expr = .apply f (args ++ [e]) ∧
      f.Throughout P ∧ ∀ a ∈ args, a.Throughout P := by
    cases left with
    | applied f args =>
      have hparts := List.forall_mem_cons.1 hleft.part
      exact ⟨f, args, rfl, hparts.1, forall_mem_rowOf_iff.1 hparts.2⟩
    | single | listed => exact ⟨_, [], rfl, hleft, List.forall_mem_nil _⟩
  refine ⟨f, args, heq, List.forall_mem_cons.2 ⟨hf, forall_mem_rowOf_iff.2 ?_⟩⟩
  exact List.forall_mem_append.2 ⟨hargs, List.forall_mem_singleton.2 he⟩

/-- The parts of a list with one more element. -/
lemma parts_of_list {es : List Expr} (hes : ∀ e ∈ es, e.Throughout P) (he : e.Throughout P) :
    ∀ part ∈ (Expr.list (es ++ [e])).parts, part.2.Throughout P :=
  forall_mem_rowOf_iff.2 (List.forall_mem_append.2 ⟨hes, List.forall_mem_singleton.2 he⟩)

/-- The parts of a joined pair. -/
lemma parts_of_joined {symbol : String} {l r : Expr} (hl : l.Throughout P) (hr : r.Throughout P) :
    ∀ part ∈ (joined symbol l r).parts, part.2.Throughout P := by
  unfold joined
  split_ifs <;> simpa [Expr.parts] using ⟨hl, hr⟩

/-! ## Operands -/

/-- The parameters that an expression names take no rest. -/
lemma isRest_of_paramsOf? {params : List Parameter} (h : paramsOf? e = some params) :
    ∀ p ∈ params, p.isRest = false := by
  unfold paramsOf? at h
  split at h
  · cases h
    exact List.forall_mem_singleton.2 rfl
  · obtain ⟨names, -, rfl⟩ := Option.map_eq_some_iff.1 h
    simp
  · cases h

/-- An operator that is no comma and no question mark makes a well-formed pair. -/
lemma wellFormed_joined {symbol : String} {l r : Expr} (hop : (Operator.binary? symbol).isSome)
    (hcomma : symbol ≠ ",") (hq : symbol ≠ "?") : WellFormed (joined symbol l r) := by
  unfold joined
  split
  · next h =>
    cases l with
    | identifier name => exact ⟨name, rfl⟩
    | _ => cases h.2
  split
  · trivial
  split
  · trivial
  · next hname htilde hget =>
    refine ⟨hop, by simp [*], ?_⟩
    rintro hcolon name rfl
    exact hname ⟨hcolon, rfl⟩

/-- A further operand makes a well-formed expression of one. -/
lemma Left.wellFormed_of_join? {symbol : String} {r : Expr} (hop : (Operator.binary? symbol).isSome)
    (hleft : left.expr.Throughout WellFormed) (hr : r.Throughout WellFormed)
    (h : left.join? symbol r = some left') : left'.expr.Throughout WellFormed := by
  obtain ⟨-, rfl⟩ | ⟨-, params, hparams, rfl⟩ | ⟨hcomma, hq, rfl⟩ := Left.join?_cases h
  · have hlength : 2 ≤ (left.elements ++ [r]).length := by
      have hself := hleft.self
      have := List.length_pos_iff.2 (left.elements_ne_nil fun h => by simp [h, WellFormed] at hself)
      rw [List.length_append, List.length_singleton]
      omega
    rw [Left.element_eq]
    exact .mk hlength (parts_of_list (left.throughout_elements hleft) hr)
  · exact .mk (fun p hp => isRest_of_paramsOf? hparams p (List.mem_of_mem_dropLast hp))
      (List.forall_mem_singleton.2 hr)
  · exact .mk (wellFormed_joined hop hcomma hq) (parts_of_joined hleft hr)

/-- A well-formed argument makes a well-formed expression of one. -/
lemma Left.wellFormed_argument (hleft : left.expr.Throughout WellFormed) (he : e.Throughout WellFormed) :
    (left.argument e).expr.Throughout WellFormed := by
  obtain ⟨f, args, heq, hparts⟩ := Left.parts_of_argument hleft he
  rw [heq]
  exact .mk (show args ++ [e] ≠ [] by simp) hparts

/-- A token that is an expression alone is well formed. -/
lemma wellFormed_of_atom? {t : Token} (h : atom? t = some e) : e.Throughout WellFormed := by
  unfold atom? at h
  split at h <;> cases h
  all_goals exact .mk (by simp [WellFormed]) (List.forall_mem_nil _)

/-- A symbol that heads a group without left operand stands between operands, and is no block operator. -/
lemma wellFormed_of_headsPointFree {preset : Option Expr} (h : c.headsPointFree)
    (hpreset : ∀ e ∈ preset, e.Throughout WellFormed) :
    (Expr.pointFree c.here.lexeme preset).Throughout WellFormed := by
  simp only [Cursor.headsPointFree, Operator.isPointFree, Operator.blockSymbols, Bool.and_eq_true,
    Bool.not_eq_true', List.contains_eq_mem, decide_eq_false_iff_not] at h
  refine .mk h.1.2 ?_
  cases preset with
  | none => exact List.forall_mem_nil _
  | some e => exact List.forall_mem_singleton.2 (hpreset e rfl)

/-- What a task reads is well formed, if what has been read before is. An empty sequence of statements is
read by a cursor that stays where it is. -/
def Task.Forms (c d : Cursor) (e : Expr) : Task → Prop
  | .statements es =>
    (∀ f ∈ es, f.Throughout WellFormed) → e.Throughout WellFormed ∨ es = [] ∧ e = .block [] ∧ d = c
  | .climb _ left => left.expr.Throughout WellFormed → e.Throughout WellFormed
  | _ => e.Throughout WellFormed

/-- Well-formed statements make a well-formed sequence, unless there are none. -/
lemma wellFormed_sequenced {es : List Expr} (h : ∀ f ∈ es, f.Throughout WellFormed) (hne : es ≠ []) :
    (sequenced es).Throughout WellFormed := by
  unfold sequenced
  split
  · exact h _ List.mem_cons_self
  · next hmany =>
    refine .mk ?_ (List.forall_mem_map.2 h)
    match es, hne, hmany with
    | [e], _, hmany => exact absurd rfl (hmany e)
    | _ :: _ :: _, _, _ => simp [WellFormed]

/-- The statements of a group are well formed: the bracket that ends them is not the first thing there. -/
lemma wellFormed_of_group (h : (Task.statements []).Forms c d e) (hne : c.here.kind ≠ .closing)
    (hclosing : d.here.kind = .closing) : e.Throughout WellFormed := by
  obtain h | ⟨-, -, rfl⟩ := h (List.forall_mem_nil _)
  · exact h
  · exact absurd hclosing hne

/-- Whatever is read is well formed. -/
theorem Reads.wellFormed {task c e d} (h : Reads task c e d) : task.Forms c d e := by
  induction h with
  | @done es c hend =>
    intro hes
    by_cases hnil : es = []
    · subst hnil
      exact .inr ⟨rfl, rfl, rfl⟩
    · exact .inl (wellFormed_sequenced hes hnil)
  | last _ _ _ ih =>
    intro hes
    exact .inl (wellFormed_sequenced (List.forall_mem_append.2 ⟨hes, List.forall_mem_singleton.2 ih⟩) (by simp))
  | more _ _ _ _ ih ih' =>
    intro hes
    obtain h | ⟨hnil, -⟩ := ih' (List.forall_mem_append.2 ⟨hes, List.forall_mem_singleton.2 ih⟩)
    · exact .inl h
    · exact absurd hnil (by simp)
  | expr _ _ ih ih' => exact ih' ih
  | define _ _ _ _ ih =>
    refine .mk ⟨_, rfl⟩ ?_
    simpa [Expr.parts] using ⟨.mk trivial (List.forall_mem_nil _), ih⟩
  | lambda _ _ hhead _ _ ih =>
    obtain ⟨rfl, -⟩ := Cursor.lambdaHead?_eq_some hhead
    exact .mk (Parameter.isRest_of_mem_dropLast _) (List.forall_mem_singleton.2 ih)
  | primary _ _ _ ih => exact ih
  | atom ha => exact wellFormed_of_atom? ha
  | thunk _ _ _ ih => exact .mk (List.forall_mem_nil _) (List.forall_mem_singleton.2 ih)
  | leading _ _ _ hop _ _ ih =>
    exact .mk (Option.isSome_iff_exists.2 ⟨_, hop⟩) (List.forall_mem_singleton.2 ih)
  | bars _ _ hne _ hclosing ih =>
    exact .mk (show (Operator.leading? Operator.bar).isSome by decide)
      (List.forall_mem_singleton.2 (wellFormed_of_group ih hne hclosing))
  | emptyGroup => exact .mk trivial (List.forall_mem_nil _)
  | bareSymbol _ _ hfree _ => exact wellFormed_of_headsPointFree hfree (by simp)
  | preset _ _ hfree _ _ _ ih => exact wellFormed_of_headsPointFree hfree (by rintro e ⟨⟩; exact ih)
  | group _ _ hne _ _ hclosing ih => exact wellFormed_of_group ih hne hclosing
  | stop _ => exact id
  | trail hm _ ih =>
    intro hleft
    have hsymbol := lexeme_of_trails (trails_of_trail hm)
    exact ih (.mk (by simpa [WellFormed, Left.expr] using hsymbol) (List.forall_mem_singleton.2 hleft))
  | join hm _ _ hjoin _ ih ih' =>
    have hop := Option.isSome_iff_exists.2 ⟨_, binary?_of_join hm⟩
    exact fun hleft => ih' (Left.wellFormed_of_join? hop hleft ih hjoin)
  | argue _ _ _ ih ih' => exact fun hleft => ih' (Left.wellFormed_argument hleft ih)

end Parser

/-- What is built from a token list, of whatever tokens in whatever order, is well formed throughout, unless
it is a block of no statements. -/
theorem wellFormed_of_buildWithin {depth : Nat} {tokens : List Token} {e : Expr}
    (h : buildWithin depth tokens = .ok e) : e = .block [] ∨ e.Throughout Expr.WellFormed := by
  obtain ⟨-, d, hread, -⟩ := Spells.of_buildWithin h
  obtain h | ⟨-, rfl, -⟩ := hread.wellFormed (List.forall_mem_nil _)
  · exact .inr h
  · exact .inl rfl

/-- Tokens in an order that no text writes, with an ending in their midst: what is read of them is a named function
whose body is a list of two elements, and all forms in it are well formed. -/
theorem wellFormed_of_strayTokens :
    ∃ tokens e, build tokens = .ok e ∧ e ≠ .block [] ∧ e.Throughout Expr.WellFormed := by
  let words : List (Kind × String) :=
    [(.identifier, "f"), (.operator, ":"), (.identifier, "x"), (.operator, "~"), (.identifier, "y"), (.operator, "?"),
      (.opening, "["), (.operator, "+"), (.number, "2"), (.separator, ""), (.closing, ")"), (.identifier, "x"),
      (.operator, ","), (.identifier, "y"), (.operator, "!"), (.ending, ""), (.indent, "q"), (.operator, "?")]
  let tokens := words.map fun word => Token.emptyEnding.borrow word.1 word.2
  let sum : Expr := .apply (.pointFree "+" (some (.literal .number "2"))) [.identifier "x"]
  let body : Expr := .list [sum, .unary "!" false (.identifier "y")]
  have hbuild : build tokens = .ok (.define (.identifier "f") (.lambda [⟨"x", false⟩, ⟨"y", true⟩] body)) := by
    decide +kernel
  obtain hempty | hforms := wellFormed_of_buildWithin hbuild
  · cases hempty
  · exact ⟨tokens, _, hbuild, nofun, hforms⟩

/-- No tokens are a program without statements. -/
example : build [] = .ok (.block []) := rfl

end SignLang
