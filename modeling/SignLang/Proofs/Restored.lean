import SignLang.Proofs.Parser.Regular
import SignLang.Proofs.Placement
import SignLang.Proofs.Render.RoundTrip

/-!
# Programs are restored from their text

Every program that has been read from a text is rendered. If the brackets of the text are balanced, and rendering
keeps the program, what is rendered is read back as the program (`exists_render_of_parseWithin`).
-/

namespace SignLang

open SignLang.Parser

namespace Expr

variable {P : Expr → Prop} {e : Expr}

/-- The statements of a program are its own, or it is one itself. -/
lemma Throughout.statements (h : e.Throughout P) : ∀ s ∈ e.statements, s.Throughout P := by
  cases e with
  | block es => exact fun s hs => h.part (.statement, s) (List.mem_map_of_mem hs)
  | _ => exact List.forall_mem_singleton.2 h

/-- What is no block is its only statement. -/
lemma statements_eq (h : e.isBlock = false) : e.statements = [e] := by
  cases e with
  | block => cases h
  | _ => rfl

/-- A sequence has the statements that it is made of, if they are no blocks. -/
lemma statements_sequenced {fs : List Expr} (h : ∀ f ∈ fs, f.isBlock = false) : (sequenced fs).statements = fs := by
  unfold sequenced
  split
  · exact statements_eq (h _ List.mem_cons_self)
  · rfl

end Expr

/-- A property of laid-out tokens that those of the lines have, and those that the layout stage puts in. -/
lemma Outline.forall_mem_tokens {P : Token → Prop} {o : Outline}
    (hlines : ∀ line ∈ o.lines, ∀ t ∈ line.tokens, P t)
    (hborrow : ∀ (t : Token) (lexeme : String), ∀ k ∈ [Kind.opening, .closing, .separator], P (t.borrow k lexeme)) :
    ∀ t ∈ o.tokens, P t := by
  induction o with
  | done => exact List.forall_mem_nil _
  | entry line body next ihbody ihnext =>
    simp only [lines, List.forall_mem_cons, List.forall_mem_append] at hlines
    obtain ⟨hline, hbody, hnext⟩ := hlines
    have hseparator : ∀ t ∈ next.separator, P t := by
      cases next with
      | done => exact List.forall_mem_nil _
      | entry => exact List.forall_mem_singleton.2 (hborrow _ _ _ (by simp))
    rw [tokens, List.forall_mem_append, List.forall_mem_append]
    refine ⟨⟨?_, hseparator⟩, ihnext hnext⟩
    unfold enclose
    split
    · exact hline
    · rw [← line.stem_append_headers, List.forall_mem_append] at hline
      simp only [List.forall_mem_append, List.forall_mem_flatMap, List.forall_mem_map, List.forall_mem_cons]
      exact ⟨⟨⟨hline.1, fun op hop => ⟨hline.2 op hop, hborrow _ _ _ (by simp), List.forall_mem_nil _⟩⟩,
        ihbody hbody⟩, fun op _ => hborrow _ _ _ (by simp)⟩

/-- The words of laid-out tokens have the form of their kinds. -/
lemma worded_of_nest {limit : Nat} {text : String} {tokens : List Token} {outline : Outline}
    (hscan : scan text = .ok tokens) (hnest : Outline.nest limit 0 (Line.split tokens) = .ok outline) :
    ∀ t ∈ outline.tokens ++ [endingOf tokens], t.Worded := by
  have hending := endingOf_kind tokens
  refine List.forall_mem_append.2 ⟨?_, List.forall_mem_singleton.2 fun hk => by simp [hending] at hk⟩
  refine Outline.forall_mem_tokens ?_ fun t lexeme k hk hk' => ?_
  · rw [Outline.lines_of_nest hnest]
    exact fun line hline t ht _ => (lexical_of_split hscan line hline t ht).2
  · have hkind : (t.borrow k lexeme).kind = k := rfl
    rw [hkind] at hk'
    fin_cases hk <;> simp at hk'

/-- What a text with balanced brackets writes is regular. -/
lemma regular_of_parseWithin {limits : Limits} {text : String} {tokens : List Token} {e : Expr}
    (hscan : scan text = .ok tokens) (hbal : Balanced tokens) (h : parseWithin limits text = .ok e) :
    e.Throughout Expr.Regular := by
  obtain ⟨outline, c, d, hnest, htokens, ends, housed, hstart, hread⟩ := exists_housed_of_parseWithin hscan hbal h
  obtain ⟨fs, rfl, hfs⟩ := hread.regular ends housed (htokens ▸ worded_of_nest hscan hnest) hstart
  exact regular_sequenced hfs

/-- Whatever has been read from a text is renderable. -/
lemma renderable_of_parseWithin {limits : Limits} {text : String} {e : Expr} (h : parseWithin limits text = .ok e) :
    e.Throughout Expr.Renderable := by
  obtain ⟨tokens, laid, -, -, hbuild⟩ := parseWithin_eq_ok h
  obtain ⟨-, d, hread, -⟩ := Spells.of_buildWithin hbuild
  obtain h | ⟨-, rfl, -⟩ := hread.wellFormed (List.forall_mem_nil _)
  · exact h.mono fun _ => Expr.WellFormed.renderable
  · exact .mk trivial (List.forall_mem_nil _)

/-- A program that has been read from a text has a text of its own. If the brackets of the first one are balanced,
and rendering keeps the page of its statements, that text is read back as the program, wherever the limits on
nesting admit it. -/
theorem exists_render_of_parseWithin {limits : Limits} {text : String} {e : Expr}
    (h : parseWithin limits text = .ok e) :
    ∃ text', e.render = .ok text' ∧
      ∀ tokens, scan text = .ok tokens → Balanced tokens → (Expr.block e.statements).Throughout Expr.Kept →
        Writes text' e := by
  obtain ⟨f, hf⟩ := (renderable_of_parseWithin h).exists_fragment
  have hrender : e.render = .ok (if f.isBlock then f.text else f.statement.text) := by
    rw [Expr.render, hf]
    rfl
  refine ⟨_, hrender, fun tokens hscan hbal hkept => ?_⟩
  have hstatements := (regular_of_parseWithin hscan hbal h).statements
  obtain ⟨fs, rfl, hfs⟩ := seated_of_parseWithin hscan hbal h
  have hblock : ∀ s ∈ fs, s.isBlock = false := fun s hs => (hfs s hs).isBlock_eq_false rfl
  rw [Expr.statements_sequenced hblock] at hkept hstatements
  have hprogram : (sequenced fs).Program := by
    constructor
    all_goals rw [Expr.statements_sequenced hblock]
    · exact fun s hs => (hstatements s hs).printable (hkept.part (.statement, s) (List.mem_map_of_mem hs)) (hfs s hs)
    · exact fun s hs => ⟨(hstatements s hs).self.isBlock_eq.trans (hblock s hs), hkept.self s hs⟩
  obtain ⟨text', hrender', hwrites⟩ := hprogram.writes
  cases hrender.symm.trans hrender'
  exact hwrites

/-- A function of a block, in which a definition stands above its use, is restored from its text. -/
theorem exists_render_of_function :
    ∃ e text, parse "f : x ?\n\ty : |x|\n\ty + 2" = .ok e ∧ (Expr.block e.statements).Throughout Expr.Kept ∧
      e.render = .ok text ∧ Writes text e := by
  let define : Expr := .define (.identifier "y") (.unary "|" true (.identifier "x"))
  let sum : Expr := .binary "+" (.identifier "y") (.literal .number "2")
  let body : Expr := .block [define, sum]
  let e : Expr := .define (.identifier "f") (.lambda [⟨"x", false⟩] body)
  have hparse : parse "f : x ?\n\ty : |x|\n\ty + 2" = .ok e := by decide +kernel
  have hscan : (scan "f : x ?\n\ty : |x|\n\ty + 2").toOption.any (Balanced ·) := by decide +kernel
  have hname (name : String) : (Expr.identifier name).Throughout Expr.Kept := .mk trivial (List.forall_mem_nil _)
  have hclear : Expr.EndsClear (Expr.identifier "x").phrase.line := by
    rintro c - h
    cases h
  have hbars : (Expr.unary "|" true (.identifier "x")).Throughout Expr.Kept :=
    .mk hclear (List.forall_mem_singleton.2 (hname _))
  have hdefine : define.Throughout Expr.Kept := .mk (by simp [define, Expr.Kept, Expr.isBlock])
    (by simpa [define, Expr.parts] using ⟨hname _, hbars⟩)
  have hsum : sum.Throughout Expr.Kept := .mk (by simp [sum, Expr.Kept, Expr.isBlock])
    (by simpa [sum, Expr.parts] using ⟨hname _, .mk trivial (List.forall_mem_nil _)⟩)
  have hbody : body.Throughout Expr.Kept :=
    .mk (show ∀ x ∈ [define, sum], x.phrase.tail → x.phrase.startsWith Lexeme.tick = false by decide +kernel)
      (by simpa [body, Expr.parts] using ⟨hdefine, hsum⟩)
  have hplain : body.phrase.body.Plain := by decide +kernel
  have hlambda : (Expr.lambda [⟨"x", false⟩] body).Throughout Expr.Kept :=
    .mk ⟨fun _ => hplain, by decide +kernel⟩ (List.forall_mem_singleton.2 hbody)
  have hkept : (Expr.block e.statements).Throughout Expr.Kept := by
    refine .mk (show ∀ x ∈ [e], x.phrase.tail → x.phrase.startsWith Lexeme.tick = false by decide +kernel)
      (List.forall_mem_singleton.2 (.mk (by simp [e, Expr.Kept, Expr.isBlock]) ?_))
    simpa [e, Expr.parts] using ⟨hname _, hlambda⟩
  cases htokens : scan "f : x ?\n\ty : |x|\n\ty + 2" with
  | error failure => simp [htokens, Except.toOption] at hscan
  | ok tokens =>
    have hbal : Balanced tokens := by simpa [htokens, Except.toOption] using hscan
    obtain ⟨text, hrender, hwrites⟩ := exists_render_of_parseWithin hparse
    exact ⟨e, text, hparse, hkept, hrender, hwrites tokens htokens hbal hkept⟩

end SignLang
