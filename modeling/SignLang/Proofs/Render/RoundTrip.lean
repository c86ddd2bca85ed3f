import SignLang.Proofs.Limits
import SignLang.Proofs.Render.Sequences

/-!
# Rendered programs are read back

The text of a program is a page with one statement on each line. It is laid out as the page is, and
read back line by line: a text that `Expr.render` writes for a printable program is read as that
program, wherever the limits on nesting admit it (`Expr.Program.writes`).
-/

namespace SignLang

open Item SignLang.Parser

namespace Expr

/-- The statements of a program: those of a block, or the one statement that is no block. -/
def statements : Expr → List Expr
  | block statements => statements
  | e => [e]

/-- A printable program: what the parser makes of its statements, each of which can be written on
lines of its own. -/
structure Program (e : Expr) : Prop where
  sequenced_eq : sequenced e.statements = e
  printable : ∀ s ∈ e.statements, s.Printable
  stands : ∀ s ∈ e.statements, s.Stands

/-- A page of printable statements writes their sequence. -/
lemma writes_page {es : List Expr} (hes : ∀ e ∈ es, e.Printable) (hs : ∀ e ∈ es, e.Stands) :
    Writes (String.ofList ((Phrase.page (phrases es)).text 0).tail) (sequenced es) := by
  have formed := formed_page (fun e he => readable_of_printable (hes e he)) hs
  obtain ⟨tokens, limit, outline, ending, hscan, hlaid, hending, hout⟩ := formed.layOut
  have htokens : (Cursor.ofTokens (outline.tokens ++ [ending])).tokens = _ :=
    tokens_ofTokens_concat hending
  refine .of_spells hscan hlaid ⟨?_, ?_⟩
  · rw [bracketFault?_eq_none_iff, htokens, balanced_concat hending]
    exact hout.balanced formed
  · obtain ⟨d, hpass, hd⟩ := Cursor.exists_passes ((Cursor.ahead_ofTokens _).trans htokens)
    have hkind : d.here.kind = .ending := by
      rw [(List.cons.inj hd).1]
      exact hending
    have habs : ∀ e ∈ es, e.Printable ∧ e.Stands ∧ e.Absorbed := fun e he =>
      ⟨hes e he, hs e he, absorbed_of_printable (hes e he)⟩
    exact ⟨d, reads_page habs hout hpass (.inr hkind) [], hkind⟩

/-- A printable program is rendered as the page of its statements. -/
lemma Program.render_eq {e : Expr} (h : e.Program) :
    e.render = .ok (String.ofList ((Phrase.page (phrases e.statements)).text 0).tail) := by
  obtain ⟨-, hprintable, hstands⟩ := h
  by_cases hblock : e.phrase.isBlock
  · cases e with
    | block es =>
      have hfragment := fragment_of_printable (e := block es) ⟨printableAll_iff.2 hprintable, hstands⟩
      simp only [render, hfragment]
      rfl
    | _ =>
      have := (hstands _ List.mem_cons_self).1
      rw [hblock] at this
      cases this
  · rw [Bool.not_eq_true] at hblock
    have hself : e.statements = [e] := by
      cases e with
      | block es => cases hblock
      | _ => rfl
    rw [hself] at hprintable ⊢
    have hfragment := fragment_of_printable (hprintable e List.mem_cons_self)
    have htext := Phrase.text_page (List.forall_mem_singleton.2 hblock)
    rw [phrases, phrases, htext]
    simp [render, hfragment, hblock, ← Phrase.fragment_statement hblock, bind, Except.bind, pure,
      Except.pure]

/-- The text of a printable program is read as the program. -/
theorem Program.writes {e : Expr} (h : e.Program) : ∃ text, e.render = .ok text ∧ Writes text e := by
  refine ⟨_, h.render_eq, ?_⟩
  have hwrites := writes_page h.printable h.stands
  rwa [h.sequenced_eq] at hwrites

end Expr

end SignLang
