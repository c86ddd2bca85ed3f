import SignLang.Proofs.Concat
import SignLang.Proofs.Layout.Block
import SignLang.Proofs.Scanner.Margin

/-!
# A program as the value of a definition

A program whose lines are moved one level deeper, below the head of a definition, is the value of the
definition (`writes_nested`). The scanner finds the lines again one level deeper (`scan_indented`), the
layout nests them below the head, and the parser reads in a group what it reads at the top
(`Parser.Reads.definition`).
-/

namespace SignLang

open Scanner SignLang.Parser

/-! ## Parsing -/

/-- A name, a colon and statements in brackets are a definition. -/
lemma Parser.Reads.definition {c : Cursor} {name colon opener closer ending : Token} {body : List Token}
    {e : Expr} (hc : c.ahead = name :: colon :: opener :: (body ++ [closer, ending]))
    (hname : name.kind = .identifier) (hcolon : colon.isSymbol ":") (hopener : opener.kind = .opening)
    (hbar : opener.lexeme ≠ Operator.bar) (hcloser : closer.kind = .closing)
    (hending : ending.kind = .ending) (hbody : ∃ t ts, body = t :: ts ∧ t.kind ≠ .closing ∧
      (t.kind = .operator → Operator.isPointFree t.lexeme = false))
    (h : ∀ inner : Cursor, inner.ahead = body ++ [closer, ending] →
      ∃ d, Reads (.statements []) inner e d ∧ d.ahead = [closer, ending]) :
    ∃ d, Reads (.statements []) c (.define (.identifier name.lexeme) e) d ∧ d.here.kind = .ending := by
  obtain ⟨t, ts, rfl, hclosing, hfree⟩ := hbody
  obtain ⟨hname', hc₁⟩ := Cursor.advance_of_ahead hc
  obtain ⟨hcolon', hc₂⟩ := Cursor.advance_of_ahead hc₁
  obtain ⟨hopener', hc₃⟩ := Cursor.advance_of_ahead hc₂
  obtain ⟨d, hs, hd⟩ := h _ hc₃
  obtain ⟨hcloser', hd₁⟩ := Cursor.advance_of_ahead hd
  have hend : d.advance.here.kind = .ending := by
    rw [(List.cons.inj hd₁).1]
    exact hending
  have hfirst : c.advance.advance.advance.here = t := (List.cons.inj hc₃).1
  have hgroup : Reads .primary c.advance.advance e d.advance := by
    refine .group (by rw [hopener', hopener]) (by rw [hopener']; exact hbar) (by rw [hfirst]; exact hclosing)
      ?_ hs (by rw [hcloser', hcloser])
    intro hheads
    simp only [Cursor.headsPointFree, hfirst, Bool.and_eq_true, decide_eq_true_eq] at hheads
    rw [hfree hheads.1.1] at hheads
    exact absurd hheads.1.2 (by simp)
  have hplain : ¬startsDefine c.advance.advance ∧ ¬c.advance.advance.lambdaHead?.isSome := by
    constructor
    · simp [startsDefine, hopener', hopener]
    · rw [lambdaHead?_eq_none]
      · simp
      · rw [hc₂]
        exact continuesHead_other (by simp [hopener]) (by simp [Token.isSymbol, hopener])
          (by simp [Token.isSymbol, hopener]) _
  have hvalue : Reads (.expr Power.define) c.advance.advance e d.advance :=
    .expr (.primary (fun h => hplain.1 h.2) (fun h => hplain.2 h.2) hgroup) (.stop (moveAt_ending hend))
  have hdefine : Reads (.operand 0) c (.define (.identifier c.here.lexeme) e) d.advance := by
    refine .define (Nat.zero_le _) ?_ ?_ hvalue
    · rw [startsDefine, ← Cursor.here_advance, hname', hcolon']
      simp [hname, hcolon]
    · simp [hopener', Token.startsOperand, hopener]
  rw [hname'] at hdefine
  have hlast : Reads (.statements []) c (sequenced ([] ++ [.define (.identifier name.lexeme) e]))
      d.advance :=
    .last (by simp [hname', hname]) (.expr hdefine (.stop (moveAt_ending hend))) (by simp [hend])
  exact ⟨d.advance, hlast, hend⟩

/-! ## Programs -/

/-- The tokens of the head of a definition. -/
lemma exists_head : ∃ f : Scanner, (ofText "f :".toList).run = .ok f ∧ ∃ name colon : Token,
    f.emitted.reverse = [name, colon] ∧ name.kind = .identifier ∧ name.lexeme = "f" ∧
      colon.isSymbol ":" := by
  have hscan : scan (String.ofList "f :".toList) = .ok [⟨.identifier, "f", 1, 1, 0, false⟩,
      ⟨.operator, ":", 1, 3, 2, false⟩, ⟨.ending, "", 1, 4, 3, false⟩] := by
    decide +kernel
  obtain ⟨f, hrun, htokens⟩ := scan_eq_ok.1 hscan
  have hemitted := congrArg List.dropLast htokens
  rw [List.dropLast_concat] at hemitted
  exact ⟨f, hrun, _, _, hemitted.symm, rfl, rfl, rfl⟩

/-- The lines of an indented program below the head of a definition. -/
lemma exists_lines {text : List Char} {tokens : List Token} (hscan : scan (String.ofList text) = .ok tokens) :
    ∃ all name colon ls₁ ls₂ distance, scan (String.ofList ("f :\n".toList ++ indented tokens text)) = .ok all ∧
      Line.split all = ⟨0, name, [colon]⟩ :: ls₂ ∧ name.kind = .identifier ∧ name.lexeme = "f" ∧
      colon.isSymbol ":" ∧
      List.Forall₂ (Line.Matches (Tabbed (lineStarts tokens)) 1) (Line.split tokens) ls₁ ∧
      List.Forall₂ (Line.Matches (Token.Shift distance) 0) ls₁ ls₂ := by
  obtain ⟨tokens₁, hscan₁, hlined₁⟩ := scan_indented hscan
  obtain ⟨f', hrun', rfl⟩ := scan_eq_ok.1 hscan₁
  obtain ⟨f, hrun, name, colon, hhead, hname, hlexeme, hcolon⟩ := exists_head
  have hkind := kind_of_isSymbol hcolon
  have hbal : Balanced f.emitted.reverse := by
    rw [hhead, Balanced, openAfter_eq_of_forall]
    simp [Token.isBracket, hname, hkind]
  obtain ⟨us, t, after, distance, hus, ht, hall, hlined₂⟩ := scan_concat_of_line hrun hrun' hbal
    fun t ht => by
      have hmem : t = name ∨ t = colon := by simpa [hhead] using List.mem_reverse.2 ht
      rcases hmem with rfl | rfl <;> simp [hname, hkind]
  rw [hhead] at hus
  cases hus with
  | @cons _ name' _ us' hname' hus =>
    cases hus with
    | @cons _ colon' _ us' hcolon' hus =>
      cases hus
      have hkinds : name'.kind = .identifier ∧ colon'.kind = .operator :=
        ⟨hname'.kind_eq.trans hname, hcolon'.kind_eq.trans hkind⟩
      have hhead' (e : Token) (he : e.kind = .ending) :
          Line.split ([name', colon'] ++ [e]) = [⟨0, name', [colon']⟩] := by
        simp [Line.split, Line.splitFrom, hkinds, he, Line.ofGathered]
      refine ⟨_, name', colon', _, Line.split after, distance, hall, ?_, hkinds.1,
        hname'.lexeme_eq.trans hlexeme, (hcolon'.isSymbol_eq ":").trans hcolon, hlined₁.split,
        hlined₂.split⟩
      rw [Line.split_append (e := Token.emptyEnding) (by simp [hkinds]) ?_ ht rfl, hhead' _ rfl]
      · rfl
      · exact heightAfter_eq_of_forall (by simp [Token.isBracket, hkinds]) 0

/-- A program with a token that ends no line has a line. -/
lemma Outline.tokens_ne_nil_of_scan {limit : Nat} {text : String} {tokens : List Token} {outline : Outline}
    (hscan : scan text = .ok tokens) (hsome : ∃ t ∈ tokens, t.kind ≠ .newline ∧ t.kind ≠ .ending)
    (hnest : nest limit 0 (Line.split tokens) = .ok outline) : outline.tokens ≠ [] := by
  rw [← String.ofList_toList (s := text)] at hscan
  obtain ⟨f, hrun, rfl⟩ := scan_eq_ok.1 hscan
  obtain ⟨hsteps, hrest⟩ := steps_of_run hrun
  obtain ⟨t, ht, hnewline, hending⟩ := hsome
  have hmem : t ∈ f.emitted := by
    rcases List.mem_append.1 ht with ht | ht
    · exact List.mem_reverse.1 ht
    · obtain rfl := List.mem_singleton.1 ht
      exact absurd rfl hending
  obtain ⟨u, hu, hcontent⟩ : ∃ u ∈ f.emitted, u.isContent := by
    by_cases hindent : t.kind = .indent
    · exact exists_content hsteps hrest hmem hindent
    · exact ⟨t, hmem, by simp [Token.isContent, hnewline, hindent, hending]⟩
  cases outline with
  | entry line body next => exact tokens_ne_nil line body next
  | done =>
    have hflat := Line.flatMap_split (f.emitted.reverse ++ [⟨.ending, "", f.line, f.column, f.offset, false⟩])
    rw [beforeEnding_concat (fun t ht => (hsteps.stop_le t (List.mem_reverse.1 ht)).inside) rfl,
      ← lines_of_nest hnest] at hflat
    have hnone : u ∈ ([] : List Token) := by
      rw [show ([] : List Token) = _ from hflat]
      exact List.mem_filter.2 ⟨List.mem_reverse.2 hu, hcontent⟩
    cases hnone

/-- A program with its lines moved one level deeper, below the head of a definition, is the value of the
definition. It has to have a token, and not to start with an operator that lacks its left operand. -/
theorem writes_nested {limits : Limits} {text : String} {tokens laid : List Token} {e : Expr}
    (hscan : scan text = .ok tokens) (hsome : ∃ t ∈ tokens, t.kind ≠ .newline ∧ t.kind ≠ .ending)
    (hlaid : normalizeWithin limits.levels tokens = .ok laid)
    (hfirst : ∀ t ∈ laid.head?, t.kind = .operator → t.lexeme ≠ ":" → t.lexeme ≠ "?" →
      Operator.binary? t.lexeme = none)
    (h : parseWithin limits text = .ok e) :
    Writes (String.ofList ("f :\n".toList ++ indented tokens text.toList))
      (.define (.identifier "f") e) := by
  obtain ⟨_, outline, es, staged, rfl⟩ := parseWithin_iff.1 h
  cases hscan.symm.trans staged.scan_eq
  cases (normalizeWithin_of_nest staged.nest_eq).symm.trans hlaid
  have hne := Outline.tokens_ne_nil_of_scan hscan hsome staged.nest_eq
  rw [← String.ofList_toList (s := text)] at hscan
  obtain ⟨all, name, colon, ls₁, ls₂, distance, hall, hsplit, hname, hlexeme, hcolon, hls₁, hls₂⟩ :=
    exists_lines hscan
  have hkind := kind_of_isSymbol hcolon
  -- the lines are nested as before, first one level deeper and then at their places below the head
  obtain ⟨o₁, hnest₁, hmatches₁⟩ := Outline.nest_matches hls₁ staged.nest_eq
  obtain ⟨o₂, hnest₂, hmatches₂⟩ := Outline.nest_matches hls₂ hnest₁
  obtain ⟨t, ts, htokens⟩ := List.exists_cons_of_ne_nil hne
  obtain ⟨t₁, ts₁, ht₁, -, htokens₁⟩ := List.forall₂_cons_left_iff.1 (htokens ▸ hmatches₁.tokens)
  obtain ⟨t₂, ts₂, ht₂, -, htokens₂⟩ := List.forall₂_cons_left_iff.1 (htokens₁ ▸ hmatches₂.tokens)
  have hne₂ : o₂.tokens ≠ [] := by simp [htokens₂]
  have hheaders : (⟨0, name, [colon]⟩ : Line).headers = [colon] := by
    have hlexeme : colon.lexeme = ":" := by simpa [Token.isSymbol, hkind] using hcolon
    simp [Line.headers, trailingBlockOps, Line.tokens, Token.isOperator, hname, hkind, hlexeme,
      Operator.blockSymbols]
  have hstem : (⟨0, name, [colon]⟩ : Line).stem = [name] := by
    rw [Line.stem, hheaders]
    rfl
  have hdeeper : ∀ l ∈ ls₂, 0 < l.level :=
    Line.level_of_matches hls₂ (Line.level_of_matches hls₁ fun _ _ => Nat.zero_le _)
  have hnest : Outline.nest (limits.levels + 2) 0 (Line.split all) =
      .ok (.entry ⟨0, name, [colon]⟩ o₂ .done) := by
    rw [hsplit]
    refine Outline.nest_block rfl (by simp [hheaders]) ?_ hdeeper (by omega)
      (Outline.nest_mono hnest₂ (by omega))
    rintro rfl
    rw [Outline.nest] at hnest₂
    cases hnest₂
    exact hne₂ rfl
  have hbal : Balanced (Outline.entry ⟨0, name, [colon]⟩ o₂ .done).tokens := by
    have hline : Balanced (⟨0, name, [colon]⟩ : Line).tokens :=
      openAfter_eq_of_forall (by simp [Line.tokens, Token.isBracket, hname, hkind]) []
    have henclosed := Outline.balanced_enclose hline (hmatches₂.balanced (hmatches₁.balanced staged.balanced))
    simpa [Outline.tokens, Outline.separator] using henclosed
  refine .of_outline hall hnest hbal ?_
  obtain ⟨last, hblock⟩ := Outline.tokens_block ⟨0, name, [colon]⟩ hne₂
  have hahead := (Outline.entry ⟨0, name, [colon]⟩ o₂ .done).ahead_cursor all
  rw [hblock, hheaders, hstem] at hahead
  have hcursor : ((Outline.entry ⟨0, name, [colon]⟩ o₂ .done).cursor all).ahead = name :: colon ::
      colon.borrow .opening "[" :: (o₂.tokens ++ [last.borrow .closing "]", endingOf all]) := by
    simpa using hahead
  rw [← hlexeme]
  refine Reads.definition hcursor hname hcolon rfl (by simp [Token.borrow, Operator.bar]) rfl
    (endingOf_kind all) ⟨t₂, ts₂, htokens₂, ?_, ?_⟩ fun inner hinner => ?_
  · rw [ht₂.kind_eq, ht₁.kind_eq]
    intro hclosing
    have hbalanced := staged.balanced
    rw [htokens, Balanced, openAfter_nil_closing hclosing] at hbalanced
    cases hbalanced
  · rw [ht₂.kind_eq, ht₁.kind_eq, ht₂.lexeme_eq, ht₁.lexeme_eq]
    intro hoperator
    have hrole := hfirst t (by simp [htokens]) hoperator
    by_cases hblock : t.lexeme = ":" ∨ t.lexeme = "?"
    · rcases hblock with hblock | hblock <;> rw [hblock] <;> decide
    · rw [not_or] at hblock
      simp [Operator.isPointFree, hrole hblock.1 hblock.2]
  · obtain ⟨d₁, hs₁, hd₁⟩ := staged.statements_of_matches (Tabbed.biUnique _) hmatches₁
      (endingOf_kind all) (o₁.ahead_cursor all) le_rfl
    have habreast : (o₁.cursor all).Abreast (Token.Shift distance)
        [last.borrow .closing "]", endingOf all] inner := by
      rw [Cursor.Abreast, o₁.ahead_cursor, hinner]
      exact .of_forall₂ hmatches₂.tokens (endingOf_kind all) rfl
    obtain ⟨d, hs, hd⟩ := statements_of_abreast (Token.Shift.biUnique distance) habreast rfl
      habreast.length_le hs₁ hd₁
    exact ⟨d, Sound.statements (Reads.of_parseExpr limits.depth) hs [], hd⟩

/-- A function with a block and a blank line, moved into a definition. -/
theorem writes_nested_function :
    Writes "f :\n\tx ?\n\t\tx\n\t\n\ty" (.define (.identifier "f")
      (.block [.lambda [⟨"x", false⟩] (.identifier "x"), .identifier "y"])) := by
  have hscan : scan "x ?\n\tx\n\ny" = .ok
      [⟨.identifier, "x", 1, 1, 0, false⟩, ⟨.operator, "?", 1, 3, 2, false⟩,
        ⟨.newline, "\n", 1, 4, 3, false⟩, ⟨.indent, "\t", 2, 1, 4, false⟩,
        ⟨.identifier, "x", 2, 2, 5, false⟩, ⟨.newline, "\n", 2, 3, 6, false⟩,
        ⟨.newline, "\n", 3, 1, 7, false⟩, ⟨.identifier, "y", 4, 1, 8, false⟩,
        ⟨.ending, "", 4, 2, 9, false⟩] := by
    decide +kernel
  have hparse : parse "x ?\n\tx\n\ny" =
      .ok (.block [.lambda [⟨"x", false⟩] (.identifier "x"), .identifier "y"]) := by
    decide +kernel
  obtain ⟨tokens, laid, hscan', hlaid, -⟩ := parseWithin_eq_ok hparse
  have hfirst : (scan "x ?\n\tx\n\ny").toOption.any fun tokens =>
      (normalizeWithin Limits.standard.levels tokens).toOption.any (·.head?.any (·.kind = .identifier)) := by
    decide +kernel
  simp only [hscan', Except.toOption, Option.any_some, hlaid] at hfirst
  cases hscan.symm.trans hscan'
  exact writes_nested hscan (by decide) hlaid (fun t ht hk => by
    rw [Option.mem_def.1 ht] at hfirst
    simp [hk] at hfirst) hparse

end SignLang
