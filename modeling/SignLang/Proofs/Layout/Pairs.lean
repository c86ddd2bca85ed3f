import SignLang.Proofs.Concat
import SignLang.Proofs.Layout.Groups
import SignLang.Proofs.Parser.Pairs

/-!
# Pairs of brackets after layout

The layout stage puts brackets in by pairs, each around whole lines. In a text with balanced brackets every
line is balanced (`balanced_of_split`), so a pair that the stage puts in never parts a written one: after
layout the written brackets have the partners that they had before it, and the others have each other
(`Outline.pairs_tokens`).

Main statement:

* `pairs_of_normalizeWithin`: the laid-out tokens of a text with balanced brackets are balanced, with the
  pairs that are written in the text and otherwise pairs of synthetic brackets.
-/

namespace SignLang

open SignLang.Parser

/-- Level parts of a balanced list are balanced. -/
lemma balanced_of_flatMap {lines : List Line} (hlevel : ∀ line ∈ lines, line.Level)
    (h : Balanced (lines.flatMap Line.tokens)) : ∀ line ∈ lines, Balanced line.tokens := by
  induction lines with
  | nil => simp
  | cons line lines ih =>
    rw [List.forall_mem_cons] at hlevel ⊢
    rw [Balanced, List.flatMap_cons, openAfter_append] at h
    obtain ⟨stack, hline, hrest⟩ := Option.bind_eq_some_iff.1 h
    obtain ⟨hbal, rfl⟩ := Outline.balanced_of_level hline hlevel.1
    exact ⟨hbal, ih hlevel.2 hrest⟩

/-- The lines of a text with balanced brackets are balanced. -/
lemma balanced_of_split {text : String} {tokens : List Token} (hscan : scan text = .ok tokens)
    (hbal : Balanced tokens) : ∀ line ∈ Line.split tokens, Balanced line.tokens := by
  refine balanced_of_flatMap (level_of_balanced hscan hbal) ?_
  obtain ⟨body, ending, rfl, hbody, hending, -⟩ := scan_eq_concat hscan
  rw [Line.flatMap_split, beforeEnding_concat (fun t ht => (hbody t ht).kind_ne_ending) hending, Balanced,
    openAfter_content]
  exact (balanced_concat hending).1 hbal

/-- The lines of a text with balanced brackets have its pairs. -/
lemma bracketPairs_split {text : String} {tokens : List Token} (hscan : scan text = .ok tokens)
    (hbal : Balanced tokens) : bracketPairs ((Line.split tokens).flatMap Line.tokens) = bracketPairs tokens := by
  obtain ⟨body, ending, rfl, hbody, hending, -⟩ := scan_eq_concat hscan
  have hbal' : Balanced body := (balanced_concat hending).1 hbal
  have hplain : ∀ t ∈ [ending], t.isBracket = false := by simp [Token.isBracket, hending]
  rw [Line.flatMap_split, beforeEnding_concat (fun t ht => (hbody t ht).kind_ne_ending) hending,
    bracketPairs_filter Token.isContent_of_isBracket hbal',
    bracketPairs_append hbal' (openAfter_eq_of_forall hplain []), bracketPairs_of_forall hplain, List.append_nil]

namespace Outline

/-- The brackets around a body are synthetic pairs, which are closed after the pairs of the body. -/
lemma pairs_bracketed {body : List Token} (hbody : Balanced body) (op : Token) {ops : List Token}
    (hops : ∀ t ∈ ops, t.isBracket = false) (last : Token) :
    Balanced (bracketed last body op ops) ∧ ∃ pairs, bracketPairs (bracketed last body op ops) =
      bracketPairs body ++ pairs ∧ ∀ p ∈ pairs, p.1.synthetic ∧ p.2.synthetic := by
  have hfamily (op : Token) : (op.borrow .opening "[").isBar = (last.borrow .closing "]").isBar := by
    simp [Token.isBar, Token.borrow, Operator.bar]
  induction ops generalizing op with
  | nil =>
    refine ⟨hbody.group rfl rfl (hfamily op), _, bracketPairs_group hbody rfl rfl (hfamily op), ?_⟩
    simp [Token.borrow]
  | cons next ops ih =>
    rw [List.forall_mem_cons] at hops
    obtain ⟨hbal, pairs, heq, hpairs⟩ := ih next hops.2
    have hinside := hbal.cons hops.1
    rw [bracketed, ← List.cons_append]
    refine ⟨hinside.group rfl rfl (hfamily op),
      pairs ++ [(op.borrow .opening "[", last.borrow .closing "]")], ?_, ?_⟩
    · rw [bracketPairs_group hinside rfl rfl (hfamily op), bracketPairs_cons hops.1 hbal, heq,
        List.append_assoc]
    · exact List.forall_mem_append.2 ⟨hpairs, by simp [Token.borrow]⟩

/-- A line with its body in brackets has the pairs of both and synthetic ones. -/
lemma pairs_enclose {line : Line} {body : List Token} (hline : Balanced line.tokens) (hbody : Balanced body) :
    ∃ pairs, bracketPairs (enclose line body) = bracketPairs line.tokens ++ bracketPairs body ++ pairs ∧
      ∀ p ∈ pairs, p.1.synthetic ∧ p.2.synthetic := by
  have hheaders : ∀ t ∈ line.headers, t.isBracket = false := fun t => isBracket_of_mem_headers
  have hplain : Balanced line.headers := openAfter_eq_of_forall hheaders []
  have hstem : bracketPairs line.tokens = bracketPairs line.stem := by
    conv_lhs => rw [← line.stem_append_headers]
    rw [bracketPairs_append (balanced_stem hline) hplain, bracketPairs_of_forall hheaders, List.append_nil]
  unfold enclose
  split
  · next hnone =>
    rw [List.getLast?_eq_none_iff] at hnone
    exact ⟨[], by simp [hnone], by simp⟩
  · next last _ =>
    rw [hstem, List.append_assoc, List.append_assoc, ← List.append_assoc (List.flatMap _ _)]
    cases heq : line.headers with
    | nil =>
      refine ⟨[], ?_, by simp⟩
      simp only [List.flatMap_nil, List.map_nil, List.nil_append, List.append_nil]
      exact bracketPairs_append (balanced_stem hline) hbody
    | cons op ops =>
      rw [heq, List.forall_mem_cons] at hheaders
      obtain ⟨hbal, pairs, hpairs, hsynthetic⟩ := pairs_bracketed hbody op hheaders.2 last
      refine ⟨pairs, ?_, hsynthetic⟩
      rw [← cons_bracketed, bracketPairs_append (balanced_stem hline) (hbal.cons hheaders.1),
        bracketPairs_cons hheaders.1 hbal, hpairs, List.append_assoc]

/-- Laid-out lines with balanced brackets have the pairs of the lines and synthetic ones. -/
theorem pairs_tokens {o : Outline} (hlines : ∀ line ∈ o.lines, Balanced line.tokens)
    (hwritten : ∀ line ∈ o.lines, ∀ t ∈ line.tokens, t.synthetic = false) :
    Balanced o.tokens ∧ (∀ p ∈ bracketPairs o.tokens, p.1.synthetic = p.2.synthetic) ∧
      (bracketPairs o.tokens).filter (!·.1.synthetic) = bracketPairs (o.lines.flatMap Line.tokens) := by
  induction o with
  | done => exact ⟨.nil, by simp [tokens], by simp [tokens, lines]⟩
  | entry line body next ihbody ihnext =>
    simp only [lines, List.forall_mem_cons, List.forall_mem_append] at hlines hwritten
    obtain ⟨hline, hlinesbody, hlinesnext⟩ := hlines
    obtain ⟨hbody, hbodypairs, hbodywritten⟩ := ihbody hlinesbody hwritten.2.1
    obtain ⟨hnext, hnextpairs, hnextwritten⟩ := ihnext hlinesnext hwritten.2.2
    obtain ⟨pairs, heq, hpairs⟩ := pairs_enclose hline hbody
    have henclose := balanced_enclose hline hbody
    have hseparator : ∀ t ∈ next.separator, t.isBracket = false := by
      cases next <;> simp [separator, Token.isBracket, Token.borrow]
    have hplain : Balanced next.separator := openAfter_separator next []
    have hlinepairs : ∀ p ∈ bracketPairs line.tokens, p.1.synthetic = false ∧ p.2.synthetic = false :=
      fun p hp => by
        obtain ⟨-, -, -, hmem, hmem'⟩ := pair_of_mem_bracketPairs hp
        exact ⟨hwritten.1 _ hmem, hwritten.1 _ hmem'⟩
    have hall : bracketPairs (entry line body next).tokens = bracketPairs line.tokens ++
        bracketPairs body.tokens ++ pairs ++ bracketPairs next.tokens := by
      rw [tokens, bracketPairs_append (henclose.append hplain) hnext, bracketPairs_append henclose hplain,
        bracketPairs_of_forall hseparator, List.append_nil, heq]
    refine ⟨(henclose.append hplain).append hnext, ?_, ?_⟩
    · simp only [hall, List.forall_mem_append]
      refine ⟨⟨⟨fun p hp => ?_, hbodypairs⟩, fun p hp => ?_⟩, hnextpairs⟩
      · rw [(hlinepairs p hp).1, (hlinepairs p hp).2]
      · rw [(hpairs p hp).1, (hpairs p hp).2]
    · have hnone : pairs.filter (!·.1.synthetic) = [] :=
        List.filter_eq_nil_iff.2 fun p hp => by simp [(hpairs p hp).1]
      have hline' : (bracketPairs line.tokens).filter (!·.1.synthetic) = bracketPairs line.tokens :=
        List.filter_eq_self.2 fun p hp => by simp [(hlinepairs p hp).1]
      rw [hall, List.filter_append, List.filter_append, List.filter_append, hline', hbodywritten, hnone,
        List.append_nil, hnextwritten, lines, List.flatMap_cons, List.flatMap_append,
        bracketPairs_append hline ((balanced_flatMap hlinesbody).append (balanced_flatMap hlinesnext)),
        bracketPairs_append (balanced_flatMap hlinesbody) (balanced_flatMap hlinesnext), List.append_assoc]

end Outline

/-- The layout stage keeps pairs of brackets. From a text with balanced brackets it makes tokens with
balanced brackets: no front of them closes more than it opens, as many are opened as are closed, every
bracket is in one pair, with one of its family that is synthetic exactly if it is, and the written pairs are
those of the text. The check of the parser accepts them. -/
theorem pairs_of_normalizeWithin {limit : Nat} {text : String} {tokens laid : List Token}
    (hscan : scan text = .ok tokens) (hbal : Balanced tokens) (hlaid : normalizeWithin limit tokens = .ok laid) :
    Balanced laid ∧ (∀ front, front <+: laid → closings front ≤ openings front) ∧
      openings laid = closings laid ∧
      ((bracketPairs laid).map (·.1)).Perm (laid.filter (·.kind = .opening)) ∧
      (bracketPairs laid).map (·.2) = laid.filter (·.kind = .closing) ∧
      (∀ p ∈ bracketPairs laid, p.1.isBar = p.2.isBar ∧ p.1.synthetic = p.2.synthetic) ∧
      (bracketPairs laid).filter (!·.1.synthetic) = bracketPairs tokens ∧
      checkBrackets (Cursor.ofTokens laid) = .ok () := by
  obtain ⟨outline, hnest, rfl⟩ := normalizeWithin_eq_ok hlaid
  have hending := endingOf_kind tokens
  have hlines := Outline.lines_of_nest hnest
  obtain ⟨hbalanced, hpairs, hwritten⟩ := outline.pairs_tokens (hlines ▸ balanced_of_split hscan hbal)
    (hlines ▸ fun line hline t ht => (lexical_of_split hscan line hline t ht).1)
  have hlaid : Balanced (outline.tokens ++ [endingOf tokens]) := (balanced_concat hending).2 hbalanced
  have hplain : ∀ t ∈ [endingOf tokens], t.isBracket = false := by simp [Token.isBracket, hending]
  have hsame : bracketPairs (outline.tokens ++ [endingOf tokens]) = bracketPairs outline.tokens := by
    rw [bracketPairs_append hbalanced (openAfter_eq_of_forall hplain []), bracketPairs_of_forall hplain,
      List.append_nil]
  have hheight := hlaid.heightAfter 0
  refine ⟨hlaid, fun front hfront => ?_, ?_, perm_openers hlaid, map_closers hlaid, fun p hp => ?_, ?_, ?_⟩
  · have := heightAfter_isSome_iff.1 (by rw [hheight]; rfl) front hfront
    omega
  · have := heightAfter_count hheight
    omega
  · obtain ⟨-, -, hfamily, -⟩ := pair_of_mem_bracketPairs hp
    exact ⟨hfamily, hpairs p (hsame ▸ hp)⟩
  · rw [hsame, hwritten, hlines, bracketPairs_split hscan hbal]
  · rw [checkBrackets, tokens_ofTokens_concat hending, (bracketFault?_eq_none_iff _).2 hlaid]

/-- A function with a body whose first line has written brackets across a line end: two pairs are written,
and one is put in. -/
theorem pairs_of_normalizeWithin_function :
    ∃ tokens laid, scan "f : x ?\n\t(a\n|b|)\n\tx" = .ok tokens ∧
      normalizeWithin Layout.maxLevel tokens = .ok laid ∧ (bracketPairs laid).length = 3 ∧
      (bracketPairs laid).filter (!·.1.synthetic) = bracketPairs tokens ∧
      checkBrackets (Cursor.ofTokens laid) = .ok () := by
  have h : (scan "f : x ?\n\t(a\n|b|)\n\tx").toOption.any fun tokens => decide (Balanced tokens) &&
      (normalizeWithin Layout.maxLevel tokens).toOption.any fun laid => (bracketPairs laid).length = 3 := by
    decide +kernel
  cases hscan : scan "f : x ?\n\t(a\n|b|)\n\tx" with
  | error failure => simp [hscan, Except.toOption] at h
  | ok tokens =>
    simp only [hscan, Except.toOption, Option.any_some, Bool.and_eq_true, decide_eq_true_eq] at h
    cases hlaid : normalizeWithin Layout.maxLevel tokens with
    | error failure => simp [hlaid] at h
    | ok laid =>
      obtain ⟨-, -, -, -, -, -, hwritten, hcheck⟩ := pairs_of_normalizeWithin hscan h.1 hlaid
      exact ⟨tokens, laid, rfl, hlaid, by simpa [hlaid] using h.2, hwritten, hcheck⟩

end SignLang
