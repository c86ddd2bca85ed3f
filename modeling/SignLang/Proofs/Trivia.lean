import SignLang.Proofs.Program
import SignLang.Proofs.Scanner.Seam

/-!
# Trivia is meaningless

How a program is spaced, where its blank lines and comments stand and which characters end its lines says
nothing about what it means. `Edit` has one rule for each way of changing this, and
`parseWithin_of_edits` says that a text is read as before after any number of edits.

A line end may merge with the one before or after it when it is changed. All edits of lines are therefore
cases of one replacement: of a line end and the trivia after it, up to the next line with tokens, by
another such block (`Retold.of_block`).
-/

namespace SignLang

open Lexeme Scanner

/-- What ends a line. -/
def IsTerminator (w : List Char) : Prop :=
  w = ['\n'] ∨ w = ['\r', '\n'] ∨ w = ['\r']

/-- A blank line or a comment, with what ends it. -/
def IsTriviaLine (line : List Char) : Prop :=
  ∃ w ending, line = w ++ ending ∧ IsBlank w ∧ IsTerminator ending

/-- A line of the text starts after the part `a` of it: at the start of the text, or after a line end
among its tokens. -/
def StartsLine (a : List Char) (tokens : List Token) : Prop :=
  a = [] ∨ ∃ t ∈ tokens, t.kind = .newline ∧ t.stop = a.length

/-- One change of what separates the tokens of a text. -/
inductive Edit : List Char → List Char → Prop where
  | spaces {a w w' r : List Char} {tokens : List Token} {t : Token} :
    scan (String.ofList (a ++ (w ++ r))) = .ok tokens →
    t ∈ tokens →
    t.kind ≠ .newline →
    t.kind ≠ .indent →
    t.stop = a.length →
    w ≠ [] →
    w.all isSpace →
    r.head?.any isSpace = false →
    w' ≠ [] →
    w'.all isSpace →
    Edit (a ++ (w ++ r)) (a ++ (w' ++ r))
  | insert {a line r : List Char} {tokens : List Token} :
    scan (String.ofList (a ++ r)) = .ok tokens →
    StartsLine a tokens →
    IsTriviaLine line →
    Edit (a ++ r) (a ++ (line ++ r))
  | delete {a line r : List Char} {tokens : List Token} :
    scan (String.ofList (a ++ (line ++ r))) = .ok tokens →
    StartsLine a tokens →
    IsTriviaLine line →
    Edit (a ++ (line ++ r)) (a ++ r)
  | terminator {a w w' r : List Char} {tokens : List Token} {t : Token} :
    scan (String.ofList (a ++ (w ++ r))) = .ok tokens →
    t ∈ tokens →
    t.kind = .newline →
    t.offset = a.length →
    t.lexeme = String.ofList w →
    IsTerminator w' →
    Edit (a ++ (w ++ r)) (a ++ (w' ++ r))

/-- The text is read as another one wherever that one is read. -/
def Retold (text text' : List Char) : Prop :=
  ∀ ⦃limits : Limits⦄ ⦃e : Expr⦄, parseWithin limits (String.ofList text) = .ok e →
    parseWithin limits (String.ofList text') = .ok e

/-! ## Trivia as characters -/

lemma IsTerminator.exists_cons {w : List Char} (h : IsTerminator w) :
    ∃ c B, w = c :: B ∧ isTerminator c ∧ Trivia B := by
  rcases h with rfl | rfl | rfl
  · exact ⟨'\n', [], rfl, rfl, .nil⟩
  · exact ⟨'\r', ['\n'], rfl, rfl, .cons .nil rfl⟩
  · exact ⟨'\r', [], rfl, rfl, .nil⟩

lemma IsTriviaLine.trivia {line : List Char} (h : IsTriviaLine line) : Trivia line := by
  obtain ⟨w, ending, rfl, hw, hending⟩ := h
  obtain ⟨c, B, rfl, hc, hB⟩ := hending.exists_cons
  exact .line hw hc hB

/-- Line feeds at the front of a text are trivia. -/
lemma exists_lineFeeds (text : List Char) :
    ∃ feeds r, text = feeds ++ r ∧ Trivia feeds ∧ r.head? ≠ some '\n' := by
  induction text with
  | nil => exact ⟨[], [], rfl, .nil, by simp⟩
  | cons c text ih =>
    by_cases hc : c = '\n'
    · obtain ⟨feeds, r, rfl, hfeeds, hr⟩ := ih
      exact ⟨c :: feeds, r, rfl, hfeeds.cons (by rw [hc]; rfl), hr⟩
    · exact ⟨[], c :: text, rfl, .nil, by simpa using hc⟩

namespace Retold

/-- A text is retold by a text whose tokens write matching lines. -/
lemma of_lined {text text' : List Char}
    (h : ∀ f, (ofText text).run = .ok f → ∃ n distance tokens', scan (String.ofList text') = .ok tokens' ∧
      Lined (Seam n distance) 0 true
        (f.emitted.reverse ++ [⟨.ending, "", f.line, f.column, f.offset, false⟩]) tokens') :
    Retold text text' := by
  intro limits e hparse
  obtain ⟨tokens, -, hscan, -⟩ := parseWithin_eq_ok hparse
  obtain ⟨f, hrun, rfl⟩ := scan_eq_ok.1 hscan
  obtain ⟨n, distance, tokens', hscan', hlined⟩ := h f hrun
  exact parseWithin_of_lined (Seam.biUnique n distance) hscan hscan' hlined hparse

/-- Trivia at the start of a text can be replaced. -/
lemma of_start {B B' r : List Char} (hB : Trivia B) (hB' : Trivia B') : Retold (B ++ r) (B' ++ r) := by
  obtain ⟨feeds, r, rfl, hfeeds, hr⟩ := exists_lineFeeds r
  rw [← List.append_assoc, ← List.append_assoc]
  replace hB := hB.append hfeeds
  replace hB' := hB'.append hfeeds
  generalize B ++ feeds = B at hB ⊢
  generalize B' ++ feeds = B' at hB' ⊢
  refine of_lined fun f hrun => ?_
  obtain ⟨m, hm, hrest, hstart, hdepth, hbars, hgap, hall⟩ := steps_start hB hr
  obtain ⟨m', hm', hrest', hstart', hdepth', hbars', hgap', hall'⟩ := steps_start hB' hr
  have halike := alike_of_gap hm hm' (by rw [hstart, hstart']) (by rw [hdepth, hdepth'])
    (by rw [hbars, hbars']) hgap hgap'
  obtain ⟨tokens', hscan', hlined⟩ := scan_of_seam (n := -1) hrun .refl hm .refl hm' .nil halike
    (hrest'.trans hrest.symm) (List.append_nil _).symm (List.append_nil _).symm hall hall' (.inr rfl)
    (.inl rfl) (by omega) (by omega)
  exact ⟨_, _, tokens', hscan', hlined⟩

/-- A line end inside of a text and the trivia after it can be replaced. -/
lemma of_block {text x B B' r : List Char} {c : Char} (c' : Char) {u : Scanner} (hu : (ofText text).Steps u)
    (hx : text = x ++ u.rest) (hrest : u.rest = c :: B ++ r) (hc : isTerminator c) (hc' : isTerminator c') (hB : Trivia B) (hB' : Trivia B')
    (hreturn : u.returned → c' ≠ '\n') : Retold text (x ++ (c' :: B' ++ r)) := by
  obtain ⟨feeds, r, rfl, hfeeds, hr⟩ := exists_lineFeeds r
  rw [List.cons_append, ← List.append_assoc] at hrest ⊢
  replace hB := hB.append hfeeds
  replace hB' := hB'.append hfeeds
  generalize B ++ feeds = B at hB hrest
  generalize B' ++ feeds = B' at hB' ⊢
  refine of_lined fun f hrun => ?_
  have hfits : Fits u.rest (c' :: (B' ++ r)) :=
    .inr (.inr (.inl ⟨by rw [hrest]; simpa using hc, by simpa using hc'⟩))
  obtain ⟨u', hu', hrest', halike, ts, ts', hts, hts', hmoved⟩ := Alike.steps hu
    (alike_ofText text (x ++ (c' :: (B' ++ r)))) hx rfl hfits ((Steps.run_eq hu).symm.trans hrun)
    (by simpa using hreturn)
  obtain ⟨m, ns, hm, hmr, hlands⟩ := steps_terminator hrest hc hB hr
  obtain ⟨m', ns', hm', hmr', hlands'⟩ := steps_terminator hrest' hc' hB' hr
  have hbefore : List.Forall₂ (Token.Moved 0) u.emitted u'.emitted := by
    rw [show u.emitted = ts by simpa [ofText] using hts, show u'.emitted = ts' by simpa [ofText] using hts']
    exact hmoved
  have halike' := alike_of_gap (hu.trans hm) (hu'.trans hm') (by rw [hlands.start, hlands'.start])
    (by rw [hlands.depth, hlands'.depth, halike.depth]) (by rw [hlands.bars, hlands'.bars, halike.bars])
    hlands.gap hlands'.gap
  have hoffset := Steps.offset_eq hm (x := c :: B) (by rw [hrest, hmr]; rfl)
  have hoffset' := Steps.offset_eq hm' (x := c' :: B') (by rw [hrest', hmr']; rfl)
  have hsame := halike.offset
  rw [List.length_cons] at hoffset hoffset'
  obtain ⟨tokens', hscan', hlined⟩ := scan_of_seam (n := u.offset) hrun hu hm hu' hm' hbefore halike'
    (hmr'.trans hmr.symm) hlands.emitted hlands'.emitted hlands.newlines hlands'.newlines
    (.inl (by simp [hlands.ne_nil, hlands'.ne_nil])) (.inr le_rfl) (by omega) (by omega)
  exact ⟨_, _, tokens', hscan', hlined⟩

/-- Spaces after a token can be replaced. -/
lemma of_spaces {text x w w' r : List Char} {u : Scanner} (hu : (ofText text).Steps u)
    (hx : text = x ++ u.rest) (hin : u.atLineStart = false) (hrest : u.rest = w ++ r) (hw : w ≠ [])
    (hall : w.all isSpace) (hr : r.head?.any isSpace = false) (hw' : w' ≠ []) (hall' : w'.all isSpace) :
    Retold text (x ++ (w' ++ r)) := by
  have hspace {w : List Char} (hw : w ≠ []) (hall : w.all isSpace) (r : List Char) :
      (w ++ r).head?.any isSpace := by
    obtain ⟨c, w, rfl⟩ := List.exists_cons_of_ne_nil hw
    rw [List.all_cons, Bool.and_eq_true] at hall
    exact hall.1
  refine of_lined fun f hrun => ?_
  have hfits : Fits u.rest (w' ++ r) := .inr (.inl ⟨hrest ▸ hspace hw hall r, hspace hw' hall' r⟩)
  obtain ⟨u', hu', hrest', halike, ts, ts', hts, hts', hmoved⟩ := Alike.steps hu
    (alike_ofText text (x ++ (w' ++ r))) hx rfl hfits ((Steps.run_eq hu).symm.trans hrun) fun _ h => by
      have := hspace hw' hall' r
      rw [h] at this
      exact absurd this (by decide)
  -- both scanners skip their spaces and see a space behind them
  have hskip {s : Scanner} {w : List Char} (hs : ∀ t ∈ s.emitted.head?, t.stop ≤ s.offset)
      (hin : s.atLineStart = false) (hrest : s.rest = w ++ r) (hw : w ≠ []) (hall : w.all isSpace) :
      ∃ m, s.Steps m ∧ m.rest = r ∧ s.Moves w m ∧ m.emitted = s.emitted ∧
        m.behind.head?.all isGap ∧ m.setMark.afterOpening = false := by
    obtain ⟨m, hstep, hmoves, hm, hemitted⟩ := exists_step_of_spaces hin hrest hw hall hr
    have hlength := List.length_pos_iff.2 hw
    exact ⟨m, .single hstep, hm, hmoves, hemitted, hmoves.gap_of_spaces hw hall,
      Near.afterOpening_moved hemitted (by rw [hmoves.offset]; omega) hs⟩
  obtain ⟨m, hm, hmr, hmoves, hemitted, hgap⟩ := hskip halike.within hin hrest hw hall
  obtain ⟨m', hm', hmr', hmoves', hemitted', hgap'⟩ :=
    hskip halike.within' (halike.start.trans hin) hrest' hw' hall'
  have hbefore : List.Forall₂ (Token.Moved 0) u.emitted u'.emitted := by
    rw [show u.emitted = ts by simpa [ofText] using hts, show u'.emitted = ts' by simpa [ofText] using hts']
    exact hmoved
  have halike' := alike_of_gap (hu.trans hm) (hu'.trans hm') (by rw [hmoves.start, hmoves'.start])
    (by rw [hmoves.depth, hmoves'.depth, halike.depth]) (by rw [hmoves.bars, hmoves'.bars, halike.bars])
    hgap hgap'
  have hoffset := hmoves.offset
  have hoffset' := hmoves'.offset
  have hsame := halike.offset
  have hlength := List.length_pos_iff.2 hw
  have hlength' := List.length_pos_iff.2 hw'
  obtain ⟨tokens', hscan', hlined⟩ := scan_of_seam (n := u.offset) hrun hu hm hu' hm' hbefore halike'
    (hmr'.trans hmr.symm) (hemitted.trans (List.nil_append _).symm)
    (hemitted'.trans (List.nil_append _).symm) (by simp)
    (by simp) (.inl Iff.rfl) (.inr le_rfl) (by omega) (by omega)
  exact ⟨_, _, tokens', hscan', hlined⟩

end Retold

/-! ## Edits -/

/-- A carriage return that is a line end of its own has no line feed after it. -/
lemma Scanner.Steps.head?_of_returned {text : List Char} {m : Scanner} (h : (ofText text).Steps m)
    (hreturned : m.returned) : m.rest.head? ≠ some '\n' := by
  induction h with
  | refl => cases hreturned
  | @tail s m hs hstep ih =>
    obtain ⟨t, ht, hkind⟩ := (Option.any_eq_true _ _).1 hreturned
    simp only [Bool.and_eq_true, decide_eq_true_eq] at hkind
    obtain ⟨⟨hnewline, hlexeme⟩, hstop⟩ := hkind
    obtain ⟨w, hw⟩ := hstep.stepped
    -- without a token, the scanner has not moved away from the carriage return
    have hstay (hemitted : m.emitted = s.emitted) (hoffset : m.offset = s.offset + w.length)
        (hrest : s.rest = w ++ m.rest) : m.rest.head? ≠ some '\n' := by
      have hle := (Steps.stop_le hs t (hemitted ▸ List.mem_of_mem_head? ht)).stop_le
      obtain rfl : w = [] := List.length_eq_zero_iff.1 (by omega)
      rw [List.nil_append] at hrest
      rw [← hrest]
      refine ih ?_
      rw [returned, ← hemitted, show s.offset = m.offset from hoffset.symm]
      exact hreturned
    cases hw with
    | @token k hin hreads hlexes =>
      obtain ⟨t', ht', hspells⟩ := hreads.emitted
      rw [ht'] at ht
      cases ht
      obtain rfl : k = .newline := hspells.kind_eq.symm.trans hnewline
      have hw : w = ['\r'] := String.ofList_injective (hspells.lexeme_eq.symm.trans hlexeme)
      rcases hlexes with h | h | ⟨-, h⟩
      · rw [hw] at h
        cases h
      · rw [hw] at h
        cases h
      · exact h
    | spaces _ _ _ _ hmoves hemitted | blank _ _ _ hmoves hemitted =>
      exact hstay hemitted hmoves.offset hmoves.rest
    | margin _ _ _ hmoves hemitted =>
      split at hemitted
      · obtain ⟨t', ht', hspells⟩ := hemitted
        rw [ht'] at ht
        cases ht
        cases hspells.kind_eq.symm.trans hnewline
      · exact hstay hemitted hmoves.offset hmoves.rest

/-- A token of a text was read where it stands. -/
lemma exists_token {text : List Char} {tokens : List Token} {t : Token}
    (hscan : scan (String.ofList text) = .ok tokens) (ht : t ∈ tokens) (hindent : t.kind ≠ .indent)
    (hending : t.kind ≠ .ending) :
    ∃ u v w x, (ofText text).Steps u ∧ u.Step v ∧ u.atLineStart = false ∧ u.Reads t.kind w v ∧
      u.Lexes v.rest w t.kind ∧ t.lexeme = String.ofList w ∧ text = x ++ (w ++ v.rest) ∧
      t.offset = x.length ∧ t.stop = (x ++ w).length ∧ ∀ t₀ ∈ u.emitted, t₀ ∈ tokens := by
  obtain ⟨before, after, rfl⟩ := List.append_of_mem ht
  obtain ⟨f, after₀, hrun, hemitted, -⟩ := scan_eq_ok_of_mem hscan hending
  obtain ⟨u, v, w, hu, -, hstep, hin, hreads, hlexes, -, rfl, hspells⟩ :=
    exists_read hrun hemitted hindent
  obtain ⟨x, hx⟩ := hu.exists_rest
  have hoffset : u.offset = x.length := by
    have := Steps.offset_eq hu hx
    simpa [ofText] using this
  refine ⟨u, v, w, x, hu, hstep, hin, hreads, hlexes, hspells.lexeme_eq, ?_, ?_, ?_, ?_⟩
  · rw [← hreads.rest]
    exact hx
  · rw [hspells.offset_eq, hoffset]
  · rw [hreads.stop_eq hspells, hreads.offset, hoffset, List.length_append]
  · exact fun t₀ ht₀ => List.mem_append_left _ (List.mem_reverse.2 ht₀)

/-- A line of a text starts after a line end, where its trivia can be replaced, or at the start. -/
lemma StartsLine.retold {a B B' r : List Char} {tokens : List Token}
    (hscan : scan (String.ofList (a ++ (B ++ r))) = .ok tokens) (ha : StartsLine a tokens)
    (hB : Trivia B) (hB' : Trivia B') : Retold (a ++ (B ++ r)) (a ++ (B' ++ r)) := by
  rcases ha with rfl | ⟨t, ht, hnewline, hstop⟩
  · rw [List.nil_append, List.nil_append]
    exact Retold.of_start hB hB'
  obtain ⟨u, v, w, x, hu, -, hin, hreads, hlexes, -, htext, -, hstop', -⟩ :=
    exists_token hscan ht (by simp [hnewline]) (by simp [hnewline])
  obtain ⟨rfl, hrest⟩ : a = x ++ w ∧ B ++ r = v.rest := by
    rw [← List.append_assoc x] at htext
    exact List.append_inj htext (by omega)
  rw [hnewline] at hlexes
  have hterm : IsTerminator w := hlexes.imp_right (.imp_right And.left)
  obtain ⟨c, C, rfl, hc, hC⟩ := hterm.exists_cons
  have hhead : u.rest = c :: (C ++ B) ++ r := by
    rw [hreads.rest, ← hrest]
    simp
  have hblock := Retold.of_block (x := x) c hu ?_ hhead hc hc (hC.append hB) (hC.append hB')
    fun h heq => hu.head?_of_returned h (by rw [hhead, heq]; rfl)
  · simpa using hblock
  · rw [hhead]
    simp

/-- A line end of a text can be replaced. -/
lemma Retold.of_terminator {a w w' r : List Char} {tokens : List Token} {t : Token}
    (hscan : scan (String.ofList (a ++ (w ++ r))) = .ok tokens) (ht : t ∈ tokens)
    (hnewline : t.kind = .newline) (hoffset : t.offset = a.length) (hlexeme : t.lexeme = String.ofList w)
    (hw' : IsTerminator w') : Retold (a ++ (w ++ r)) (a ++ (w' ++ r)) := by
  obtain ⟨u, v, w₀, x, hu, -, hin, hreads, hlexes, hlexeme', htext, hoffset', -, hmem⟩ :=
    exists_token hscan ht (by simp [hnewline]) (by simp [hnewline])
  obtain rfl : w = w₀ := String.ofList_injective (hlexeme.symm.trans hlexeme')
  obtain ⟨rfl, hrest⟩ : a = x ∧ w ++ r = w ++ v.rest := List.append_inj htext (by omega)
  obtain rfl := List.append_cancel_left hrest
  rw [hnewline] at hlexes
  have hterm : IsTerminator w := hlexes.imp_right (.imp_right And.left)
  obtain ⟨c, C, rfl, hc, hC⟩ := hterm.exists_cons
  obtain ⟨c', C', rfl, hc', hC'⟩ := hw'.exists_cons
  by_cases hmerge : u.returned ∧ c' = '\n'
  · -- the new line feed merges with the carriage return before it, which is replaced as well
    obtain ⟨hreturned, rfl⟩ := hmerge
    obtain ⟨t₀, ht₀, hkind⟩ := (Option.any_eq_true _ _).1 hreturned
    simp only [Bool.and_eq_true, decide_eq_true_eq] at hkind
    obtain ⟨⟨hnewline₀, hlexeme₀⟩, hstop₀⟩ := hkind
    obtain ⟨u₀, v₀, w₀, y, hu₀, -, hin₀, hreads₀, -, hlexeme₀', htext₀, -, hstop₀', -⟩ :=
      exists_token hscan (hmem t₀ (List.mem_of_mem_head? ht₀)) (by simp [hnewline₀])
        (by simp [hnewline₀])
    obtain rfl : w₀ = ['\r'] := String.ofList_injective (hlexeme₀'.symm.trans hlexeme₀)
    have hulen : u.offset = a.length := by
      have := Steps.offset_eq hu (show (ofText (a ++ (c :: C ++ v.rest))).rest = a ++ u.rest by
        rw [hreads.rest]
        rfl)
      simpa [ofText] using this
    obtain ⟨rfl, hrest₀⟩ : a = y ++ ['\r'] ∧ c :: C ++ v.rest = v₀.rest := by
      rw [← List.append_assoc y] at htext₀
      exact List.append_inj htext₀ (by omega)
    have hhead : u₀.rest = '\r' :: (c :: C) ++ v.rest := by
      rw [hreads₀.rest, ← hrest₀]
      rfl
    have hblock := Retold.of_block (x := y) '\r' hu₀ ?_ hhead rfl rfl (hC.cons hc)
      (hC'.cons hc') (fun _ => by decide)
    · simpa using hblock
    · rw [hhead]
      simp
  · exact .of_block c' hu (by rw [hreads.rest]) hreads.rest hc hc' hC hC' fun h heq => hmerge ⟨h, heq⟩

/-- A token that ends before the end of the text is not the last one. -/
lemma kind_ne_ending {text : List Char} {tokens : List Token} {t : Token}
    (hscan : scan (String.ofList text) = .ok tokens) (ht : t ∈ tokens) (hstop : t.stop < text.length) :
    t.kind ≠ .ending := by
  obtain ⟨f, hrun, rfl⟩ := scan_eq_ok.1 hscan
  obtain ⟨hsteps, hrest⟩ := steps_of_run hrun
  have hoffset := Steps.offset_eq hsteps (x := text) (by simp [hrest, ofText])
  rcases List.mem_append.1 ht with ht | ht
  · exact (hsteps.stop_le t (List.mem_reverse.1 ht)).inside
  · obtain rfl := List.mem_singleton.1 ht
    simp [Token.stop, hoffset, ofText] at hstop

/-- Spaces after a token of a text can be replaced. -/
lemma Retold.of_spaces_after {a w w' r : List Char} {tokens : List Token} {t : Token}
    (hscan : scan (String.ofList (a ++ (w ++ r))) = .ok tokens) (ht : t ∈ tokens)
    (hnewline : t.kind ≠ .newline) (hindent : t.kind ≠ .indent) (hstop : t.stop = a.length) (hw : w ≠ [])
    (hall : w.all isSpace) (hr : r.head?.any isSpace = false) (hw' : w' ≠ []) (hall' : w'.all isSpace) :
    Retold (a ++ (w ++ r)) (a ++ (w' ++ r)) := by
  have hending : t.kind ≠ .ending := by
    have hlength := List.length_pos_iff.2 hw
    exact kind_ne_ending hscan ht (by simp only [List.length_append]; omega)
  obtain ⟨u, v, w₀, x, hu, hstep, -, hreads, -, -, htext, -, hstop', -⟩ :=
    exists_token hscan ht hindent hending
  obtain ⟨rfl, hrest⟩ : a = x ++ w₀ ∧ w ++ r = v.rest := by
    rw [← List.append_assoc x] at htext
    exact List.append_inj htext (by omega)
  exact .of_spaces (hu.tail hstep) (by rw [hrest]) (by simp [hreads.start, hnewline]) hrest.symm hw hall hr
    hw' hall'

/-- An edit does not change what a text means. -/
lemma Edit.retold {text text' : List Char} (h : Edit text text') : Retold text text' := by
  cases h with
  | spaces hscan ht hnewline hindent hstop hw hall hr hw' hall' =>
    exact .of_spaces_after hscan ht hnewline hindent hstop hw hall hr hw' hall'
  | @insert a line r tokens hscan ha hline =>
    have hretold : Retold (a ++ ([] ++ r)) (a ++ (line ++ r)) :=
      StartsLine.retold (by simpa using hscan) ha .nil hline.trivia
    rwa [List.nil_append] at hretold
  | @delete a line r tokens hscan ha hline =>
    have hretold : Retold (a ++ (line ++ r)) (a ++ ([] ++ r)) :=
      StartsLine.retold hscan ha hline.trivia .nil
    rwa [List.nil_append] at hretold
  | terminator hscan ht hnewline hoffset hlexeme hw' =>
    exact .of_terminator hscan ht hnewline hoffset hlexeme hw'

/-- A text is read as before after any number of changes of what separates its tokens. -/
theorem parseWithin_of_edits {limits : Limits} {text text' : List Char} {e : Expr}
    (hparse : parseWithin limits (String.ofList text) = .ok e)
    (hedits : Relation.ReflTransGen Edit text text') :
    parseWithin limits (String.ofList text') = .ok e := by
  induction hedits with
  | refl => exact hparse
  | tail _ hedit ih => exact hedit.retold ih

/-- Space is added after a bar, a line end is changed and a comment is put below it. -/
theorem parseWithin_of_edits_note :
    parse "|a| \t~b\r\n\t`note\rc" = .ok (.block [.range (.unary "|" true (.identifier "a"))
      (.identifier "b"), .identifier "c"]) := by
  have hparse : parse (String.ofList "|a| ~b\nc".toList) = .ok (.block [.range
      (.unary "|" true (.identifier "a")) (.identifier "b"), .identifier "c"]) := by
    decide +kernel
  have hscan (text : List Char) (p : Token → Bool)
      (h : (scan (String.ofList text)).toOption.any (·.any p)) :
      ∃ tokens t, scan (String.ofList text) = .ok tokens ∧ t ∈ tokens ∧ p t := by
    cases htokens : scan (String.ofList text) with
    | error failure => simp [htokens, Except.toOption] at h
    | ok tokens => simpa [htokens, Except.toOption] using h
  have hspaces : Edit ("|a|".toList ++ ([' '] ++ "~b\nc".toList))
      ("|a|".toList ++ ([' ', '\t'] ++ "~b\nc".toList)) := by
    obtain ⟨tokens, t, htokens, ht, hp⟩ :=
      hscan ("|a|".toList ++ ([' '] ++ "~b\nc".toList)) (fun t => t.kind = .closing ∧ t.stop = 3)
        (by decide +kernel)
    rw [decide_eq_true_eq] at hp
    exact .spaces htokens ht (by simp [hp]) (by simp [hp]) hp.2 (by simp) (by decide) (by decide)
      (by simp) (by decide)
  have hterminator : Edit ("|a| \t~b".toList ++ (['\n'] ++ ['c']))
      ("|a| \t~b".toList ++ (['\r', '\n'] ++ ['c'])) := by
    obtain ⟨tokens, t, htokens, ht, hp⟩ :=
      hscan ("|a| \t~b".toList ++ (['\n'] ++ ['c']))
        (fun t => t.kind = .newline ∧ t.offset = 7 ∧ t.lexeme = "\n") (by decide +kernel)
    rw [decide_eq_true_eq] at hp
    exact .terminator htokens ht hp.1 hp.2.1 hp.2.2 (.inr (.inl rfl))
  have hinsert : Edit ("|a| \t~b\r\n".toList ++ ['c'])
      ("|a| \t~b\r\n".toList ++ ("\t`note\r".toList ++ ['c'])) := by
    obtain ⟨tokens, t, htokens, ht, hp⟩ :=
      hscan ("|a| \t~b\r\n".toList ++ ['c']) (fun t => t.kind = .newline ∧ t.stop = 9)
        (by decide +kernel)
    rw [decide_eq_true_eq] at hp
    exact .insert htokens (.inr ⟨t, ht, hp⟩)
      ⟨"\t`note".toList, ['\r'], rfl, ⟨['\t'], "`note".toList, rfl, rfl, rfl, rfl⟩, .inr (.inr rfl)⟩
  exact parseWithin_of_edits hparse (.tail (.tail (.single hspaces) hterminator) hinsert)

end SignLang
