import SignLang.Proofs.Scanner.Payload
import SignLang.Proofs.Scanner.Place

/-!
# Scanning after a line end

A scanner that has ended a line, with no bracket and no absolute value open, goes on as at the start of a
text. The scanner before the second text is put behind what the first one has left (`Scanner.after`):
every operation of the scanner agrees with that (`Scanner.step_after`), so a whole run does
(`Scanner.tokenize_after`), whether it ends well or gives up. The first text is scanned as it is alone
(`Scanner.exists_steps_of_line`), since a line feed looks to its last token as the end of the text does.

Main statement:

* `scan_line_append`: what is scanned of two texts with a line feed between them is what is scanned of
  each, the second one further down.
-/

namespace SignLang

open Lexeme

/-- The token with `lines` more lines before it, of `distance` characters. -/
def Token.movedDown (lines distance : Int) (t : Token) : Token :=
  { t with line := t.line + lines, offset := t.offset + distance }

namespace Scanner

/-- What a scanner leaves before a line: the characters read, their tokens, both last one first, and the
number of lines. A gap stands before the line, and no bracket is opened there. -/
structure Prior where
  behind : List Char
  emitted : List Token
  lines : Nat
  gap : behind.head?.all isGap
  closed : emitted.head?.all (·.kind ≠ .opening)

/-- The scanner with more text before its own. -/
def after (p : Prior) (s : Scanner) : Scanner :=
  { s with
    behind := s.behind ++ p.behind
    offset := s.offset + p.behind.length
    line := s.line + p.lines
    mark := ⟨s.mark.offset + p.behind.length, s.mark.line + p.lines, s.mark.column⟩
    emitted := s.emitted.map (Token.movedDown p.lines p.behind.length) ++ p.emitted }

/-- The failure with more text before that of the scanner. -/
def Failure.after (p : Prior) (f : Failure) : Failure :=
  { f with scanner := f.scanner.after p }

/-- The outcome with more text before that of the scanner. -/
def outcomeAfter (p : Prior) : Except Failure Scanner → Except Failure Scanner
  | .ok s => .ok (s.after p)
  | .error f => .error (f.after p)

/-! ## Operations -/

section Operations

variable (p : Prior) (s : Scanner)

lemma advance_after (n : Nat) : (s.after p).advance n = (s.advance n).after p := by
  simp only [advance, after, List.append_assoc, Scanner.mk.injEq, true_and, and_true]
  omega

lemma setMark_after : (s.after p).setMark = s.setMark.after p :=
  rfl

lemma newLine_after : (s.after p).newLine = s.newLine.after p := by
  simp only [newLine, after, Scanner.mk.injEq, true_and, and_true]
  omega

lemma emit_after (k : Kind) (w : List Char) : (s.after p).emit k w = (s.emit k w).after p := by
  simp [emit, after, Token.movedDown]

lemma accept_after (k : Kind) (w : List Char) : (s.after p).accept k w = (s.accept k w).after p := by
  rw [accept, advance_after, emit_after, accept]

lemma skipSpaces_after : (s.after p).skipSpaces = s.skipSpaces.after p :=
  advance_after p s _

lemma skipComment_after : (s.after p).skipComment = s.skipComment.after p :=
  advance_after p s _

lemma closeMargin_after (tabs : List Char) : (s.after p).closeMargin tabs = (s.closeMargin tabs).after p := by
  unfold closeMargin
  rw [show (s.after p).rest = s.rest from rfl, skipComment_after, emit_after]
  cases s.rest with
  | nil => rfl
  | cons c text => simp only [apply_ite (after p)]

lemma indentation_after : (s.after p).indentation = s.indentation.after p := by
  let start : Scanner := { s.setMark with atLineStart := false }
  let tabs := s.rest.takeWhile (· = '\t')
  calc (s.after p).indentation
      = (((start.after p).advance tabs.length).skipSpaces).closeMargin tabs := rfl
    _ = (((start.advance tabs.length).skipSpaces).closeMargin tabs).after p := by
      rw [advance_after, skipSpaces_after, closeMargin_after]
    _ = s.indentation.after p := rfl

lemma giveUp_after (misread : Misread) : (s.after p).giveUp misread = (s.giveUp misread).after p := by
  unfold giveUp
  rw [advance_after]
  rfl

lemma acceptRead_after (k : Kind) (read : Except Misread (List Char)) :
    (s.after p).acceptRead k read = outcomeAfter p (s.acceptRead k read) := by
  cases read with
  | ok w => exact congrArg Except.ok (accept_after p s k w)
  | error misread => exact congrArg Except.error (giveUp_after p s misread)

lemma scanTerminator_after : (s.after p).scanTerminator = s.scanTerminator.after p := by
  unfold scanTerminator
  rw [accept_after, newLine_after]
  rfl

lemma scanCharacter_after : (s.after p).scanCharacter = outcomeAfter p s.scanCharacter := by
  unfold scanCharacter
  rw [show (s.after p).rest = s.rest from rfl]
  cases readCharacter s.rest with
  | error misread => exact congrArg Except.error (giveUp_after p s misread)
  | ok w =>
    dsimp only
    rw [accept_after, newLine_after, ← apply_ite (after p)]
    rfl

lemma scanName_after : (s.after p).scanName = s.scanName.after p :=
  accept_after p s _ _

lemma scanOpener_after : (s.after p).scanOpener = s.scanOpener.after p := by
  unfold scanOpener
  rw [accept_after]
  rfl

lemma scanCloser_after : (s.after p).scanCloser = s.scanCloser.after p := by
  unfold scanCloser
  rw [accept_after]
  rfl

/-- No bracket of the text before is taken for one directly before the mark. -/
lemma afterOpening_after : (s.after p).afterOpening = s.afterOpening := by
  have hclosed := p.closed
  unfold afterOpening after
  dsimp only
  cases s.emitted with
  | cons t ts =>
    have hstop : (t.movedDown p.lines p.behind.length).stop = t.stop + p.behind.length := by
      simp only [Token.movedDown, Token.stop]
      omega
    have hplace : t.stop + (p.behind.length : Int) = (s.mark.offset + p.behind.length : Nat) ↔
        t.stop = s.mark.offset := by
      push_cast
      omega
    simp only [List.map_cons, List.cons_append, List.head?_cons, Option.any_some, hstop,
      decide_eq_decide.2 hplace]
    rfl
  | nil =>
    cases hhead : p.emitted.head? with
    | none => simp [hhead]
    | some t =>
      rw [hhead] at hclosed
      have hkind : t.kind ≠ .opening := by simpa using hclosed
      simp [hhead, hkind]

/-- The line end before the text looks to a bar as the start of the text does. -/
lemma barRole_after : (s.after p).barRole = s.barRole := by
  have hgap := p.gap
  have hbehind (q : Char → Bool) (hq : ∀ c, isGap c → q c) :
      (s.after p).behind.head?.all q = s.behind.head?.all q := by
    unfold after
    dsimp only
    cases s.behind with
    | cons c cs => rfl
    | nil =>
      cases hhead : p.behind.head? with
      | none => simp [hhead]
      | some c =>
        rw [hhead] at hgap
        simpa [hhead] using hq c (by simpa using hgap)
  unfold barRole
  dsimp only
  rw [afterOpening_after, hbehind _ fun _ h => h, hbehind _ fun _ h => by simp [h]]
  rfl

lemma scanBar_after : (s.after p).scanBar = outcomeAfter p s.scanBar := by
  unfold scanBar
  rw [barRole_after]
  cases s.barRole with
  | operator => exact congrArg Except.ok (accept_after p s _ _)
  | closes | opens =>
    dsimp only
    rw [accept_after]
    rfl
  | stray => exact congrArg Except.error (giveUp_after p s _)

lemma scanToken_after : (s.after p).scanToken = outcomeAfter p s.scanToken := by
  unfold scanToken
  rw [show (s.after p).rest = s.rest from rfl]
  cases s.rest with
  | nil => exact congrArg Except.error (giveUp_after p s _)
  | cons c text =>
    dsimp only
    rw [scanTerminator_after, acceptRead_after, scanCharacter_after, acceptRead_after, scanName_after,
      scanOpener_after, scanCloser_after, scanBar_after, acceptRead_after]
    simp only [apply_ite (outcomeAfter p)]
    rfl

/-- A step is the same with more text before. -/
theorem step_after : (s.after p).step = outcomeAfter p s.step := by
  unfold step
  rw [indentation_after, skipSpaces_after, setMark_after, scanToken_after]
  simp only [apply_ite (outcomeAfter p)]
  rfl

end Operations

/-! ## Runs -/

section Runs

variable {p : Prior} {s m : Scanner}

/-- A scanner whose step fails gives up. -/
lemma run_of_step_error {f : Failure} (hne : s.rest ≠ []) (h : s.step = .error f) : s.run = .error f := by
  rw [run, if_neg (by simpa using hne)]
  split
  · next heq => exact heq.symm.trans h
  · next heq =>
    rw [h] at heq
    cases heq

/-- Steps are the same with more text before. -/
lemma Steps.after (h : s.Steps m) : (s.after p).Steps (m.after p) := by
  induction h with
  | refl => exact .refl
  | tail _ hstep ih => exact ih.tail ⟨hstep.1, by rw [step_after, hstep.2]; rfl⟩

/-- A run is the same with more text before. -/
lemma run_after (p : Prior) (s : Scanner) : (s.after p).run = outcomeAfter p s.run := by
  cases hrun : s.run with
  | ok f =>
    obtain ⟨hsteps, hf⟩ := steps_of_run hrun
    exact (Steps.run_eq hsteps.after).trans (run_of_rest hf)
  | error f =>
    obtain ⟨m, hsteps, hne, hstep⟩ := steps_of_run_error hrun
    refine (Steps.run_eq hsteps.after).trans (run_of_step_error hne ?_)
    rw [step_after, hstep]
    rfl

/-- A whole run is the same with more text before. -/
theorem tokenize_after (p : Prior) (s : Scanner) :
    (s.after p).tokenize = outcomeAfter p s.tokenize := by
  rw [tokenize, run_after, tokenize]
  cases s.run with
  | ok f => exact congrArg Except.ok (emit_after p f.setMark .ending [])
  | error f => rfl

/-- At the start of a line it does not matter what was marked last. -/
lemma tokenize_setMark (h : s.atLineStart) : s.setMark.tokenize = s.tokenize := by
  unfold tokenize
  by_cases hrest : s.rest = []
  · rw [run_of_rest hrest, run_of_rest (s := s.setMark) hrest]
    rfl
  · have hstep {s : Scanner} (hrest : s.rest ≠ []) (h : s.atLineStart) : s.Step s.indentation :=
      ⟨hrest, step_of_start h⟩
    rw [(hstep hrest h).run_eq, (hstep (s := s.setMark) hrest h).run_eq]
    rfl

end Runs

/-! ## The end of a line -/

/-- A line feed is read, also by a scanner at the start of a line. -/
lemma exists_lineFeed {s : Scanner} {text : List Char} (hrest : s.rest = '\n' :: text) :
    ∃ (m : Scanner) (t : Token), s.Steps m ∧ m.rest = text ∧ m.atLineStart ∧ m.depth = s.depth ∧
      m.bars = s.bars ∧ m.emitted = t :: s.emitted ∧ t.Spells .newline "\n" s.offset := by
  have hinside {s : Scanner} (hin : s.atLineStart = false) (hrest : s.rest = '\n' :: text) :
      ∃ (m : Scanner) (t : Token), s.Steps m ∧ m.rest = text ∧ m.atLineStart ∧ m.depth = s.depth ∧
        m.bars = s.bars ∧ m.emitted = t :: s.emitted ∧ t.Spells .newline "\n" s.offset := by
    obtain ⟨m, hstep, hreads, hm⟩ := exists_step_of_lexes (w := ['\n']) (k := .newline) hin hrest (.inl rfl)
    obtain ⟨t, ht, hspells⟩ := hreads.emitted
    exact ⟨m, t, .single hstep, hm, by simp [hreads.start],
      hreads.depth_eq (by decide), hreads.bars_eq (by decide), ht, hspells⟩
  cases hin : s.atLineStart with
  | false => exact hinside hin hrest
  | true =>
    obtain ⟨hmoves, hmid, hemitted⟩ := indentation_blank (w := []) hrest ⟨[], [], rfl, rfl, rfl, rfl⟩ rfl
    have hstep : s.Step s.indentation := ⟨by simp [hrest], step_of_start hin⟩
    obtain ⟨m, t, hsteps, hm, hstart, hdepth, hbars, ht, hspells⟩ := hinside hmoves.start hmid
    have hoffset : s.indentation.offset = s.offset := hmoves.offset
    exact ⟨m, t, .head hstep hsteps, hm, hstart, hdepth.trans hmoves.depth, hbars.trans hmoves.bars,
      hemitted ▸ ht, hoffset ▸ hspells⟩

/-- A run that ends after a carriage return alone has read it last. -/
lemma exists_of_returned {text : List Char} {f : Scanner} (hrun : (ofText text).run = .ok f)
    (hreturned : f.returned) : ∃ (u : Scanner) (t : Token), (ofText text).Steps u ∧ u.rest = ['\r'] ∧
      f.emitted = t :: u.emitted ∧ t.kind = .newline := by
  obtain ⟨t, ht, hkind⟩ := (Option.any_eq_true _ _).1 hreturned
  simp only [Bool.and_eq_true, decide_eq_true_eq] at hkind
  obtain ⟨⟨hnewline, hlexeme⟩, hstop⟩ := hkind
  obtain ⟨ts, hts⟩ := List.head?_eq_some_iff.1 ht
  have hemitted : f.emitted.reverse = ts.reverse ++ t :: [] := by simp [hts]
  obtain ⟨u, v, w, hu, hv, -, -, hreads, -, -, hbefore, hspells⟩ :=
    exists_read hrun hemitted (by simp [hnewline])
  obtain rfl : w = ['\r'] := String.ofList_injective (hspells.lexeme_eq.symm.trans hlexeme)
  have hnil : v.rest = [] := by
    have hoffset := hv.offset_add
    have := hreads.stop_eq hspells
    rw [(steps_of_run hrun).2, List.length_nil] at hoffset
    exact List.length_eq_zero_iff.1 (by omega)
  exact ⟨u, t, hu, by rw [hreads.rest, hnil]; rfl, by rw [hts, List.reverse_injective hbefore], hnewline⟩

/-- A text whose run ends after a carriage return alone ends in one. -/
lemma getLast?_of_returned {text : List Char} {f : Scanner} (hrun : (ofText text).run = .ok f)
    (hreturned : f.returned) : text.getLast? = some '\r' := by
  obtain ⟨u, -, hu, hrest, -⟩ := exists_of_returned hrun hreturned
  obtain ⟨x, hx⟩ := hu.exists_rest
  rw [show text = x ++ u.rest from hx, hrest, List.getLast?_concat]

end Scanner

/-- A text that goes on after another one has the same places in it, unless the first one ends in a
carriage return, which a line feed may join. -/
lemma placeAt_append {text rest : List Char} (hreturn : text.getLast? ≠ some '\r') {n : Nat}
    (hn : n ≤ text.length) : placeAt (text ++ rest) n = placeAt text n := by
  have hends : ∀ i ∈ List.range (n + 1), endsLineAt (text ++ rest) i = endsLineAt text i := by
    intro i hi
    rw [List.mem_range] at hi
    cases i with
    | zero => rfl
    | succ i =>
      have hlt : i < text.length := by omega
      simp only [endsLineAt, List.getElem?_append_left hlt]
      by_cases hlast : i + 1 < text.length
      · rw [List.getElem?_append_left hlast]
      · have hne : text[i]? ≠ some '\r' := by
          rw [List.getLast?_eq_getElem?, show text.length - 1 = i by omega] at hreturn
          exact hreturn
        simp [hne]
  simp only [placeAt, lineEnds, List.filter_congr hends]

/-- Tokens that have not moved, of a text and of one that goes on, are the same. -/
lemma Token.Moved.eq_of_placedIn {text rest : List Char} {t u : Token} (h : t.Moved 0 u)
    (hreturn : text.getLast? ≠ some '\r') (ht : t.PlacedIn text) (hu : u.PlacedIn (text ++ rest)) :
    t = u := by
  obtain ⟨n, hn, hoffset, hline, hcolumn⟩ := ht
  obtain ⟨n', -, hoffset', hline', hcolumn'⟩ := hu
  have hmoved := h.offset_eq
  obtain rfl : n = n' := by omega
  rw [placeAt_append hreturn hn] at hline' hcolumn'
  cases t
  cases u
  simp only [Token.mk.injEq]
  exact ⟨h.kind_eq.symm, h.lexeme_eq.symm, hline.trans hline'.symm, hcolumn.trans hcolumn'.symm,
    hoffset.trans hoffset'.symm, h.synthetic_eq.symm⟩

namespace Scanner

/-- A text is scanned before a line feed as it is alone, unless it ends in a carriage return. -/
lemma exists_steps_of_line {text : List Char} {f : Scanner} (hrun : (ofText text).run = .ok f)
    (hreturn : text.getLast? ≠ some '\r') (text' : List Char) :
    ∃ m : Scanner, (ofText (text ++ '\n' :: text')).Steps m ∧ m.rest = '\n' :: text' ∧
      m.emitted = f.emitted ∧ m.offset = f.offset ∧ m.depth = f.depth ∧ m.bars = f.bars := by
  obtain ⟨hf, hend⟩ := steps_of_run hrun
  obtain ⟨m, hm, hmrest, halike, ts, ts', hts, hts', hmoved⟩ := Alike.steps hf
    (alike_ofText text (text ++ '\n' :: text')) (x := text) (by simp [ofText, hend]) rfl
    (by rw [hend]; exact .inr (.inr (.inl ⟨rfl, rfl⟩))) (run_of_rest hend)
    fun hreturned => absurd (getLast?_of_returned hrun hreturned) hreturn
  obtain rfl : f.emitted = ts := by simpa [ofText] using hts
  obtain rfl : m.emitted = ts' := by simpa [ofText] using hts'
  refine ⟨m, hm, hmrest, ?_, by simpa using halike.offset, halike.depth, halike.bars⟩
  have hplaced := (placed_ofText text).steps hf
  have hmplaced := (placed_ofText _).steps hm
  have hsame : List.Forall₂ (· = ·) f.emitted m.emitted :=
    List.forall₂_iff_get.2 ⟨hmoved.length_eq, fun i h h' => (hmoved.get h h').eq_of_placedIn hreturn
      (hplaced.emitted _ (List.get_mem _ _)) (hmplaced.emitted _ (List.get_mem _ _))⟩
  rw [List.forall₂_eq_eq_eq] at hsame
  exact hsame.symm

/-- A text that leaves nothing open is what stands before the next line. -/
lemma exists_prior {text : List Char} {f : Scanner} (hrun : (ofText text).run = .ok f)
    (hdepth : f.depth = 0) (hbars : f.bars = []) (hreturn : text.getLast? ≠ some '\r') (text' : List Char) :
    ∃ p : Prior, p.behind.length = text.length + 1 ∧ p.lines = f.line ∧
      p.emitted = ⟨.newline, "\n", f.line, f.column, f.offset, false⟩ :: f.emitted ∧
      (ofText (text ++ '\n' :: text')).tokenize = ((ofText text').after p).tokenize := by
  obtain ⟨m, hm, hmrest, hemitted, hmoffset, hmdepth, hmbars⟩ := exists_steps_of_line hrun hreturn text'
  obtain ⟨n, t, hn, hnrest, hstart, hndepth, hnbars, ht, hspells⟩ := exists_lineFeed hmrest
  obtain ⟨hf, hend⟩ := steps_of_run hrun
  have hlength : f.offset = text.length := by simpa [hend, ofText] using hf.offset_add
  -- the line feed stands at the end of the first text, and the scanner at the start of the next line
  have hend : placeAt (text ++ '\n' :: text') text.length = ⟨f.offset, f.line, f.column⟩ := by
    rw [placeAt_append hreturn le_rfl, ← hlength, ((placed_ofText text).steps hf).place]
  have hplaced := (placed_ofText _).steps (hm.trans hn)
  have hbehind : n.behind = '\n' :: text.reverse := by
    have htext := hplaced.text_eq
    rw [hnrest, ← List.singleton_append, ← List.append_assoc] at htext
    rw [← List.reverse_inj, ← List.append_cancel_right htext]
    simp
  have hoffset : n.offset = text.length + 1 := by
    rw [hplaced.offset_eq, hbehind]
    simp
  have hplace : (⟨n.offset, n.line, n.column⟩ : Mark) = ⟨text.length + 1, f.line + 1, 1⟩ := by
    have hends : endsLineAt (text ++ '\n' :: text') (text.length + 1) := by simp [endsLineAt]
    rw [← hplaced.place, hoffset, placeAt_succ_of_ends hends, hend]
  simp only [Mark.mk.injEq] at hplace
  have htoken : t = ⟨.newline, "\n", f.line, f.column, f.offset, false⟩ := by
    obtain ⟨i, -, hi, hline, hcolumn⟩ := hplaced.emitted t (by simp [ht])
    have hat := hspells.offset_eq
    obtain rfl : i = text.length := by omega
    rw [hend] at hline hcolumn
    rw [hmoffset] at hat
    cases t
    simp only [Token.mk.injEq]
    exact ⟨hspells.kind_eq, hspells.lexeme_eq, hline, hcolumn, hat, hspells.written⟩
  let p : Prior := ⟨'\n' :: text.reverse, t :: f.emitted, f.line, rfl, by simp [hspells.kind_eq]⟩
  refine ⟨p, by simp [p], rfl, by rw [← htoken], ?_⟩
  have hafter : n.setMark = (ofText text').after p := by
    simp only [setMark, after, ofText, Scanner.mk.injEq, List.nil_append, List.map_nil, p, Mark.mk.injEq,
      List.length_cons, List.length_reverse, Nat.zero_add, ht, hemitted, and_true]
    exact ⟨hbehind, hnrest, hoffset, by omega, hplace.2.2, hstart, by omega,
      by rw [hnbars, hmbars, hbars], hoffset, by omega, hplace.2.2⟩
  rw [← hafter, tokenize_setMark hstart, tokenize, tokenize, Steps.run_eq (hm.trans hn)]

end Scanner

open Scanner

/-- What is scanned of two texts with a line feed between them is what is scanned of each: if the first
one closes its brackets and absolute values and does not end in a carriage return, the tokens of the second
one follow, further down, after a token for the line feed at the end of the first; and if the second one is
refused, so are both, further down. -/
theorem scan_line_append {text : String} {body : List Token} {ending : Token} {f : Scanner}
    (hscan : scan text = .ok (body ++ [ending])) (hf : (ofText text.toList).tokenize = .ok f)
    (hdepth : f.depth = 0) (hbars : f.bars = []) (hreturn : text.toList.getLast? ≠ some '\r')
    (text' : String) :
    ((∃ tokens, scan (text ++ "\n" ++ text') = .ok tokens) ↔ ∃ tokens', scan text' = .ok tokens') ∧
      (∀ tokens', scan text' = .ok tokens' → scan (text ++ "\n" ++ text') = .ok (body ++
        ⟨.newline, "\n", ending.line, ending.column, ending.offset, false⟩ ::
          tokens'.map (Token.movedDown ending.line (text.length + 1)))) ∧
      ∀ failure', scan text' = .error failure' → ∃ failure, scan (text ++ "\n" ++ text') = .error failure ∧
        failure.diagnostic = { failure'.diagnostic with line := failure'.diagnostic.line + ending.line } := by
  obtain ⟨g, hrun, htokens⟩ := scan_eq_ok.1 (by rwa [String.ofList_toList])
  obtain rfl : g.setMark.emit .ending [] = f := by
    rw [tokenize, hrun] at hf
    exact Except.ok.inj hf
  obtain ⟨rfl, hending⟩ := List.append_inj' htokens rfl
  obtain rfl : ending = ⟨.ending, "", g.line, g.column, g.offset, false⟩ := by simpa using hending
  obtain ⟨p, hlength, hlines, hemitted, htokenize⟩ := exists_prior hrun hdepth hbars hreturn text'.toList
  have hboth : scan (text ++ "\n" ++ text') =
      (outcomeAfter p (ofText text'.toList).tokenize).map (·.tokens) := by
    rw [← tokenize_after, ← htokenize, scan]
    simp
  have hdistance : (p.behind.length : Int) = text.length + 1 := by simp [hlength, String.length_toList]
  rw [hboth, scan]
  cases (ofText text'.toList).tokenize with
  | error failure' =>
    refine ⟨⟨?_, ?_⟩, ?_, ?_⟩
    · rintro ⟨_, ⟨⟩⟩
    · rintro ⟨_, ⟨⟩⟩
    · rintro _ ⟨⟩
    · rintro _ ⟨⟩
      refine ⟨_, rfl, ?_⟩
      simp [Failure.diagnostic, Failure.after, after, hlines]
  | ok f' =>
    refine ⟨⟨fun _ => ⟨_, rfl⟩, fun _ => ⟨_, rfl⟩⟩, ?_, ?_⟩
    · rintro _ ⟨⟩
      simp only [outcomeAfter, Except.map, tokens, after, hemitted, hdistance, hlines]
      simp
    · rintro _ ⟨⟩

/-- A text that ends in a comment, before one that starts with a bar and before one that is refused. -/
theorem scan_line_append_comment :
    scan ("|x|\n`n" ++ "\n" ++ "|y|") = .ok ([⟨.opening, "|", 1, 1, 0, false⟩,
      ⟨.identifier, "x", 1, 2, 1, false⟩, ⟨.closing, "|", 1, 3, 2, false⟩, ⟨.newline, "\n", 1, 4, 3, false⟩] ++
        ⟨.newline, "\n", 2, 3, 6, false⟩ :: [⟨.opening, "|", 3, 1, 7, false⟩,
          ⟨.identifier, "y", 3, 2, 8, false⟩, ⟨.closing, "|", 3, 3, 9, false⟩,
          ⟨.ending, "", 3, 4, 10, false⟩]) ∧
      ∃ failure, scan ("|x|\n`n" ++ "\n" ++ "y 1x") = .error failure ∧
        failure.diagnostic = ⟨.lexical, "Invalid number suffix", 3, 3, some "1x", none⟩ := by
  obtain ⟨f, hf, hdepth, hbars⟩ :
      ∃ f, (ofText "|x|\n`n".toList).tokenize = .ok f ∧ f.depth = 0 ∧ f.bars = [] := by
    have h : (ofText "|x|\n`n".toList).tokenize.toOption.any fun f => f.depth = 0 ∧ f.bars = [] := by
      decide +kernel
    generalize (ofText "|x|\n`n".toList).tokenize = outcome at h
    cases outcome with
    | error failure => cases h
    | ok f => exact ⟨f, rfl, by simpa [Except.toOption] using h⟩
  have hscan : scan "|x|\n`n" = .ok ([⟨.opening, "|", 1, 1, 0, false⟩, ⟨.identifier, "x", 1, 2, 1, false⟩,
      ⟨.closing, "|", 1, 3, 2, false⟩, ⟨.newline, "\n", 1, 4, 3, false⟩] ++
        [⟨.ending, "", 2, 3, 6, false⟩]) := by
    decide +kernel
  have happend := scan_line_append hscan hf hdepth hbars (by decide +kernel)
  refine ⟨(happend "|y|").2.1 [⟨.opening, "|", 1, 1, 0, false⟩, ⟨.identifier, "y", 1, 2, 1, false⟩,
    ⟨.closing, "|", 1, 3, 2, false⟩, ⟨.ending, "", 1, 4, 3, false⟩] (by decide +kernel), ?_⟩
  have hrefused : (scan "y 1x").mapError Failure.diagnostic =
      .error ⟨.lexical, "Invalid number suffix", 1, 3, some "1x", none⟩ := by
    decide +kernel
  have hfurther := (happend "y 1x").2.2
  generalize scan "y 1x" = outcome at hrefused hfurther
  cases outcome with
  | ok tokens => cases hrefused
  | error failure' =>
    obtain ⟨failure, hfailure, hdiagnostic⟩ := hfurther failure' rfl
    have hsame : failure'.diagnostic = ⟨.lexical, "Invalid number suffix", 1, 3, some "1x", none⟩ :=
      Except.error.inj hrefused
    exact ⟨failure, hfailure, by rw [hdiagnostic, hsame]; rfl⟩

end SignLang
