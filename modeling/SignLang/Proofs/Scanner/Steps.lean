import SignLang.Proofs.Scanner.Tokens

/-!
# Steps of the scanner

One step of the scanner reads a token, spaces between tokens, or the start of a line, and the text that it
moves over says which (`Scanner.Stepped`). A run is a chain of steps up to the end of the text
(`steps_of_run`, `Steps.run_eq`), so what a step keeps is kept by a run.
-/

namespace SignLang

open Lexeme

namespace Scanner

/-! ## Any step -/

/-- The scanner `m` is `s` moved over the text inside of a line. -/
structure Moves (s : Scanner) (w : List Char) (m : Scanner) : Prop where
  rest : s.rest = w ++ m.rest
  behind : m.behind = w.reverse ++ s.behind
  offset : m.offset = s.offset + w.length
  start : m.atLineStart = false
  depth : m.depth = s.depth
  bars : m.bars = s.bars

/-- A blank line or a comment, without what ends it. -/
def IsBlank (w : List Char) : Prop :=
  ∃ spaces comment : List Char, w = spaces ++ comment ∧ spaces.all isSpace ∧
    comment.head?.all (· = tick) ∧ comment.all (!isTerminator ·)

/-- A character that starts the first token of a line. -/
def isInk (c : Char) : Bool :=
  !isGap c && c ≠ tick

/-- One step of the scanner: a token, spaces between tokens, a line without tokens up to its end, or
the margin of a line with tokens, whose tabs are a token. -/
inductive Stepped (s m : Scanner) (w : List Char) : Prop
  | token {k : Kind} : s.atLineStart = false → s.Reads k w m → s.Lexes m.rest w k → Stepped s m w
  | spaces : s.atLineStart = false → w ≠ [] → w.all isSpace → m.rest.head?.any isSpace = false →
      s.Moves w m → m.emitted = s.emitted → Stepped s m w
  | blank : s.atLineStart → IsBlank w → m.rest.head?.all isTerminator → s.Moves w m →
      m.emitted = s.emitted → Stepped s m w
  | margin : s.atLineStart → w.all isSpace → m.rest.head?.any isInk → s.Moves w m →
      (if w.head? = some '\t' then ∃ t : Token, m.emitted = t :: s.emitted ∧
        t.Spells .indent (String.ofList (w.takeWhile (· = '\t'))) s.offset
      else m.emitted = s.emitted) → Stepped s m w

/-- A step moves over a front of the text. -/
lemma Stepped.rest {s m : Scanner} {w : List Char} (h : s.Stepped m w) : s.rest = w ++ m.rest := by
  cases h with
  | token _ h _ => exact h.rest
  | spaces _ _ _ _ h _ | blank _ _ _ h _ | margin _ _ _ h _ => exact h.rest

/-- A step moves the scanner by as many places as it uses up characters. -/
lemma Stepped.offset {s m : Scanner} {w : List Char} (h : s.Stepped m w) :
    m.offset = s.offset + w.length := by
  cases h with
  | token _ h _ => exact h.offset
  | spaces _ _ _ _ h _ | blank _ _ _ h _ | margin _ _ _ h _ => exact h.offset

/-- Moving over a front of the text. -/
lemma moves_advance {s : Scanner} {w r : List Char} (hrest : s.rest = w ++ r)
    (hin : s.atLineStart = false) : s.Moves w (s.advance w.length) ∧ (s.advance w.length).rest = r := by
  have htake : s.rest.take w.length = w := by rw [hrest, List.take_left]
  have hdrop : (s.advance w.length).rest = r := by
    rw [rest_advance, hrest, List.drop_left]
  refine ⟨⟨by rw [hdrop, hrest], ?_, ?_, hin, rfl, rfl⟩, hdrop⟩
  · change (s.rest.take w.length).reverse ++ s.behind = _
    rw [htake]
  · change s.offset + (s.rest.take w.length).length = _
    rw [htake]

/-- Moving twice is moving over both texts. -/
lemma Moves.trans {s m n : Scanner} {v w : List Char} (h : s.Moves v m) (h' : m.Moves w n) :
    s.Moves (v ++ w) n := by
  refine ⟨?_, ?_, ?_, h'.start, h'.depth.trans h.depth, h'.bars.trans h.bars⟩
  · rw [h.rest, h'.rest, List.append_assoc]
  · rw [h'.behind, h.behind, List.reverse_append, List.append_assoc]
  · rw [h'.offset, h.offset, List.length_append, Nat.add_assoc]

/-- Behind a text that the scanner has moved over is its last character. -/
lemma Moves.head?_behind {s m : Scanner} {w : List Char} (h : s.Moves w m) (hw : w ≠ []) :
    m.behind.head? = w.getLast? := by
  rw [h.behind, List.head?_append_of_ne_nil _ (by simpa using hw), List.head?_reverse]

/-- Behind spaces that the scanner has moved over is a space. -/
lemma Moves.gap_of_spaces {s m : Scanner} {w : List Char} (h : s.Moves w m) (hw : w ≠ [])
    (hall : w.all isSpace) : m.behind.head?.all isGap := by
  rw [h.head?_behind hw, List.getLast?_eq_some_getLast hw]
  have hspace := List.all_eq_true.1 hall _ (List.getLast_mem hw)
  simp [isGap, hspace]

/-- A scanner before spaces is not before the end of a line. -/
lemma Moves.not_isTerminator {s m : Scanner} {w : List Char} (h : s.Moves w m) (hne : w ≠ [])
    (hall : w.all isSpace) : s.rest.head?.all isTerminator = false := by
  obtain ⟨c, cs, rfl⟩ := List.exists_cons_of_ne_nil hne
  have hspace : isSpace c := List.all_eq_true.1 hall c List.mem_cons_self
  rw [h.rest]
  obtain rfl | rfl := isSpace_iff.1 hspace <;> rfl

/-- What follows the longest run of a class is not of the class. -/
lemma head?_dropWhile_any (p : Char → Bool) (text : List Char) :
    (text.dropWhile p).head?.any p = false := by
  have := List.head?_dropWhile_not p text
  cases h : (text.dropWhile p).head? with
  | none => rfl
  | some c =>
    rw [h] at this
    simpa using this

/-- The end of a margin: a blank line and a comment have none. -/
def closeMargin (m : Scanner) (tabs : List Char) : Scanner :=
  match m.rest with
  | [] => m
  | c :: _ =>
    if isTerminator c then m
    else if c = tick then m.skipComment
    else if tabs.isEmpty then m
    else m.emit .indent tabs

/-- The tabs at the front of a text are those of the spaces at its front. -/
lemma takeWhile_tab {w r : List Char} (hr : r.head?.any isSpace = false) :
    (w ++ r).takeWhile (· = '\t') = w.takeWhile (· = '\t') := by
  induction w with
  | nil =>
    cases r with
    | nil => rfl
    | cons c r =>
      have hc : c ≠ '\t' := by
        rintro rfl
        exact absurd (show isSpace '\t' = false from hr) (by decide)
      simp [hc]
  | cons c w ih => rw [List.cons_append, List.takeWhile_cons, List.takeWhile_cons, ih]

/-- Spaces have tabs at their front if they start with one. -/
lemma takeWhile_tab_eq_nil_iff {w : List Char} : w.takeWhile (· = '\t') = [] ↔ w.head? ≠ some '\t' := by
  cases w with
  | nil => simp
  | cons c w => simp [List.takeWhile_cons]

/-- The start of a line is read up to the end of its spaces, and then by what follows them. -/
lemma indentation_eq {s : Scanner} {w r : List Char} (hrest : s.rest = w ++ r) (hw : w.all isSpace)
    (hr : r.head?.any isSpace = false) :
    ∃ m : Scanner, s.Moves w m ∧ m.rest = r ∧ m.emitted = s.emitted ∧
      m.mark = ⟨s.offset, s.line, s.column⟩ ∧
      s.indentation = closeMargin m (w.takeWhile (· = '\t')) := by
  have htabs : s.rest.takeWhile (· = '\t') = w.takeWhile (· = '\t') := by
    rw [hrest, takeWhile_tab hr]
  have hsplit : w.takeWhile (· = '\t') ++ w.dropWhile (· = '\t') = w :=
    List.takeWhile_append_dropWhile
  generalize w.takeWhile (· = '\t') = tabs at htabs hsplit ⊢
  generalize w.dropWhile (· = '\t') = more at hsplit
  subst hsplit
  have hmore : more.all isSpace := by
    rw [List.all_append, Bool.and_eq_true] at hw
    exact hw.2
  let start : Scanner := { s.setMark with atLineStart := false }
  obtain ⟨hmoves, hmid⟩ := moves_advance (s := start) (w := tabs) (r := more ++ r)
    (hrest.trans (List.append_assoc _ _ _)) rfl
  obtain ⟨hmoves', hend⟩ := moves_advance (w := more) hmid rfl
  have hskip : (start.advance tabs.length).skipSpaces =
      (start.advance tabs.length).advance more.length := by
    rw [skipSpaces, hmid, takeWhile_append_of_all hmore hr]
  have hall := hmoves.trans hmoves'
  refine ⟨(start.advance tabs.length).advance more.length, ⟨hall.rest, hall.behind, hall.offset,
    hall.start, hall.depth, hall.bars⟩, hend, rfl, rfl, ?_⟩
  have hind : s.indentation = closeMargin
      (start.advance (s.rest.takeWhile (· = '\t')).length).skipSpaces
      (s.rest.takeWhile (· = '\t')) := rfl
  rw [hind, htabs, hskip]

/-- A line without tokens is read up to its end. -/
lemma indentation_blank {s : Scanner} {w r : List Char} (hrest : s.rest = w ++ r) (hw : IsBlank w)
    (hr : r.head?.all isTerminator) :
    s.Moves w s.indentation ∧ s.indentation.rest = r ∧ s.indentation.emitted = s.emitted := by
  obtain ⟨spaces, comment, rfl, hspaces, htick, hcomment⟩ := hw
  rw [List.append_assoc] at hrest
  cases comment with
  | nil =>
    have hspace : r.head?.any isSpace = false := by
      cases r with
      | nil => rfl
      | cons c r =>
        have hc : isTerminator c := by simpa using hr
        obtain rfl | rfl := isTerminator_iff.1 hc <;> rfl
    obtain ⟨m, hmoves, hm, hemitted, -, heq⟩ := indentation_eq hrest hspaces hspace
    have hclose : s.indentation = m := by
      rw [heq, closeMargin, hm]
      cases r with
      | nil => rfl
      | cons c r => exact if_pos (by simpa using hr)
    rw [hclose, List.append_nil]
    exact ⟨hmoves, hm, hemitted⟩
  | cons c cs =>
    obtain rfl : c = tick := by simpa using htick
    obtain ⟨m, hmoves, hm, hemitted, -, heq⟩ := indentation_eq hrest hspaces rfl
    have hlength : (m.rest.takeWhile (!isTerminator ·)).length = (tick :: cs).length := by
      rw [hm, takeWhile_append_of_all hcomment]
      cases r with
      | nil => rfl
      | cons c r =>
        have hc : isTerminator c := by simpa using hr
        simp [hc]
    have hclose : s.indentation = m.advance (tick :: cs).length := by
      rw [heq, closeMargin, hm, List.cons_append]
      change m.skipComment = _
      rw [skipComment, hlength]
    obtain ⟨hmoves', hend⟩ := moves_advance hm hmoves.start
    rw [hclose]
    exact ⟨hmoves.trans hmoves', hend, hemitted⟩

/-- The margin of a line with tokens is read up to the first of them. -/
lemma indentation_margin {s : Scanner} {w r : List Char} (hrest : s.rest = w ++ r) (hw : w.all isSpace)
    (hr : r.head?.any isInk) :
    s.Moves w s.indentation ∧ s.indentation.rest = r ∧
      if w.head? = some '\t' then ∃ t : Token, s.indentation.emitted = t :: s.emitted ∧
        t.Spells .indent (String.ofList (w.takeWhile (· = '\t'))) s.offset
      else s.indentation.emitted = s.emitted := by
  obtain ⟨c, text, rfl⟩ : ∃ c text, r = c :: text := by
    cases r with
    | nil => cases hr
    | cons c text => exact ⟨c, text, rfl⟩
  have hc : isInk c := by simpa using hr
  simp only [isInk, isGap, Bool.and_eq_true, Bool.not_eq_true', Bool.or_eq_false_iff,
    decide_eq_true_eq] at hc
  obtain ⟨m, hmoves, hm, hemitted, hmark, heq⟩ := indentation_eq hrest hw (by simpa using hc.1.1)
  have hclose : s.indentation = if w.head? ≠ some '\t' then m
      else m.emit .indent (w.takeWhile (· = '\t')) := by
    rw [heq, closeMargin, hm]
    simp only [hc.1.2, hc.2, List.isEmpty_iff, takeWhile_tab_eq_nil_iff, Bool.false_eq_true, if_false]
  rw [hclose]
  by_cases htab : w.head? = some '\t'
  · rw [if_neg (not_not.2 htab), if_pos htab]
    refine ⟨⟨hmoves.rest, hmoves.behind, hmoves.offset, hmoves.start, hmoves.depth, hmoves.bars⟩, hm, _,
      by rw [← hemitted]; rfl, rfl, rfl, ?_, rfl⟩
    change (m.mark.offset : Int) = _
    rw [hmark]
  · rw [if_pos htab, if_neg htab]
    exact ⟨hmoves, hm, hemitted⟩

/-- Every text starts with a line without tokens or with a margin. -/
lemma exists_margin (text : List Char) : ∃ w r, text = w ++ r ∧
    (IsBlank w ∧ r.head?.all isTerminator ∨ w.all isSpace ∧ r.head?.any isInk) := by
  have hsplit := List.takeWhile_append_dropWhile (p := isSpace) (l := text)
  have hall : (text.takeWhile isSpace).all isSpace := List.all_takeWhile
  have hend := head?_dropWhile_any isSpace text
  generalize text.takeWhile isSpace = w at *
  generalize text.dropWhile isSpace = r at *
  subst hsplit
  cases r with
  | nil => exact ⟨w, [], rfl, .inl ⟨⟨w, [], by simp, hall, rfl, rfl⟩, rfl⟩⟩
  | cons c r =>
    have hspace : isSpace c = false := by simpa using hend
    by_cases hterm : isTerminator c
    · exact ⟨w, c :: r, rfl, .inl ⟨⟨w, [], by simp, hall, rfl, rfl⟩, by simpa using hterm⟩⟩
    by_cases htick : c = tick
    · have hsplit := List.takeWhile_append_dropWhile (p := (!isTerminator ·)) (l := c :: r)
      have hnot := head?_dropWhile_any (!isTerminator ·) (c :: r)
      refine ⟨w ++ (c :: r).takeWhile (!isTerminator ·), (c :: r).dropWhile (!isTerminator ·), ?_,
        .inl ⟨⟨w, _, rfl, hall, ?_, List.all_takeWhile⟩, ?_⟩⟩
      · rw [List.append_assoc, hsplit]
      · rw [List.takeWhile_cons_of_pos (by simp [hterm])]
        simpa using htick
      · cases h : ((c :: r).dropWhile (!isTerminator ·)).head? with
        | none => rfl
        | some d =>
          rw [h] at hnot
          simpa using hnot
    · exact ⟨w, c :: r, rfl, .inr ⟨hall, by simp [isInk, isGap, hspace, hterm, htick]⟩⟩

/-- At the start of a line a step reads the line's margin. -/
lemma step_of_start {s : Scanner} (h : s.atLineStart) : s.step = .ok s.indentation := by
  rw [step, if_pos h]

/-- A step of the scanner is one of the four. -/
theorem stepped_of_step {s m : Scanner} (h : s.step = .ok m) : ∃ w, s.Stepped m w := by
  unfold step at h
  split at h
  · next hstart =>
    cases h
    obtain ⟨w, r, hrest, ⟨hw, hr⟩ | ⟨hw, hr⟩⟩ := exists_margin s.rest
    · obtain ⟨hmoves, hm, hemitted⟩ := indentation_blank hrest hw hr
      exact ⟨w, .blank hstart hw (hm ▸ hr) hmoves hemitted⟩
    · obtain ⟨hmoves, hm, hemitted⟩ := indentation_margin hrest hw hr
      exact ⟨w, .margin hstart hw (hm ▸ hr) hmoves hemitted⟩
  · next hstart =>
    rw [Bool.not_eq_true] at hstart
    split at h
    · next hhead =>
      cases h
      obtain ⟨hmoves, hr⟩ := moves_advance
        (List.takeWhile_append_dropWhile (p := isSpace) (l := s.rest)).symm hstart
      refine ⟨s.rest.takeWhile isSpace, .spaces hstart ?_ List.all_takeWhile ?_ hmoves rfl⟩
      · cases hrest : s.rest with
        | nil =>
          rw [hrest] at hhead
          cases hhead
        | cons c text =>
          rw [hrest] at hhead
          have hc : isSpace c := by simpa using hhead
          rw [List.takeWhile_cons_of_pos hc]
          simp
      · rw [skipSpaces, hr]
        exact head?_dropWhile_any isSpace s.rest
    · obtain ⟨k, w, hreads, hlexes⟩ := scanToken_inv hstart h
      exact ⟨w, .token hstart hreads hlexes⟩

/-! ## Runs -/

/-- The scanner takes a step, which it does as long as there is text. -/
def Step (s m : Scanner) : Prop :=
  s.rest ≠ [] ∧ s.step = .ok m

/-- The scanner takes any number of steps. -/
def Steps : Scanner → Scanner → Prop :=
  Relation.ReflTransGen Step

/-- A step moves over some front of the text. -/
lemma Step.stepped {s m : Scanner} (h : s.Step m) : ∃ w, s.Stepped m w :=
  stepped_of_step h.2

/-- A token that stands at the front of the text inside of a line is read by a step. -/
lemma exists_step_of_lexes {s : Scanner} {k : Kind} {w r : List Char} (hin : s.atLineStart = false)
    (hrest : s.rest = w ++ r) (h : s.Lexes r w k) : ∃ m, s.Step m ∧ s.Reads k w m ∧ m.rest = r := by
  obtain ⟨hw, hspace⟩ := h.head?_isSpace
  obtain ⟨m, hscan, hreads, hm⟩ := scanToken_of_lexes hin hrest h
  refine ⟨m, ⟨by simp [hrest, hw], ?_⟩, hreads, hm⟩
  rw [step, if_neg (by simp [hin]), if_neg ?_]
  · exact hscan
  · rw [hrest, List.head?_append_of_ne_nil _ hw, hspace]
    simp

/-- Spaces inside of a line are skipped by a step. -/
lemma exists_step_of_spaces {s : Scanner} {w r : List Char} (hin : s.atLineStart = false)
    (hrest : s.rest = w ++ r) (hw : w ≠ []) (hall : w.all isSpace) (hr : r.head?.any isSpace = false) :
    ∃ m, s.Step m ∧ s.Moves w m ∧ m.rest = r ∧ m.emitted = s.emitted := by
  obtain ⟨hmoves, hm⟩ := moves_advance hrest hin
  refine ⟨s.advance w.length, ⟨by simp [hrest, hw], ?_⟩, hmoves, hm, rfl⟩
  have hspace : s.rest.head?.any isSpace := by
    obtain ⟨c, cs, rfl⟩ := List.exists_cons_of_ne_nil hw
    rw [hrest]
    exact List.all_eq_true.1 hall c List.mem_cons_self
  rw [step, if_neg (by simp [hin]), if_pos hspace, skipSpaces, hrest, takeWhile_append_of_all hall hr]

/-- A step is part of the run. -/
lemma Step.run_eq {s m : Scanner} (h : s.Step m) : s.run = m.run := by
  rw [run, if_neg (by simpa using h.1)]
  split
  · next heq => rw [h.2] at heq; cases heq
  · next heq => rw [h.2] at heq; cases heq; rfl

/-- Steps are part of the run. -/
lemma Steps.run_eq {s m : Scanner} (h : s.Steps m) : s.run = m.run := by
  induction h with
  | refl => rfl
  | tail _ h ih => exact ih.trans h.run_eq

/-- A scanner at the end of the text has run. -/
lemma run_of_rest {s : Scanner} (h : s.rest = []) : s.run = .ok s := by
  rw [run, if_pos (by simp [h])]

/-- A run takes steps to the end of the text. -/
lemma steps_of_run {s f : Scanner} (h : s.run = .ok f) : s.Steps f ∧ f.rest = [] := by
  induction hn : s.effort using Nat.strongRecOn generalizing s with
  | ind n ih =>
    rw [run] at h
    split at h
    · next hempty =>
      cases h
      exact ⟨.refl, by simpa using hempty⟩
    · next hne =>
      split at h
      · cases h
      · next m hstep =>
        obtain ⟨hsteps, hf⟩ := ih m.effort (hn ▸ effort_step_lt hstep) h rfl
        exact ⟨.head ⟨by simpa using hne, hstep⟩ hsteps, hf⟩

/-- Steps move over some front of the text. -/
lemma Steps.exists_rest {s m : Scanner} (h : s.Steps m) : ∃ x, s.rest = x ++ m.rest := by
  induction h with
  | refl => exact ⟨[], rfl⟩
  | tail _ h ih =>
    obtain ⟨x, hx⟩ := ih
    obtain ⟨w, hw⟩ := h.stepped
    exact ⟨x ++ w, by rw [hx, hw.rest, List.append_assoc]⟩

/-- A step over no character leaves the scanner where it is, inside of its line. -/
lemma Stepped.of_nil {s m : Scanner} (h : s.Stepped m []) :
    m.emitted = s.emitted ∧ m.offset = s.offset ∧ m.atLineStart = false := by
  cases h with
  | token _ _ h => exact absurd rfl h.head?_isSpace.1
  | spaces _ hw => exact absurd rfl hw
  | blank _ _ _ h hemitted => exact ⟨hemitted, h.offset, h.start⟩
  | margin _ _ _ h hemitted => exact ⟨hemitted, h.offset, h.start⟩

/-- Steps over no character leave the scanner where it is. -/
lemma Steps.of_rest_eq {s m : Scanner} (h : s.Steps m) (hrest : s.rest = m.rest) :
    m.emitted = s.emitted ∧ m.offset = s.offset := by
  induction h using Relation.ReflTransGen.head_induction_on with
  | refl => exact ⟨rfl, rfl⟩
  | @head s s₁ h hsteps ih =>
    obtain ⟨w, hw⟩ := h.stepped
    obtain ⟨x, hx⟩ := Steps.exists_rest hsteps
    have hnil : w ++ x = [] := by
      have := hrest
      rw [hw.rest, hx, ← List.append_assoc] at this
      exact List.append_left_eq_self.1 this
    obtain ⟨rfl, rfl⟩ := List.append_eq_nil_iff.1 hnil
    obtain ⟨hemitted, hoffset, -⟩ := hw.of_nil
    obtain ⟨ih, ih'⟩ := ih hx
    exact ⟨ih.trans hemitted, ih'.trans hoffset⟩

/-- No token that is read starts with a point. -/
lemma head?_ne_point {s f : Scanner} (h : s.run = .ok f) : s.rest.head? ≠ some '.' := by
  intro hhead
  have hline {s : Scanner} (hin : s.atLineStart = false) (h : s.run = .ok f) :
      s.rest.head? ≠ some '.' := by
    intro hhead
    obtain ⟨hsteps, hf⟩ := steps_of_run h
    obtain heq | ⟨m, hstep, -⟩ := Relation.ReflTransGen.cases_head hsteps
    · rw [heq, hf] at hhead
      cases hhead
    obtain ⟨w, hw⟩ := hstep.stepped
    rw [hw.rest] at hhead
    cases hw with
    | token _ _ hlexes =>
      obtain ⟨c, cs, rfl, hc⟩ := hlexes.exists_starter
      obtain rfl : c = '.' := by simpa using hhead
      exact absurd hc (by decide)
    | spaces _ hne hall =>
      cases w with
      | nil => exact hne rfl
      | cons c w =>
        obtain rfl : c = '.' := by simpa using hhead
        rw [List.all_cons, Bool.and_eq_true] at hall
        exact absurd hall.1 (by decide)
    | blank hstart | margin hstart =>
      rw [hin] at hstart
      cases hstart
  cases hin : s.atLineStart with
  | false => exact hline hin h hhead
  | true =>
    obtain ⟨hsteps, hf⟩ := steps_of_run h
    obtain heq | ⟨m, hstep, hsteps⟩ := Relation.ReflTransGen.cases_head hsteps
    · rw [heq, hf] at hhead
      cases hhead
    have hm : m.run = .ok f := (Steps.run_eq hsteps).trans (run_of_rest hf)
    obtain ⟨w, hw⟩ := hstep.stepped
    have hrest := hw.rest
    rw [hrest] at hhead
    have hblank : IsBlank w := by
      cases hw with
      | token hfalse | spaces hfalse =>
        rw [hin] at hfalse
        cases hfalse
      | blank _ hw => exact hw
      | margin _ hw => exact ⟨w, [], by simp, hw, rfl, rfl⟩
    cases w with
    | nil => exact hline hw.of_nil.2.2 hm hhead
    | cons c w =>
      obtain rfl : c = '.' := by simpa using hhead
      obtain ⟨spaces, comment, heq, hspaces, htick, -⟩ := hblank
      cases spaces with
      | cons d spaces =>
        cases heq
        rw [List.all_cons, Bool.and_eq_true] at hspaces
        exact absurd hspaces.1 (by decide)
      | nil =>
        rw [List.nil_append] at heq
        rw [← heq] at htick
        exact absurd (show decide ('.' = tick) = true from htick) (by decide)

/-- Steps move the scanner by as many places as they use up characters. -/
lemma Steps.offset_add {s m : Scanner} (h : s.Steps m) :
    m.offset + m.rest.length = s.offset + s.rest.length := by
  induction h with
  | refl => rfl
  | tail _ h ih =>
    obtain ⟨w, hw⟩ := h.stepped
    have hrest := congrArg List.length hw.rest
    rw [List.length_append] at hrest
    have hoffset := hw.offset
    omega

/-- Steps emit tokens after those that the scanner has. -/
lemma Steps.exists_emitted {s m : Scanner} (h : s.Steps m) : ∃ ts, m.emitted = ts ++ s.emitted := by
  induction h with
  | refl => exact ⟨[], rfl⟩
  | tail _ h ih =>
    obtain ⟨ts, hts⟩ := ih
    rcases emits_step h.2 with heq | ⟨t, heq, -⟩
    · exact ⟨ts, heq.trans hts⟩
    · exact ⟨t :: ts, by rw [heq, hts]; rfl⟩

/-- A token that steps have emitted was emitted by one of them. -/
lemma Steps.exists_step {s f : Scanner} (h : s.Steps f) {before after : List Token} {t : Token}
    (ht : f.emitted.reverse = before ++ t :: after) (hs : s.emitted.length ≤ before.length) :
    ∃ u v, s.Steps u ∧ u.Step v ∧ v.Steps f ∧ v.emitted = t :: u.emitted ∧
      u.emitted.reverse = before := by
  induction h using Relation.ReflTransGen.head_induction_on with
  | refl =>
    have := congrArg List.length ht
    rw [List.length_reverse, List.length_append, List.length_cons] at this
    omega
  | @head s s₁ h hsteps ih =>
    by_cases hlength : s₁.emitted.length ≤ before.length
    · obtain ⟨u, v, hu, huv, hv⟩ := ih hlength
      exact ⟨u, v, .head h hu, huv, hv⟩
    rcases emits_step h.2 with heq | ⟨x, heq, -⟩
    · rw [heq] at hlength
      exact absurd hs hlength
    obtain ⟨ts, hts⟩ := Steps.exists_emitted hsteps
    rw [hts, heq, List.reverse_append, List.reverse_cons, List.append_assoc] at ht
    rw [heq, List.length_cons] at hlength
    obtain ⟨hbefore, hrest⟩ := List.append_inj ht (by rw [List.length_reverse]; omega)
    obtain ⟨rfl, -⟩ := List.cons.inj hrest
    exact ⟨s, s₁, .refl, h, hsteps, heq, hbefore⟩

end Scanner

/-- A text is scanned by a run over it. -/
lemma scan_eq_ok {text : List Char} {tokens : List Token} :
    scan (String.ofList text) = .ok tokens ↔ ∃ f : Scanner, (Scanner.ofText text).run = .ok f ∧
      tokens = f.emitted.reverse ++ [⟨.ending, "", f.line, f.column, f.offset, false⟩] := by
  unfold scan Scanner.tokenize
  rw [String.toList_ofList]
  cases hrun : (Scanner.ofText text).run with
  | error failure =>
    constructor
    · intro h
      cases h
    · rintro ⟨f, h, -⟩
      cases h
  | ok f =>
    have htokens : (f.setMark.emit .ending []).tokens =
        f.emitted.reverse ++ [⟨.ending, "", f.line, f.column, f.offset, false⟩] := by
      simp [Scanner.tokens, Scanner.emit, Scanner.setMark]
    change Except.ok (f.setMark.emit .ending []).tokens = _ ↔ _
    rw [htokens]
    constructor
    · intro h
      cases h
      exact ⟨f, rfl, rfl⟩
    · rintro ⟨g, hg, rfl⟩
      cases hg
      rfl

end SignLang
