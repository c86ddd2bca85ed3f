import SignLang.Proofs.Layout.Matching
import SignLang.Proofs.Scanner.Payload

/-!
# Texts that differ at a seam

A part of a text is replaced by another one, which is read as line ends only, or as nothing. What stands
before the seam is read as before, and what stands after it too, moved by a distance: no token touches
another one across the seam, neither before nor after the change (`Seam`).

* `Scanner.Steps.exists_between`: tokens are emitted in the order of the text.
* `Scanner.steps_trivia`: blank lines and comments are read as line ends.
* `scan_of_seam`: the tokens of the two texts write matching lines.
-/

namespace SignLang

open Lexeme

/-! ## Places -/

/-- Offsets up to `n` stay, and those after it move by a distance, but not back across it. -/
def Seam (n distance : Int) (i j : Int) : Prop :=
  i ≤ n ∧ j = i ∨ n < i ∧ n < j ∧ j = i + distance

lemma Seam.biUnique (n distance : Int) : Relator.BiUnique (Seam n distance) := by
  constructor
  · rintro i j k (⟨_, _⟩ | ⟨_, _, _⟩) (⟨_, _⟩ | ⟨_, _, _⟩) <;> omega
  · rintro i j k (⟨_, _⟩ | ⟨_, _, _⟩) (⟨_, _⟩ | ⟨_, _, _⟩) <;> omega

namespace Token

/-- The token is written between two offsets. -/
structure Between (lo hi : Int) (t : Token) : Prop where
  written : t.synthetic = false
  inside : t.kind ≠ .ending
  le_offset : lo ≤ t.offset
  stop_le : t.stop ≤ hi

lemma Between.mono {lo lo' hi hi' : Int} {t : Token} (h : t.Between lo hi) (hlo : lo' ≤ lo)
    (hhi : hi ≤ hi') : t.Between lo' hi' :=
  ⟨h.written, h.inside, hlo.trans h.le_offset, h.stop_le.trans hhi⟩

lemma offset_le_stop (t : Token) : t.offset ≤ t.stop := by
  rw [stop]
  omega

variable {n distance lo hi : Int} {t t' : Token}

/-- A token before the seam stays where it is. -/
lemma Moved.matches_before (h : t.Moved 0 t') (ht : t.Between lo hi) (hhi : hi ≤ n) :
    t.Matches (Seam n distance) t' := by
  have hstop := h.stop_eq
  have hoffset := h.offset_eq
  have hle := ht.stop_le
  have hle' := t.offset_le_stop
  exact ⟨h.toSame, ht.inside, fun _ => ⟨.inl ⟨by omega, by omega⟩, .inl ⟨by omega, by omega⟩⟩⟩

/-- A token after the seam moves. -/
lemma Moved.matches_after (h : t.Moved distance t') (ht : t.Between lo hi) (hlo : n < lo)
    (hlo' : n < lo + distance) : t.Matches (Seam n distance) t' := by
  have hstop := h.stop_eq
  have hoffset := h.offset_eq
  have hle := ht.le_offset
  have hle' := t.offset_le_stop
  exact ⟨h.toSame, ht.inside, fun _ =>
    ⟨.inr ⟨by omega, by omega, by omega⟩, .inr ⟨by omega, by omega, by omega⟩⟩⟩

end Token

/-- Matching tokens before matching lines write matching lines. -/
lemma Lined.append {place : Int → Int → Prop} {xs xs' ys ys' : List Token}
    (h : List.Forall₂ (Token.Matches place) xs xs') (hys : ∀ b, Lined place 0 b ys ys') (b : Bool) :
    Lined place 0 b (xs ++ ys) (xs' ++ ys') := by
  induction h generalizing b with
  | nil => exact hys b
  | @cons t t' xs xs' ht _ ih =>
    by_cases hnewline : t.kind = .newline
    · exact .newline hnewline (ht.kind_eq.trans hnewline) (ih true)
    by_cases hindent : t.kind = .indent
    · exact .indent hindent (ht.kind_eq.trans hindent) ht.level_eq (ih false)
    · exact .word (.inl rfl) (by simp [Token.isContent, hnewline, hindent, ht.inside]) ht (ih false)

/-- At the start of a line, line ends make no difference. -/
lemma Lined.blanks {place : Int → Int → Prop} {k : Nat} {ns ns' ys ys' : List Token}
    (hns : ∀ t ∈ ns, t.kind = .newline) (hns' : ∀ t ∈ ns', t.kind = .newline)
    (hys : Lined place k true ys ys') : Lined place k true (ns ++ ys) (ns' ++ ys') := by
  induction ns with
  | nil =>
    induction ns' with
    | nil => exact hys
    | cons t ns' ih =>
      rw [List.forall_mem_cons] at hns'
      exact .blank' hns'.1 (ih hns'.2)
  | cons t ns ih =>
    rw [List.forall_mem_cons] at hns
    exact .blank hns.1 (ih hns.2)

/-! ## Blank lines and comments -/

/-- Blank lines and comments, each with the character that ends it. -/
inductive Trivia : List Char → Prop where
  | nil : Trivia []
  | line {w : List Char} {c : Char} {text : List Char} :
    Scanner.IsBlank w →
    isTerminator c →
    Trivia text →
    Trivia (w ++ c :: text)

/-- A line end before trivia is trivia. -/
lemma Trivia.cons {c : Char} {text : List Char} (h : Trivia text) (hc : isTerminator c) :
    Trivia (c :: text) :=
  .line (w := []) ⟨[], [], rfl, rfl, rfl, rfl⟩ hc h

lemma Trivia.append {a b : List Char} (ha : Trivia a) (hb : Trivia b) : Trivia (a ++ b) := by
  induction ha with
  | nil => exact hb
  | line hw hc _ ih =>
    rw [List.append_assoc, List.cons_append]
    exact .line hw hc ih

/-- What follows a line end at the front of trivia is trivia. -/
lemma Trivia.of_cons {c : Char} {text : List Char} (hc : isTerminator c) (h : Trivia (c :: text)) :
    Trivia text := by
  generalize heq : c :: text = all at h
  cases h with
  | nil => cases heq
  | @line w d rest hw hd hrest =>
    cases w with
    | nil =>
      obtain ⟨-, rfl⟩ := List.cons.inj heq
      exact hrest
    | cons e w =>
      -- a blank or a comment does not start with a line end
      obtain ⟨rfl, -⟩ := List.cons.inj heq
      obtain ⟨spaces, comment, hsplit, hspaces, -, hcomment⟩ := hw
      rw [isTerminator_iff] at hc
      cases spaces with
      | nil =>
        rw [List.nil_append] at hsplit
        rw [← hsplit, List.all_cons, Bool.and_eq_true] at hcomment
        rcases hc with rfl | rfl <;> exact absurd hcomment.1 (by decide)
      | cons d spaces =>
        obtain ⟨rfl, -⟩ := List.cons.inj hsplit
        rw [List.all_cons, Bool.and_eq_true] at hspaces
        rcases hc with rfl | rfl <;> exact absurd hspaces.1 (by decide)

namespace Scanner

variable {s m u u' m' : Scanner} {w r : List Char}

/-! ## Tokens in the order of the text -/

/-- A step emits at most one token, over the text that it moves over. -/
lemma Stepped.exists_between (h : s.Stepped m w) :
    ∃ ts, m.emitted = ts ++ s.emitted ∧ ∀ t ∈ ts, t.Between s.offset m.offset := by
  cases h with
  | @token k hin hreads hlexes =>
    obtain ⟨t, ht, hspells⟩ := hreads.emitted
    refine ⟨[t], ht, List.forall_mem_singleton.2 ⟨hspells.written, ?_, hspells.offset_eq.ge,
      (hreads.stop_eq hspells).le⟩⟩
    rw [hspells.kind_eq]
    rintro rfl
    exact hlexes
  | spaces _ _ _ _ _ hemitted | blank _ _ _ _ hemitted => exact ⟨[], hemitted, by simp⟩
  | margin _ _ _ hmoves hemitted =>
    split at hemitted
    · obtain ⟨t, ht, hspells⟩ := hemitted
      refine ⟨[t], ht, List.forall_mem_singleton.2 ⟨hspells.written, by simp [hspells.kind_eq],
        hspells.offset_eq.ge, ?_⟩⟩
      have hle := (List.takeWhile_sublist (p := (· = '\t')) (l := w)).length_le
      rw [Token.stop, hspells.offset_eq, hspells.lexeme_eq, String.length_ofList, hmoves.offset]
      push_cast
      omega
    · exact ⟨[], hemitted, by simp⟩

/-- Steps over a part of the text move the scanner by its length. -/
lemma Steps.offset_eq (h : s.Steps m) {x : List Char} (hx : s.rest = x ++ m.rest) :
    m.offset = s.offset + x.length := by
  have hoffset := h.offset_add
  rw [hx, List.length_append] at hoffset
  omega

/-- Steps emit tokens over the text that they move over. -/
lemma Steps.exists_between (h : s.Steps m) :
    ∃ ts, m.emitted = ts ++ s.emitted ∧ ∀ t ∈ ts, t.Between s.offset m.offset := by
  induction h with
  | refl => exact ⟨[], rfl, by simp⟩
  | @tail m n hsteps hstep ih =>
    obtain ⟨ts, hts, hbetween⟩ := ih
    obtain ⟨w, hw⟩ := hstep.stepped
    obtain ⟨us, hus, hbetween'⟩ := hw.exists_between
    have hle : s.offset ≤ m.offset := by
      obtain ⟨x, hx⟩ := Steps.exists_rest hsteps
      rw [Steps.offset_eq hsteps hx]
      omega
    have hle' := hw.offset
    refine ⟨us ++ ts, by rw [hus, hts, List.append_assoc], List.forall_mem_append.2 ⟨?_, ?_⟩⟩
    · exact fun t ht => (hbetween' t ht).mono (by omega) le_rfl
    · exact fun t ht => (hbetween t ht).mono le_rfl (by omega)

/-! ## Reading blank lines and comments -/

/-- The scanner `m` is `s` at the start of a line, after line ends only. -/
structure Lands (s m : Scanner) (ns : List Token) : Prop where
  start : m.atLineStart
  depth : m.depth = s.depth
  bars : m.bars = s.bars
  behind : m.behind.head?.any isTerminator
  emitted : m.emitted = ns ++ s.emitted
  newlines : ∀ t ∈ ns, t.kind = .newline
  ne_nil : ns ≠ []

/-- A line end before trivia is read, perhaps together with the next one. -/
lemma exists_terminator {c : Char} {B : List Char} (hin : s.atLineStart = false)
    (hrest : s.rest = c :: B ++ r) (hc : isTerminator c) (hB : Trivia B) (hr : r.head? ≠ some '\n') :
    ∃ m B', s.Step m ∧ m.rest = B' ++ r ∧ Trivia B' ∧ B'.length ≤ B.length ∧
      ∃ t, s.Lands m [t] := by
  have hread {w B' : List Char} (hw : s.rest = w ++ (B' ++ r)) (hlexes : s.Lexes (B' ++ r) w .newline) :
      ∃ m, s.Step m ∧ m.rest = B' ++ r ∧ ∃ t, s.Lands m [t] := by
    obtain ⟨m, hstep, hreads, hm⟩ := exists_step_of_lexes hin hw hlexes
    obtain ⟨t, ht, hspells⟩ := hreads.emitted
    have hlast : w.getLast?.any isTerminator := by
      rcases hlexes with rfl | rfl | ⟨rfl, -⟩ <;> rfl
    refine ⟨m, hstep, hm, t, by simp [hreads.start], hreads.depth_eq (by decide),
      hreads.bars_eq (by decide), ?_, ht, ?_, by simp⟩
    · rw [hreads.head?_behind hlexes.head?_isSpace.1]
      exact hlast
    · simpa using hspells.kind_eq
  obtain rfl | rfl := isTerminator_iff.1 hc
  · obtain ⟨m, hstep, hm, hlands⟩ := hread (w := ['\n']) hrest (.inl rfl)
    exact ⟨m, B, hstep, hm, hB, le_rfl, hlands⟩
  by_cases hnext : (B ++ r).head? = some '\n'
  · obtain ⟨B', rfl⟩ : ∃ B', B = '\n' :: B' := by
      cases B with
      | nil => exact absurd hnext hr
      | cons d B =>
        obtain rfl : d = '\n' := by simpa using hnext
        exact ⟨B, rfl⟩
    obtain ⟨m, hstep, hm, hlands⟩ := hread (w := ['\r', '\n']) hrest (.inr (.inl rfl))
    exact ⟨m, B', hstep, hm, hB.of_cons (by decide), by simp, hlands⟩
  · obtain ⟨m, hstep, hm, hlands⟩ := hread (w := ['\r']) hrest (.inr (.inr ⟨rfl, hnext⟩))
    exact ⟨m, B, hstep, hm, hB, le_rfl, hlands⟩

/-- Blank lines and comments are read as line ends. -/
theorem steps_trivia {B : List Char} (hB : Trivia B) (hstart : s.atLineStart) (hrest : s.rest = B ++ r)
    (hr : r.head? ≠ some '\n') :
    ∃ m, s.Steps m ∧ m.rest = r ∧ (B = [] ∧ m = s ∨ ∃ ns, s.Lands m ns) := by
  induction hn : B.length using Nat.strongRecOn generalizing s B with
  | ind n ih =>
    cases hB with
    | nil => exact ⟨s, .refl, hrest, .inl ⟨rfl, rfl⟩⟩
    | @line w c B hw hc hB =>
      rw [List.append_assoc] at hrest
      have hterm : (c :: B ++ r).head?.all isTerminator := by simpa using hc
      obtain ⟨hmoves, hmid, hemitted⟩ := indentation_blank hrest hw hterm
      have hstep : s.Step s.indentation := ⟨by simp [hrest], step_of_start hstart⟩
      obtain ⟨m, B', hstep', hm, hB', hle, t, hlands⟩ :=
        exists_terminator hmoves.start hmid hc hB hr
      obtain ⟨m', hsteps, hm', hcases⟩ := ih B'.length (by
        rw [← hn, List.length_append, List.length_cons]
        omega) hB' hlands.start hm rfl
      refine ⟨m', .head hstep (.head hstep' hsteps), hm', .inr ?_⟩
      have hfirst : s.Lands m [t] := ⟨hlands.start, hlands.depth.trans hmoves.depth,
        hlands.bars.trans hmoves.bars, hlands.behind, by rw [hlands.emitted, hemitted],
        hlands.newlines, hlands.ne_nil⟩
      rcases hcases with ⟨-, rfl⟩ | ⟨ns, hlands'⟩
      · exact ⟨[t], hfirst⟩
      · exact ⟨ns ++ [t], hlands'.start, hlands'.depth.trans hfirst.depth, hlands'.bars.trans hfirst.bars,
          hlands'.behind, by rw [hlands'.emitted, hfirst.emitted, List.append_assoc],
          List.forall_mem_append.2 ⟨hlands'.newlines, hfirst.newlines⟩, by simp⟩

/-- A line end and the trivia after it are read as line ends. -/
lemma steps_terminator {c : Char} {B : List Char} (hrest : s.rest = c :: B ++ r) (hc : isTerminator c)
    (hB : Trivia B) (hr : r.head? ≠ some '\n') : ∃ m ns, s.Steps m ∧ m.rest = r ∧ s.Lands m ns := by
  cases hin : s.atLineStart with
  | true =>
    obtain ⟨m, hsteps, hm, ⟨hnil, -⟩ | ⟨ns, hlands⟩⟩ := steps_trivia (hB.cons hc) hin hrest hr
    · cases hnil
    · exact ⟨m, ns, hsteps, hm, hlands⟩
  | false =>
    obtain ⟨m, B', hstep, hm, hB', -, t, hlands⟩ := exists_terminator hin hrest hc hB hr
    obtain ⟨m', hsteps, hm', ⟨-, rfl⟩ | ⟨ns, hlands'⟩⟩ := steps_trivia hB' hlands.start hm hr
    · exact ⟨m', [t], .head hstep hsteps, hm', hlands⟩
    · exact ⟨m', ns ++ [t], .head hstep hsteps, hm', hlands'.start, hlands'.depth.trans hlands.depth,
        hlands'.bars.trans hlands.bars, hlands'.behind,
        by rw [hlands'.emitted, hlands.emitted, List.append_assoc],
        List.forall_mem_append.2 ⟨hlands'.newlines, hlands.newlines⟩, by simp⟩

/-! ## Both sides of a seam -/

/-- No token ends ahead of a scanner. -/
lemma Steps.stop_le {text : List Char} (h : (ofText text).Steps m) :
    ∀ t ∈ m.emitted, t.Between 0 m.offset := by
  obtain ⟨ts, hts, hbetween⟩ := h.exists_between
  rw [show m.emitted = ts by simpa [ofText] using hts]
  exact hbetween

/-- Two scanners after spaces or at the start of a line see the same behind them. -/
lemma alike_of_gap {text text' : List Char} (hm : (ofText text).Steps m) (hm' : (ofText text').Steps m')
    (hstart : m'.atLineStart = m.atLineStart) (hdepth : m'.depth = m.depth) (hbars : m'.bars = m.bars)
    (hgap : m.behind.head?.all isGap ∧ m.setMark.afterOpening = false)
    (hgap' : m'.behind.head?.all isGap ∧ m'.setMark.afterOpening = false) :
    m.Alike (m'.offset - m.offset) m' := by
  refine ⟨⟨by omega, hstart, hdepth, hbars, by rw [hgap.1, hgap'.1], by rw [hgap.2, hgap'.2],
    fun t ht => ?_, fun t ht => ?_⟩, by rw [(leftFree_of_gap hgap.1).1, (leftFree_of_gap hgap'.1).1]⟩
  · exact (hm.stop_le t (List.mem_of_mem_head? ht)).stop_le
  · exact (hm'.stop_le t (List.mem_of_mem_head? ht)).stop_le

/-- After line ends there are only line ends behind a scanner. -/
lemma Lands.gap {ns : List Token} (h : s.Lands m ns) :
    m.behind.head?.all isGap ∧ m.setMark.afterOpening = false := by
  constructor
  · obtain ⟨c, hc, hterm⟩ := (Option.any_eq_true _ _).1 h.behind
    rw [hc]
    simp [isGap, hterm]
  · obtain ⟨t, ts, hts⟩ := List.exists_cons_of_ne_nil h.ne_nil
    have hk := h.newlines t (by simp [hts])
    change m.emitted.head?.any _ = false
    simp [h.emitted, hts, hk]

/-- Trivia at the start of a text is read as line ends, and the scanner is then at the start of a line. -/
lemma steps_start {B : List Char} (hB : Trivia B) (hr : r.head? ≠ some '\n') :
    ∃ m, (ofText (B ++ r)).Steps m ∧ m.rest = r ∧ m.atLineStart ∧ m.depth = 0 ∧ m.bars = [] ∧
      (m.behind.head?.all isGap ∧ m.setMark.afterOpening = false) ∧ ∀ t ∈ m.emitted, t.kind = .newline := by
  obtain ⟨m, hm, hrest, ⟨-, rfl⟩ | ⟨ns, h⟩⟩ := steps_trivia hB (s := ofText (B ++ r)) rfl rfl hr
  · exact ⟨_, hm, hrest, rfl, rfl, rfl, ⟨rfl, rfl⟩, by simp [ofText]⟩
  · refine ⟨m, hm, hrest, h.start, h.depth, h.bars, h.gap, ?_⟩
    rw [show m.emitted = ns by simpa [ofText] using h.emitted]
    exact h.newlines

end Scanner

open Scanner

/-- The tokens of two texts that differ at a seam write matching lines, if no token but line ends is read
between the scanners before and after the seam. -/
theorem scan_of_seam {text text' : List Char} {f u u' m m' : Scanner} {n distance : Int}
    {ns ns' : List Token} (hrun : (ofText text).run = .ok f) (hu : (ofText text).Steps u)
    (hm : u.Steps m) (hu' : (ofText text').Steps u') (hm' : u'.Steps m')
    (hbefore : List.Forall₂ (Token.Moved 0) u.emitted u'.emitted) (halike : m.Alike distance m')
    (hrest : m'.rest = m.rest) (hns : m.emitted = ns ++ u.emitted) (hns' : m'.emitted = ns' ++ u'.emitted)
    (hall : ∀ t ∈ ns, t.kind = .newline) (hall' : ∀ t ∈ ns', t.kind = .newline)
    (hmiddle : (ns = [] ↔ ns' = []) ∨ u.emitted = []) (hle : u.emitted = [] ∨ u.offset ≤ n)
    (hlt : n < m.offset) (hlt' : n < m'.offset) :
    ∃ tokens', scan (String.ofList text') = .ok tokens' ∧
      Lined (Seam n distance) 0 true
        (f.emitted.reverse ++ [⟨.ending, "", f.line, f.column, f.offset, false⟩]) tokens' := by
  have hmrun : m.run = .ok f := (Steps.run_eq (hu.trans hm)).symm.trans hrun
  obtain ⟨f', hrun', ts, ts', hts, hts', hmoved⟩ := halike.run hrest hmrun
  obtain ⟨ts₀, hts₀, hbetween⟩ := (steps_of_run hmrun).1.exists_between
  obtain rfl : ts = ts₀ := List.append_cancel_right (hts.symm.trans hts₀)
  refine ⟨f'.emitted.reverse ++ [⟨.ending, "", f'.line, f'.column, f'.offset, false⟩],
    scan_eq_ok.2 ⟨f', (Steps.run_eq (hu'.trans hm')).trans hrun', rfl⟩, ?_⟩
  have hafter : List.Forall₂ (Token.Matches (Seam n distance)) ts.reverse ts'.reverse := by
    refine List.rel_reverse (((List.forall₂_and_left _ _).2 ⟨hbetween, hmoved⟩).imp fun t t' h => ?_)
    exact h.2.matches_after h.1 hlt (by rw [← halike.offset]; exact hlt')
  have hfront : List.Forall₂ (Token.Matches (Seam n distance)) u.emitted.reverse u'.emitted.reverse := by
    rcases hle with hnil | hle
    · rw [hnil] at hbefore ⊢
      rw [List.forall₂_nil_left_iff.1 hbefore]
      exact .nil
    · refine List.rel_reverse (((List.forall₂_and_left _ _).2 ⟨hu.stop_le, hbefore⟩).imp fun t t' h => ?_)
      exact h.2.matches_before h.1 hle
  have hend (b : Bool) : Lined (Seam n distance) 0 b
      (ts.reverse ++ [⟨.ending, "", f.line, f.column, f.offset, false⟩])
      (ts'.reverse ++ [⟨.ending, "", f'.line, f'.column, f'.offset, false⟩]) :=
    Lined.append hafter (fun _ => .ending rfl rfl) b
  rw [hts, hns, hts', hns']
  simp only [List.reverse_append, List.append_assoc]
  have hall : ∀ t ∈ ns.reverse, t.kind = .newline := fun t ht => hall t (by simpa using ht)
  have hall' : ∀ t ∈ ns'.reverse, t.kind = .newline := fun t ht => hall' t (by simpa using ht)
  rcases hmiddle with hiff | hnil
  · refine Lined.append hfront (fun b => ?_) true
    have hiff : ns.reverse = [] ↔ ns'.reverse = [] := by simpa using hiff
    cases hr : ns.reverse with
    | nil =>
      rw [hiff.1 hr]
      exact hend b
    | cons t rest =>
      cases hr' : ns'.reverse with
      | nil =>
        rw [hiff.2 hr'] at hr
        cases hr
      | cons t' rest' =>
        rw [hr, List.forall_mem_cons] at hall
        rw [hr', List.forall_mem_cons] at hall'
        exact .newline hall.1 hall'.1 (.blanks hall.2 hall'.2 (hend true))
  · rw [hnil] at hbefore ⊢
    rw [List.forall₂_nil_left_iff.1 hbefore, List.reverse_nil, List.nil_append, List.nil_append]
    exact .blanks hall hall' (hend true)

end SignLang
