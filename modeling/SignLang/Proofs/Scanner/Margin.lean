import SignLang.Proofs.Scanner.Seam

/-!
# A text one level deeper

A tab is put in front of every line of a text (`indented`): at its start and after each line end that is
a token. What stands inside of a literal is no line end, so no literal changes. The two scanners run side
by side (`Scanner.Paired`); at the start of a line the second one has one more tab before it. The tokens
of the indented text write the same lines, one level deeper (`scan_indented`).
-/

namespace SignLang

open Lexeme

/-- The text, which starts at an offset of a longer one, with a tab put in at each of the offsets
`starts` after that. -/
def insertTabs (starts : List Int) (offset : Nat) : List Char → List Char
  | [] => []
  | c :: text =>
    if ((offset + 1 : Nat) : Int) ∈ starts then c :: '\t' :: insertTabs starts (offset + 1) text
    else c :: insertTabs starts (offset + 1) text

/-- The offsets after the line ends of a token list. -/
def lineStarts (tokens : List Token) : List Int :=
  (tokens.filter (·.kind = .newline)).map Token.stop

/-- The text of the tokens with a tab put in at its start and after each line end. -/
def indented (tokens : List Token) (text : List Char) : List Char :=
  '\t' :: insertTabs (lineStarts tokens) 0 text

/-- How many tabs are put in up to an offset. -/
def tabsUpTo (starts : List Int) : Nat → Nat
  | 0 => 1
  | n + 1 => tabsUpTo starts n + if ((n + 1 : Nat) : Int) ∈ starts then 1 else 0

/-- Where an offset is after the tabs are put in. -/
def Tabbed (starts : List Int) (i j : Int) : Prop :=
  ∃ n : Nat, i = n ∧ j = n + tabsUpTo starts n

section Tabs

variable {starts : List Int} {n : Nat} {w r : List Char}

/-- Tabs only push offsets apart. -/
lemma tabsUpTo_mono (starts : List Int) {n m : Nat} (h : n ≤ m) :
    tabsUpTo starts n ≤ tabsUpTo starts m := by
  induction h with
  | refl => exact le_rfl
  | step _ ih => exact ih.trans (Nat.le_add_right _ _)

lemma Tabbed.biUnique (starts : List Int) : Relator.BiUnique (Tabbed starts) := by
  constructor
  · rintro i j k ⟨n, rfl, hn⟩ ⟨m, rfl, hm⟩
    rcases Nat.lt_trichotomy n m with h | h | h
    · have := tabsUpTo_mono starts h.le
      omega
    · rw [h]
    · have := tabsUpTo_mono starts h.le
      omega
  · rintro i j k ⟨n, rfl, rfl⟩ ⟨m, hm, rfl⟩
    obtain rfl : n = m := by exact_mod_cast hm
    rfl

/-- Where no line starts, nothing is put in. -/
lemma insertTabs_append (h : ∀ i : Nat, n < i → i ≤ n + w.length → (i : Int) ∉ starts) :
    insertTabs starts n (w ++ r) = w ++ insertTabs starts (n + w.length) r ∧
      tabsUpTo starts (n + w.length) = tabsUpTo starts n := by
  induction w generalizing n with
  | nil => exact ⟨rfl, rfl⟩
  | cons c w ih =>
    rw [List.length_cons] at h
    have hnot := h (n + 1) (by omega) (by omega)
    obtain ⟨hinsert, htabs⟩ := ih (n := n + 1) fun i hi hi' => h i (by omega) (by omega)
    rw [List.length_cons, show n + (w.length + 1) = n + 1 + w.length by omega, List.cons_append,
      insertTabs, if_neg hnot, hinsert, htabs, tabsUpTo, if_neg hnot]
    exact ⟨rfl, rfl⟩

/-- Where a line starts after a text, a tab is put in. -/
lemma insertTabs_append_break {c : Char}
    (h : ∀ i : Nat, n < i → i ≤ n + w.length → (i : Int) ∉ starts)
    (hend : ((n + w.length + 1 : Nat) : Int) ∈ starts) :
    insertTabs starts n (w ++ c :: r) = w ++ c :: '\t' :: insertTabs starts (n + w.length + 1) r ∧
      tabsUpTo starts (n + w.length + 1) = tabsUpTo starts n + 1 := by
  obtain ⟨hinsert, htabs⟩ := insertTabs_append (r := c :: r) h
  rw [hinsert, insertTabs, if_pos hend, tabsUpTo, if_pos hend, htabs]
  exact ⟨rfl, rfl⟩

/-- Where no line starts at all, nothing is put in. -/
lemma insertTabs_nil (n : Nat) (text : List Char) : insertTabs [] n text = text := by
  have h := (@insertTabs_append [] n text [] (by simp)).1
  simpa [insertTabs] using h

/-- Without another line, offsets move by the tab in front. -/
lemma Tabbed.shift {i j : Int} (h : Tabbed [] i j) : Token.Shift 1 i j := by
  obtain ⟨n, rfl, rfl⟩ := h
  have htabs (n : Nat) : tabsUpTo [] n = 1 := by
    induction n with
    | zero => rfl
    | succ n ih => simp [tabsUpTo, ih]
  rw [Token.Shift, htabs]
  rfl

/-- Tabs are put in behind the first character. -/
lemma head?_insertTabs (starts : List Int) (n : Nat) (text : List Char) :
    (insertTabs starts n text).head? = text.head? := by
  cases text with
  | nil => rfl
  | cons c text =>
    rw [insertTabs]
    split <;> rfl

end Tabs

/-- A line end has characters. -/
lemma Token.Lexical.offset_lt_stop {t : Token} (h : t.Lexical) (hk : t.kind = .newline) :
    t.offset < t.stop := by
  have hadmits := h.2
  rw [hk] at hadmits
  have hlength : 0 < t.lexeme.length := by
    rw [← String.length_toList]
    rcases hadmits with h | h | h <;> rw [h] <;> decide
  rw [Token.stop]
  omega

namespace Scanner

variable {text text' : List Char} {s s' m m' f : Scanner} {w : List Char}

/-! ## Where lines start -/

/-- A step that comes to the start of a line has read a line end. -/
lemma Stepped.exists_newline (h : s.Stepped m w) (hstart : m.atLineStart) :
    ∃ t, m.emitted = t :: s.emitted ∧ t.kind = .newline ∧ t.stop = m.offset := by
  cases h with
  | token _ hreads _ =>
    obtain ⟨t, ht, hspells⟩ := hreads.emitted
    rw [hreads.start, decide_eq_true_iff] at hstart
    exact ⟨t, ht, hspells.kind_eq.trans hstart, hreads.stop_eq hspells⟩
  | spaces _ _ _ _ hm | blank _ _ _ hm | margin _ _ _ hm =>
    rw [hm.start] at hstart
    cases hstart

/-- A step that reads a line end comes to the start of a line. -/
lemma Stepped.of_newline (h : s.Stepped m w) {t : Token} (ht : m.emitted = t :: s.emitted)
    (hk : t.kind = .newline) : m.atLineStart ∧ t.stop = m.offset := by
  cases h with
  | token _ hreads _ =>
    obtain ⟨u, hu, hspells⟩ := hreads.emitted
    obtain ⟨rfl, -⟩ := List.cons.inj (ht.symm.trans hu)
    refine ⟨?_, hreads.stop_eq hspells⟩
    rw [hreads.start, decide_eq_true_iff]
    exact hspells.kind_eq.symm.trans hk
  | spaces _ _ _ _ _ hemitted | blank _ _ _ _ hemitted =>
    exact absurd (ht.symm.trans hemitted) (List.cons_ne_self t s.emitted)
  | margin _ _ _ _ hemitted =>
    split at hemitted
    · obtain ⟨u, hu, hspells⟩ := hemitted
      obtain ⟨rfl, -⟩ := List.cons.inj (ht.symm.trans hu)
      rw [hspells.kind_eq] at hk
      cases hk
    · exact absurd (ht.symm.trans hemitted) (List.cons_ne_self t s.emitted)

/-- Among the offsets that a step moves over, only the last one can start a line. -/
lemma mem_lineStarts (hs : (ofText text).Steps s) (h : s.Step m) (hf : m.Steps f) (hrest : f.rest = [])
    {i : Nat} (hlt : s.offset < i) (hle : i ≤ m.offset) :
    (i : Int) ∈ lineStarts f.tokens ↔ m.atLineStart ∧ i = m.offset := by
  obtain ⟨w, hw⟩ := h.stepped
  obtain ⟨later, hlater, hbetween⟩ := hf.exists_between
  have hmem : (i : Int) ∈ lineStarts f.tokens ↔
      ∃ t ∈ f.emitted, t.kind = .newline ∧ t.stop = i := by
    simp [lineStarts, tokens, and_assoc]
  have hrun : (ofText text).run = .ok f :=
    (Steps.run_eq ((hs.tail h).trans hf)).trans (run_of_rest hrest)
  rw [hmem]
  constructor
  · rintro ⟨t, ht, hk, hstop⟩
    have hlexical : t.Lexical := lexical_run hrun (by simp [ofText]) t ht
    have hlength := hlexical.offset_lt_stop hk
    rw [hlater] at ht
    rcases List.mem_append.1 ht with ht | ht
    · have := (hbetween t ht).le_offset
      omega
    -- the token is not one of those before the step, which end too early
    have hold : t ∉ s.emitted := fun ht => by
      have := (hs.stop_le t ht).stop_le
      omega
    rcases emits_step h.2 with heq | ⟨u, heq, -⟩
    · rw [heq] at ht
      exact absurd ht hold
    · rw [heq] at ht
      obtain rfl := (List.mem_cons.1 ht).resolve_right hold
      obtain ⟨hstart, hstop'⟩ := hw.of_newline heq hk
      exact ⟨hstart, by omega⟩
  · rintro ⟨hstart, rfl⟩
    obtain ⟨t, ht, hk, hstop⟩ := hw.exists_newline hstart
    refine ⟨t, ?_, hk, hstop⟩
    rw [hlater, ht]
    simp

/-! ## Scanners side by side -/

/-- The text that a scanner has before it when tabs are put in; at the start of a line that is one more
tab. -/
def pending (starts : List Int) (s : Scanner) : List Char :=
  (if s.atLineStart then ['\t'] else []) ++ insertTabs starts s.offset s.rest

/-- What a step moves over stays as it is, and the tab after a line end is still ahead. -/
lemma pending_step (hs : (ofText text).Steps s) (h : s.Step m) (hw : s.Stepped m w) (hf : m.Steps f)
    (hrest : f.rest = []) :
    insertTabs (lineStarts f.tokens) s.offset s.rest = w ++ pending (lineStarts f.tokens) m ∧
      tabsUpTo (lineStarts f.tokens) m.offset =
        tabsUpTo (lineStarts f.tokens) s.offset + m.atLineStart.toNat := by
  have hoffset := hw.offset
  have hmem {i : Nat} := mem_lineStarts hs h hf hrest (i := i)
  rw [hw.rest, pending]
  cases hstart : m.atLineStart with
  | false =>
    have hnone (i : Nat) (hlt : s.offset < i) (hle : i ≤ s.offset + w.length) :
        (i : Int) ∉ lineStarts f.tokens := by
      intro hi
      have := ((hmem hlt (by omega)).1 hi).1
      rw [hstart] at this
      cases this
    obtain ⟨hinsert, htabs⟩ := insertTabs_append (r := m.rest) hnone
    rw [hinsert, hoffset, htabs]
    exact ⟨rfl, rfl⟩
  | true =>
    obtain rfl | ⟨w₀, c, rfl⟩ := w.eq_nil_or_concat
    · rw [hw.of_nil.2.2] at hstart
      cases hstart
    rw [List.concat_eq_append] at hoffset ⊢
    rw [List.length_append, List.length_singleton] at hoffset
    have hend := (hmem (i := m.offset) (by omega) le_rfl).2 ⟨hstart, rfl⟩
    rw [hoffset] at hend ⊢
    have hnone (i : Nat) (hlt : s.offset < i) (hle : i ≤ s.offset + w₀.length) :
        (i : Int) ∉ lineStarts f.tokens := by
      intro hi
      have := ((hmem hlt (by omega)).1 hi).2
      omega
    obtain ⟨hinsert, htabs⟩ := insertTabs_append_break (c := c) (r := m.rest) hnone hend
    rw [List.append_assoc, List.singleton_append, hinsert, ← Nat.add_assoc, htabs]
    exact ⟨by simp, rfl⟩

/-- There is space behind the scanner, and no bracket that has just been opened. -/
def InGap (s : Scanner) : Prop :=
  s.behind.head?.all isGap ∧ s.setMark.afterOpening = false

/-- Two scanners, before a text and before the same text with tabs put in, that have read as much of it.
The first one runs up to `f`. -/
structure Paired (text text' : List Char) (f s s' : Scanner) : Prop where
  steps : (ofText text).Steps s
  steps' : (ofText text').Steps s'
  rest : s'.rest = pending (lineStarts f.tokens) s
  alike : s.Alike (tabsUpTo (lineStarts f.tokens) s.offset - s.atLineStart.toNat) s'
  gap : s.atLineStart → s.InGap ∧ s'.InGap

/-- Nothing of a line has been written at the scanner, or no more of it will be. -/
def AtEdge (s : Scanner) (b : Bool) : Prop :=
  (s.atLineStart → b = true) ∧ (b = true → s.atLineStart ∨ s.rest.head?.all isTerminator)

/-- Inside of a line, and not before its end, something of it has been written. -/
lemma AtEdge.eq_false {b : Bool} (h : s.AtEdge b) (hin : s.atLineStart = false)
    (hrest : s.rest.head?.all isTerminator = false) : b = false := by
  by_contra hb
  rcases h.2 (by simpa using hb) with hline | hline
  · rw [hin] at hline
    cases hline
  · rw [hrest] at hline
    cases hline

/-- The tokens that two steps add write matching lines, if what is added later does. -/
def Extends (starts : List Int) (s m : Scanner) (ts ts' : List Token) : Prop :=
  ∀ b, s.AtEdge b → ∃ b', m.AtEdge b' ∧ ∀ xs xs', Lined (Tabbed starts) 1 b' xs xs' →
    Lined (Tabbed starts) 1 b (ts.reverse ++ xs) (ts'.reverse ++ xs')

/-- After a line end there is a line end behind the scanner. -/
lemma Reads.inGap (h : s.Reads .newline w m) (hw : s.Lexes m.rest w .newline) : m.InGap := by
  refine ⟨?_, h.afterOpening.trans (by decide)⟩
  rw [h.head?_behind hw.head?_isSpace.1]
  rcases hw with rfl | rfl | ⟨rfl, -⟩ <;> rfl

section Step

variable {starts : List Int}

/-- What a scanner in a line has before it starts as the text does. -/
lemma head?_pending (h : s.atLineStart = false) : (pending starts s).head? = s.rest.head? := by
  rw [pending, h]
  exact head?_insertTabs starts s.offset s.rest

/-- A token is read by both scanners. -/
lemma Paired.token (h : Paired text text' f s s') (hf : f.rest = []) (hm : m.Steps f) {k : Kind}
    (hstep : s.Step m) (hin : s.atLineStart = false) (hreads : s.Reads k w m)
    (hlexes : s.Lexes m.rest w k) :
    ∃ m' ts ts', s'.Step m' ∧ Paired text text' f m m' ∧ m.emitted = ts ++ s.emitted ∧
      m'.emitted = ts' ++ s'.emitted ∧ Extends (lineStarts f.tokens) s m ts ts' := by
  have hw : s.Stepped m w := .token hin hreads hlexes
  have hrun : m.run = .ok f := (Steps.run_eq hm).trans (run_of_rest hf)
  obtain ⟨hpending, htabs⟩ := pending_step h.steps hstep hw hm hf
  have hrest' : s'.rest = w ++ pending (lineStarts f.tokens) m := by
    rw [h.rest, pending, hin]
    exact hpending
  have hlexes' : s'.Lexes (pending (lineStarts f.tokens) m) w k := by
    by_cases hk : k = .newline
    · subst hk
      refine hlexes.imp_right (.imp_right fun hreturn => ⟨hreturn.1, ?_⟩)
      rw [pending, hreads.start]
      simp
    · have hhead : (pending (lineStarts f.tokens) m).head? = m.rest.head? :=
        head?_pending (by rw [hreads.start, decide_eq_false hk])
      refine h.alike.toNear.lexes hlexes (.inl hhead) (.inl h.alike.leftFree) (head?_ne_point hrun) ?_
      rintro rfl
      rw [hhead]
      exact (Stepped.of_return hw).1
  obtain ⟨m', hstep', hreads', hm'⟩ := exists_step_of_lexes (h.alike.start.trans hin) hrest' hlexes'
  obtain ⟨halike, t, t', ht, ht', hmoved⟩ := h.alike.toNear.reads hlexes.head?_isSpace.1 hreads hreads'
  rw [hin] at halike hmoved
  refine ⟨m', [t], [t'], hstep', ⟨h.steps.tail hstep, h.steps'.tail hstep', hm', ?_, ?_⟩, ht, ht', ?_⟩
  · rw [htabs]
    push_cast
    simpa using halike
  · intro hstart
    rw [hreads.start, decide_eq_true_iff] at hstart
    subst hstart
    exact ⟨hreads.inGap hlexes, hreads'.inGap (hm'.symm ▸ hlexes')⟩
  · intro b hb
    obtain ⟨u, hu, hspells⟩ := hreads.emitted
    obtain ⟨rfl, -⟩ := List.cons.inj (ht.symm.trans hu)
    by_cases hk : k = .newline
    · subst hk
      exact ⟨true, ⟨fun _ => rfl, fun _ => .inl (by simp [hreads.start])⟩, fun xs xs' hxs =>
        .newline hspells.kind_eq (hmoved.kind_eq.trans hspells.kind_eq) hxs⟩
    · have hstart : m.atLineStart = false := by rw [hreads.start, decide_eq_false hk]
      obtain rfl := hb.eq_false hin <| by
        by_contra hline
        obtain ⟨c, cs, rfl, -⟩ := hlexes.exists_starter
        rw [hreads.rest] at hline
        exact hk (hlexes.kind_of_isTerminator (by simpa using hline))
      have hcontent : t.isContent := by
        rw [Token.isContent, hspells.kind_eq]
        cases k with
        | newline => exact absurd rfl hk
        | indent | ending => exact hlexes.elim
        | _ => rfl
      have hmatches : t.Matches (Tabbed (lineStarts f.tokens)) t' := by
        have hoffset := hmoved.offset_eq
        have hstop := hmoved.stop_eq
        rw [hspells.offset_eq] at hoffset
        rw [hreads.stop_eq hspells] at hstop
        rw [hstart] at htabs
        refine ⟨hmoved.toSame, ?_, fun _ => ⟨⟨s.offset, hspells.offset_eq, ?_⟩,
          ⟨m.offset, hreads.stop_eq hspells, ?_⟩⟩⟩
        · simp only [Token.isContent, Bool.and_eq_true, decide_eq_true_eq] at hcontent
          exact hcontent.2
        · simpa using hoffset
        · rw [hstop, htabs]
          simp
      exact ⟨false, ⟨by simp [hstart], by simp⟩, fun xs xs' hxs => .word (.inr rfl) hcontent hmatches hxs⟩

/-- Spaces inside of a line are read by both scanners. -/
lemma Paired.spaces (h : Paired text text' f s s') (hf : f.rest = []) (hm : m.Steps f)
    (hstep : s.Step m) (hin : s.atLineStart = false) (hne : w ≠ []) (hall : w.all isSpace)
    (hend : m.rest.head?.any isSpace = false) (hmoves : s.Moves w m) (hemitted : m.emitted = s.emitted) :
    ∃ m' ts ts', s'.Step m' ∧ Paired text text' f m m' ∧ m.emitted = ts ++ s.emitted ∧
      m'.emitted = ts' ++ s'.emitted ∧ Extends (lineStarts f.tokens) s m ts ts' := by
  have hw : s.Stepped m w := .spaces hin hne hall hend hmoves hemitted
  have hrun : m.run = .ok f := (Steps.run_eq hm).trans (run_of_rest hf)
  obtain ⟨hpending, htabs⟩ := pending_step h.steps hstep hw hm hf
  have hhead : (pending (lineStarts f.tokens) m).head? = m.rest.head? := head?_pending hmoves.start
  have hrest' : s'.rest = w ++ pending (lineStarts f.tokens) m := by
    rw [h.rest, pending, hin]
    exact hpending
  obtain ⟨m', hm', hrest, halike, ts, ts', hts, hts', hmoved⟩ := h.alike.toNear.stepped hw hrest'
    (.inl hhead) (.inl h.alike.leftFree) (head?_ne_point hrun) fun hreturn => by
      rw [hhead]
      exact (Stepped.of_return (hreturn ▸ hw)).1
  obtain rfl : ts = [] := by simpa [hemitted] using hts
  obtain rfl := List.forall₂_nil_left_iff.1 hmoved
  have hstep' : s'.Step m' := ⟨by simp [hrest', hne], hm'⟩
  refine ⟨m', [], [], hstep', ⟨h.steps.tail hstep, h.steps'.tail hstep', hrest, ?_, ?_⟩, hts, hts', ?_⟩
  · rw [hin] at halike
    rw [htabs, hmoves.start]
    simpa using halike
  · simp [hmoves.start]
  · intro b hb
    -- a space is no line end, so the line has been started
    obtain rfl := hb.eq_false hin (hmoves.not_isTerminator hne hall)
    exact ⟨false, ⟨by simp [hmoves.start], by simp⟩, fun xs xs' hxs => hxs⟩

/-- A scanner that has read no token since it stood in a gap is after no opening bracket. -/
lemma InGap.afterOpening (h : s.InGap) (hmoves : s.Moves w m) (hemitted : m.emitted = s.emitted)
    (hs : (ofText text).Steps s) : m.setMark.afterOpening = false := by
  have hoffset := hmoves.offset
  by_cases hw : w = []
  · subst hw
    exact (Near.afterOpening_congr hemitted hoffset).trans h.2
  · have := List.length_pos_iff.2 hw
    exact Near.afterOpening_moved hemitted (by omega) fun t ht =>
      (hs.stop_le t (List.mem_of_mem_head? ht)).stop_le

/-- After the margin of a line, with one more tab for the second scanner, both scanners see the same. -/
lemma Paired.alike_margin (h : Paired text text' f s s') (hstart : s.atLineStart)
    (hm : (ofText text).Steps m) (hm' : (ofText text').Steps m') (hmoves : s.Moves w m)
    (hmoves' : s'.Moves ('\t' :: w) m') (hopened : m.setMark.afterOpening = false)
    (hopened' : m'.setMark.afterOpening = false) :
    m.Alike (tabsUpTo (lineStarts f.tokens) s.offset) m' := by
  have hoffset : (m'.offset : Int) = m.offset + tabsUpTo (lineStarts f.tokens) s.offset := by
    have := h.alike.offset
    have := hmoves.offset
    have := hmoves'.offset
    rw [hstart] at *
    simp only [List.length_cons, Bool.toNat_true] at *
    omega
  have hline : m'.atLineStart = m.atLineStart := hmoves'.start.trans hmoves.start.symm
  have hdepth : m'.depth = m.depth := by rw [hmoves.depth, hmoves'.depth, h.alike.depth]
  have hbars : m'.bars = m.bars := by rw [hmoves.bars, hmoves'.bars, h.alike.bars]
  by_cases hw : w = []
  · subst hw
    have hgap : m.behind.head?.all isGap := by
      rw [hmoves.behind]
      exact (h.gap hstart).1.1
    have halike := alike_of_gap hm hm' hline hdepth hbars ⟨hgap, hopened⟩
      ⟨by rw [hmoves'.behind]; rfl, hopened'⟩
    rwa [hoffset, add_sub_cancel_left] at halike
  · have hbehind' : m'.behind.head? = m.behind.head? := by
      rw [hmoves'.head?_behind (by simp), hmoves.head?_behind hw, List.getLast?_cons,
        List.getLast?_eq_some_getLast hw]
      rfl
    refine ⟨⟨hoffset, hline, hdepth, hbars, by rw [hbehind'], by rw [hopened, hopened'],
      fun t ht => ?_, fun t ht => ?_⟩, leftFree_congr hbehind'⟩
    · exact (hm.stop_le t (List.mem_of_mem_head? ht)).stop_le
    · exact (hm'.stop_le t (List.mem_of_mem_head? ht)).stop_le

/-- A line without tokens is read by both scanners. -/
lemma Paired.blank (h : Paired text text' f s s') (hf : f.rest = []) (hm : m.Steps f)
    (hstep : s.Step m) (hstart : s.atLineStart) (hblank : IsBlank w)
    (hend : m.rest.head?.all isTerminator) (hmoves : s.Moves w m) (hemitted : m.emitted = s.emitted) :
    ∃ m' ts ts', s'.Step m' ∧ Paired text text' f m m' ∧ m.emitted = ts ++ s.emitted ∧
      m'.emitted = ts' ++ s'.emitted ∧ Extends (lineStarts f.tokens) s m ts ts' := by
  obtain ⟨hpending, htabs⟩ := pending_step h.steps hstep (.blank hstart hblank hend hmoves hemitted) hm hf
  have hhead : (pending (lineStarts f.tokens) m).head? = m.rest.head? := head?_pending hmoves.start
  have hrest' : s'.rest = '\t' :: w ++ pending (lineStarts f.tokens) m := by
    rw [h.rest, pending, hstart, hpending]
    rfl
  have hblank' : IsBlank ('\t' :: w) := by
    obtain ⟨spaces, comment, rfl, hspaces, hcomment⟩ := hblank
    exact ⟨'\t' :: spaces, comment, rfl, hspaces, hcomment⟩
  obtain ⟨hmoves', hrest, hemitted'⟩ := indentation_blank hrest' hblank' (hhead ▸ hend)
  have hstep' : s'.Step s'.indentation :=
    ⟨by simp [hrest'], step_of_start (h.alike.start.trans hstart)⟩
  obtain ⟨hgap, hgap'⟩ := h.gap hstart
  have halike := h.alike_margin hstart (h.steps.tail hstep) (h.steps'.tail hstep') hmoves hmoves'
    (hgap.afterOpening hmoves hemitted h.steps) (hgap'.afterOpening hmoves' hemitted' h.steps')
  refine ⟨s'.indentation, [], [], hstep', ⟨h.steps.tail hstep, h.steps'.tail hstep', hrest, ?_, ?_⟩,
    hemitted, hemitted', ?_⟩
  · rw [htabs, hmoves.start]
    simpa using halike
  · simp [hmoves.start]
  · intro b hb
    obtain rfl := hb.1 hstart
    exact ⟨true, ⟨by simp [hmoves.start], fun _ => .inr hend⟩, fun xs xs' hxs => hxs⟩

/-- The margin of a line is read by both scanners, with one more tab by the second one. -/
lemma Paired.margin (h : Paired text text' f s s') (hf : f.rest = []) (hm : m.Steps f)
    (hstep : s.Step m) (hstart : s.atLineStart) (hall : w.all isSpace)
    (hend : m.rest.head?.any isInk) (hmoves : s.Moves w m)
    (hemitted : if w.head? = some '\t' then ∃ t : Token, m.emitted = t :: s.emitted ∧
        t.Spells .indent (String.ofList (w.takeWhile (· = '\t'))) s.offset
      else m.emitted = s.emitted) :
    ∃ m' ts ts', s'.Step m' ∧ Paired text text' f m m' ∧ m.emitted = ts ++ s.emitted ∧
      m'.emitted = ts' ++ s'.emitted ∧ Extends (lineStarts f.tokens) s m ts ts' := by
  obtain ⟨hpending, htabs⟩ := pending_step h.steps hstep (.margin hstart hall hend hmoves hemitted) hm hf
  have hhead : (pending (lineStarts f.tokens) m).head? = m.rest.head? := head?_pending hmoves.start
  have hrest' : s'.rest = '\t' :: w ++ pending (lineStarts f.tokens) m := by
    rw [h.rest, pending, hstart, hpending]
    rfl
  obtain ⟨hmoves', hrest, hemitted'⟩ := indentation_margin hrest' (by simpa [isSpace] using hall)
    (hhead ▸ hend)
  rw [if_pos List.head?_cons] at hemitted'
  obtain ⟨t', ht', hspells'⟩ := hemitted'
  have hstep' : s'.Step s'.indentation :=
    ⟨by simp [hrest'], step_of_start (h.alike.start.trans hstart)⟩
  obtain ⟨hgap, -⟩ := h.gap hstart
  have hopened' : s'.indentation.setMark.afterOpening = false :=
    afterOpening_of_kind (by rw [ht']; rfl) (by simp [hspells'.kind_eq])
  have hpaired (hopened : m.setMark.afterOpening = false) : Paired text text' f m s'.indentation := by
    refine ⟨h.steps.tail hstep, h.steps'.tail hstep', hrest, ?_, by simp [hmoves.start]⟩
    have halike := h.alike_margin hstart (h.steps.tail hstep) (h.steps'.tail hstep') hmoves hmoves'
      hopened hopened'
    rw [htabs, hmoves.start]
    simpa using halike
  have hlevel' : t'.level = (w.takeWhile (· = '\t')).length + 1 := hspells'.level_eq
  have hedge : m.AtEdge false := ⟨by simp [hmoves.start], by simp⟩
  by_cases htab : w.head? = some '\t'
  · rw [if_pos htab] at hemitted
    obtain ⟨t, ht, hspells⟩ := hemitted
    have hlevel : t.level = (w.takeWhile (· = '\t')).length := hspells.level_eq
    refine ⟨s'.indentation, [t], [t'], hstep', hpaired ?_, ht, ht', fun b hb => ⟨false, hedge, ?_⟩⟩
    · exact afterOpening_of_kind (by rw [ht]; rfl) (by simp [hspells.kind_eq])
    · intro xs xs' hxs
      exact .indent hspells.kind_eq hspells'.kind_eq (by rw [hlevel, hlevel']) hxs
  · rw [if_neg htab] at hemitted
    have hnone : w.takeWhile (· = '\t') = [] := takeWhile_tab_eq_nil_iff.2 htab
    refine ⟨s'.indentation, [], [t'], hstep', hpaired (hgap.afterOpening hmoves hemitted h.steps),
      hemitted, ht', fun b hb => ⟨false, hedge, ?_⟩⟩
    obtain rfl := hb.1 hstart
    intro xs xs' hxs
    exact .margin hspells'.kind_eq (by rw [hlevel', hnone]; rfl) hxs

/-- Each step of the first scanner is a step of the second one. -/
theorem Paired.step (h : Paired text text' f s s') (hf : f.rest = []) (hm : m.Steps f) (hstep : s.Step m) :
    ∃ m' ts ts', s'.Step m' ∧ Paired text text' f m m' ∧ m.emitted = ts ++ s.emitted ∧
      m'.emitted = ts' ++ s'.emitted ∧ Extends (lineStarts f.tokens) s m ts ts' := by
  obtain ⟨w, hw⟩ := hstep.stepped
  cases hw with
  | token hin hreads hlexes => exact h.token hf hm hstep hin hreads hlexes
  | spaces hin hne hall hend hmoves hemitted =>
    exact h.spaces hf hm hstep hin hne hall hend hmoves hemitted
  | blank hstart hblank hend hmoves hemitted =>
    exact h.blank hf hm hstep hstart hblank hend hmoves hemitted
  | margin hstart hall hend hmoves hemitted =>
    exact h.margin hf hm hstep hstart hall hend hmoves hemitted

/-- The second scanner comes to its end as the first one does, and their tokens write matching lines. -/
theorem Paired.run (h : Paired text text' f s s') (hsteps : s.Steps f) (hf : f.rest = []) {b : Bool}
    (hb : s.AtEdge b) :
    ∃ f' ts ts', s'.run = .ok f' ∧ f.emitted = ts ++ s.emitted ∧ f'.emitted = ts' ++ s'.emitted ∧
      ∀ e e' : Token, e.kind = .ending → e'.kind = .ending →
        Lined (Tabbed (lineStarts f.tokens)) 1 b (ts.reverse ++ [e]) (ts'.reverse ++ [e']) := by
  induction hsteps using Relation.ReflTransGen.head_induction_on generalizing s' b with
  | refl =>
    cases hstart : f.atLineStart with
    | false =>
      have hrest' : s'.rest = [] := by
        rw [h.rest, pending, hstart, hf]
        rfl
      exact ⟨s', [], [], run_of_rest hrest', rfl, rfl, fun e e' he he' => .ending he he'⟩
    | true =>
      -- the second scanner has the tab of an empty line before it
      have hrest' : s'.rest = ['\t'] ++ [] := by
        rw [h.rest, pending, hstart, hf]
        rfl
      have hblank : IsBlank ['\t'] := ⟨['\t'], [], rfl, rfl, rfl, rfl⟩
      obtain ⟨-, hrest, hemitted⟩ := indentation_blank hrest' hblank rfl
      have hrun : s'.run = s'.indentation.run :=
        Step.run_eq ⟨by simp [hrest'], step_of_start (h.alike.start.trans hstart)⟩
      exact ⟨s'.indentation, [], [], hrun.trans (run_of_rest hrest), rfl, hemitted,
        fun e e' he he' => .ending he he'⟩
  | @head s m hstep hsteps ih =>
    obtain ⟨m', ts, ts', hstep', hpaired, hts, hts', hextends⟩ := h.step hf hsteps hstep
    obtain ⟨b', hb', hlined⟩ := hextends b hb
    obtain ⟨f', us, us', hrun, hus, hus', hlast⟩ := ih hpaired hb'
    refine ⟨f', us ++ ts, us' ++ ts', hstep'.run_eq.trans hrun, ?_, ?_, ?_⟩
    · rw [hus, hts, List.append_assoc]
    · rw [hus', hts', List.append_assoc]
    · intro e e' he he'
      rw [List.reverse_append, List.reverse_append, List.append_assoc, List.append_assoc]
      exact hlined _ _ (hlast e e' he he')

end Step

/-- Before the first token of a line, the next token is one of its contents. -/
lemma exists_content_of_ink {ts : List Token} (hsteps : m.Steps f) (hf : f.rest = []) (hin : m.atLineStart = false)
    (hink : m.rest.head?.any isInk) (hts : f.emitted = ts.reverse ++ m.emitted) :
    ∃ t us, ts = t :: us ∧ t.isContent := by
  obtain rfl | ⟨n, hstep, hn⟩ := Relation.ReflTransGen.cases_head hsteps
  · rw [hf] at hink
    cases hink
  obtain ⟨x, hx⟩ := hstep.stepped
  cases hx with
  | @token k _ hreads hlexes =>
    obtain ⟨t, ht, hspells⟩ := hreads.emitted
    obtain ⟨later, hlater⟩ := Steps.exists_emitted hn
    refine ⟨t, later.reverse, ?_, ?_⟩
    · rw [hts, ht, ← List.singleton_append, ← List.append_assoc] at hlater
      rw [← List.reverse_reverse ts, List.append_cancel_right hlater]
      simp
    · rw [Token.isContent, hspells.kind_eq]
      cases k with
      | newline =>
        rw [hreads.rest] at hink
        rcases hlexes with rfl | rfl | ⟨rfl, -⟩ <;> cases hink
      | indent | ending => exact hlexes.elim
      | _ => rfl
  | spaces _ hne hall _ hmoves =>
    obtain ⟨c, cs, rfl⟩ := List.exists_cons_of_ne_nil hne
    have hspace : isSpace c := (List.all_eq_true.1 hall) c List.mem_cons_self
    rw [hmoves.rest] at hink
    simp [isInk, isGap, hspace] at hink
  | blank hline | margin hline =>
    rw [hin] at hline
    cases hline

/-- A margin is read only before a token that is neither a margin nor a line end. -/
lemma exists_content {t : Token} (hs : (ofText text).Steps f) (hf : f.rest = []) (ht : t ∈ f.emitted)
    (hk : t.kind = .indent) : ∃ t ∈ f.emitted, t.isContent := by
  obtain ⟨before, after, hsplit⟩ := List.append_of_mem (List.mem_reverse.2 ht)
  obtain ⟨u, v, -, huv, hv, hemitted, -⟩ := hs.exists_step hsplit (by simp [ofText])
  obtain ⟨w, hw⟩ := huv.stepped
  have hmargin : v.atLineStart = false ∧ v.rest.head?.any isInk := by
    cases hw with
    | token _ hreads hlexes =>
      obtain ⟨t', ht', hspells⟩ := hreads.emitted
      obtain ⟨rfl, -⟩ := List.cons.inj (hemitted.symm.trans ht')
      rw [← hspells.kind_eq, hk] at hlexes
      exact hlexes.elim
    | spaces _ _ _ _ _ hsame | blank _ _ _ _ hsame =>
      exact absurd (hemitted.symm.trans hsame) (List.cons_ne_self t u.emitted)
    | margin _ _ hend hmoves => exact ⟨hmoves.start, hend⟩
  obtain ⟨hstart, hink⟩ := hmargin
  obtain ⟨later, hlater⟩ := Steps.exists_emitted hv
  have hts : f.emitted = later.reverse.reverse ++ v.emitted := by rw [hlater, List.reverse_reverse]
  obtain ⟨t', us, hlater', hcontent⟩ := exists_content_of_ink hv hf hstart hink hts
  refine ⟨t', ?_, hcontent⟩
  rw [hlater, List.mem_append, ← List.mem_reverse, hlater']
  exact .inl List.mem_cons_self

end Scanner

open Scanner

/-- The tokens of an indented text write the lines of the text one level deeper. -/
theorem scan_indented {text : List Char} {tokens : List Token}
    (h : scan (String.ofList text) = .ok tokens) :
    ∃ tokens', scan (String.ofList (indented tokens text)) = .ok tokens' ∧
      Lined (Tabbed (lineStarts tokens)) 1 true tokens tokens' := by
  obtain ⟨f, hrun, rfl⟩ := scan_eq_ok.1 h
  have hstarts : lineStarts (f.emitted.reverse ++ [⟨.ending, "", f.line, f.column, f.offset, false⟩]) =
      lineStarts f.tokens := by
    simp [lineStarts, Scanner.tokens]
  rw [hstarts]
  rw [indented, hstarts]
  obtain ⟨hsteps, hrest⟩ := steps_of_run hrun
  have hpaired : Paired text ('\t' :: insertTabs (lineStarts f.tokens) 0 text) f (ofText text)
      (ofText ('\t' :: insertTabs (lineStarts f.tokens) 0 text)) :=
    ⟨.refl, .refl, rfl, alike_ofText _ _, fun _ => ⟨⟨rfl, rfl⟩, rfl, rfl⟩⟩
  obtain ⟨f', ts, ts', hrun', hts, hts', hlined⟩ := hpaired.run hsteps hrest (b := true)
    ⟨fun _ => rfl, fun _ => .inl rfl⟩
  refine ⟨_, scan_eq_ok.2 ⟨f', hrun', rfl⟩, ?_⟩
  rw [show f.emitted = ts by simpa [ofText] using hts, show f'.emitted = ts' by simpa [ofText] using hts']
  exact hlined _ _ rfl rfl

end SignLang
