import SignLang.Proofs.Layout.Brackets
import SignLang.Proofs.Scanner.Spelling

/-!
# Pages and outlines

The text of a formed page is scanned line by line, its tokens are split into the lines of the page,
and the lines are nested as the page is.

* `Legible.closed`: a legible line closes what it opens, so that its tokens stay one line.
* `Page.Formed.scan`: the tokens of the text of a page are its lines, with indentation and line ends
  between them.
* `Page.Formed.nest`: the lines are nested as the page is.
-/

namespace SignLang

open Item Lexeme

/-! ## Lines stay together -/

/-- The tokens stay together on a line, and close what they open. -/
def Closed (ts : List Token) : Prop :=
  (∀ t ∈ ts, t.isContent) ∧ Balanced ts

/-- Two closed parts are closed together. -/
lemma Closed.append {us vs : List Token} (h : Closed us) (h' : Closed vs) : Closed (us ++ vs) := by
  refine ⟨List.forall_mem_append.2 ⟨h.1, h'.1⟩, ?_⟩
  rw [Balanced, openAfter_append, h.2]
  exact h'.2

/-- A closed part in brackets is closed. -/
lemma Closed.enclosed {us : List Token} {opener closer : Token} (ho : opener.kind = .opening)
    (hc : closer.kind = .closing) (hbar : opener.isBar = closer.isBar) (h : Closed us) :
    Closed (opener :: us ++ [closer]) := by
  refine ⟨?_, ?_⟩
  · simp only [List.cons_append, List.forall_mem_cons, List.forall_mem_append]
    exact ⟨by simp [Token.isContent, ho], h.1, by simp [Token.isContent, hc], by rintro _ ⟨⟩⟩
  · rw [Balanced, List.cons_append, openAfter_opening ho, openAfter_append, h.2.openAfter,
      Option.bind_some, openAfter_closing hc, if_pos hbar]
    rfl

/-- A word that is no bracket is closed. -/
lemma Item.Written.closed {i : Item} (h : i.Written) {offset : Int} {ts : List Token}
    (hs : Spelled offset [i] ts) : Closed ts := by
  cases i with
  | gap => exact h.elim
  | word kind lexeme =>
    obtain ⟨t, rest, rfl, ht, rfl⟩ := hs
    obtain ⟨ho, hc, hi, hn, hadmits⟩ := h
    have hend : kind ≠ .ending := by
      rintro rfl
      exact hadmits
    have hcontent : t.isContent := by simp [Token.isContent, ht.kind_eq, hi, hn, hend]
    have hbracket : t.isBracket = false := by simp [Token.isBracket, ht.kind_eq, ho, hc]
    exact ⟨by simpa using hcontent, openAfter_other hbracket [] []⟩

/-- The tokens of a bracketed line. -/
lemma spelled_enclosed {offset : Int} {opener closer : String} {a : List Item} {ts : List Token}
    (h : Spelled offset (word .opening opener :: a ++ [word .closing closer]) ts) :
    ∃ t us t' offset' offset'', ts = t :: us ++ [t'] ∧ t.Spells .opening opener offset ∧
      Spelled offset' a us ∧ t'.Spells .closing closer offset'' := by
  rw [List.cons_append] at h
  obtain ⟨t, rest, rfl, ht, hrest⟩ := h
  obtain ⟨us, vs, rfl, hus, t', rest', rfl, ht', rfl⟩ := spelled_append.1 hrest
  exact ⟨t, us, t', _, _, rfl, ht, hus, ht'⟩

/-- A legible line is closed. -/
lemma Legible.closed {line : List Item} (h : Legible line) {offset : Int} {ts : List Token}
    (hs : Spelled offset line ts) : Closed ts := by
  have hsymbol {s : String} (hs : s ∈ ["!", "~", "'", ","]) : (symbol s).Written := by
    have hall : ∀ s ∈ ["!", "~", "'", ","], readOperator s.toList = .ok s.toList := by
      decide +kernel
    exact Operator.written_symbol (.inr (hall s hs))
  induction h generalizing offset ts with
  | single h => exact h.closed hs
  | spaced _ _ iha ihb =>
    obtain ⟨us, vs, rfl, hus, hvs⟩ := spelled_append.1 hs
    exact (iha hus).append (ihb hvs)
  | emptyGroup =>
    obtain ⟨t, us, t', _, _, rfl, ht, hus, ht'⟩ := spelled_enclosed (a := []) hs
    obtain rfl : us = [] := hus
    have hbar : t.isBar = t'.isBar := by
      simp [Token.isBar, ht.lexeme_eq, ht'.lexeme_eq, Operator.bar]
    exact .enclosed ht.kind_eq ht'.kind_eq hbar ⟨by rintro _ ⟨⟩, rfl⟩
  | group _ ih | bars _ _ _ _ _ ih =>
    obtain ⟨t, us, t', _, _, rfl, ht, hus, ht'⟩ := spelled_enclosed hs
    have hbar : t.isBar = t'.isBar := by
      simp [Token.isBar, ht.lexeme_eq, ht'.lexeme_eq, Operator.bar]
    exact .enclosed ht.kind_eq ht'.kind_eq hbar (ih hus)
  | @lead s b hs' _ _ _ _ ih =>
    obtain ⟨us, vs, rfl, hus, hvs⟩ := (spelled_append (a := [symbol s])).1 hs
    exact (hs'.closed hus).append (ih hvs)
  | trail _ _ hs' ih =>
    obtain ⟨us, vs, rfl, hus, hvs⟩ := spelled_append.1 hs
    exact (ih hus).append ((hsymbol hs').closed hvs)
  | @access a b _ _ _ _ _ iha ihb =>
    obtain ⟨us, vs, rfl, hus, hvs⟩ := spelled_append.1 hs
    obtain ⟨vs, ws, rfl, hvs, hws⟩ := (spelled_append (a := [symbol "'"])).1 hvs
    exact (iha hus).append (((hsymbol (by simp)).closed hvs).append (ihb hws))

/-! ## The lines of a page -/

/-- The lines of a page with their levels, a line before its body and its body before its siblings. -/
def Page.flat (level : Nat) : Page → List (Nat × List Item)
  | done => []
  | entry line body next => (level, line) :: (body.flat (level + 1) ++ next.flat level)

/-- The characters of lines, with a line end before each. -/
def textOfLines (lines : List (Nat × List Item)) : List Char :=
  lines.flatMap fun l => '\n' :: (List.replicate l.1 '\t' ++ textOf l.2)

/-- The text of a page is that of its lines. -/
lemma Page.text_eq_flat (page : Page) (level : Nat) : page.text level = textOfLines (page.flat level) := by
  induction page generalizing level with
  | done => rfl
  | entry line body next ihbody ihnext =>
    rw [Page.text, Page.flat, ihbody, ihnext]
    simp [textOfLines]

/-- The line can be scanned from its start. -/
def Starts (line : List Item) : Prop :=
  Legible line ∧ (textOf line).head? ≠ some tick

/-- The lines of a formed page can be scanned. -/
lemma Page.Formed.starts {page : Page} (h : page.Formed) (level : Nat) :
    ∀ l ∈ page.flat level, Starts l.2 := by
  induction page generalizing level with
  | done => nofun
  | entry line body next ihbody ihnext =>
    obtain ⟨hlegible, htick, -, hbody, hnext⟩ := h
    simp only [Page.flat, List.forall_mem_cons, List.forall_mem_append]
    exact ⟨⟨hlegible, htick⟩, ihbody hbody _, ihnext hnext _⟩

/-- The tokens indent a line by `level` tabs. -/
def Indents (level : Nat) (ts : List Token) : Prop :=
  level = 0 ∧ ts = [] ∨ ∃ t, ts = [t] ∧ t.kind = .indent ∧ t.level = level

/-- The tokens are those of the lines, with indentation before each and a line end between two. -/
def Printed : List (Nat × List Item) → List Token → Prop
  | [], ts => ts = []
  | [l], ts => ∃ indent us offset, ts = indent ++ us ∧ Indents l.1 indent ∧ Spelled offset l.2 us
  | l :: l' :: lines, ts => ∃ indent us offset t rest, ts = indent ++ us ++ t :: rest ∧
      Indents l.1 indent ∧ Spelled offset l.2 us ∧ t.kind = .newline ∧ Printed (l' :: lines) rest

namespace Scanner

/-- A scanner at the start of a line, with nothing but space before it. -/
structure AtStart (s : Scanner) : Prop where
  start : s.atLineStart
  bars_le : ∀ b ∈ s.bars, b ≤ s.depth
  behind : s.behind.head?.all isGap

/-- The tabs before a line are read as its indentation. -/
lemma AtStart.indentation {s : Scanner} (h : s.AtStart) {level : Nat} {c : Char} {text : List Char}
    (hrest : s.rest = List.replicate level '\t' ++ c :: text) (hc : isPlain c) (htick : c ≠ tick) :
    ∃ (s' : Scanner) (indent : List Token), s.run = s'.run ∧ s'.rest = c :: text ∧ s'.emitted = indent ++ s.emitted ∧
      Indents level indent ∧ s'.atLineStart = false ∧ s'.behind.head?.all isGap ∧
      s'.depth = s.depth ∧ s'.bars = s.bars := by
  simp only [isPlain, Bool.and_eq_true, Bool.not_eq_true'] at hc
  have hink : isInk c := by simp [isInk, hc.1, htick]
  obtain ⟨hmoves, hend, hemitted⟩ :=
    indentation_margin hrest (by simp [isSpace]) (r := c :: text) (by simpa using hink)
  have hstep : s.Step s.indentation := ⟨by simp [hrest], step_of_start h.start⟩
  cases level with
  | zero =>
    have hbehind : s.indentation.behind.head?.all isGap := hmoves.behind ▸ h.behind
    exact ⟨_, [], hstep.run_eq, hend, hemitted, .inl ⟨rfl, rfl⟩, hmoves.start, hbehind, hmoves.depth,
      hmoves.bars⟩
  | succ level =>
    rw [if_pos (by rfl)] at hemitted
    obtain ⟨t, ht, hspells⟩ := hemitted
    have hbehind : s.indentation.behind.head?.all isGap := by
      rw [hmoves.behind, List.reverse_replicate]
      rfl
    refine ⟨_, [t], hstep.run_eq, hend, ht, .inr ⟨t, rfl, hspells.kind_eq, ?_⟩, hmoves.start, hbehind,
      hmoves.depth, hmoves.bars⟩
    rw [hspells.level_eq]
    simp

/-- A line feed ends the line. -/
lemma run_newline {s : Scanner} {text : List Char} (hin : s.atLineStart = false)
    (hrest : s.rest = '\n' :: text) (hbars : ∀ b ∈ s.bars, b ≤ s.depth) :
    ∃ (s' : Scanner) (t : Token), s.run = s'.run ∧ s'.rest = text ∧ s'.emitted = t :: s.emitted ∧
      t.kind = .newline ∧ s'.AtStart := by
  obtain ⟨m, hstep, hreads, hm⟩ :=
    exists_step_of_lexes (w := ['\n']) (k := .newline) hin hrest (.inl rfl)
  obtain ⟨t, ht, hspells⟩ := hreads.emitted
  refine ⟨m, t, hstep.run_eq, hm, ht, hspells.kind_eq, by simp [hreads.start], ?_, ?_⟩
  · rw [hreads.bars_eq (by decide), hreads.depth_eq (by decide)]
    exact hbars
  · rw [hreads.behind]
    rfl

end Scanner

/-- Every word stops at the end of the text. -/
lemma Item.stops_nil (i : Item) : i.Stops [] := by
  cases i with
  | gap => trivial
  | word kind lexeme =>
    cases kind <;> simp [Stops, Apart]

/-- One line is scanned from its start to the end of the text or to a line end. -/
lemma Scanner.AtStart.line {s : Scanner} (h : s.AtStart) {level : Nat} {line : List Item}
    (hline : Starts line) {text : List Char}
    (hrest : s.rest = List.replicate level '\t' ++ textOf line ++ text)
    (htext : text.head?.all isTerminator) :
    ∃ (s' : Scanner) (ts indent us : List Token) (offset : Int), s.run = s'.run ∧ s'.rest = text ∧
      s'.atLineStart = false ∧ (∀ b ∈ s'.bars, b ≤ s'.depth) ∧ s'.emitted = ts.reverse ++ s.emitted ∧
      ts = indent ++ us ∧ Indents level indent ∧ Spelled offset line us := by
  obtain ⟨hlegible, htick⟩ := hline
  obtain ⟨c, cs, hcs, hplain, -⟩ := hlegible.text_eq_cons
  obtain ⟨s₁, indent, hrun₁, hrest₁, hemitted₁, hindent, hin₁, hbehind₁, hdepth₁, hbars₁⟩ :=
    h.indentation (hrest.trans (by rw [hcs, List.append_assoc, List.cons_append])) hplain (by
      rintro rfl
      exact htick (by rw [hcs]; rfl))
  have ready : s₁.Ready line := .of_gap hin₁ (by rw [hbars₁, hdepth₁]; exact h.bars_le) hbehind₁ line
  have hstops (i : Item) : i.Stops text := by
    cases text with
    | nil => exact i.stops_nil
    | cons c text =>
      have : isTerminator c := htext
      exact i.stops_of_free (by simp [isGap, this]) text
  obtain ⟨s₂, hpass₂, hrest₂, hdepth₂, hbars₂⟩ := hlegible.crosses ready
    (by rw [hrest₁, hcs, List.cons_append]) fun i _ => hstops i
  obtain ⟨us, hus, hspelled⟩ := hpass₂.emitted
  refine ⟨s₂, indent ++ us, indent, us, _, hrun₁.trans hpass₂.run, hrest₂, hpass₂.inside, ?_, ?_, rfl,
    hindent, hspelled⟩
  · rw [hbars₂, hdepth₂, hbars₁, hdepth₁]
    exact h.bars_le
  · have hone : indent.reverse = indent := by
      rcases hindent with ⟨-, rfl⟩ | ⟨t, rfl, -⟩ <;> rfl
    rw [hus, hemitted₁, List.reverse_append, hone, List.append_assoc]

/-- The text of some lines is scanned as those lines. -/
lemma Scanner.AtStart.printed {s : Scanner} (h : s.AtStart) {l : Nat × List Item}
    {lines : List (Nat × List Item)} (hlines : ∀ l' ∈ l :: lines, Starts l'.2)
    (hrest : s.rest = List.replicate l.1 '\t' ++ textOf l.2 ++ textOfLines lines) :
    ∃ s' ts, s.run = .ok s' ∧ s'.emitted = ts.reverse ++ s.emitted ∧ Printed (l :: lines) ts := by
  induction lines generalizing s l with
  | nil =>
    obtain ⟨s₁, ts, indent, us, offset, hrun, hrest₁, -, -, hemitted, rfl, hindent, hspelled⟩ :=
      h.line (hlines l List.mem_cons_self) hrest rfl
    refine ⟨s₁, indent ++ us, ?_, hemitted, indent, us, offset, rfl, hindent, hspelled⟩
    rw [hrun, Scanner.run, if_pos (by rw [hrest₁]; rfl)]
  | cons l' lines ih =>
    rw [List.forall_mem_cons] at hlines
    obtain ⟨s₁, ts, indent, us, offset, hrun, hrest₁, hin, hbars, hemitted, rfl, hindent, hspelled⟩ :=
      h.line hlines.1 hrest rfl
    obtain ⟨s₂, t, hrun₂, hrest₂, hemitted₂, hkind, hstart⟩ := Scanner.run_newline hin hrest₁ hbars
    obtain ⟨s₃, ts, hrun₃, hemitted₃, hprinted⟩ := ih hstart hlines.2 hrest₂
    refine ⟨s₃, indent ++ us ++ t :: ts, hrun.trans (hrun₂.trans hrun₃), ?_, indent, us, offset, t, ts,
      rfl, hindent, hspelled, hkind, hprinted⟩
    rw [hemitted₃, hemitted₂, hemitted]
    simp

/-- The text of a formed page, without the line end before its first line, is scanned as the lines of
the page. -/
lemma Page.Formed.scan {page : Page} (h : page.Formed) :
    ∃ ts ending, scan (String.ofList (page.text 0).tail) = .ok (ts ++ [ending]) ∧
      ending.kind = .ending ∧ Printed (page.flat 0) ts := by
  cases page with
  | done => exact ⟨[], Token.emptyEnding, by decide +kernel, rfl, rfl⟩
  | entry line body next =>
    have hstart : (Scanner.ofText (textOf line ++ textOfLines (body.flat 1 ++ next.flat 0))).AtStart :=
      ⟨rfl, nofun, rfl⟩
    obtain ⟨s', ts, hrun, hemitted, hprinted⟩ := hstart.printed (h.starts 0) rfl
    have htext : ((entry line body next).text 0).tail =
        textOf line ++ textOfLines (body.flat 1 ++ next.flat 0) := by
      rw [Page.text_eq_flat]
      simp [textOfLines, Page.flat]
    refine ⟨ts, ⟨.ending, "", s'.line, s'.column, s'.offset, false⟩, ?_, rfl, hprinted⟩
    rw [SignLang.scan, Scanner.tokenize, String.toList_ofList, htext, hrun]
    change Except.ok (_ :: s'.emitted).reverse = _
    rw [hemitted]
    simp [Scanner.ofText, Scanner.setMark]

/-! ## Splitting -/

/-- Tokens that stay together are gathered for the line at hand. -/
lemma Line.splitFrom_append {level depth depth' : Nat} {gathered us rest : List Token}
    (hcontent : ∀ t ∈ us, t.isContent) (hheight : heightAfter depth us = some depth') :
    splitFrom level depth gathered (us ++ rest) = splitFrom level depth' (us.reverse ++ gathered) rest := by
  induction us generalizing depth gathered with
  | nil => cases hheight; rfl
  | cons t us ih =>
    rw [List.forall_mem_cons] at hcontent
    obtain ⟨ht, hus⟩ := hcontent
    simp only [Token.isContent, Bool.and_eq_true, decide_eq_true_eq] at ht
    rw [List.cons_append, List.reverse_cons, List.append_assoc]
    rcases t.bracket_cases with hk | hk | hk
    · rw [heightAfter_opening hk] at hheight
      rw [splitFrom, hk]
      exact ih hus hheight
    · cases depth with
      | zero => rw [heightAfter_zero_closing hk] at hheight; cases hheight
      | succ depth =>
        rw [heightAfter_closing hk] at hheight
        rw [splitFrom, hk]
        exact ih hus hheight
    · rw [heightAfter_other hk] at hheight
      refine Eq.trans ?_ (@ih depth (t :: gathered) hus hheight)
      simp only [Token.isBracket, Bool.or_eq_false_iff, decide_eq_false_iff_not] at hk
      rw [splitFrom.eq_def]
      dsimp only
      split <;> simp_all

/-- The line is the one of a page: it stands at its level and has the tokens of its words. -/
def Line.Shows (line : Line) (l : Nat × List Item) : Prop :=
  line.level = l.1 ∧ ∃ offset, Spelled offset l.2 line.tokens

/-- A legible line has tokens. -/
lemma Legible.tokens_ne_nil {line : List Item} (h : Legible line) {offset : Int} {ts : List Token}
    (hs : Spelled offset line ts) : ts ≠ [] := by
  obtain ⟨a, kind, lexeme, rfl, -⟩ := h.exists_last_word
  obtain ⟨us, t, rfl, -⟩ := hs.getLast?
  simp

/-- The indentation before a line sets its level. -/
lemma Line.splitFrom_indents {level : Nat} {indent : List Token} (h : Indents level indent)
    (rest : List Token) : splitFrom 0 0 [] (indent ++ rest) = splitFrom level 0 [] rest := by
  rcases h with ⟨rfl, rfl⟩ | ⟨t, rfl, hk, rfl⟩
  · rfl
  · rw [List.singleton_append, splitFrom, hk]
    rfl

/-- The tokens of a line become that line. -/
lemma Line.ofGathered_shows (level : Nat) {line : List Item} (h : Legible line) {offset : Int}
    {us : List Token} (hus : Spelled offset line us) :
    ∃ l, ofGathered level us.reverse = [l] ∧ l.Shows (level, line) := by
  unfold ofGathered
  rw [List.reverse_reverse]
  cases us with
  | nil => exact absurd rfl (h.tokens_ne_nil hus)
  | cons t us => exact ⟨⟨level, t, us⟩, rfl, rfl, offset, hus⟩

/-- The tokens of some lines are split into those lines. -/
lemma Printed.split {lines : List (Nat × List Item)} {ts : List Token} (h : Printed lines ts)
    (hstarts : ∀ l ∈ lines, Starts l.2) {ending : Token} (hending : ending.kind = .ending) :
    List.Forall₂ Line.Shows (Line.split (ts ++ [ending])) lines := by
  have hline {level : Nat} {indent us rest : List Token} {offset : Int} {line : List Item}
      (hs : Starts line) (hindent : Indents level indent) (hus : Spelled offset line us) :
      Line.splitFrom 0 0 [] (indent ++ us ++ rest) = Line.splitFrom level 0 us.reverse rest := by
    obtain ⟨hcontent, hbalanced⟩ := hs.1.closed hus
    rw [List.append_assoc, Line.splitFrom_indents hindent,
      Line.splitFrom_append hcontent (hbalanced.heightAfter 0), List.append_nil]
  unfold Line.split
  fun_induction Printed lines ts with
  | case1 ts =>
    obtain rfl := h
    simp [Line.splitFrom, hending, Line.ofGathered]
  | case2 l ts =>
    obtain ⟨indent, us, offset, rfl, hindent, hus⟩ := h
    have hs := hstarts l List.mem_cons_self
    obtain ⟨line, hgathered, hshows⟩ := Line.ofGathered_shows l.1 hs.1 hus
    rw [hline hs hindent hus, Line.splitFrom, hending, hgathered]
    exact .cons hshows .nil
  | case3 l l' lines ts ih =>
    obtain ⟨indent, us, offset, t, rest, rfl, hindent, hus, hkind, hprinted⟩ := h
    rw [List.forall_mem_cons] at hstarts
    obtain ⟨line, hgathered, hshows⟩ := Line.ofGathered_shows l.1 hstarts.1.1 hus
    rw [List.append_assoc, hline hstarts.1 hindent hus, List.cons_append, Line.splitFrom, hkind]
    dsimp only
    rw [if_pos rfl, hgathered]
    exact .cons hshows (ih rest hprinted hstarts.2)

/-! ## Nesting -/

/-- The outline nests the lines of a page as the page does. -/
inductive Page.Outlined : Page → Outline → Prop where
  | done : Outlined .done .done
  | entry {words : List Item} {body next : Page} {line : Line} {body' next' : Outline} {offset : Int} :
    Spelled offset words line.tokens →
    Outlined body body' →
    Outlined next next' →
    Outlined (.entry words body next) (.entry line body' next')

/-- The lines of a page stand at its level or deeper. -/
lemma Page.le_of_mem_flat {page : Page} {level : Nat} : ∀ l ∈ page.flat level, level ≤ l.1 := by
  induction page generalizing level with
  | done => nofun
  | entry line body next ihbody ihnext =>
    simp only [Page.flat, List.forall_mem_cons, List.forall_mem_append]
    exact ⟨le_rfl, fun l hl => Nat.le_of_succ_le (ihbody l hl), ihnext⟩

/-- Lines that are those of a page stand at its level or deeper. -/
lemma Line.le_of_shows {lines : List Line} {ws : List (Nat × List Item)} {level : Nat}
    (h : List.Forall₂ Line.Shows lines ws) (hws : ∀ w ∈ ws, level ≤ w.1) :
    ∀ line ∈ lines, level ≤ line.level := by
  induction h with
  | nil => nofun
  | cons hline _ ih =>
    rw [List.forall_mem_cons] at hws ⊢
    exact ⟨hline.1 ▸ hws.1, ih hws.2⟩

/-- A line that ends in an operator that takes a block has headers. -/
lemma Line.isEmpty_headers {line : Line} {offset : Int} {words : List Item}
    (h : Spelled offset words line.tokens) (hlast : words.getLast?.any isHeader) :
    line.headers.isEmpty = false := by
  obtain ⟨a, i, rfl⟩ := (List.eq_nil_or_concat' words).resolve_left (by
    rintro rfl
    cases hlast)
  rw [List.getLast?_concat, Option.any_some] at hlast
  cases i with
  | gap => cases hlast
  | word kind lexeme =>
    obtain ⟨us, t, hus, ht⟩ := h.getLast?
    have hop : t.isOperator Operator.blockSymbols := by
      simpa [Token.isOperator, ht.kind_eq, ht.lexeme_eq, isHeader, Operator.blockSymbols] using hlast
    rw [Line.headers, trailingBlockOps, hus, List.reverse_concat]
    simp [hop]

/-- The lines below the level of a page, and those at it. -/
lemma Page.span_flat {next : Page} {level : Nat} {below rest : List Line}
    (hbelow : ∀ line ∈ below, level < line.level)
    (hrest : List.Forall₂ Line.Shows rest (next.flat level)) :
    (below ++ rest).takeWhile (level < ·.level) = below ∧
      (below ++ rest).dropWhile (level < ·.level) = rest := by
  rw [List.takeWhile_append_of_pos (by simpa using hbelow),
    List.dropWhile_append_of_pos (by simpa using hbelow)]
  cases next with
  | done =>
    cases hrest
    simp
  | entry words body next =>
    obtain ⟨line, rest, ⟨hlevel, -⟩, -, rfl⟩ := List.forall₂_cons_right_iff.1 hrest
    have hnot : ¬level < line.level := by omega
    simp [hnot]

/-- The lines of a formed page are nested as the page is, if enough levels are admitted. -/
theorem Page.Formed.nest {page : Page} (h : page.Formed) {level : Nat} {lines : List Line}
    (hlines : List.Forall₂ Line.Shows lines (page.flat level)) :
    ∃ limit outline, Outline.nest limit level lines = .ok outline ∧ page.Outlined outline := by
  induction page generalizing level lines with
  | done =>
    cases hlines
    exact ⟨0, .done, Outline.Nesting.done.nest_eq, .done⟩
  | entry words body next ihbody ihnext =>
    obtain ⟨-, -, hheader, hbody, hnext⟩ := h
    obtain ⟨line, rest, ⟨hlevel, offset, hwords⟩, hrest, rfl⟩ := List.forall₂_cons_right_iff.1 hlines
    have hbelow := List.forall₂_take_append _ _ _ hrest
    have hafter := List.forall₂_drop_append _ _ _ hrest
    rw [← List.take_append_drop (body.flat (level + 1)).length rest]
    generalize rest.take _ = below at hbelow ⊢
    generalize rest.drop _ = after at hafter ⊢
    obtain ⟨htake, hdrop⟩ := Page.span_flat (Line.le_of_shows hbelow Page.le_of_mem_flat) hafter
    obtain ⟨limit, body', hnest, hout⟩ := ihbody hbody hbelow
    obtain ⟨limit', next', hnest', hout'⟩ := ihnext hnext hafter
    refine ⟨max (max limit limit') (level + 2), .entry line body' next', ?_, .entry hwords hout hout'⟩
    generalize hlimit : max (max limit limit') (level + 2) = limit₀
    have hb := Outline.nest_mono hnest (show limit ≤ limit₀ by omega)
    have hn := Outline.nest_mono hnest' (show limit' ≤ limit₀ by omega)
    rw [Outline.nest_iff] at hb hn ⊢
    cases hout with
    | done =>
      cases hbelow
      exact .plain hlevel.le htake hn
    | entry =>
      obtain ⟨first, others, ⟨hfirst, -⟩, -, rfl⟩ := List.forall₂_cons_right_iff.1 hbelow
      have hheaders : line.headers ≠ [] := by
        simpa using Line.isEmpty_headers hwords (hheader rfl)
      rw [← hdrop] at hn
      exact .header hlevel.le htake hheaders hfirst (by rw [hfirst]; omega) hb hn

end SignLang
