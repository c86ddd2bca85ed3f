import SignLang.Proofs.Scanner.Bars
import SignLang.Proofs.Scanner.Lossless
import SignLang.Proofs.Scanner.Margin
import SignLang.Proofs.Scanner.Place
import SignLang.Proofs.Text.Indent

/-!
# The tokens of an indented text

A block is put under its header by a tab in front of each of its lines. Lines end there at more characters than the
scanner takes for line ends, so tabs may come in between, where no line of tokens starts. Two scanners run side by
side over the text and over the text with tabs (`Scanner.Beside`). They read the same tokens, one level deeper
(`deeper`), except for a string in which a line ends, and for a bar that closes directly after a character literal in
which one ends: the string gets the tab, and the bar takes it for space (`Token.Yields`). Where there are none of
these, and only there, a text keeps its tokens (`scan_indent_iff`).
-/

namespace SignLang

open Lexeme

/-! ## Lexemes -/

/-- Tabs in front of lines make another string of a string with a line end in it. -/
lemma Lexeme.IsString.indentAfter_ne {w : List Char} (h : IsString w) (hends : w.any Text.isLineEnd) :
    Text.indentAfter (some ' ') w ≠ w := by
  obtain ⟨body, rfl, hbody⟩ := h
  obtain ⟨c, hc, hend⟩ : ∃ c ∈ body, Text.isLineEnd c := by
    simpa [show Text.isLineEnd tick = false by decide] using hends
  obtain ⟨a, b, rfl⟩ := List.append_of_mem hc
  have hreturn : c ≠ '\r' := by
    rintro rfl
    exact absurd (List.all_eq_true.1 hbody _ hc) (by decide)
  have hlt := Text.length_lt_indentAfter (p := some ' ') (a := tick :: a) (r := b ++ [tick]) hend hreturn (by simp)
  rw [List.cons_append, List.append_assoc]
  exact fun heq => hlt.ne' (congrArg List.length heq)

/-- Tabs in front of lines make a string of a string. -/
lemma Lexeme.IsString.indentAfter {w : List Char} (h : IsString w) : IsString (Text.indentAfter (some ' ') w) := by
  obtain ⟨body, rfl, hbody⟩ := h
  have htick : Text.isLineEnd tick = false := by decide
  have hall (p : Option Char) : (Text.indentAfter p body).all isStringChar := by
    refine List.all_eq_true.2 fun c hc => ?_
    rcases Text.mem_indentAfter hc with rfl | hc
    · decide
    · exact List.all_eq_true.1 hbody c hc
  rw [List.cons_append, Text.indentAfter, Text.indentAfter_append]
  have hself : Text.indentAfter (some ' ') [tick] = [tick] := Text.indentAfter_eq_self (by simpa using htick)
  have hlast := Text.indentAfter_cases (body.getLast?.or (some tick)) [tick]
  rw [hself] at hlast
  rcases hlast with hlast | hlast
  · rw [hlast]
    exact ⟨Text.indentAfter (some tick) body, by simp, hall _⟩
  · rw [hlast]
    refine ⟨Text.indentAfter (some tick) body ++ ['\t'], by simp, ?_⟩
    rw [List.all_append, hall]
    decide

namespace Scanner

variable {text w r : List Char} {s s' m m' : Scanner} {k : Kind} {c : Char}

/-- No line ends in a lexeme other than a literal and a line end. -/
lemma Lexes.isLineEnd_eq_false (h : s.Lexes r w k) (hk : k ∉ [.string, .character, .newline]) :
    ∀ c ∈ w, Text.isLineEnd c = false := by
  have hclass := h.classed.1
  cases k with
  | identifier => exact fun c hc => Text.isLineEnd_eq_false (.inl (List.all_eq_true.1 h.1.2.1 c hc))
  | unit =>
    rw [h.1]
    simp [Text.isLineEnd]
  | number => exact fun c hc => Text.isLineEnd_eq_false (h.1.forall_mem c hc)
  | operator =>
    have hall : ∀ s ∈ operators, s.toList.all (!Text.isLineEnd ·) := by decide +kernel
    simpa using hall _ hclass
  | opening =>
    obtain ⟨c, hc, rfl⟩ := hclass
    fin_cases hc <;> simp [Text.isLineEnd]
  | closing =>
    obtain ⟨c, hc, rfl⟩ := hclass
    fin_cases hc <;> simp [Text.isLineEnd]
  | string | character | newline => simp at hk
  | indent | separator | ending => exact h.elim

/-- Tabs in front of lines leave a lexeme as it is, unless it is a string with a line end in it. -/
lemma Lexes.indentAfter_eq (h : s.Lexes r w k) (hstring : k = .string → w.any Text.isLineEnd = false) :
    Text.indentAfter (some ' ') w = w := by
  by_cases hk : k ∉ [.string, .character, .newline]
  · exact Text.indentAfter_eq_self (h.isLineEnd_eq_false hk)
  simp only [List.mem_cons, List.not_mem_nil, or_false, not_not] at hk
  rcases hk with rfl | rfl | rfl
  · exact Text.indentAfter_eq_self (by simpa using hstring rfl)
  · obtain ⟨c, rfl⟩ := h
    simp [Text.indentAfter, show Text.isLineEnd '\\' = false by decide]
  · rcases h with rfl | rfl | ⟨rfl, -⟩ <;> decide

/-- The text after a lexeme starts at its last character. -/
lemma Lexes.indentAfter_append (h : s.Lexes r w k) :
    Text.indentAfter (some ' ') (w ++ r) = Text.indentAfter (some ' ') w ++ Text.indentAfter w.getLast? r := by
  obtain ⟨c, cs, rfl, -⟩ := h.exists_starter
  rw [Text.indentAfter_append, List.getLast?_cons, Option.some_or]

/-- A token that a scanner reads before a text, a scanner that takes bars for the same reads before the text with
tabs. -/
lemma Lexes.indented (h : s.Lexes r w k)
    (hbar : w = ['|'] → barKind? s'.leftFree s'.canClose (rightFree r) = barKind? s.leftFree s.canClose (rightFree r))
    (hpoint : r.head? ≠ some '.') :
    s'.Lexes (Text.indentAfter w.getLast? r) (Text.indentAfter (some ' ') w) k := by
  by_cases hk : k ∈ [.string, .character, .newline]
  · simp only [List.mem_cons, List.not_mem_nil, or_false] at hk
    rcases hk with rfl | rfl | rfl
    · exact IsString.indentAfter h
    · rw [h.indentAfter_eq (by simp)]
      exact h
    · rw [h.indentAfter_eq (by simp)]
      refine Or.imp_right (Or.imp_right fun hreturn => ⟨hreturn.1, ?_⟩) h
      rw [hreturn.1, List.getLast?_singleton, Text.indentAfter_lineEnd (by decide) fun _ => hreturn.2]
      cases r <;> simp [Text.indentAfter]
  · rw [h.indentAfter_eq fun hstring => absurd (by simp [hstring]) hk]
    obtain ⟨c, cs, hcs, -⟩ := h.exists_starter
    have hlast : w.getLast? = some (w.getLast (by simp [hcs])) := List.getLast?_eq_some_getLast _
    have hend := h.isLineEnd_eq_false hk _ (List.getLast_mem (by simp [hcs]))
    have hhead : (Text.indentAfter w.getLast? r).head? = r.head? := by
      rw [hlast, Text.indentAfter_inside hend, Text.head?_indentAfter]
    have hfits : Fits r (Text.indentAfter w.getLast? r) := .inl hhead
    refine h.congr hfits.continues (fun hw => ?_) hpoint fun hreturn => ?_
    · rw [hfits.rightFree_eq]
      exact hbar hw
    · rw [hhead]
      exact (Lexes.of_return (hreturn ▸ h)).2

/-! ## What is behind a scanner -/

/-- A bar can close after a token, unless that opens a bracket or ends with space. -/
lemma Reads.canClose_eq (h : s.Reads k w m) (hw : w ≠ []) :
    m.canClose = (!w.getLast?.all isGap && !decide (k = .opening) && m.bars.head? = some m.depth) := by
  rw [canClose, h.afterOpening, h.head?_behind hw]

/-- The text before a scanner ends with what is behind it. -/
lemma Placed.getLast?_take (h : s.Placed text) : (text.take s.offset).getLast? = s.behind.head? := by
  have hlength : s.offset = s.behind.reverse.length := by rw [List.length_reverse, h.offset_eq]
  rw [h.text_eq, hlength, List.take_left, List.getLast?_reverse]

/-! ## Scanners side by side -/

/-- Two scanners with the same counters. -/
structure Even (s s' : Scanner) : Prop where
  start : s'.atLineStart = s.atLineStart
  depth : s'.depth = s.depth
  bars : s'.bars = s.bars

/-- Two scanners, before a text and before the text with tabs put in, that have read as much of it. They are inside
of a line and take bars for the same, or before its end, or at the start of a line, where a tab comes first for the
second one, or after a character literal with a line end in it, where one does too. -/
inductive Beside (s s' : Scanner) : Prop where
  | inside :
    s.Even s' →
    s.atLineStart = false →
    s'.rest = Text.indentAfter (some ' ') s.rest →
    s'.leftFree = s.leftFree ∧ s'.canClose = s.canClose →
    (s.canClose → s.behind.head?.any Text.isLineEnd = false) →
    Beside s s'
  | edge :
    s.Even s' →
    s.atLineStart = false →
    s'.rest = Text.indentAfter (some ' ') s.rest →
    s.rest.head?.all isTerminator →
    Beside s s'
  | line :
    s.Even s' →
    s.atLineStart →
    s'.rest = Text.indentAfter none s.rest →
    s.behind.head?.all isGap →
    Beside s s'
  | literal :
    s.Even s' →
    s.atLineStart = false →
    s'.rest = '\t' :: Text.indentAfter (some ' ') s.rest →
    s.rest ≠ [] →
    s.behind.head?.any Text.isLineEnd →
    Beside s s'

/-- Scanners that are side by side at the start of a line. -/
lemma Beside.of_start (h : s.Beside s') (hstart : s.atLineStart) :
    s.Even s' ∧ s'.rest = Text.indentAfter none s.rest ∧ s.behind.head?.all isGap := by
  cases h with
  | inside _ hin | edge _ hin | literal _ hin =>
    rw [hstart] at hin
    cases hin
  | line heven _ hrest hgap => exact ⟨heven, hrest, hgap⟩

/-- Scanners in gaps inside of a line are side by side. -/
lemma Beside.of_gap (heven : m.Even m') (hin : m.atLineStart = false)
    (hrest : m'.rest = Text.indentAfter (some ' ') m.rest) (hgap : m.behind.head?.all isGap)
    (hgap' : m'.behind.head?.all isGap) : m.Beside m' := by
  obtain ⟨hfree, hclose⟩ := leftFree_of_gap hgap
  obtain ⟨hfree', hclose'⟩ := leftFree_of_gap hgap'
  refine .inside heven hin hrest ⟨hfree'.trans hfree.symm, hclose'.trans hclose.symm⟩ fun h => ?_
  rw [hclose] at h
  cases h

/-- Scanners that are side by side before a token are so after it. -/
lemma Beside.of_reads (heven : s.Even s') (hreads : s.Reads k w m) (hlexes : s.Lexes m.rest w k)
    (hreads' : s'.Reads k (Text.indentAfter (some ' ') w) m')
    (hrest : m'.rest = Text.indentAfter w.getLast? m.rest) : m.Beside m' := by
  obtain ⟨hne, -⟩ := hlexes.head?_isSpace
  have hsame : Text.indentAfter (some ' ') w = w ∨ k = .string := by
    by_cases hstring : k = .string
    · exact .inr hstring
    · exact .inl (hlexes.indentAfter_eq fun h => absurd h hstring)
  have hlast : Text.indentAfter (some ' ') w ≠ [] ∧ (Text.indentAfter (some ' ') w).getLast? = w.getLast? := by
    rcases hsame with hsame | rfl
    · exact ⟨hsame.symm ▸ hne, by rw [hsame]⟩
    · have hstring : IsString w := hlexes
      obtain ⟨body', hbody', -⟩ := hstring.indentAfter
      obtain ⟨body, rfl, -⟩ := hstring
      rw [hbody']
      exact ⟨by simp, by rw [List.getLast?_concat, List.getLast?_concat]⟩
  have heven' : m.Even m' := by
    refine ⟨hreads'.start.trans hreads.start.symm, ?_, ?_⟩
    · rw [hreads'.depth, hreads.depth, heven.depth]
      rcases hsame with hsame | rfl
      · rw [hsame]
      · rw [depthAfter_other (by decide), depthAfter_other (by decide)]
    · rw [hreads'.bars, hreads.bars, heven.depth, heven.bars]
      rcases hsame with hsame | rfl
      · rw [hsame]
      · rw [barsAfter_other (by decide), barsAfter_other (by decide)]
  have hbehind := hreads.head?_behind hne
  have hbehind' := (hreads'.head?_behind hlast.1).trans hlast.2
  obtain ⟨d, hd⟩ : ∃ d, w.getLast? = some d := ⟨_, List.getLast?_eq_some_getLast hne⟩
  rw [hd] at hrest hbehind hbehind'
  by_cases hnewline : k = .newline
  · subst hnewline
    have hterm : isGap d ∧ Text.isLineEnd d ∧ (d = '\r' → m.rest.head? ≠ some '\n') := by
      rcases hlexes with rfl | rfl | ⟨rfl, hnext⟩ <;> cases hd
      · exact ⟨by decide, by decide, nofun⟩
      · exact ⟨by decide, by decide, nofun⟩
      · exact ⟨by decide, by decide, fun _ => hnext⟩
    refine .line heven' (by simp [hreads.start]) ?_ (by simpa [hbehind] using hterm.1)
    rw [hrest, Text.indentAfter_lineEnd hterm.2.1 hterm.2.2]
  have hin : m.atLineStart = false := by rw [hreads.start, decide_eq_false hnewline]
  by_cases hend : Text.isLineEnd d
  · by_cases hnil : m.rest = []
    · exact .edge heven' hin (by rw [hrest, hnil]; rfl) (by rw [hnil]; rfl)
    by_cases hpair : d = '\r' → m.rest.head? ≠ some '\n'
    · refine .literal heven' hin ?_ hnil (by simpa [hbehind] using hend)
      rw [hrest, Text.indentAfter_lineEnd hend hpair, Text.indentAfter_none hnil]
    · -- the line feed ends the line that the carriage return in the literal does not
      rw [Classical.not_imp, not_not] at hpair
      obtain ⟨rfl, hnext⟩ := hpair
      obtain ⟨rest, hrest'⟩ := List.head?_eq_some_iff.1 hnext
      refine .edge heven' hin ?_ (by rw [hnext]; rfl)
      rw [hrest, hrest']
      simp [Text.indentAfter, show Text.breaksLine (some '\r') '\n' = false by decide]
  · rw [Bool.not_eq_true] at hend
    refine .inside heven' hin ?_ ⟨?_, ?_⟩ fun _ => by simpa [hbehind] using hend
    · rw [hrest, Text.indentAfter_inside hend]
    · exact leftFree_congr (hbehind'.trans hbehind.symm)
    · rw [hreads.canClose_eq hne, hreads'.canClose_eq hlast.1, hlast.2, heven'.bars, heven'.depth]

end Scanner

/-! ## The words of an indented text -/

/-- What a token says, wherever it stands. -/
def Token.spelling (t : Token) : Kind × String :=
  (t.kind, t.lexeme)

/-- The spelling of a token at the start of a line, with one more tab before it. -/
def Token.deeper (t : Token) : List (Kind × String) :=
  match t.kind with
  | .newline | .ending => [t.spelling]
  | .indent => [(.indent, "\t" ++ t.lexeme)]
  | _ => [(.indent, "\t"), t.spelling]

/-- The spellings of tokens, with one more tab before each line of them; `start` says that the first one starts a
line. -/
def deeper (start : Bool) : List Token → List (Kind × String)
  | [] => []
  | t :: ts => (if start then t.deeper else [t.spelling]) ++ deeper (t.kind = .newline) ts

/-- A line of the text ends where the token does not expect it: inside of a string, or in a character literal
directly before a bar that closes. -/
def Token.Yields (text : List Char) (t : Token) : Prop :=
  t.kind = .string ∧ t.lexeme.toList.any Text.isLineEnd ∨
    t.kind = .closing ∧ t.lexeme = "|" ∧ (text.take t.offset.toNat).getLast?.any Text.isLineEnd

instance (text : List Char) (t : Token) : Decidable (t.Yields text) :=
  inferInstanceAs (Decidable (_ ∨ _))

/-- The end of the input is not moved. -/
lemma deeper_concat {e : Token} (he : e.kind = .ending) (b : Bool) (ts : List Token) :
    deeper b (ts ++ [e]) = deeper b ts ++ [e.spelling] := by
  induction ts generalizing b with
  | nil => cases b <;> simp [deeper, Token.deeper, he]
  | cons t ts ih => rw [List.cons_append, deeper, deeper, ih, List.append_assoc]

/-- A token inside of a line keeps its spelling, and so does a line end. -/
lemma deeper_cons {b : Bool} {t : Token} (h : t.kind = .newline ∨ b = false) (ts : List Token) :
    deeper b (t :: ts) = t.spelling :: deeper (t.kind = .newline) ts := by
  rw [deeper]
  rcases h with hk | rfl
  · cases b <;> simp [Token.deeper, hk]
  · rfl

/-- The contents of a line at its start have a tab before them. -/
lemma deeper_content {t : Token} (h : t.isContent) (ts : List Token) :
    deeper true (t :: ts) = (.indent, "\t") :: deeper false (t :: ts) := by
  simp only [Token.isContent, Bool.and_eq_true, decide_eq_true_eq] at h
  have hdeeper : t.deeper = [(.indent, "\t"), t.spelling] := by
    unfold Token.deeper
    split
    · next hk => exact absurd hk h.1.1
    · next hk => exact absurd hk h.2
    · next hk => exact absurd hk h.1.2
    · rfl
  rw [deeper, deeper, if_pos rfl, hdeeper]
  rfl

namespace Scanner

variable {text w r : List Char} {s s' m m' f : Scanner} {k : Kind} {b b' : Bool} {t t' : Token}
  {ts xs : List Token}

/-- The scanner comes to its end, with spellings that are one level deeper, exactly if no line ends where the
tokens do not expect it. -/
def Agrees (text : List Char) (s' : Scanner) (b : Bool) (ts : List Token) : Prop :=
  (∃ f' us, s'.run = .ok f' ∧ f'.emitted = us ++ s'.emitted ∧ us.reverse.map Token.spelling = deeper b ts) ↔
    ∀ t ∈ ts, ¬ t.Yields text

/-- Steps of the scanner over tokens that are one level deeper. -/
lemma Agrees.of_steps (h : Agrees text m' b' ts) (xs xs' : List Token) (hsteps : s'.Steps m')
    (hemitted : m'.emitted = xs' ++ s'.emitted)
    (hwords : deeper b (xs ++ ts) = xs'.reverse.map Token.spelling ++ deeper b' ts)
    (hxs : ∀ t ∈ xs, ¬ t.Yields text) : Agrees text s' b (xs ++ ts) := by
  have hall : (∀ t ∈ xs ++ ts, ¬ t.Yields text) ↔ ∀ t ∈ ts, ¬ t.Yields text := by
    rw [List.forall_mem_append]
    exact and_iff_right hxs
  unfold Agrees at h ⊢
  rw [hall, ← h, hsteps.run_eq, hwords]
  constructor
  · rintro ⟨f', us, hrun, hus, hwords'⟩
    obtain ⟨vs, hvs⟩ := Steps.exists_emitted (steps_of_run hrun).1
    obtain rfl : us = vs ++ xs' := by
      rw [hvs, hemitted, ← List.append_assoc] at hus
      exact (List.append_cancel_right hus).symm
    rw [List.reverse_append, List.map_append] at hwords'
    exact ⟨f', vs, hrun, hvs, List.append_cancel_left hwords'⟩
  · rintro ⟨f', us, hrun, hus, hwords'⟩
    refine ⟨f', us ++ xs', hrun, by rw [hus, hemitted, List.append_assoc], ?_⟩
    rw [List.reverse_append, List.map_append, hwords']

/-- A token that is spelled in another way. -/
lemma Agrees.of_yields (hsteps : s'.Steps m') (hemitted : m'.emitted = t' :: s'.emitted)
    (hwords : deeper b (t :: ts) = t.spelling :: deeper b' ts) (hne : t'.spelling ≠ t.spelling)
    (hyields : t.Yields text) : Agrees text s' b (t :: ts) := by
  refine ⟨?_, fun h => absurd hyields (h t List.mem_cons_self)⟩
  rintro ⟨f', us, hrun, hus, hwords'⟩
  rw [hsteps.run_eq] at hrun
  obtain ⟨vs, hvs⟩ := Steps.exists_emitted (steps_of_run hrun).1
  obtain rfl : us = vs ++ [t'] := by
    rw [hvs, hemitted, ← List.singleton_append, ← List.append_assoc] at hus
    exact (List.append_cancel_right hus).symm
  rw [List.reverse_append, List.reverse_singleton, List.singleton_append, List.map_cons, hwords] at hwords'
  exact absurd (List.cons.inj hwords').1 hne

/-- A token is read by both scanners, by the second one with tabs in it if it is a string with a line end in it. -/
lemma Agrees.of_token (heven : s.Even s') (hin : s.atLineStart = false)
    (hrest : s'.rest = Text.indentAfter (some ' ') s.rest) (hreads : s.Reads k w m) (hlexes : s.Lexes m.rest w k)
    (hbar : w = ['|'] →
      barKind? s'.leftFree s'.canClose (rightFree m.rest) = barKind? s.leftFree s.canClose (rightFree m.rest))
    (hclear : k = .closing → w = ['|'] → s.behind.head?.any Text.isLineEnd = false) (hplaced : s.Placed text)
    (hpoint : m.rest.head? ≠ some '.') (hspells : t.Spells k (String.ofList w) s.offset)
    (hwords : deeper b (t :: ts) = t.spelling :: deeper b' ts)
    (ih : ∀ m', m.Beside m' → Agrees text m' b' ts) : Agrees text s' b (t :: ts) := by
  have hrest' : s'.rest = Text.indentAfter (some ' ') w ++ Text.indentAfter w.getLast? m.rest := by
    rw [hrest, hreads.rest, hlexes.indentAfter_append]
  obtain ⟨m', hstep, hreads', hm'⟩ := exists_step_of_lexes (heven.start.trans hin) hrest'
    (hlexes.indented hbar hpoint)
  obtain ⟨t', ht', hspells'⟩ := hreads'.emitted
  have hsteps : s'.Steps m' := .single hstep
  by_cases hstring : k = .string ∧ w.any Text.isLineEnd
  · obtain ⟨rfl, hends⟩ := hstring
    have hyields : t.Yields text := .inl ⟨hspells.kind_eq, by simpa [hspells.lexeme_eq] using hends⟩
    refine .of_yields hsteps ht' hwords (fun heq => ?_) hyields
    refine IsString.indentAfter_ne hlexes hends (String.ofList_injective ?_)
    rw [← hspells.lexeme_eq, ← hspells'.lexeme_eq]
    exact congrArg Prod.snd heq
  · have hsame : Text.indentAfter (some ' ') w = w :=
      hlexes.indentAfter_eq fun hk => by simpa [hk] using hstring
    have hspelling : t'.spelling = t.spelling := by
      rw [Token.spelling, Token.spelling, hspells'.kind_eq, hspells.kind_eq, hspells'.lexeme_eq, hspells.lexeme_eq,
        hsame]
    refine (ih m' (.of_reads heven hreads hlexes hreads' hm')).of_steps [t] [t'] hsteps ht' ?_ ?_
    · rw [List.singleton_append, hwords, ← hspelling]
      rfl
    · refine List.forall_mem_singleton.2 ?_
      rintro (⟨hk, hends⟩ | ⟨hk, hw, hend⟩)
      · rw [hspells.kind_eq] at hk
        rw [hspells.lexeme_eq, String.toList_ofList] at hends
        exact hstring ⟨hk, hends⟩
      · rw [hspells.kind_eq] at hk
        rw [hspells.lexeme_eq] at hw
        rw [hspells.offset_eq, Int.toNat_natCast, hplaced.getLast?_take,
          hclear hk (String.ofList_injective hw)] at hend
        cases hend

/-- A bar that does not close is the same for a scanner that has space on its left. -/
lemma barKind?_of_gap {leftFree canClose rightFree : Bool} (h : barKind? leftFree canClose rightFree = some k)
    (hk : k ≠ .closing) : barKind? true false rightFree = some k := by
  cases leftFree <;> cases canClose <;> cases rightFree <;> simp_all [barKind?, roleOf]

/-- The tab after a line end in a literal is skipped. -/
lemma exists_skipped (heven : s.Even s') (hin : s.atLineStart = false)
    (hrest : s'.rest = '\t' :: Text.indentAfter (some ' ') s.rest) (hspace : s.rest.head?.any isSpace = false) :
    ∃ m', s'.Steps m' ∧ s.Even m' ∧ m'.rest = Text.indentAfter (some ' ') s.rest ∧ m'.emitted = s'.emitted ∧
      m'.leftFree = true ∧ m'.canClose = false := by
  obtain ⟨m', hstep, hmoves, hm', hemitted⟩ := exists_step_of_spaces (w := ['\t']) (heven.start.trans hin) hrest
    (by simp) (by decide) (by rwa [Text.head?_indentAfter])
  refine ⟨m', .single hstep, ⟨hmoves.start.trans hin.symm, hmoves.depth.trans heven.depth,
    hmoves.bars.trans heven.bars⟩, hm', hemitted, leftFree_of_gap ?_⟩
  rw [hmoves.behind]
  rfl

/-- The two scanners read a token. -/
lemma Beside.token (h : s.Beside s') (hb : s.AtEdge b) (hplaced : s.Placed text) (hin : s.atLineStart = false)
    (hreads : s.Reads k w m) (hlexes : s.Lexes m.rest w k) (hpoint : m.rest.head? ≠ some '.')
    (ht : m.emitted = t :: s.emitted)
    (ih : ∀ {m' b'}, m.Beside m' → m.AtEdge b' → Agrees text m' b' ts) : Agrees text s' b (t :: ts) := by
  obtain ⟨u, hu, hspells⟩ := hreads.emitted
  obtain ⟨rfl, -⟩ := List.cons.inj (ht.symm.trans hu)
  obtain ⟨c, cs, hcs, -⟩ := hlexes.exists_starter
  have hedge (hend : s.rest.head?.all isTerminator) : k = .newline := by
    rw [hreads.rest, hcs] at hend
    exact (hcs ▸ hlexes).kind_of_isTerminator hend
  have hwords : deeper b (t :: ts) = t.spelling :: deeper (t.kind = .newline) ts := by
    refine deeper_cons ?_ ts
    rw [hspells.kind_eq]
    by_cases hend : s.rest.head?.all isTerminator
    · exact .inl (hedge hend)
    · exact .inr (hb.eq_false hin (by simpa using hend))
  have ih (m' : Scanner) (hm' : m.Beside m') : Agrees text m' (t.kind = .newline) ts := by
    refine ih hm' ⟨fun hstart => ?_, fun hk => .inl ?_⟩
    · rw [hreads.start, decide_eq_true_eq] at hstart
      simp [hspells.kind_eq, hstart]
    · rw [hreads.start, ← hspells.kind_eq]
      exact hk
  cases h with
  | inside heven _ hrest hsame hclear =>
    refine .of_token heven hin hrest hreads hlexes (fun _ => by rw [hsame.1, hsame.2]) ?_ hplaced hpoint hspells
      hwords ih
    rintro rfl rfl
    exact hclear (canClose_of_lexes hlexes)
  | edge heven _ hrest hend =>
    obtain rfl := hedge hend
    refine .of_token heven hin hrest hreads hlexes ?_ nofun hplaced hpoint hspells hwords ih
    rintro rfl
    rcases hlexes with h | h | ⟨h, -⟩ <;> cases h
  | line _ hstart =>
    rw [hin] at hstart
    cases hstart
  | literal heven _ hrest hne hend =>
    have hspace : s.rest.head?.any isSpace = false := by
      obtain ⟨hw, hspace⟩ := hlexes.head?_isSpace
      rwa [hreads.rest, List.head?_append_of_ne_nil _ hw]
    obtain ⟨n, hsteps, hevenn, hrestn, hemitted, hfree, hclose⟩ := exists_skipped heven hin hrest hspace
    have hagrees (h : Agrees text n b (t :: ts)) : Agrees text s' b (t :: ts) :=
      h.of_steps [] [] hsteps hemitted rfl (by simp)
    by_cases hcloser : k = .closing ∧ w = ['|']
    · -- the bar closes what is open, but for the second scanner it stands after a tab
      obtain ⟨rfl, rfl⟩ := hcloser
      obtain ⟨k', hk', hk⟩ : ∃ k', barKind? n.leftFree n.canClose
          (rightFree (Text.indentAfter (some '|') m.rest)) = some k' ∧ k' ≠ .closing := by
        rw [hfree, hclose]
        cases rightFree (Text.indentAfter (some '|') m.rest)
        · exact ⟨.opening, rfl, by decide⟩
        · exact ⟨.operator, rfl, by decide⟩
      have hrestn' : n.rest = ['|'] ++ Text.indentAfter (some '|') m.rest := by
        rw [hrestn, hreads.rest, hlexes.indentAfter_append]
        rfl
      obtain ⟨m', hstep, hreads', -⟩ := exists_step_of_lexes (hevenn.start.trans hin) hrestn' (lexes_bar hk')
      obtain ⟨t', ht', hspells'⟩ := hreads'.emitted
      refine hagrees (.of_yields (.single hstep) ht' hwords (fun heq => ?_) (.inr ⟨hspells.kind_eq, ?_, ?_⟩))
      · have hkinds := congrArg Prod.fst heq
        rw [Token.spelling, Token.spelling, hspells'.kind_eq, hspells.kind_eq] at hkinds
        exact hk hkinds
      · rw [hspells.lexeme_eq]
      · rwa [hspells.offset_eq, Int.toNat_natCast, hplaced.getLast?_take]
    · refine hagrees (.of_token hevenn hin hrestn hreads hlexes ?_ (fun hk hw => absurd ⟨hk, hw⟩ hcloser) hplaced
        hpoint hspells hwords ih)
      rintro rfl
      have hkind := barKind?_of_lexes hlexes
      rw [hfree, hclose, hkind]
      exact barKind?_of_gap hkind fun hk => hcloser ⟨hk, rfl⟩

/-- The two scanners skip spaces. -/
lemma Beside.spaces (h : s.Beside s') (hb : s.AtEdge b) (hin : s.atLineStart = false) (hne : w ≠ [])
    (hall : w.all isSpace) (hend : m.rest.head?.any isSpace = false) (hmoves : s.Moves w m)
    (ih : ∀ {m' b'}, m.Beside m' → m.AtEdge b' → Agrees text m' b' ts) : Agrees text s' b ts := by
  have hnotEnd := hmoves.not_isTerminator hne hall
  obtain rfl := hb.eq_false hin hnotEnd
  have hskip {v : List Char} (heven : s.Even s') (hv : v ≠ []) (hvs : v.all isSpace)
      (hrest : s'.rest = v ++ Text.indentAfter (some ' ') m.rest) : Agrees text s' false ts := by
    obtain ⟨m', hstep, hmoves', hm', hemitted⟩ := exists_step_of_spaces (heven.start.trans hin) hrest hv hvs
      (by rwa [Text.head?_indentAfter])
    have hbeside : m.Beside m' := by
      refine .of_gap ⟨hmoves'.start.trans hmoves.start.symm, ?_, ?_⟩ hmoves.start hm'
        (hmoves.gap_of_spaces hne hall) (hmoves'.gap_of_spaces hv hvs)
      · rw [hmoves'.depth, hmoves.depth, heven.depth]
      · rw [hmoves'.bars, hmoves.bars, heven.bars]
    have hedge : m.AtEdge false := ⟨by simp [hmoves.start], by simp⟩
    exact (ih hbeside hedge).of_steps [] [] (.single hstep) hemitted rfl (by simp)
  have hsplit : Text.indentAfter (some ' ') s.rest = w ++ Text.indentAfter (some ' ') m.rest := by
    rw [hmoves.rest, Text.indentAfter_append_inside (Text.isLineEnd_of_spaces hall)]
  cases h with
  | inside heven _ hrest => exact hskip heven hne hall (hrest.trans hsplit)
  | edge _ _ _ hedge =>
    rw [hnotEnd] at hedge
    cases hedge
  | line _ hstart =>
    rw [hin] at hstart
    cases hstart
  | literal heven _ hrest =>
    exact hskip heven (List.cons_ne_nil '\t' w) (by simpa [isSpace] using hall)
      (hrest.trans (congrArg ('\t' :: ·) hsplit))

/-- A blank line or a comment is one after a tab, and with tabs in it. -/
lemma IsBlank.indented (h : IsBlank w) {v : List Char} (hv : v = [] ∨ v = ['\t']) :
    IsBlank ('\t' :: Text.indentAfter (some ' ') w ++ v) := by
  obtain ⟨spaces, comment, rfl, hspaces, htick, hcomment⟩ := h
  have htabs : v.all isSpace ∧ v.all (!isTerminator ·) := by
    rcases hv with rfl | rfl <;> decide
  rw [Text.indentAfter_append_inside (Text.isLineEnd_of_spaces hspaces)]
  cases comment with
  | nil =>
    refine ⟨'\t' :: spaces ++ v, [], by simp [Text.indentAfter], ?_, rfl, rfl⟩
    rw [List.all_append, htabs.1, Bool.and_true]
    simpa [isSpace] using hspaces
  | cons c comment =>
    refine ⟨'\t' :: spaces, Text.indentAfter (some ' ') (c :: comment) ++ v, by simp, ?_, ?_, ?_⟩
    · simpa [isSpace] using hspaces
    · simpa [Text.indentAfter] using htick
    · rw [List.all_append, htabs.2, Bool.and_true]
      refine List.all_eq_true.2 fun d hd => ?_
      rcases Text.mem_indentAfter hd with rfl | hd
      · decide
      · exact List.all_eq_true.1 hcomment d hd

/-- The two scanners skip a line without tokens. -/
lemma Beside.blank (h : s.Beside s') (hb : s.AtEdge b) (hstart : s.atLineStart) (hne : s.rest ≠ [])
    (hblank : IsBlank w) (hend : m.rest.head?.all isTerminator) (hmoves : s.Moves w m)
    (ih : ∀ {m' b'}, m.Beside m' → m.AtEdge b' → Agrees text m' b' ts) : Agrees text s' b ts := by
  obtain rfl := hb.1 hstart
  obtain ⟨heven, hrest, -⟩ := h.of_start hstart
  obtain ⟨v, hv, hrest'⟩ : ∃ v, (v = [] ∨ v = ['\t']) ∧
      s'.rest = '\t' :: Text.indentAfter (some ' ') w ++ v ++ Text.indentAfter (some ' ') m.rest := by
    rw [hrest, Text.indentAfter_none hne, hmoves.rest, Text.indentAfter_append]
    rcases Text.indentAfter_cases (w.getLast?.or (some ' ')) m.rest with heq | heq
    · exact ⟨[], .inl rfl, by rw [heq]; simp⟩
    · exact ⟨['\t'], .inr rfl, by rw [heq]; simp⟩
  obtain ⟨hmoves', hm', hemitted⟩ := indentation_blank hrest' (hblank.indented hv)
    (by rwa [Text.head?_indentAfter])
  have hstep : s'.Step s'.indentation :=
    ⟨by simp [hrest'], step_of_start (heven.start.trans hstart)⟩
  have hbeside : m.Beside s'.indentation := by
    refine .edge ⟨hmoves'.start.trans hmoves.start.symm, ?_, ?_⟩ hmoves.start hm' hend
    · rw [hmoves'.depth, hmoves.depth, heven.depth]
    · rw [hmoves'.bars, hmoves.bars, heven.bars]
  have hedge : m.AtEdge true := ⟨fun _ => rfl, fun _ => .inr hend⟩
  exact (ih hbeside hedge).of_steps [] [] (.single hstep) hemitted rfl (by simp)

/-- The two scanners read the margin of a line, the second one with one more tab. -/
lemma Beside.margin (h : s.Beside s') (hb : s.AtEdge b) (hstart : s.atLineStart) (hall : w.all isSpace)
    (hend : m.rest.head?.any isInk) (hmoves : s.Moves w m) (hsteps : m.Steps f) (hf : f.rest = [])
    (hemitted : if w.head? = some '\t' then ∃ t : Token, m.emitted = t :: s.emitted ∧
        t.Spells .indent (String.ofList (w.takeWhile (· = '\t'))) s.offset
      else m.emitted = s.emitted)
    (hxs : m.emitted = xs.reverse ++ s.emitted) (hts : f.emitted = ts.reverse ++ m.emitted)
    (ih : ∀ {m' b'}, m.Beside m' → m.AtEdge b' → Agrees text m' b' ts) : Agrees text s' b (xs ++ ts) := by
  obtain rfl := hb.1 hstart
  obtain ⟨heven, hrest, hgap⟩ := h.of_start hstart
  have hne : w ++ m.rest ≠ [] := by
    intro hnil
    rw [(List.append_eq_nil_iff.1 hnil).2] at hend
    cases hend
  have hrest' : s'.rest = '\t' :: w ++ Text.indentAfter (some ' ') m.rest := by
    rw [hrest, hmoves.rest, Text.indentAfter_none hne, Text.indentAfter_append_inside (Text.isLineEnd_of_spaces hall)]
    rfl
  have hall' : ('\t' :: w).all isSpace := by simpa [isSpace] using hall
  obtain ⟨hmoves', hm', hemitted'⟩ := indentation_margin hrest' hall' (by rwa [Text.head?_indentAfter])
  rw [if_pos List.head?_cons] at hemitted'
  obtain ⟨t', ht', hspells'⟩ := hemitted'
  have hstep : s'.Step s'.indentation :=
    ⟨by simp [hrest'], step_of_start (heven.start.trans hstart)⟩
  have hgapm : m.behind.head?.all isGap := by
    by_cases hw : w = []
    · subst hw
      rw [hmoves.behind]
      exact hgap
    · exact hmoves.gap_of_spaces hw hall
  have hbeside : m.Beside s'.indentation := by
    refine .of_gap ⟨hmoves'.start.trans hmoves.start.symm, ?_, ?_⟩ hmoves.start hm' hgapm
      (hmoves'.gap_of_spaces (by simp) hall')
    · rw [hmoves'.depth, hmoves.depth, heven.depth]
    · rw [hmoves'.bars, hmoves.bars, heven.bars]
  have hedge : m.AtEdge false := ⟨by simp [hmoves.start], by simp⟩
  have hagrees := ih hbeside hedge
  have hspelling : t'.spelling = (.indent, "\t" ++ String.ofList (w.takeWhile (· = '\t'))) := by
    rw [Token.spelling, hspells'.kind_eq, hspells'.lexeme_eq]
    simp [String.ofList_cons]
  split at hemitted
  · obtain ⟨t, ht, hspells⟩ := hemitted
    obtain rfl : xs = [t] := by
      rw [ht, ← List.singleton_append] at hxs
      simpa using (List.append_cancel_right hxs).symm
    refine hagrees.of_steps [t] [t'] (.single hstep) ht' ?_ ?_
    · simp [deeper, Token.deeper, hspells.kind_eq, hspells.lexeme_eq, hspelling]
    · refine List.forall_mem_singleton.2 ?_
      rintro (⟨hk, -⟩ | ⟨hk, -⟩) <;> rw [hspells.kind_eq] at hk <;> cases hk
  · next htab =>
    obtain rfl : xs = [] := by simpa [hemitted] using hxs.symm
    obtain ⟨t, us, rfl, hcontent⟩ := exists_content_of_ink hsteps hf hmoves.start hend hts
    have hnone : w.takeWhile (· = '\t') = [] := takeWhile_tab_eq_nil_iff.2 htab
    refine hagrees.of_steps [] [t'] (.single hstep) ht' ?_ (by simp)
    rw [List.nil_append, deeper_content hcontent, List.reverse_singleton, List.map_singleton, hspelling, hnone]
    rfl

/-- The second scanner comes to its end as the first one does, with spellings that are one level deeper, exactly if
no line ends where the tokens do not expect it. -/
theorem Beside.run (hplaced : s.Placed text) (hsteps : s.Steps f) (hf : f.rest = []) (h : s.Beside s')
    (hb : s.AtEdge b) (hts : f.emitted = ts.reverse ++ s.emitted) : Agrees text s' b ts := by
  induction hsteps using Relation.ReflTransGen.head_induction_on generalizing s' b ts with
  | refl =>
    obtain rfl : ts = [] := by simpa using hts.symm
    have hrest : s'.rest = [] := by
      cases h with
      | inside _ _ hrest | edge _ _ hrest | line _ _ hrest => rw [hrest, hf]; rfl
      | literal _ _ _ hne => exact absurd hf hne
    exact ⟨fun _ => by simp, fun _ => ⟨s', [], run_of_rest hrest, rfl, rfl⟩⟩
  | @head s m hstep hsteps ih =>
    obtain ⟨w, hw⟩ := hstep.stepped
    obtain ⟨xs, hxs⟩ := Steps.exists_emitted (.single hstep)
    obtain ⟨later, hlater⟩ := Steps.exists_emitted hsteps
    obtain rfl : ts = xs.reverse ++ later.reverse := by
      rw [hlater, hxs, ← List.append_assoc] at hts
      rw [← List.reverse_append, List.append_cancel_right hts, List.reverse_reverse]
    have ih {m' b'} (hm' : m.Beside m') (hb' : m.AtEdge b') : Agrees text m' b' later.reverse :=
      ih (hplaced.step hstep.2) hm' hb' (by rw [hlater, List.reverse_reverse])
    cases hw with
    | token hin hreads hlexes =>
      obtain ⟨t, ht, -⟩ := hreads.emitted
      obtain rfl : xs = [t] := by
        rw [ht, ← List.singleton_append] at hxs
        exact (List.append_cancel_right hxs).symm
      have hpoint := head?_ne_point ((Steps.run_eq hsteps).trans (run_of_rest hf))
      exact h.token hb hplaced hin hreads hlexes hpoint ht ih
    | spaces hin hne hall hend hmoves hemitted =>
      obtain rfl : xs = [] := by simpa [hemitted] using hxs.symm
      exact h.spaces hb hin hne hall hend hmoves ih
    | blank hstart hblank hend hmoves hemitted =>
      obtain rfl : xs = [] := by simpa [hemitted] using hxs.symm
      exact h.blank hb hstart hstep.1 hblank hend hmoves ih
    | margin hstart hall hend hmoves hemitted =>
      exact h.margin hb hstart hall hend hmoves hsteps hf hemitted (by rw [hxs, List.reverse_reverse])
        (by rw [hlater, List.reverse_reverse]) ih

end Scanner

open Scanner

/-- Tabs in front of the lines of a text keep the tokens of the text, one level deeper, exactly if no line ends where
the tokens do not expect it. -/
theorem scan_indent_iff {text : String} {tokens : List Token} (h : scan text = .ok tokens) :
    (∃ tokens', scan (Text.indent text) = .ok tokens' ∧ tokens'.map Token.spelling = deeper true tokens) ↔
      ∀ t ∈ tokens, ¬ t.Yields text.toList := by
  obtain ⟨text, rfl⟩ : ∃ cs, text = String.ofList cs := ⟨text.toList, String.ofList_toList.symm⟩
  obtain ⟨f, hrun, rfl⟩ := scan_eq_ok.1 h
  obtain ⟨hsteps, hf⟩ := steps_of_run hrun
  have hbeside : (ofText text).Beside (ofText (Text.indentAfter none text)) := .line ⟨rfl, rfl, rfl⟩ rfl rfl rfl
  have hagrees : Agrees text (ofText (Text.indentAfter none text)) true f.emitted.reverse :=
    hbeside.run (placed_ofText text) hsteps hf ⟨fun _ => rfl, fun _ => .inl rfl⟩ (by simp [ofText])
  unfold Agrees at hagrees
  have hlast : ∀ e : Token, e.kind = .ending → ¬ e.Yields text := by
    rintro e he (⟨hk, -⟩ | ⟨hk, -⟩) <;> rw [he] at hk <;> cases hk
  rw [String.toList_ofList, Text.indent_eq, List.forall_mem_append, List.forall_mem_singleton,
    and_iff_left (hlast _ rfl), ← hagrees, deeper_concat rfl]
  constructor
  · rintro ⟨tokens', hscan, hwords⟩
    obtain ⟨f', hrun', rfl⟩ := scan_eq_ok.1 hscan
    rw [List.map_append] at hwords
    exact ⟨f', f'.emitted, hrun', by simp [ofText], (List.append_inj' hwords rfl).1⟩
  · rintro ⟨f', us, hrun', hus, hwords⟩
    obtain rfl : f'.emitted = us := by simpa [ofText] using hus
    refine ⟨_, scan_eq_ok.2 ⟨f', hrun', rfl⟩, ?_⟩
    rw [List.map_append, hwords]
    rfl

/-- A line tabulation in a character literal before a name keeps the tokens of a block, but one in a string does not:
the string that is under a header is another one. -/
theorem scan_indent_lineTabulation :
    (∃ tokens', scan (Text.indent "f :\n\t\\\x0bx\ng") = .ok tokens' ∧ tokens'.map Token.spelling =
      [(.indent, "\t"), (.identifier, "f"), (.operator, ":"), (.newline, "\n"), (.indent, "\t\t"),
        (.character, "\\\x0b"), (.identifier, "x"), (.newline, "\n"), (.indent, "\t"), (.identifier, "g"),
        (.ending, "")]) ∧
    ¬ ∃ tokens', scan (Text.indent "g \x60a\x0bb\x60") = .ok tokens' ∧ tokens'.map Token.spelling =
      [(.indent, "\t"), (.identifier, "g"), (.string, "\x60a\x0bb\x60"), (.ending, "")] := by
  have hblock : scan "f :\n\t\\\x0bx\ng" = .ok [⟨.identifier, "f", 1, 1, 0, false⟩, ⟨.operator, ":", 1, 3, 2, false⟩,
      ⟨.newline, "\n", 1, 4, 3, false⟩, ⟨.indent, "\t", 2, 1, 4, false⟩, ⟨.character, "\\\x0b", 2, 2, 5, false⟩,
      ⟨.identifier, "x", 2, 4, 7, false⟩, ⟨.newline, "\n", 2, 5, 8, false⟩, ⟨.identifier, "g", 3, 1, 9, false⟩,
      ⟨.ending, "", 3, 2, 10, false⟩] := by
    decide +kernel
  have hstring : scan "g \x60a\x0bb\x60" = .ok [⟨.identifier, "g", 1, 1, 0, false⟩,
      ⟨.string, "\x60a\x0bb\x60", 1, 3, 2, false⟩, ⟨.ending, "", 1, 8, 7, false⟩] := by
    decide +kernel
  constructor
  · exact (scan_indent_iff hblock).2 (by decide +kernel)
  · exact mt (scan_indent_iff hstring).1 (by decide +kernel)

end SignLang
