import SignLang.Proofs.Render.Legible
import SignLang.Proofs.Scanner.Steps

/-!
# Spelled lines

A legible line is scanned word by word: whatever stands before it and after it, as long as it does
not run into the line, the scanner comes to stand after the line with one more token for each word
(`Legible.passes`). The tokens have the kinds, lexemes and places of the words (`Spelled`).
-/

namespace SignLang

open Item Lexeme

/-- The tokens are the words of the line, which starts at `offset`. -/
def Spelled (offset : Int) : List Item → List Token → Prop
  | [], ts => ts = []
  | .gap :: line, ts => Spelled (offset + 1) line ts
  | .word kind lexeme :: line, ts =>
    ∃ t rest, ts = t :: rest ∧ t.Spells kind lexeme offset ∧ Spelled (offset + lexeme.length) line rest

/-- The words of two parts of a line are spelled one after the other. -/
lemma spelled_append {offset : Int} {a b : List Item} {ts : List Token} :
    Spelled offset (a ++ b) ts ↔
      ∃ us vs, ts = us ++ vs ∧ Spelled offset a us ∧ Spelled (offset + (textOf a).length) b vs := by
  induction a generalizing offset ts with
  | nil => simp [Spelled]
  | cons i a ih =>
    cases i with
    | gap =>
      rw [List.cons_append]
      simp only [Spelled, ih, textOf_cons, Item.text, List.length_append, List.length_singleton]
      have (n : Nat) : offset + 1 + (n : Int) = offset + ((1 + n : Nat) : Int) := by omega
      simp only [this]
    | word kind lexeme =>
      rw [List.cons_append]
      simp only [Spelled, ih, textOf_cons, Item.text, List.length_append, String.length_toList]
      have (n : Nat) : offset + (lexeme.length : Int) + (n : Int) =
          offset + ((lexeme.length + n : Nat) : Int) := by omega
      simp only [this]
      constructor
      · rintro ⟨t, rest, rfl, ht, us, vs, rfl, hus, hvs⟩
        exact ⟨t :: us, vs, rfl, ⟨t, us, rfl, ht, hus⟩, hvs⟩
      · rintro ⟨us, vs, rfl, ⟨t, us, rfl, ht, hus⟩, hvs⟩
        exact ⟨t, us ++ vs, rfl, ht, us, vs, rfl, hus, hvs⟩

/-- The last token of a line that ends with a word is that word. -/
lemma Spelled.getLast? {offset : Int} {line : List Item} {kind : Kind} {lexeme : String}
    {ts : List Token} (h : Spelled offset (line ++ [word kind lexeme]) ts) :
    ∃ us t, ts = us ++ [t] ∧ t.Spells kind lexeme (offset + (textOf line).length) := by
  obtain ⟨us, vs, rfl, -, t, rest, rfl, ht, rfl⟩ := spelled_append.1 h
  exact ⟨us, t, rfl, ht⟩

/-! ## The characters at the ends of a line -/

/-- The character is no space, no line end and no closing bracket. -/
def Lexeme.isPlain (c : Char) : Bool :=
  !isGap c && !isCloser c

/-- A class without spaces, line ends and closing brackets. -/
lemma Lexeme.isPlain_of {p : Char → Bool} (h : [' ', '\t', '\n', '\r', ')', ']', '\x7d'].all (!p ·))
    {c : Char} (hc : p c) : isPlain c := by
  have hne : ∀ d ∈ [' ', '\t', '\n', '\r', ')', ']', '\x7d'], c ≠ d := by
    rintro d hd rfl
    have := List.all_eq_true.1 h c hd
    simp [hc] at this
  simp only [List.forall_mem_cons] at hne
  simp [isPlain, isGap, isSpace, isTerminator, isCloser, hne]

/-- The operators that stand before an operand. -/
lemma Operator.mem_of_leadsOperand {s : String} (h : leadsOperand s) :
    s ∈ ["#", "@", "-", "!", "~", "$"] := by
  simp only [leadsOperand, Bool.and_eq_true, decide_eq_true_eq] at h
  obtain ⟨op, hop⟩ := Option.isSome_iff_exists.1 h.2
  have hall : ∀ op ∈ leadingTable, op.symbol = bar ∨ op.symbol ∈ ["#", "@", "-", "!", "~", "$"] := by
    decide +kernel
  have := hall op (List.mem_of_find?_eq_some hop)
  rw [symbol_of_leading? hop] at this
  exact this.resolve_left h.1

namespace Item

/-- An operator that starts an operand starts with no equals sign. -/
lemma head?_ne_equals {s : String} (h : (symbol s).startsOperand) : s.toList.head? ≠ some '=' := by
  simp only [symbol, startsOperand, Bool.or_eq_true, decide_eq_true_eq] at h
  have hmem : s ∈ ["?", "#", "@", "-", "!", "~", "$"] :=
    h.elim (fun h => h ▸ List.mem_cons_self) fun h =>
      List.mem_cons_of_mem _ (Operator.mem_of_leadsOperand h)
  have hall : ∀ s ∈ ["?", "#", "@", "-", "!", "~", "$"], s.toList.head? ≠ some '=' := by
    decide +kernel
  exact hall s hmem

/-- A written word starts with a plain character, which is no equals sign if it starts an operand. -/
lemma Written.text_eq_cons {i : Item} (h : i.Written) :
    ∃ c cs, i.text = c :: cs ∧ isPlain c ∧ (i.startsOperand → c ≠ '=') := by
  cases i with
  | gap => exact h.elim
  | word kind lexeme =>
    obtain ⟨ho, hc, hi, hn, h⟩ := h
    change ∃ c cs, lexeme.toList = c :: cs ∧ _
    cases kind with
    | identifier =>
      cases hl : lexeme.toList with
      | nil => simp [hl, Kind.Admits, IsName] at h
      | cons c cs =>
        have hstart : isNameStart c := by simpa [hl] using h.1
        refine ⟨c, cs, rfl, isPlain_of (by decide) hstart, ?_⟩
        rintro - rfl
        exact absurd hstart (by decide)
    | number =>
      cases hl : lexeme.toList with
      | nil => simp [hl, Kind.Admits, IsNumber] at h
      | cons c cs =>
        have hstart : c.isDigit := by simpa [hl] using h.1
        refine ⟨c, cs, rfl, isPlain_of (by decide) hstart, ?_⟩
        rintro - rfl
        exact absurd hstart (by decide)
    | string =>
      obtain ⟨body, hbody, -⟩ := h
      exact ⟨tick, body ++ [tick], hbody, by decide, fun _ => by decide⟩
    | character =>
      obtain ⟨c, hc⟩ := h
      exact ⟨'\\', [c], hc, by decide, fun _ => by decide⟩
    | unit => exact ⟨'_', [], h, by decide, fun _ => by decide⟩
    | operator =>
      have hstart {c : Char} {cs : List Char} (hl : lexeme.toList = c :: cs)
          (hs : (word .operator lexeme).startsOperand) : c ≠ '=' := by
        rintro rfl
        exact head?_ne_equals hs (by rw [hl]; rfl)
      rcases h with h | ⟨c, h, hc⟩ | ⟨c, d, h, hc⟩
      · exact ⟨'|', [], h, by decide, hstart h⟩
      · exact ⟨c, [], h, isPlain_of (by decide) hc, hstart h⟩
      · exact ⟨c, [d], h, isPlain_of (p := (isPair · d)) (by cases h : d == '=' <;> simp_all [isPair]) hc,
          hstart h⟩
    | opening | closing | indent | newline => contradiction
    | separator | ending => exact h.elim

/-- A written word that is no character literal of an opening bracket ends with no such bracket. -/
lemma Written.getLast?_text {i : Item} (h : i.Written) (hclear : Expr.EndsClear [i]) :
    i.text.getLast?.any (!isOpener ·) := by
  have hof {p : Char → Bool} (hp : ['(', '[', '\x7b'].all (!p ·)) {cs : List Char} (hne : cs ≠ [])
      (hall : ∀ c ∈ cs, p c) : cs.getLast?.any (!isOpener ·) := by
    rw [List.getLast?_eq_some_getLast hne, Option.any_some, Bool.not_eq_true']
    by_contra hopen
    have hlast := hall _ (List.getLast_mem hne)
    obtain hc | hc | hc := isOpener_iff.1 (by simpa using hopen)
    all_goals
      rw [hc] at hlast
      simp [hlast] at hp
  obtain ⟨c, cs, htext, -⟩ := h.text_eq_cons
  have hne : i.text ≠ [] := by simp [htext]
  cases i with
  | gap => exact h.elim
  | word kind lexeme =>
    obtain ⟨ho, hc, hi, hn, h⟩ := h
    change lexeme.toList ≠ [] at hne
    change lexeme.toList.getLast?.any (!isOpener ·)
    cases kind with
    | identifier => exact hof (p := isNameChar) (by decide) hne (List.all_eq_true.1 h.2.1)
    | number =>
      refine hof (p := fun c => isNameChar c || c = '.' || c = '-') (by decide) hne fun c hc => ?_
      simpa [or_assoc] using IsNumber.forall_mem h c hc
    | string =>
      obtain ⟨body, hbody, -⟩ := h
      rw [hbody, getLast?_append_cons]
      decide
    | character =>
      obtain ⟨c, hc⟩ := h
      rw [hc, List.getLast?_cons_cons, List.getLast?_singleton, Option.any_some, Bool.not_eq_true']
      by_contra hopen
      rw [Bool.not_eq_false] at hopen
      refine hclear c hopen ?_
      rw [List.getLast?_singleton, ← hc, String.ofList_toList]
    | unit => rw [show lexeme.toList = ['_'] from h]; decide
    | operator =>
      rcases h with h | ⟨c, h, hc⟩ | ⟨c, d, h, hc⟩
      · rw [h]; decide
      · exact hof (p := isSingle) (by decide) hne (by simp [h, hc])
      · rw [h]
        rw [(isPair_iff.1 hc).2, List.getLast?_cons_cons]
        decide
    | opening | closing | indent | newline => contradiction
    | separator | ending => exact h.elim

end Item

namespace Legible

/-- A legible line starts with a plain character, which is no equals sign if it starts an operand. -/
lemma text_eq_cons {line : List Item} (h : Legible line) :
    ∃ c cs, textOf line = c :: cs ∧ isPlain c ∧ (line.head?.any startsOperand → c ≠ '=') := by
  have happend {a b : List Item} (h : ∃ c cs, textOf a = c :: cs ∧ isPlain c ∧
      (a.head?.any startsOperand → c ≠ '=')) (ha : a ≠ []) : ∃ c cs, textOf (a ++ b) = c :: cs ∧
      isPlain c ∧ ((a ++ b).head?.any startsOperand → c ≠ '=') := by
    obtain ⟨c, cs, htext, hplain, hne⟩ := h
    refine ⟨c, cs ++ textOf b, by rw [textOf_append, htext]; rfl, hplain, ?_⟩
    rwa [List.head?_append_of_ne_nil _ ha]
  induction h with
  | single h =>
    obtain ⟨c, cs, htext, hplain, hne⟩ := h.text_eq_cons
    exact ⟨c, cs, by simp [htext], hplain, by simpa using hne⟩
  | spaced ha _ ih _ => exact happend ih ha.ne_nil
  | emptyGroup => exact ⟨'[', [']'], rfl, by decide, fun _ => by decide⟩
  | group => exact ⟨'[', _, rfl, by decide, fun _ => by decide⟩
  | bars => exact ⟨'|', _, rfl, by decide, fun _ => by decide⟩
  | lead hs =>
    obtain ⟨c, cs, htext, hplain, hne⟩ := hs.text_eq_cons
    exact ⟨c, cs ++ _, by rw [textOf_cons, htext]; rfl, hplain, by simpa using hne⟩
  | trail ha _ _ ih => exact happend ih ha.ne_nil
  | access ha _ _ _ _ ih => exact happend ih ha.ne_nil

/-- A legible line ends with a written word or a closing bracket. -/
lemma last_cases {line : List Item} (h : Legible line) :
    ∃ a i, line = a ++ [i] ∧ (i.Written ∨ i = closeGroup ∨ i = word .closing "|") := by
  induction h with
  | single h => exact ⟨[], _, rfl, .inl h⟩
  | @spaced a b _ _ _ ih =>
    obtain ⟨b', i, rfl, hi⟩ := ih
    exact ⟨a ++ gap :: b', i, by simp, hi⟩
  | emptyGroup => exact ⟨[openGroup], closeGroup, rfl, .inr (.inl rfl)⟩
  | group => exact ⟨_, closeGroup, rfl, .inr (.inl rfl)⟩
  | bars => exact ⟨_, word .closing "|", rfl, .inr (.inr rfl)⟩
  | @lead s b _ _ _ _ _ ih =>
    obtain ⟨b', i, rfl, hi⟩ := ih
    exact ⟨symbol s :: b', i, rfl, hi⟩
  | @trail s a _ _ hs _ =>
    have hall : ∀ s ∈ ["!", "~", "'", ","], readOperator s.toList = .ok s.toList := by
      decide +kernel
    exact ⟨a, symbol s, rfl, .inl (Operator.written_symbol (.inr (hall s hs)))⟩
  | @access a b _ _ _ _ _ _ ih =>
    obtain ⟨b', i, rfl, hi⟩ := ih
    exact ⟨a ++ symbol "'" :: b', i, by simp, hi⟩

/-- A legible line ends with a word that opens no bracket. -/
lemma exists_last_word {line : List Item} (h : Legible line) :
    ∃ a kind lexeme, line = a ++ [word kind lexeme] ∧ kind ≠ .opening := by
  obtain ⟨a, i, rfl, hi | rfl | rfl⟩ := h.last_cases
  · cases i with
    | gap => exact hi.elim
    | word kind lexeme => exact ⟨a, kind, lexeme, rfl, hi.1⟩
  · exact ⟨a, _, _, rfl, by simp⟩
  · exact ⟨a, _, _, rfl, by simp⟩

/-- A legible line whose last word does not look like an opening bracket ends with no such bracket. -/
lemma getLast?_text {line : List Item} (h : Legible line) (hclear : Expr.EndsClear line) :
    (textOf line).getLast?.any (!isOpener ·) := by
  obtain ⟨a, i, rfl, hi⟩ := h.last_cases
  have hlast : i.text.getLast?.any (!isOpener ·) := by
    rcases hi with hi | rfl | rfl
    · refine hi.getLast?_text fun c hc => ?_
      have := hclear c hc
      rwa [getLast?_append_cons] at this
    · decide
    · decide
  have hne : i.text ≠ [] := by
    intro hnil
    simp [hnil] at hlast
  rw [textOf_append, textOf_cons, textOf_nil, List.append_nil,
    List.getLast?_append_of_ne_nil _ hne]
  exact hlast

end Legible

namespace Scanner

/-- A scanner that reads the words of the line comes to stand where `s'` stands. -/
structure Passes (s : Scanner) (line : List Item) (s' : Scanner) : Prop where
  run : s.run = s'.run
  rest : s.rest = textOf line ++ s'.rest
  behind : s'.behind = (textOf line).reverse ++ s.behind
  offset : s'.offset = s.offset + (textOf line).length
  inside : s'.atLineStart = false
  emitted : ∃ ts, s'.emitted = ts.reverse ++ s.emitted ∧ Spelled s.offset line ts

/-- Two parts of a line are read one after the other. -/
lemma Passes.trans {s s' s'' : Scanner} {a b : List Item} (h : s.Passes a s') (h' : s'.Passes b s'') :
    s.Passes (a ++ b) s'' := by
  obtain ⟨ts, hts, hspelled⟩ := h.emitted
  obtain ⟨us, hus, hspelled'⟩ := h'.emitted
  refine ⟨h.run.trans h'.run, ?_, ?_, ?_, h'.inside, ts ++ us, ?_, spelled_append.2 ⟨ts, us, rfl, hspelled, ?_⟩⟩
  · rw [h.rest, h'.rest, textOf_append, List.append_assoc]
  · rw [h'.behind, h.behind, textOf_append, List.reverse_append, List.append_assoc]
  · rw [h'.offset, h.offset, textOf_append, List.length_append, Nat.add_assoc]
  · rw [hus, hts, List.reverse_append, List.append_assoc]
  · rw [h.offset, Nat.cast_add] at hspelled'
    exact hspelled'

/-- A bracket has just been opened behind a line that ends with one. -/
lemma Passes.afterOpening {s s' : Scanner} {a : List Item} {kind : Kind} {lexeme : String}
    (h : s.Passes (a ++ [word kind lexeme]) s') :
    s'.setMark.afterOpening = decide (kind = .opening) := by
  obtain ⟨ts, hts, hspelled⟩ := h.emitted
  obtain ⟨us, t, rfl, ht⟩ := hspelled.getLast?
  have hlast : s'.emitted.head? = some t := by
    rw [hts, List.reverse_append]
    rfl
  have hstop : t.stop = s'.offset := by
    rw [Token.stop, ht.offset_eq, ht.lexeme_eq, h.offset, textOf_append, List.length_append]
    simp [Item.text, add_assoc, String.length_toList]
  rw [afterOpening_of_stop hlast hstop, ht.kind_eq]

/-- The scanner passes over the line to the text after it, and has closed what it has opened. -/
def Crosses (s : Scanner) (line : List Item) (text : List Char) : Prop :=
  ∃ s', s.Passes line s' ∧ s'.rest = text ∧ s'.depth = s.depth ∧ s'.bars = s.bars

/-- Nothing is crossed where the scanner stands. -/
lemma crosses_nil {s : Scanner} {text : List Char} (hin : s.atLineStart = false) (hrest : s.rest = text) :
    s.Crosses [] text :=
  ⟨s, ⟨rfl, rfl, rfl, rfl, hin, [], rfl, rfl⟩, hrest, rfl, rfl⟩

/-- A space is crossed. -/
lemma crosses_gap {s : Scanner} {text : List Char} (hin : s.atLineStart = false)
    (hrest : s.rest = ' ' :: text) (htext : text.head?.any isSpace = false) : s.Crosses [gap] text := by
  obtain ⟨m, hstep, hmoves, hm, hemitted⟩ :=
    exists_step_of_spaces (w := [' ']) hin hrest (by simp) (by decide) htext
  exact ⟨m, ⟨hstep.run_eq, hmoves.rest, hmoves.behind, hmoves.offset, hmoves.start, [],
    hemitted, rfl⟩, hm, hmoves.depth, hmoves.bars⟩

/-- A word that stands at the front of the text as a token is passed over. -/
lemma passes_word {s : Scanner} {k : Kind} {w : String} {text : List Char}
    (hin : s.atLineStart = false) (hrest : s.rest = w.toList ++ text) (hk : k ≠ .newline)
    (h : s.Lexes text w.toList k) :
    ∃ s', s.Passes [word k w] s' ∧ s'.rest = text ∧ s'.depth = depthAfter s.depth k w.toList ∧
      s'.bars = barsAfter s.depth s.bars k w.toList := by
  obtain ⟨m, hstep, hreads, hm⟩ := exists_step_of_lexes hin hrest h
  obtain ⟨t, hemitted, ht⟩ := hreads.emitted
  have htext : textOf [word k w] = w.toList := by simp [Item.text]
  refine ⟨m, ⟨hstep.run_eq, ?_, ?_, ?_, ?_, [t], hemitted, t, [], rfl, ?_, rfl⟩, hm,
    hreads.depth, hreads.bars⟩
  · rw [htext, hreads.rest]
  · rw [htext, hreads.behind]
  · rw [htext, hreads.offset]
  · rw [hreads.start, decide_eq_false hk]
  · rwa [String.ofList_toList] at ht

/-- A word that is no bracket and stands at the front of the text as a token is crossed. -/
lemma crosses_word {s : Scanner} {k : Kind} {w : String} {text : List Char}
    (hin : s.atLineStart = false) (hrest : s.rest = w.toList ++ text) (hline : k ≠ .newline)
    (hk : k ≠ .opening ∧ k ≠ .closing) (h : s.Lexes text w.toList k) : s.Crosses [word k w] text := by
  obtain ⟨s', hpass, htext, hdepth, hbars⟩ := passes_word hin hrest hline h
  exact ⟨s', hpass, htext, hdepth.trans (depthAfter_other hk _ _), hbars.trans (barsAfter_other hk _ _ _)⟩

section Brackets

variable {s : Scanner} {text : List Char}

/-- A bar before something that it can enclose opens an absolute value, if it cannot close one. -/
lemma passes_barOpen (hin : s.atLineStart = false) (hrest : s.rest = '|' :: text)
    (hopens : s.behind.head?.all isGap ∨ s.setMark.afterOpening ∨ s.bars.head? ≠ some s.depth)
    (htext : text.head?.any isPlain) :
    ∃ s', s.Passes [word .opening "|"] s' ∧ s'.rest = text ∧ s'.depth = s.depth ∧
      s'.bars = s.depth :: s.bars ∧ s'.setMark.afterOpening := by
  have hfree : rightFree text = false := by
    cases text with
    | nil => cases htext
    | cons c text => simpa [isPlain, rightFree] using htext
  have hkind : barKind? s.leftFree s.canClose (rightFree text) = some .opening := by
    simp [barKind?, roleOf, hfree, canClose_eq_false.2 hopens]
  obtain ⟨s', hpass, htext, hdepth, hbars⟩ :=
    passes_word (w := "|") hin hrest (by decide) (lexes_bar hkind)
  refine ⟨s', hpass, htext, hdepth, hbars, ?_⟩
  rw [hpass.afterOpening (a := [])]
  rfl

/-- A bar after an operand closes the absolute value that was opened at this depth. -/
lemma passes_barClose (hin : s.atLineStart = false) (hrest : s.rest = '|' :: text)
    (hbehind : s.behind.head?.any fun c => !isGap c && !isOpener c)
    (hafter : s.setMark.afterOpening = false) {bars : List Nat} (hbars : s.bars = s.depth :: bars) :
    ∃ s', s.Passes [word .closing "|"] s' ∧ s'.rest = text ∧ s'.depth = s.depth ∧ s'.bars = bars := by
  obtain ⟨c, hc, hplain⟩ := (Option.any_eq_true _ _).1 hbehind
  simp only [Bool.and_eq_true, Bool.not_eq_true'] at hplain
  have hleft : s.leftFree = false := by simp [leftFree, hc, hplain]
  have hclose : s.canClose := by simp [canClose, hc, hplain, hafter, hbars]
  have hkind : barKind? s.leftFree s.canClose (rightFree text) = some .closing := by
    simp [barKind?, roleOf, hleft, hclose]
  obtain ⟨s', hpass, htext, hdepth, hbars'⟩ :=
    passes_word (w := "|") hin hrest (by decide) (lexes_bar hkind)
  exact ⟨s', hpass, htext, hdepth, by rw [hbars', hbars]; rfl⟩

/-- A bracket opens a group. -/
lemma passes_open (hin : s.atLineStart = false) (hrest : s.rest = '[' :: text) :
    ∃ s', s.Passes [openGroup] s' ∧ s'.rest = text ∧ s'.depth = s.depth + 1 ∧ s'.bars = s.bars :=
  passes_word (k := .opening) (w := "[") hin hrest (by decide) (.inl ⟨'[', rfl, by decide⟩)

/-- A bracket closes a group, and no absolute value that was opened outside of it. -/
lemma passes_close (hin : s.atLineStart = false) (hrest : s.rest = ']' :: text)
    (hbars : ∀ b ∈ s.bars, b ≤ s.depth - 1) :
    ∃ s', s.Passes [closeGroup] s' ∧ s'.rest = text ∧ s'.depth = s.depth - 1 ∧ s'.bars = s.bars := by
  obtain ⟨s', hpass, htext, hdepth, hbars'⟩ := passes_word (k := .closing) (w := "]") hin hrest
    (by decide) (.inl ⟨']', rfl, by decide⟩)
  refine ⟨s', hpass, htext, hdepth, hbars'.trans ?_⟩
  change s.bars.dropWhile (s.depth - 1 < ·) = s.bars
  cases h : s.bars with
  | nil => rfl
  | cons b bars =>
    have := hbars b (by simp [h])
    rw [List.dropWhile_cons_of_neg]
    simpa using this

end Brackets

end Scanner

/-! ## Legible lines are crossed -/

/-- The text does not run into the word before it. -/
def Item.Stops (text : List Char) : Item → Prop
  | gap => True
  | word kind lexeme =>
    match kind with
    | .identifier | .number | .unit => Apart text
    | .operator =>
      if lexeme = Operator.bar then text.head?.all fun c => isGap c || isCloser c
      else text.head? ≠ some '='
    | _ => True

/-- A word other than the bar stops before a character that is in no word. -/
lemma Item.stops_of_ne {i : Item} (hi : i ≠ alternative) {c : Char} (hname : isNameChar c = false)
    (hpoint : c ≠ '.') (heq : c ≠ '=') (text : List Char) : i.Stops (c :: text) := by
  have happart : Apart (c :: text) := ⟨by simpa using hname, by simpa using hpoint⟩
  cases i with
  | gap => trivial
  | word kind lexeme =>
    cases kind with
    | identifier | number | unit => exact happart
    | operator =>
      have hbar : lexeme ≠ Operator.bar := by
        rintro rfl
        exact hi rfl
      simpa [Stops, hbar] using heq
    | _ => trivial

/-- Every word stops before a space or a closing bracket. -/
lemma Item.stops_of_free (i : Item) {c : Char} (hc : isGap c || isCloser c) (text : List Char) :
    i.Stops (c :: text) := by
  by_cases hi : i = alternative
  · subst hi
    simpa [Stops, alternative, symbol] using hc
  · have hne {p : Char → Bool} (hp : [' ', '\t', '\n', '\r', ')', ']', '\x7d'].all (!p ·)) :
        p c = false := by
      by_contra h
      have := isPlain_of hp (by simpa using h)
      simp only [isPlain, Bool.and_eq_true, Bool.not_eq_true'] at this
      simp [this.1, this.2] at hc
    refine stops_of_ne hi (hne (by decide)) ?_ ?_ text
    · simpa using hne (p := (· = '.')) (by decide)
    · simpa using hne (p := (· = '=')) (by decide)

/-- What stands behind the scanner leaves the first bar of the line its role. -/
structure Scanner.Ready (s : Scanner) (line : List Item) : Prop where
  inside : s.atLineStart = false
  bars_le : ∀ b ∈ s.bars, b ≤ s.depth
  bar : line.head? = some (word .opening "|") →
    s.behind.head?.all isGap ∨ s.setMark.afterOpening ∨ s.bars.head? ≠ some s.depth
  alternative : line.head? = some Item.alternative →
    s.behind.head?.all fun c => isGap c || isOpener c

namespace Scanner

/-- A scanner is ready for a line if it is for one with the same first word. -/
lemma Ready.of_head? {s : Scanner} {a b : List Item} (h : s.Ready a) (heq : a.head? = b.head?) :
    s.Ready b :=
  ⟨h.inside, h.bars_le, heq ▸ h.bar, heq ▸ h.alternative⟩

/-- A scanner that has closed what it has opened is ready for a line that starts with no bar. -/
lemma Ready.of_ne {s : Scanner} {line : List Item} (hin : s.atLineStart = false)
    (hbars : ∀ b ∈ s.bars, b ≤ s.depth) (hbar : line.head? ≠ some (word .opening "|"))
    (halt : line.head? ≠ some Item.alternative) : s.Ready line :=
  ⟨hin, hbars, fun h => absurd h hbar, fun h => absurd h halt⟩

/-- A scanner behind a space is ready for any line. -/
lemma Ready.of_gap {s : Scanner} (hin : s.atLineStart = false) (hbars : ∀ b ∈ s.bars, b ≤ s.depth)
    (hgap : s.behind.head?.all isGap) (line : List Item) : s.Ready line := by
  refine ⟨hin, hbars, fun _ => .inl hgap, fun _ => ?_⟩
  cases h : s.behind.head? with
  | none => rfl
  | some c =>
    rw [h, Option.all_some] at hgap
    simp [hgap]

/-- Two parts of a line are crossed one after the other. -/
lemma Crosses.append {s : Scanner} {a b : List Item} {text : List Char}
    (ha : s.Crosses a (textOf b ++ text))
    (hb : ∀ s', s.Passes a s' → s'.rest = textOf b ++ text → s'.depth = s.depth → s'.bars = s.bars →
      s'.Crosses b text) : s.Crosses (a ++ b) text := by
  obtain ⟨s₁, hpass₁, hrest₁, hdepth₁, hbars₁⟩ := ha
  obtain ⟨s₂, hpass₂, hrest₂, hdepth₂, hbars₂⟩ := hb s₁ hpass₁ hrest₁ hdepth₁ hbars₁
  exact ⟨s₂, hpass₁.trans hpass₂, hrest₂, hdepth₂.trans hdepth₁, hbars₂.trans hbars₁⟩

end Scanner

/-- A written word stands at the front of a text that does not run into it as a token. -/
lemma Item.Written.lexes {kind : Kind} {lexeme : String} (h : (word kind lexeme).Written)
    {s : Scanner} {text : List Char} (ready : s.Ready [word kind lexeme])
    (hstops : (word kind lexeme).Stops text) : s.Lexes text lexeme.toList kind := by
  obtain ⟨ho, hc, hi, hn, h⟩ := h
  cases kind with
  | identifier => exact ⟨h, hstops.1⟩
  | number => exact ⟨h, hstops.1, h.readNumber_append hstops⟩
  | string => exact h
  | character => exact h
  | unit => exact ⟨h, hstops.1⟩
  | operator =>
    by_cases hbar : lexeme = Operator.bar
    · subst hbar
      have hright : Scanner.rightFree text := by simpa [Stops, Scanner.rightFree] using hstops
      have hleft : s.leftFree := ready.alternative rfl
      exact Scanner.lexes_bar (by simp [Scanner.barKind?, Scanner.roleOf, hleft, hright])
    · have hequals : text.head? ≠ some '=' := by simpa [Stops, hbar] using hstops
      rcases h with h | ⟨c, h, hc⟩ | ⟨c, d, h, hc⟩
      · exact absurd (String.toList_inj.1 h) hbar
      · refine .inr (.inl ⟨c, h, hc, ?_⟩)
        rw [Option.all_eq_true]
        intro d hd
        rw [Bool.not_eq_true']
        by_contra hpair
        rw [Bool.not_eq_false] at hpair
        exact hequals (by rw [hd, (isPair_iff.1 hpair).2])
      · exact .inl ⟨c, d, h, hc⟩
  | opening | closing | indent | newline => contradiction
  | separator | ending => exact h.elim

/-- A written word is crossed. -/
lemma Item.Written.crosses {i : Item} (h : i.Written) {s : Scanner} {text : List Char}
    (ready : s.Ready [i]) (hrest : s.rest = i.text ++ text) (hstops : i.Stops text) :
    s.Crosses [i] text := by
  cases i with
  | gap => exact h.elim
  | word kind lexeme =>
    exact Scanner.crosses_word ready.inside hrest h.2.2.2.1 ⟨h.1, h.2.1⟩ (h.lexes ready hstops)

namespace Legible

/-- After a legible line no bracket has just been opened. -/
lemma afterOpening {line : List Item} (h : Legible line) {s s' : Scanner} (hpass : s.Passes line s') :
    s'.setMark.afterOpening = false := by
  obtain ⟨a, kind, lexeme, rfl, hkind⟩ := h.exists_last_word
  rw [hpass.afterOpening, decide_eq_false hkind]

/-- The character behind a scanner that has passed a line is the last one of the line. -/
lemma behind_head? {line : List Item} (h : Legible line) {s s' : Scanner} (hpass : s.Passes line s') :
    s'.behind.head? = (textOf line).getLast? := by
  obtain ⟨c, cs, htext, -⟩ := h.text_eq_cons
  rw [hpass.behind, List.head?_append_of_ne_nil _ (by simp [htext]), List.head?_reverse]

/-- An operator directly after a line is crossed with it. -/
lemma crosses_touching {a : List Item} (hlast : a.getLast? ≠ some alternative) {r : String}
    (hr : r ∈ ["!", "~", "'", ","]) {s : Scanner} {text : List Char} (hbars : ∀ b ∈ s.bars, b ≤ s.depth)
    (ha : (∀ i ∈ a.getLast?, i.Stops (r.toList ++ text)) → s.Crosses a (r.toList ++ text))
    (htext : text.head? ≠ some '=') : s.Crosses (a ++ [symbol r]) text := by
  have hsymbols : ∀ r ∈ ["!", "~", "'", ","], readOperator r.toList = .ok r.toList ∧ r ≠ Operator.bar ∧
      ∃ c, r.toList = [c] ∧ isNameChar c = false ∧ c ≠ '.' ∧ c ≠ '=' := by
    simp only [List.forall_mem_cons]
    refine ⟨⟨by decide +kernel, by decide, '!', rfl, by decide⟩,
      ⟨by decide +kernel, by decide, '~', rfl, by decide⟩,
      ⟨by decide +kernel, by decide, '\x27', rfl, by decide⟩,
      ⟨by decide +kernel, by decide, ',', rfl, by decide⟩, nofun⟩
  obtain ⟨hread, hbar, c, hc, hname, hpoint, heq⟩ := hsymbols r hr
  have hcross := ha fun i hi => by
    rw [hc]
    exact i.stops_of_ne (fun h => hlast (h ▸ hi)) hname hpoint heq text
  have htextOf : textOf [symbol r] ++ text = r.toList ++ text := by simp [symbol, Item.text]
  refine .append (by rwa [htextOf]) fun s₁ hpass₁ hrest₁ hdepth₁ hbars₁ => ?_
  refine (Operator.written_symbol (.inr hread)).crosses (.of_ne hpass₁.inside ?_ ?_ ?_) ?_ ?_
  · rw [hbars₁, hdepth₁]
    exact hbars
  · simp [symbol]
  · simpa [symbol, alternative] using hbar
  · rwa [htextOf] at hrest₁
  · simpa [Item.Stops, symbol, hbar] using htext

/-- A group is crossed, if a scanner that is ready for its inside crosses that. -/
lemma crosses_group {a : List Item} {s : Scanner} {text : List Char} (hin : s.atLineStart = false)
    (hbars : ∀ b ∈ s.bars, b ≤ s.depth) (hrest : s.rest = textOf (openGroup :: a ++ [closeGroup]) ++ text)
    (inside : ∀ s₁ : Scanner, s₁.Ready a → s₁.rest = textOf a ++ ']' :: text → s₁.Crosses a (']' :: text)) :
    s.Crosses (openGroup :: a ++ [closeGroup]) text := by
  have hrest' : s.rest = '[' :: (textOf a ++ ']' :: text) := by
    rw [hrest]
    simp [openGroup, closeGroup, Item.text]
  obtain ⟨s₁, hpass₁, hrest₁, hdepth₁, hbars₁⟩ := Scanner.passes_open hin hrest'
  have hlt : ∀ b ∈ s₁.bars, b < s₁.depth := by
    rw [hbars₁, hdepth₁]
    exact fun b hb => Nat.lt_succ_of_le (hbars b hb)
  -- The bars outside of the group were opened at a smaller depth, so none of them closes here.
  have ready₁ : s₁.Ready a := by
    refine ⟨hpass₁.inside, fun b hb => (hlt b hb).le, fun _ => .inr (.inr fun h => ?_), fun _ => ?_⟩
    · exact (hlt _ (List.mem_of_mem_head? h)).ne rfl
    · rw [hpass₁.behind]
      rfl
  obtain ⟨s₂, hpass₂, hrest₂, hdepth₂, hbars₂⟩ := inside s₁ ready₁ hrest₁
  obtain ⟨s₃, hpass₃, hrest₃, hdepth₃, hbars₃⟩ := Scanner.passes_close hpass₂.inside hrest₂ (by
    rw [hbars₂, hdepth₂]
    exact fun b hb => Nat.le_sub_one_of_lt (hlt b hb))
  refine ⟨s₃, (hpass₁.trans hpass₂).trans hpass₃, hrest₃, ?_, ?_⟩
  · rw [hdepth₃, hdepth₂, hdepth₁]
    rfl
  · rw [hbars₃, hbars₂, hbars₁]

/-- An absolute value is crossed, if a scanner that is ready for its inside crosses that. -/
lemma crosses_bars {a : List Item} (h : Legible a) (hhead : a.head? ≠ some alternative)
    (hgap : (textOf a).getLast?.all (!isGap ·)) (hclear : Expr.EndsClear a) {s : Scanner} {text : List Char}
    (ready : s.Ready (word .opening "|" :: a ++ [word .closing "|"]))
    (hrest : s.rest = textOf (word .opening "|" :: a ++ [word .closing "|"]) ++ text)
    (inside : ∀ s₁ : Scanner, s₁.Ready a → s₁.rest = textOf a ++ '|' :: text → s₁.Crosses a ('|' :: text)) :
    s.Crosses (word .opening "|" :: a ++ [word .closing "|"]) text := by
  have hrest' : s.rest = '|' :: (textOf a ++ '|' :: text) := by
    rw [hrest]
    simp [Item.text]
  obtain ⟨c, cs, htext, hplain, -⟩ := h.text_eq_cons
  obtain ⟨s₁, hpass₁, hrest₁, hdepth₁, hbars₁, hafter₁⟩ := Scanner.passes_barOpen ready.inside hrest'
    (ready.bar rfl) (by rw [htext]; exact hplain)
  have ready₁ : s₁.Ready a := by
    refine ⟨hpass₁.inside, ?_, fun _ => .inr (.inl hafter₁), fun h => absurd h hhead⟩
    rw [hbars₁, hdepth₁, List.forall_mem_cons]
    exact ⟨le_rfl, ready.bars_le⟩
  obtain ⟨s₂, hpass₂, hrest₂, hdepth₂, hbars₂⟩ := inside s₁ ready₁ hrest₁
  have hbehind : s₂.behind.head?.any fun c => !isGap c && !isOpener c := by
    rw [h.behind_head? hpass₂]
    have hopener := h.getLast?_text hclear
    cases hlast : (textOf a).getLast? with
    | none => rw [hlast] at hopener; cases hopener
    | some c =>
      rw [hlast] at hopener hgap
      rw [Option.any_some, Bool.and_eq_true]
      exact ⟨hgap, hopener⟩
  obtain ⟨s₃, hpass₃, hrest₃, hdepth₃, hbars₃⟩ := Scanner.passes_barClose hpass₂.inside hrest₂ hbehind
    (h.afterOpening hpass₂) (by rw [hbars₂, hbars₁, hdepth₂, hdepth₁])
  refine ⟨s₃, (hpass₁.trans hpass₂).trans hpass₃, hrest₃, ?_, hbars₃⟩
  rw [hdepth₃, hdepth₂, hdepth₁]

/-- A legible line is crossed, if what stands around it does not run into it. -/
theorem crosses {line : List Item} (h : Legible line) {s : Scanner} {text : List Char}
    (ready : s.Ready line) (hrest : s.rest = textOf line ++ text)
    (hstops : ∀ i ∈ line.getLast?, i.Stops text) : s.Crosses line text := by
  induction h generalizing s text with
  | @single i h => exact h.crosses ready (by simpa using hrest) (hstops i rfl)
  | @spaced a b ha hb iha ihb =>
    refine .append (iha (ready.of_head? (List.head?_append_of_ne_nil _ ha.ne_nil)) (by simpa using hrest)
      fun i _ => i.stops_of_free (by decide) _) fun s₁ hpass₁ hrest₁ hdepth₁ hbars₁ => ?_
    obtain ⟨c, cs, htext, hplain, -⟩ := hb.text_eq_cons
    have hspace : (textOf b ++ text).head?.any isSpace = false := by
      rw [htext]
      simp only [isPlain, isGap, Bool.and_eq_true, Bool.not_eq_true', Bool.or_eq_false_iff] at hplain
      exact hplain.1.1
    refine .append (a := [gap]) (Scanner.crosses_gap hpass₁.inside hrest₁ hspace)
      fun s₂ hpass₂ hrest₂ hdepth₂ hbars₂ => ?_
    refine ihb (.of_gap hpass₂.inside ?_ ?_ _) hrest₂ ?_
    · rw [hbars₂, hbars₁, hdepth₂, hdepth₁]
      exact ready.bars_le
    · rw [hpass₂.behind]
      rfl
    · rwa [getLast?_append_cons_of_ne_nil _ _ hb.ne_nil] at hstops
  | emptyGroup =>
    exact crosses_group (a := []) ready.inside ready.bars_le hrest fun _ ready₁ hrest₁ =>
      Scanner.crosses_nil ready₁.inside hrest₁
  | group _ ih =>
    exact crosses_group ready.inside ready.bars_le hrest fun _ ready₁ hrest₁ =>
      ih ready₁ hrest₁ fun i _ => i.stops_of_free (by decide) _
  | bars ha hhead hlast hgap hclear ih =>
    exact ha.crosses_bars hhead hgap hclear ready hrest fun _ ready₁ hrest₁ => ih ready₁ hrest₁ fun i hi =>
      i.stops_of_ne (fun h => hlast (h ▸ hi)) (by decide) (by decide) (by decide) _
  | @lead r b hs hbar hb hstart hhead ih =>
    obtain ⟨c, cs, htext, -, hne⟩ := hb.text_eq_cons
    have hsymbol : s.Crosses [symbol r] (textOf b ++ text) := by
      refine hs.crosses (ready.of_head? rfl) (by simpa using hrest) ?_
      have hr : r ≠ Operator.bar := fun h => hbar (by rw [h]; rfl)
      simpa [Item.Stops, symbol, hr, htext] using hne hstart
    refine .append (a := [symbol r]) hsymbol fun s₁ hpass₁ hrest₁ hdepth₁ hbars₁ => ?_
    refine ih (.of_ne hpass₁.inside ?_ hhead (head?_ne_alternative hstart)) hrest₁ ?_
    · rw [hbars₁, hdepth₁]
      exact ready.bars_le
    · rwa [List.getLast?_cons_of_ne_nil hb.ne_nil] at hstops
  | @trail r a ha hlast hr ih =>
    refine crosses_touching hlast hr ready.bars_le (fun h => ih ?_ ?_ h) ?_
    · exact ready.of_head? (List.head?_append_of_ne_nil _ ha.ne_nil)
    · simpa [symbol, Item.text] using hrest
    · have := hstops (symbol r) (by simp)
      have hbar : r ≠ Operator.bar := by
        rintro rfl
        exact absurd hr (by decide)
      simpa [Item.Stops, symbol, hbar] using this
  | @access a b ha hlast hb hstart hhead iha ihb =>
    obtain ⟨c, cs, htext, -, hne⟩ := hb.text_eq_cons
    have htouch : s.Crosses (a ++ [symbol "'"]) (textOf b ++ text) := by
      refine crosses_touching hlast (by simp) ready.bars_le (fun h => iha ?_ ?_ h) ?_
      · exact ready.of_head? (List.head?_append_of_ne_nil _ ha.ne_nil)
      · simpa [symbol, Item.text] using hrest
      · simpa [htext] using hne hstart
    rw [← List.singleton_append, ← List.append_assoc]
    refine .append htouch fun s₁ hpass₁ hrest₁ hdepth₁ hbars₁ => ?_
    refine ihb (.of_ne hpass₁.inside ?_ hhead (head?_ne_alternative hstart)) hrest₁ ?_
    · rw [hbars₁, hdepth₁]
      exact ready.bars_le
    · rwa [getLast?_append_cons_of_ne_nil _ _ hb.ne_nil] at hstops

end Legible

end SignLang
