import SignLang.Proofs.Scanner.Steps
import SignLang.Proofs.Token

/-!
# Two scanners on alike texts

A scanner decides by the text ahead, by its bracket depth and open absolute values, and by a glance at
what stands directly behind it. Two scanners that agree on all this (`Scanner.Alike`) take the same
steps over the same text, wherever they stand: what one of them reads as a token, the other reads as
the same token at a place that is moved by the same distance (`Token.Moved`). The texts after it may
differ, as long as they look the same to a token that ends before them (`Scanner.Fits`).
-/

namespace SignLang

open Lexeme

/-- Tokens that spell the same are the same. -/
lemma Token.Spells.same {t u : Token} {k : Kind} {w : String} {n m : Int} (h : u.Spells k w m)
    (h' : t.Spells k w n) : t.Same u :=
  ⟨h.kind_eq.trans h'.kind_eq.symm, h.lexeme_eq.trans h'.lexeme_eq.symm, h.written.trans h'.written.symm⟩

namespace Scanner

/-- The text `r'` looks like `r` to what ends before it: it starts with the same character, or with
another space, or with a line end where `r` has one or nothing, or with another bracket that opens or
closes as that of `r` does. -/
def Fits (r r' : List Char) : Prop :=
  r'.head? = r.head? ∨ r.head?.any isSpace ∧ r'.head?.any isSpace ∨
    r.head?.all isTerminator ∧ r'.head?.any isTerminator ∨
    r.head?.any isOpener ∧ r'.head?.any isOpener ∨ r.head?.any isCloser ∧ r'.head?.any isCloser

namespace Fits

variable {r r' : List Char}

/-- A text looks like itself. -/
lemma refl (r : List Char) : Fits r r :=
  .inl rfl

/-- Texts with the same characters in front look alike if the texts after them do. -/
lemma append (h : Fits r r') (x : List Char) : Fits (x ++ r) (x ++ r') := by
  cases x with
  | nil => exact h
  | cons c x => exact .inl rfl

/-- A text that looks like one that is not empty is not empty. -/
lemma ne_nil (h : Fits r r') (hr : r ≠ []) : r' ≠ [] := by
  rintro rfl
  cases r with
  | nil => exact hr rfl
  | cons c r => simp [Fits] at h

/-- A question that spaces answer alike, and brackets, and line ends as the end of the text does, has
one answer. -/
lemma elim_eq (h : Fits r r') {p : Option Char → Bool} (hspace : p (some '\t') = p (some ' '))
    (hend : p (some '\n') = p none ∧ p (some '\r') = p none)
    (hopen : p (some '(') = p (some '[') ∧ p (some '\x7b') = p (some '['))
    (hclose : p (some ')') = p (some ']') ∧ p (some '\x7d') = p (some ']')) : p r'.head? = p r.head? := by
  have hof {c : Char} (hc : isTerminator c) : p (some c) = p none := by
    obtain rfl | rfl := isTerminator_iff.1 hc
    · exact hend.1
    · exact hend.2
  have hclass {q : Char → Bool} {d : Char} (hq : ∀ c, q c → p (some c) = p (some d))
      (h : r.head?.any q) (h' : r'.head?.any q) : p r'.head? = p r.head? := by
    obtain ⟨c, hc, hs⟩ := (Option.any_eq_true _ _).1 h
    obtain ⟨c', hc', hs'⟩ := (Option.any_eq_true _ _).1 h'
    rw [hc, hc', hq c hs, hq c' hs']
  rcases h with h | ⟨h, h'⟩ | ⟨h, h'⟩ | ⟨h, h'⟩ | ⟨h, h'⟩
  · rw [h]
  · refine hclass (d := ' ') (fun c hc => ?_) h h'
    obtain rfl | rfl := isSpace_iff.1 hc
    · rfl
    · exact hspace
  · obtain ⟨c', hc', hs'⟩ := (Option.any_eq_true _ _).1 h'
    rw [hc', hof hs']
    cases hc : r.head? with
    | none => rfl
    | some c =>
      rw [hc] at h
      exact (hof (by simpa using h)).symm
  · refine hclass (d := '[') (fun c hc => ?_) h h'
    obtain rfl | rfl | rfl := isOpener_iff.1 hc
    · exact hopen.1
    · rfl
    · exact hopen.2
  · refine hclass (d := ']') (fun c hc => ?_) h h'
    obtain rfl | rfl | rfl := isCloser_iff.1 hc
    · exact hclose.1
    · rfl
    · exact hclose.2

/-- A bar has the same on its right hand. -/
lemma rightFree_eq (h : Fits r r') : rightFree r' = rightFree r :=
  h.elim_eq (p := Option.all fun c => isGap c || isCloser c) rfl ⟨rfl, rfl⟩ ⟨rfl, rfl⟩ ⟨rfl, rfl⟩

/-- A text that looks like one apart from a word before it is apart from it. -/
lemma apart (h : Fits r r') (hr : Apart r) : Apart r' := by
  refine ⟨(h.elim_eq (p := Option.any isNameChar) rfl ⟨rfl, rfl⟩ ⟨rfl, rfl⟩ ⟨rfl, rfl⟩).trans hr.1,
    fun hpoint => hr.2 ?_⟩
  have := h.elim_eq (p := (· = some '.')) rfl ⟨rfl, rfl⟩ ⟨rfl, rfl⟩ ⟨rfl, rfl⟩
  simpa [hpoint] using this

/-- A character before the text does not make an operator of two with it, or it does with both texts. -/
lemma all_isPair (h : Fits r r') (c : Char) :
    r'.head?.all (!isPair c ·) = r.head?.all (!isPair c ·) :=
  h.elim_eq (p := Option.all (!isPair c ·)) (by simp [isPair]) (by simp [isPair]) (by simp [isPair])
    (by simp [isPair])

end Fits

/-- The text `r'` leaves a token that ends before it as it is, if `r` does. -/
structure Continues (r r' : List Char) : Prop where
  rightFree_eq : rightFree r' = rightFree r
  apart : Apart r → Apart r'
  all_isPair : ∀ c, r'.head?.all (!isPair c ·) = r.head?.all (!isPair c ·)

lemma Fits.continues {r r' : List Char} (h : Fits r r') : Continues r r' :=
  ⟨h.rightFree_eq, h.apart, h.all_isPair⟩

/-- A token that can be read before one text can be read before another that leaves it as it is, by a
scanner that takes a bar for the same. -/
lemma Lexes.congr {s s' : Scanner} {k : Kind} {w r r' : List Char} (h : s.Lexes r w k)
    (continues : Continues r r')
    (hbar : w = ['|'] → barKind? s'.leftFree s'.canClose (rightFree r') =
      barKind? s.leftFree s.canClose (rightFree r))
    (hpoint : r.head? ≠ some '.') (hreturn : w = ['\r'] → r'.head? ≠ some '\n') : s'.Lexes r' w k := by
  have hname (hr : r.head?.any isNameChar = false) : r'.head?.any isNameChar = false :=
    (continues.apart ⟨hr, hpoint⟩).1
  cases k with
  | newline => exact h.imp_right (.imp_right fun h => ⟨h.1, hreturn h.1⟩)
  | string | character => exact h
  | number =>
    obtain ⟨hnumber, hr, -⟩ := h
    exact ⟨hnumber, hname hr, hnumber.readNumber_append (continues.apart ⟨hr, hpoint⟩)⟩
  | identifier | unit => exact ⟨h.1, hname h.2⟩
  | opening | closing => exact h.imp_right fun h => ⟨h.1, (hbar h.1).trans h.2⟩
  | operator =>
    refine h.imp_right (.imp ?_ fun h => ⟨h.1, (hbar h.1).trans h.2⟩)
    rintro ⟨c, hw, hc, hr⟩
    exact ⟨c, hw, hc, (continues.all_isPair c).trans hr⟩
  | indent | separator | ending => exact h

/-- Two scanners that see the same behind them, but for an opening bracket, at places that are a
distance apart. No token of theirs ends ahead of them. -/
structure Near (distance : Int) (s s' : Scanner) : Prop where
  offset : (s'.offset : Int) = s.offset + distance
  start : s'.atLineStart = s.atLineStart
  depth : s'.depth = s.depth
  bars : s'.bars = s.bars
  gap : s'.behind.head?.all isGap = s.behind.head?.all isGap
  opened : s'.setMark.afterOpening = s.setMark.afterOpening
  within : ∀ t ∈ s.emitted.head?, t.stop ≤ s.offset
  within' : ∀ t ∈ s'.emitted.head?, t.stop ≤ s'.offset

/-- Two scanners that see the same behind them. -/
structure Alike (distance : Int) (s s' : Scanner) : Prop extends Near distance s s' where
  leftFree : s'.leftFree = s.leftFree

namespace Near

variable {distance : Int} {s s' m m' : Scanner} {k : Kind} {w r r' : List Char}

/-- A bar can close for both scanners or for none. -/
lemma canClose (h : s.Near distance s') : s'.canClose = s.canClose := by
  rw [Scanner.canClose, Scanner.canClose, h.gap, h.opened, h.bars, h.depth]

/-- A bar has the same kind for both scanners, if they see the same on its left hand or the right hand
decides. -/
lemma barKind?_eq (h : s.Near distance s') (fits : Fits r r')
    (hfree : s'.leftFree = s.leftFree ∨ rightFree r = false) :
    barKind? s'.leftFree s'.canClose (rightFree r') = barKind? s.leftFree s.canClose (rightFree r) := by
  rw [h.canClose, fits.rightFree_eq]
  rcases hfree with hfree | hfree
  · rw [hfree]
  · simp [barKind?, roleOf, hfree]

/-- What one scanner reads as a token, the other reads as the same token. -/
lemma lexes (h : s.Near distance s') (hlexes : s.Lexes r w k) (fits : Fits r r')
    (hfree : s'.leftFree = s.leftFree ∨ (w = ['|'] → rightFree r = false))
    (hpoint : r.head? ≠ some '.') (hreturn : w = ['\r'] → r'.head? ≠ some '\n') : s'.Lexes r' w k :=
  hlexes.congr fits.continues (fun hw => h.barKind?_eq fits (hfree.imp_right fun h => h hw)) hpoint hreturn

/-- After a token both scanners still see the same. -/
lemma reads (h : s.Near distance s') (hw : w ≠ []) (hm : s.Reads k w m)
    (hm' : s'.Reads k w m') : m.Alike distance m' ∧ ∃ t t' : Token, m.emitted = t :: s.emitted ∧
      m'.emitted = t' :: s'.emitted ∧ t.Moved distance t' := by
  obtain ⟨t, ht, hspells⟩ := hm.emitted
  obtain ⟨t', ht', hspells'⟩ := hm'.emitted
  have hstop := hm.stop_eq hspells
  have hstop' := hm'.stop_eq hspells'
  have hbehind : m'.behind.head? = m.behind.head? := (hm'.head?_behind hw).trans (hm.head?_behind hw).symm
  refine ⟨⟨⟨?_, ?_, ?_, ?_, ?_, ?_, ?_, ?_⟩, ?_⟩, t, t', ht, ht', ?_⟩
  · rw [hm.offset, hm'.offset]
    push_cast
    rw [h.offset]
    omega
  · rw [hm.start, hm'.start]
  · rw [hm.depth, hm'.depth, h.depth]
  · rw [hm.bars, hm'.bars, h.depth, h.bars]
  · rw [hbehind]
  · rw [hm.afterOpening, hm'.afterOpening]
  · simp [ht, hstop]
  · simp [ht', hstop']
  · exact leftFree_congr hbehind
  · exact ⟨hspells'.same hspells, by rw [hspells'.offset_eq, hspells.offset_eq, h.offset]⟩

/-- A scanner that stays where it is keeps its bracket. -/
lemma afterOpening_congr (hemitted : m.emitted = s.emitted) (hoffset : m.offset = s.offset) :
    m.setMark.afterOpening = s.setMark.afterOpening := by
  simp only [Scanner.afterOpening, setMark, hemitted, hoffset]
  rfl

/-- No bracket has just been opened once the scanner has moved away from it. -/
lemma afterOpening_moved (hemitted : m.emitted = s.emitted) (hlt : s.offset < m.offset)
    (hwithin : ∀ t ∈ s.emitted.head?, t.stop ≤ s.offset) : m.setMark.afterOpening = false := by
  change m.emitted.head?.any _ = false
  rw [hemitted]
  cases h : s.emitted.head? with
  | none => rfl
  | some t =>
    have hne : t.stop ≠ m.offset := by
      have := hwithin t h
      omega
    simp [setMark, hne]

/-- After moving over the same text both scanners still see the same, if they see their brackets
alike. -/
lemma moves (h : s.Near distance s') (hm : s.Moves w m) (hm' : s'.Moves w m')
    (hfree : s'.leftFree = s.leftFree ∨ w ≠ [])
    (hopened : m'.setMark.afterOpening = m.setMark.afterOpening)
    (hwithin : ∀ t ∈ m.emitted.head?, t.stop ≤ m.offset)
    (hwithin' : ∀ t ∈ m'.emitted.head?, t.stop ≤ m'.offset) : m.Alike distance m' := by
  have hoffset : (m'.offset : Int) = m.offset + distance := by
    rw [hm.offset, hm'.offset]
    push_cast
    rw [h.offset]
    omega
  have hbehind : m'.behind.head?.all isGap = m.behind.head?.all isGap ∧ m'.leftFree = m.leftFree := by
    by_cases hw : w = []
    · subst hw
      rw [Scanner.leftFree, Scanner.leftFree, hm.behind, hm'.behind]
      exact ⟨h.gap, hfree.resolve_right (by simp)⟩
    · have hbehind : m'.behind.head? = m.behind.head? := (hm'.head?_behind hw).trans (hm.head?_behind hw).symm
      exact ⟨by rw [hbehind], leftFree_congr hbehind⟩
  exact ⟨⟨hoffset, hm'.start.trans hm.start.symm, by rw [hm.depth, hm'.depth, h.depth],
    by rw [hm.bars, hm'.bars, h.bars], hbehind.1, hopened, hwithin, hwithin'⟩, hbehind.2⟩

/-- After moving over the same text without a token both scanners still see the same. -/
lemma skips (h : s.Near distance s') (hm : s.Moves w m) (hm' : s'.Moves w m')
    (hfree : s'.leftFree = s.leftFree ∨ w ≠ []) (hemitted : m.emitted = s.emitted) (hemitted' : m'.emitted = s'.emitted) : m.Alike distance m' := by
  have hle := hm.offset
  have hle' := hm'.offset
  refine h.moves hm hm' hfree ?_ ?_ ?_
  · by_cases hw : w = []
    · subst hw
      rw [afterOpening_congr hemitted hm.offset, afterOpening_congr hemitted' hm'.offset, h.opened]
    · have := List.length_pos_iff.2 hw
      rw [afterOpening_moved hemitted (by omega) h.within,
        afterOpening_moved hemitted' (by omega) h.within']
  · intro t ht
    rw [hemitted] at ht
    have := h.within t ht
    omega
  · intro t ht
    rw [hemitted'] at ht
    have := h.within' t ht
    omega

/-- After the margin of a line both scanners still see the same. -/
lemma indents {tabs : List Char} {t t' : Token} (h : s.Near distance s')
    (hm : s.Moves w m) (hm' : s'.Moves w m') (hfree : s'.leftFree = s.leftFree ∨ w ≠ []) (htabs : tabs.length ≤ w.length)
    (hemitted : m.emitted = t :: s.emitted) (hemitted' : m'.emitted = t' :: s'.emitted)
    (ht : t.Spells .indent (String.ofList tabs) s.offset)
    (ht' : t'.Spells .indent (String.ofList tabs) s'.offset) :
    m.Alike distance m' ∧ t.Moved distance t' := by
  have hstop : t.stop ≤ m.offset := by
    rw [Token.stop, ht.offset_eq, ht.lexeme_eq, hm.offset, String.length_ofList]
    omega
  have hstop' : t'.stop ≤ m'.offset := by
    rw [Token.stop, ht'.offset_eq, ht'.lexeme_eq, hm'.offset, String.length_ofList]
    omega
  have hopened : m.setMark.afterOpening = false :=
    afterOpening_of_kind (by rw [hemitted]; rfl) (by simp [ht.kind_eq])
  have hopened' : m'.setMark.afterOpening = false :=
    afterOpening_of_kind (by rw [hemitted']; rfl) (by simp [ht'.kind_eq])
  refine ⟨h.moves hm hm' hfree (hopened'.trans hopened.symm) (by simpa [hemitted] using hstop)
    (by simpa [hemitted'] using hstop'), ?_⟩
  exact ⟨ht'.same ht, by rw [ht'.offset_eq, ht.offset_eq, h.offset]⟩

/-- A step of one scanner is a step of the other, if what follows looks the same to it. -/
theorem stepped (h : s.Near distance s') (hs : s.Stepped m w) (hrest : s'.rest = w ++ r')
    (fits : Fits m.rest r')
    (hfree : s'.leftFree = s.leftFree ∨ w ≠ [] ∧ (w = ['|'] → rightFree m.rest = false)) (hpoint : m.rest.head? ≠ some '.')
    (hreturn : w = ['\r'] → r'.head? ≠ some '\n') :
    ∃ m', s'.step = .ok m' ∧ m'.rest = r' ∧ m.Alike distance m' ∧
      ∃ ts ts' : List Token, m.emitted = ts ++ s.emitted ∧ m'.emitted = ts' ++ s'.emitted ∧
        List.Forall₂ (Token.Moved distance) ts ts' := by
  cases hs with
  | @token k hin hreads hlexes =>
    have hlexes' := h.lexes hlexes fits (hfree.imp_right And.right) hpoint hreturn
    have hin' : s'.atLineStart = false := h.start.trans hin
    obtain ⟨m', hstep, hreads', hm'⟩ := exists_step_of_lexes hin' hrest hlexes'
    obtain ⟨halike, t, t', ht, ht', hmoved⟩ := h.reads hlexes.head?_isSpace.1 hreads hreads'
    exact ⟨m', hstep.2, hm', halike, [t], [t'], ht, ht', .cons hmoved .nil⟩
  | spaces hin hw hall hr hm hemitted =>
    have hin' : s'.atLineStart = false := h.start.trans hin
    have hr' : r'.head?.any isSpace = false :=
      (fits.elim_eq (p := Option.any isSpace) rfl ⟨rfl, rfl⟩ ⟨rfl, rfl⟩ ⟨rfl, rfl⟩).trans hr
    obtain ⟨m', hstep, hm', hrest', hemitted'⟩ := exists_step_of_spaces hin' hrest hw hall hr'
    exact ⟨m', hstep.2, hrest', h.skips hm hm' (hfree.imp_right And.left) hemitted hemitted', [], [], hemitted,
      hemitted', .nil⟩
  | blank hin hw hr hm hemitted =>
    have hr' : r'.head?.all isTerminator :=
      (fits.elim_eq (p := Option.all isTerminator) rfl ⟨rfl, rfl⟩ ⟨rfl, rfl⟩ ⟨rfl, rfl⟩).trans hr
    obtain ⟨hm', hrest', hemitted'⟩ := indentation_blank hrest hw hr'
    exact ⟨s'.indentation, step_of_start (h.start.trans hin), hrest',
      h.skips hm hm' (hfree.imp_right And.left) hemitted hemitted', [], [], hemitted, hemitted', .nil⟩
  | margin hin hw hr hm hemitted =>
    have hr' : r'.head?.any isInk :=
      (fits.elim_eq (p := Option.any isInk) rfl ⟨rfl, rfl⟩ ⟨rfl, rfl⟩ ⟨rfl, rfl⟩).trans hr
    obtain ⟨hm', hrest', hemitted'⟩ := indentation_margin hrest hw hr'
    refine ⟨s'.indentation, step_of_start (h.start.trans hin), hrest', ?_⟩
    by_cases htab : w.head? = some '\t'
    · rw [if_pos htab] at hemitted hemitted'
      obtain ⟨t, ht, hspells⟩ := hemitted
      obtain ⟨t', ht', hspells'⟩ := hemitted'
      obtain ⟨halike, hmoved⟩ := h.indents hm hm' (hfree.imp_right And.left) (List.takeWhile_sublist _).length_le ht ht' hspells hspells'
      exact ⟨halike, [t], [t'], ht, ht', .cons hmoved .nil⟩
    · rw [if_neg htab] at hemitted hemitted'
      exact ⟨h.skips hm hm' (hfree.imp_right And.left) hemitted hemitted', [], [], hemitted, hemitted', .nil⟩

end Near

/-- The scanner stands directly after a carriage return that is a line end of its own. -/
def returned (s : Scanner) : Bool :=
  s.emitted.head?.any fun t => t.kind = .newline && t.lexeme = "\r" && t.stop = (s.offset : Int)

/-- A carriage return alone is a line end, unless a line feed follows it. -/
lemma Lexes.of_return {s : Scanner} {r : List Char} {k : Kind} (h : s.Lexes r ['\r'] k) :
    k = .newline ∧ r.head? ≠ some '\n' := by
  obtain rfl := h.kind_of_isTerminator (by decide)
  rcases h with h | h | ⟨-, h⟩
  · exact absurd h (by decide)
  · exact absurd h (by decide)
  · exact ⟨rfl, h⟩

/-- A step over a carriage return alone reads a line end. -/
lemma Stepped.of_return {s m : Scanner} (h : s.Stepped m ['\r']) :
    m.rest.head? ≠ some '\n' ∧ m.returned := by
  cases h with
  | @token k hin hreads hlexes =>
    obtain ⟨rfl, hnext⟩ := hlexes.of_return
    obtain ⟨t, ht, hspells⟩ := hreads.emitted
    refine ⟨hnext, ?_⟩
    have hstop := hreads.stop_eq hspells
    simp [returned, ht, hspells.kind_eq, hspells.lexeme_eq, hstop]
  | spaces _ _ hall | margin _ hall => exact absurd hall (by decide)
  | blank _ hblank =>
    obtain ⟨spaces, comment, heq, hspaces, -, hcomment⟩ := hblank
    cases spaces with
    | cons c spaces =>
      obtain ⟨rfl, -⟩ := List.cons.inj heq
      exact absurd (List.all_eq_true.1 hspaces '\r' List.mem_cons_self) (by decide)
    | nil =>
      rw [List.nil_append] at heq
      rw [← heq] at hcomment
      exact absurd hcomment (by decide)

/-- What the scanner has read of the text before another one, it reads before any text that looks the
same. -/
theorem Alike.steps {distance : Int} {s s' m : Scanner} {x r' : List Char} (hsteps : s.Steps m)
    (h : s.Alike distance s') (hx : s.rest = x ++ m.rest) (hx' : s'.rest = x ++ r')
    (fits : Fits m.rest r') {f : Scanner} (hrun : m.run = .ok f)
    (hreturn : m.returned → r'.head? ≠ some '\n') :
    ∃ m', s'.Steps m' ∧ m'.rest = r' ∧ m.Alike distance m' ∧
      ∃ ts ts' : List Token, m.emitted = ts ++ s.emitted ∧ m'.emitted = ts' ++ s'.emitted ∧
        List.Forall₂ (Token.Moved distance) ts ts' := by
  induction hsteps using Relation.ReflTransGen.head_induction_on generalizing s' x with
  | refl =>
    obtain rfl : x = [] := by simpa using hx.symm
    exact ⟨s', .refl, hx', h, [], [], rfl, rfl, .nil⟩
  | @head s s₁ hstep hsteps ih =>
    obtain ⟨w, hw⟩ := hstep.stepped
    obtain ⟨x₁, hx₁⟩ := Steps.exists_rest hsteps
    obtain rfl : x = w ++ x₁ := by
      have := hx
      rw [hw.rest, hx₁, ← List.append_assoc] at this
      exact (List.append_cancel_right this).symm
    have hrun₁ : s₁.run = .ok f := (Steps.run_eq hsteps).trans hrun
    have fits₁ : Fits s₁.rest (x₁ ++ r') := hx₁ ▸ fits.append x₁
    rw [List.append_assoc] at hx'
    have hreturn₁ : w = ['\r'] → (x₁ ++ r').head? ≠ some '\n' := by
      rintro rfl
      obtain ⟨hnext, hreturned⟩ := hw.of_return
      cases x₁ with
      | cons c x₁ =>
        rw [hx₁] at hnext
        exact hnext
      | nil =>
        obtain ⟨hemitted, hoffset⟩ := Steps.of_rest_eq hsteps hx₁
        refine hreturn ?_
        rw [returned, hemitted, hoffset]
        exact hreturned
    obtain ⟨m₁, hstep₁, hrest₁, halike₁, ts, ts', hts, hts', hmoved⟩ :=
      h.stepped hw hx' fits₁ (.inl h.leftFree) (head?_ne_point hrun₁) hreturn₁
    obtain ⟨m', hsteps', hrest', halike', us, us', hus, hus', hmoved'⟩ := ih halike₁ hx₁ hrest₁
    have hne : s'.rest ≠ [] := by
      rw [hx', ← List.append_assoc]
      have hne := hstep.1
      rw [hx] at hne
      exact (fits.append (w ++ x₁)).ne_nil hne
    refine ⟨m', .head ⟨hne, hstep₁⟩ hsteps', hrest', halike', us ++ ts, us' ++ ts', ?_, ?_,
      List.rel_append hmoved' hmoved⟩
    · rw [hus, hts, List.append_assoc]
    · rw [hus', hts', List.append_assoc]

/-- Two scanners that see the same run over one text alike. -/
lemma Alike.run {distance : Int} {s s' f : Scanner} (h : s.Alike distance s') (hrest : s'.rest = s.rest)
    (hrun : s.run = .ok f) : ∃ f', s'.run = .ok f' ∧
      ∃ ts ts' : List Token, f.emitted = ts ++ s.emitted ∧ f'.emitted = ts' ++ s'.emitted ∧
        List.Forall₂ (Token.Moved distance) ts ts' := by
  obtain ⟨hsteps, hf⟩ := steps_of_run hrun
  have hx : s.rest = s.rest ++ f.rest := by rw [hf, List.append_nil]
  obtain ⟨f', hsteps', hf', -, hemitted⟩ := Alike.steps hsteps h hx (hrest.trans hx) (.refl _)
    (run_of_rest hf) fun _ => by simp [hf]
  exact ⟨f', hsteps'.run_eq.trans (run_of_rest (hf'.trans hf)), hemitted⟩

/-- Two scanners that see the same but for an opening bracket run over one text alike, unless it starts
with a bar that the bracket decides. -/
lemma Near.run {distance : Int} {s s' f : Scanner} (h : s.Near distance s')
    (hin : s.atLineStart = false) (hrest : s'.rest = s.rest) (hrun : s.run = .ok f)
    (hfree : s'.leftFree = s.leftFree ∨ ∀ r, s.rest = '|' :: r → rightFree r = false) :
    ∃ f', s'.run = .ok f' ∧ ∃ ts ts' : List Token, f.emitted = ts ++ s.emitted ∧
      f'.emitted = ts' ++ s'.emitted ∧ List.Forall₂ (Token.Moved distance) ts ts' := by
  obtain ⟨hsteps, hf⟩ := steps_of_run hrun
  obtain heq | ⟨m, hstep, hsteps⟩ := Relation.ReflTransGen.cases_head hsteps
  · subst heq
    exact ⟨s', run_of_rest (hrest.trans hf), [], [], rfl, rfl, .nil⟩
  obtain ⟨w, hw⟩ := hstep.stepped
  have hm : m.run = .ok f := (Steps.run_eq hsteps).trans (run_of_rest hf)
  have hne : w ≠ [] := by
    cases hw with
    | token _ _ hlexes => exact hlexes.head?_isSpace.1
    | spaces _ hne => exact hne
    | blank hstart | margin hstart =>
      rw [hin] at hstart
      cases hstart
  obtain ⟨m', hstep', hrest', halike, ts, ts', hts, hts', hmoved⟩ := h.stepped hw
    (hrest.trans hw.rest) (.refl _) (hfree.imp_right fun h => ⟨hne, fun hbar => h _ (by
      rw [hw.rest, hbar]
      rfl)⟩) (head?_ne_point hm) fun hreturn => (Stepped.of_return (hreturn ▸ hw)).1
  obtain ⟨f', hrun', us, us', hus, hus', hmoved'⟩ := halike.run hrest' hm
  refine ⟨f', (Step.run_eq ⟨by rw [hrest]; exact hstep.1, hstep'⟩).trans hrun', us ++ ts, us' ++ ts', ?_, ?_,
    List.rel_append hmoved' hmoved⟩
  · rw [hus, hts, List.append_assoc]
  · rw [hus', hts', List.append_assoc]

/-- A scanner before a text sees the same as one before another text. -/
lemma alike_ofText (text text' : List Char) : (ofText text).Alike 0 (ofText text') :=
  ⟨⟨rfl, rfl, rfl, rfl, rfl, rfl, nofun, nofun⟩, rfl⟩

end Scanner

end SignLang
