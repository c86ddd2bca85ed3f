import SignLang.Proofs.Scanner.Steps

/-!
# Places in a text

The place of an offset is said here without the scanner, by the line terminators that end up to there
(`placeAt`). A scanner counts lines and columns as it goes, one character at a time, and is always at
the place of its offset (`Scanner.Placed`), also where a character literal holds a line terminator or
the first half of one. So is every token that it emits, and so is what it reports when it gives up.
-/

namespace SignLang

open Lexeme

/-- A line terminator of the text ends at the offset: a line feed, or a carriage return that no line
feed follows. -/
def endsLineAt (text : List Char) : Nat → Bool
  | 0 => false
  | n + 1 => text[n]? = some '\n' || (text[n]? = some '\r' && text[n + 1]? ≠ some '\n')

/-- The offsets up to a given one at which a line terminator of the text ends. -/
def lineEnds (text : List Char) (offset : Nat) : List Nat :=
  (List.range (offset + 1)).filter (endsLineAt text)

/-- The place of an offset: its line is one more than the line terminators that have ended, and its
column counts from the end of the last of them. -/
def placeAt (text : List Char) (offset : Nat) : Mark :=
  { offset, line := 1 + (lineEnds text offset).length,
    column := 1 + offset - (lineEnds text offset).getLastD 0 }

/-- The token stands at the place of its offset. -/
def Token.PlacedIn (text : List Char) (t : Token) : Prop :=
  ∃ offset ≤ text.length, t.offset = offset ∧ t.line = (placeAt text offset).line ∧
    t.column = (placeAt text offset).column

section Place

variable {text : List Char} {n : Nat}

/-- One more offset is one more line end, or none. -/
lemma lineEnds_succ (text : List Char) (n : Nat) : lineEnds text (n + 1) =
    lineEnds text n ++ if endsLineAt text (n + 1) then [n + 1] else [] := by
  rw [lineEnds, List.range_succ, List.filter_append, List.filter_singleton, cond_eq_ite]
  rfl

/-- Line ends do not lie ahead. -/
lemma getLastD_lineEnds_le (text : List Char) (n : Nat) : (lineEnds text n).getLastD 0 ≤ n := by
  have hmem : (lineEnds text n).getLastD 0 ∈ 0 :: lineEnds text n := List.getLastD_mem_cons
  rcases List.mem_cons.1 hmem with heq | hmem
  · rw [heq]
    exact Nat.zero_le n
  · have := List.mem_range.1 (List.mem_filter.1 hmem).1
    omega

/-- Where no line ends, the next place is one column on. -/
lemma placeAt_succ (h : endsLineAt text (n + 1) = false) :
    placeAt text (n + 1) = ⟨n + 1, (placeAt text n).line, (placeAt text n).column + 1⟩ := by
  have hle := getLastD_lineEnds_le text n
  simp only [placeAt, lineEnds_succ, h, Bool.false_eq_true, if_false, List.append_nil, Mark.mk.injEq,
    true_and]
  omega

/-- Where a line ends, the next place is the start of a line. -/
lemma placeAt_succ_of_ends (h : endsLineAt text (n + 1)) :
    placeAt text (n + 1) = ⟨n + 1, (placeAt text n).line + 1, 1⟩ := by
  simp only [placeAt, lineEnds_succ, h, if_true, List.length_append, List.length_singleton,
    List.getLastD_concat, Mark.mk.injEq, true_and]
  omega

end Place

/-! ## Texts of one line -/

/-- A class of characters without the two terminators has none. -/
lemma all_not_isTerminator {p : Char → Bool} (hp : p '\n' = false ∧ p '\r' = false) {w : List Char}
    (h : w.all p) : w.all (!isTerminator ·) := by
  rw [List.all_eq_true] at h ⊢
  intro c hc
  have hpc := h c hc
  by_contra hnot
  simp only [isTerminator, Bool.or_eq_true, decide_eq_true_eq, Bool.not_eq_true', Bool.not_eq_false]
    at hnot
  rcases hnot with rfl | rfl
  · rw [hp.1] at hpc
    cases hpc
  · rw [hp.2] at hpc
    cases hpc

/-- A string stands in one line. -/
lemma Lexeme.IsString.oneLine {w : List Char} (h : IsString w) : w.all (!isTerminator ·) := by
  obtain ⟨body, rfl, hbody⟩ := h
  simp only [List.all_append, List.all_cons, List.all_nil, Bool.and_eq_true]
  exact ⟨⟨rfl, all_not_isTerminator (by decide) hbody⟩, rfl, trivial⟩

/-- A number stands in one line. -/
lemma Lexeme.IsNumber.oneLine {w : List Char} (h : IsNumber w) : w.all (!isTerminator ·) := by
  refine all_not_isTerminator (p := fun c => isNameChar c || c = '.' || c = '-') (by decide) ?_
  rw [List.all_eq_true]
  intro c hc
  simpa [or_assoc] using h.forall_mem c hc

/-- An operator stands in one line. -/
lemma Lexeme.IsSymbol.oneLine {w : List Char} (h : IsSymbol w) : w.all (!isTerminator ·) := by
  refine all_not_isTerminator (p := fun c => c = '|' || isSingle c) (by decide) ?_
  rcases h with rfl | ⟨c, rfl, hc⟩ | ⟨c, d, rfl, hpair⟩
  · rfl
  · simp [hc]
  · have hd : d = '=' := by simpa [isPair] using And.right (by simpa [isPair] using hpair)
    subst hd
    have hc : isSingle c := Scanner.isSingle_of_isPair hpair
    simp only [List.all_cons, hc, Bool.or_true, List.all_nil, Bool.and_true]
    decide

/-! ## Scanners -/

namespace Scanner

/-- The scanner has read the text up to its offset, is at the place of it, and so are its mark and its
tokens. -/
structure Placed (text : List Char) (s : Scanner) : Prop where
  text_eq : text = s.behind.reverse ++ s.rest
  offset_eq : s.offset = s.behind.length
  place : placeAt text s.offset = ⟨s.offset, s.line, s.column⟩
  mark_le : s.mark.offset ≤ text.length
  mark : placeAt text s.mark.offset = s.mark
  emitted : ∀ t ∈ s.emitted, t.PlacedIn text

/-- A scanner before a text is at the place of its start. -/
lemma placed_ofText (text : List Char) : (ofText text).Placed text :=
  ⟨rfl, rfl, rfl, Nat.zero_le _, rfl, by simp [ofText]⟩

namespace Placed

variable {text w r : List Char} {s m : Scanner} {c : Char}

/-- What a scanner knows besides its place does not matter. -/
lemma congr (h : s.Placed text) (hbehind : m.behind = s.behind) (hrest : m.rest = s.rest)
    (hoffset : m.offset = s.offset) (hline : m.line = s.line) (hcolumn : m.column = s.column)
    (hmark : m.mark = s.mark) (hemitted : m.emitted = s.emitted) : m.Placed text := by
  refine ⟨?_, ?_, ?_, ?_, ?_, ?_⟩
  · rw [hbehind, hrest, h.text_eq]
  · rw [hoffset, hbehind, h.offset_eq]
  · rw [hoffset, hline, hcolumn, h.place]
  · rw [hmark]
    exact h.mark_le
  · rw [hmark]
    exact h.mark
  · rw [hemitted]
    exact h.emitted

/-- The scanner is inside of its text. -/
lemma offset_le (h : s.Placed text) : s.offset ≤ text.length := by
  rw [h.text_eq, h.offset_eq, List.length_append, List.length_reverse]
  exact Nat.le_add_right _ _

/-- The text from the offset on is what the scanner has yet to read. -/
lemma drop_offset (h : s.Placed text) : text.drop s.offset = s.rest := by
  rw [h.text_eq, h.offset_eq, ← List.length_reverse, List.drop_left]

/-- The scanner can mark its place. -/
lemma setMark (h : s.Placed text) : s.setMark.Placed text :=
  ⟨h.text_eq, h.offset_eq, h.place, h.offset_le, h.place, h.emitted⟩

/-- A token that the scanner emits is at the mark. -/
lemma emit (h : s.Placed text) (k : Kind) (w : List Char) : (s.emit k w).Placed text := by
  refine ⟨h.text_eq, h.offset_eq, h.place, h.mark_le, h.mark, ?_⟩
  intro t ht
  rcases List.mem_cons.1 ht with rfl | ht
  · exact ⟨s.mark.offset, h.mark_le, rfl, by rw [h.mark], by rw [h.mark]⟩
  · exact h.emitted t ht

/-- A line ends after the next character exactly if that character says so to a literal. -/
lemma endsLineAt_succ (h : s.Placed text) (hrest : s.rest = c :: r) :
    endsLineAt text (s.offset + 1) = literalEndsLine c r := by
  have hget (i : Nat) : text[s.offset + i]? = (c :: r)[i]? := by
    rw [← List.getElem?_drop, h.drop_offset, hrest]
  have hhere := hget 0
  have hnext := hget 1
  rw [Nat.add_zero, List.getElem?_cons_zero] at hhere
  rw [List.getElem?_cons_succ, ← List.head?_eq_getElem?] at hnext
  simp [endsLineAt, literalEndsLine, hhere, hnext]

/-- Moving over one character that ends no line. -/
lemma advance_one (h : s.Placed text) (hrest : s.rest = c :: r) (hc : literalEndsLine c r = false) :
    (s.advance 1).Placed text := by
  have hplace := placeAt_succ ((h.endsLineAt_succ hrest).trans hc)
  have htake : s.rest.take 1 = [c] := by rw [hrest]; rfl
  refine ⟨?_, ?_, ?_, h.mark_le, h.mark, h.emitted⟩
  · simp [advance, hrest, h.text_eq]
  · simp [advance, hrest, h.offset_eq]
  · simpa [advance, htake, h.place] using hplace

/-- Moving over one character that ends a line, to the start of the next one. -/
lemma advance_newLine (h : s.Placed text) (hrest : s.rest = c :: r) (hc : literalEndsLine c r) :
    (s.advance 1).newLine.Placed text := by
  have hplace := placeAt_succ_of_ends ((h.endsLineAt_succ hrest).trans hc)
  have htake : s.rest.take 1 = [c] := by rw [hrest]; rfl
  refine ⟨?_, ?_, ?_, h.mark_le, h.mark, h.emitted⟩
  · simp [advance, newLine, hrest, h.text_eq]
  · simp [advance, newLine, hrest, h.offset_eq]
  · simpa [advance, newLine, htake, h.place] using hplace

/-- Moving on is moving over the next character first. -/
lemma advance_succ (s : Scanner) (n : Nat) (hrest : s.rest = c :: r) :
    s.advance (n + 1) = (s.advance 1).advance n := by
  simp only [advance, hrest, List.take_succ_cons, List.take_zero, List.drop_succ_cons, List.drop_zero,
    List.reverse_cons, List.reverse_nil, List.nil_append, List.append_assoc, List.cons_append,
    List.length_cons, List.length_nil, Scanner.mk.injEq, true_and, and_true]
  omega

/-- Moving over a text without line terminators. -/
lemma advance (h : s.Placed text) (hrest : s.rest = w ++ r) (hw : w.all (!isTerminator ·)) :
    (s.advance w.length).Placed text := by
  induction w generalizing s with
  | nil => exact h.congr rfl rfl rfl rfl rfl rfl rfl
  | cons c w ih =>
    rw [List.all_cons, Bool.and_eq_true] at hw
    have hc : literalEndsLine c (w ++ r) = false := by
      have := hw.1
      simp only [isTerminator, Bool.not_eq_true', Bool.or_eq_false_iff, decide_eq_false_iff_not] at this
      simp [literalEndsLine, this.1, this.2]
    rw [List.length_cons, advance_succ s w.length hrest]
    refine ih (h.advance_one hrest hc) ?_ hw.2
    rw [rest_advance, hrest]
    rfl

/-- A token without line terminators is at the mark, and the scanner after it. -/
lemma accept (h : s.Placed text) (hrest : s.rest = w ++ r) (hw : w.all (!isTerminator ·)) (k : Kind) :
    (s.accept k w).Placed text :=
  (h.advance hrest hw).emit k w

end Placed

/-! ## Steps -/

section Step

variable {text : List Char} {s m : Scanner}

/-- The start of a line is read without leaving it. -/
lemma Placed.indentation (h : s.Placed text) : s.indentation.Placed text := by
  have hstart : ({ s.setMark with atLineStart := false } : Scanner).Placed text :=
    h.setMark.congr rfl rfl rfl rfl rfl rfl rfl
  have hrun {s : Scanner} (h : s.Placed text) (p : Char → Bool) (hp : p '\n' = false ∧ p '\r' = false) :
      (s.advance (s.rest.takeWhile p).length).Placed text :=
    h.advance List.takeWhile_append_dropWhile.symm (all_not_isTerminator hp List.all_takeWhile)
  have hspaces := hrun (hrun hstart (· = '\t') (by decide)) isSpace (by decide)
  unfold Scanner.indentation
  dsimp only
  split
  · exact hspaces
  · split
    · exact hspaces
    split
    · exact hrun hspaces (!isTerminator ·) (by decide)
    split
    · exact hspaces
    · exact hspaces.emit _ _

/-- A line terminator leads to the next line. -/
lemma Placed.scanTerminator (h : s.Placed text) {c : Char} {r : List Char} (hrest : s.rest = c :: r)
    (hc : isTerminator c) : s.scanTerminator.Placed text := by
  obtain ⟨r', hr, hcases⟩ : ∃ r', c :: r = _ ++ r' ∧ _ := readTerminator_front hc
  -- emitting the token and starting the line can be swapped, so that the scanner is always in place
  have hof (hnext : (s.advance (readTerminator (c :: r)).length).newLine.Placed text) :
      s.scanTerminator.Placed text := by
    rw [Scanner.scanTerminator, hrest]
    exact (hnext.emit .newline (readTerminator (c :: r))).congr rfl rfl rfl rfl rfl rfl rfl
  refine hof ?_
  rw [hr] at hrest
  rcases hcases with heq | heq | ⟨heq, hnext⟩
  · rw [heq] at hrest ⊢
    exact h.advance_newLine hrest rfl
  · rw [heq] at hrest ⊢
    have hfirst := h.advance_one hrest (by simp [literalEndsLine])
    have hrest' : (s.advance 1).rest = '\n' :: r' := by
      rw [rest_advance, hrest]
      rfl
    change (s.advance 2).newLine.Placed text
    rw [Placed.advance_succ s 1 hrest]
    exact hfirst.advance_newLine hrest' rfl
  · rw [heq] at hrest ⊢
    exact h.advance_newLine hrest (by simp [literalEndsLine, hnext])

/-- A character literal that holds the end of a line leads to the next line. -/
lemma Placed.scanCharacter (h : s.Placed text) {r : List Char} (hrest : s.rest = '\\' :: r)
    (hm : s.scanCharacter = .ok m) : m.Placed text := by
  unfold Scanner.scanCharacter at hm
  rw [hrest] at hm
  cases r with
  | nil => cases hm
  | cons c r =>
    have hfirst := h.advance_one hrest rfl
    have hrest' : (s.advance 1).rest = c :: r := by
      rw [rest_advance, hrest]
      rfl
    have hdrop : (s.accept .character ['\\', c]).rest = r := by
      rw [rest_accept, hrest]
      rfl
    have hadvance : s.advance 2 = (s.advance 1).advance 1 := Placed.advance_succ s 1 hrest
    simp only [readCharacter, List.drop_succ_cons, List.drop_zero, hdrop, Except.ok.injEq] at hm
    subst hm
    split
    · next hends =>
      have hnext := hfirst.advance_newLine hrest' (by simpa using hends)
      rw [← hadvance] at hnext
      exact hnext.emit .character ['\\', c]
    · next hends =>
      have hnext := hfirst.advance_one hrest' (by simpa using hends)
      rw [← hadvance] at hnext
      exact hnext.emit .character ['\\', c]

/-- A bar is read in its line. -/
lemma Placed.scanBar (h : s.Placed text) {r : List Char} (hrest : s.rest = '|' :: r)
    (hm : s.scanBar = .ok m) : m.Placed text := by
  have hbar (k : Kind) : (s.accept k ['|']).Placed text := h.accept (w := ['|']) hrest rfl k
  unfold Scanner.scanBar at hm
  split at hm
  · cases hm
    exact hbar .operator
  · cases hm
    exact (hbar .closing).congr rfl rfl rfl rfl rfl rfl rfl
  · cases hm
    exact (hbar .opening).congr rfl rfl rfl rfl rfl rfl rfl
  · cases hm

/-- A lexeme that a reader takes from its line is read in place. -/
lemma Placed.acceptRead (h : s.Placed text) {k : Kind} {read : Except Misread (List Char)}
    (hread : ∀ w, read = .ok w → (∃ r, s.rest = w ++ r) ∧ w.all (!isTerminator ·))
    (hm : s.acceptRead k read = .ok m) : m.Placed text := by
  unfold Scanner.acceptRead at hm
  split at hm
  · next w =>
    cases hm
    obtain ⟨⟨r, hr⟩, hw⟩ := hread w rfl
    exact h.accept hr hw k
  · cases hm

/-- A bracket is read in its line. -/
lemma Placed.accept_bracket (h : s.Placed text) {c : Char} {r : List Char} (hrest : s.rest = c :: r)
    (hc : isTerminator c = false) (k : Kind) : (s.accept k (s.rest.take 1)).Placed text := by
  rw [hrest]
  exact h.accept (w := [c]) hrest (by simp [hc]) k

/-- A token is read in place. -/
theorem Placed.scanToken (h : s.Placed text) (hm : s.scanToken = .ok m) : m.Placed text := by
  unfold Scanner.scanToken at hm
  split at hm
  · cases hm
  next c r hrest =>
  split at hm
  · next hc =>
    cases hm
    exact h.scanTerminator hrest hc
  next hterm =>
  rw [Bool.not_eq_true] at hterm
  split at hm
  · next htick =>
    subst htick
    refine h.acceptRead (fun w hw => ?_) hm
    rw [hrest] at hw ⊢
    exact ⟨readString_front hw, (isString_of_readString hw).oneLine⟩
  split at hm
  · next hback =>
    subst hback
    exact h.scanCharacter hrest hm
  split at hm
  · next hdigit =>
    refine h.acceptRead (fun w hw => ?_) hm
    rw [hrest] at hw ⊢
    obtain ⟨r', hr, hnumber, -⟩ := readNumber_front hdigit hw
    exact ⟨⟨r', hr⟩, hnumber.oneLine⟩
  split at hm
  · cases hm
    obtain ⟨r', hr, -⟩ := readName_front s.rest
    exact h.accept hr (all_not_isTerminator (by decide) List.all_takeWhile) _
  split at hm
  · cases hm
    exact (h.accept_bracket hrest hterm .opening).congr rfl rfl rfl rfl rfl rfl rfl
  split at hm
  · cases hm
    exact (h.accept_bracket hrest hterm .closing).congr rfl rfl rfl rfl rfl rfl rfl
  split at hm
  · next hbar =>
    subst hbar
    exact h.scanBar hrest hm
  · refine h.acceptRead (fun w hw => ?_) hm
    obtain ⟨r', hr, -⟩ := readOperator_front hw
    exact ⟨⟨r', hr⟩, (isSymbol_of_readOperator hw).oneLine⟩

/-- A step stays in place. -/
theorem Placed.step (h : s.Placed text) (hm : s.step = .ok m) : m.Placed text := by
  unfold Scanner.step at hm
  split at hm
  · cases hm
    exact h.indentation
  split at hm
  · cases hm
    exact h.advance List.takeWhile_append_dropWhile.symm
      (all_not_isTerminator (p := isSpace) (by decide) List.all_takeWhile)
  · exact h.setMark.scanToken hm

/-- Steps stay in place. -/
lemma Placed.steps (h : s.Placed text) (hm : s.Steps m) : m.Placed text := by
  induction hm with
  | refl => exact h
  | tail _ hstep ih => exact ih.step hstep.2

end Step

/-! ## Giving up -/

section GiveUp

variable {s : Scanner} {f : Failure} {misread : Misread} {text : List Char}

/-- What a scanner reports is a front of the text at its mark. -/
def Failure.Shows (f : Failure) (mark : Mark) (text : List Char) : Prop :=
  f.scanner.mark = mark ∧ ∃ w, w ≠ [] ∧ w <+: text ∧ f.lexeme = some (String.ofList w)

/-- A scanner that gives up after a front of the text shows one. -/
lemma shows_giveUp (hne : s.rest ≠ []) (htaken : misread.taken <+: s.rest) :
    (s.giveUp misread).Shows s.mark s.rest := by
  obtain ⟨r, hr⟩ := htaken
  have hnext : (s.advance misread.taken.length).rest = r := by
    rw [rest_advance, ← hr, List.drop_left]
  have hof {w : List Char} (hw : w ≠ []) (hfront : w <+: s.rest) :
      ∃ w', w' ≠ [] ∧ w' <+: s.rest ∧
        (if w.isEmpty then none else some (String.ofList w)) = some (String.ofList w') :=
    ⟨w, hw, hfront, if_neg (by simpa using hw)⟩
  have hshown : misread.taken ++ r.take 1 <+: s.rest :=
    ⟨r.drop 1, by rw [List.append_assoc, List.take_append_drop, hr]⟩
  refine ⟨rfl, ?_⟩
  unfold giveUp
  dsimp only
  rw [hnext]
  split
  · refine hof (fun hnil => ?_) hshown
    obtain ⟨htaken, htake⟩ := List.append_eq_nil_iff.1 hnil
    rw [htaken, List.nil_append] at hr
    rw [hr, List.take_eq_nil_iff] at htake
    exact htake.elim (by omega) hne
  · split
    · next hempty =>
      rw [List.isEmpty_iff] at hempty
      rw [hempty, List.nil_append] at hr hshown
      refine hof (fun hnil => ?_) hshown
      rw [hr, List.take_eq_nil_iff] at hnil
      exact hnil.elim (by omega) hne
    · next hempty => exact ⟨misread.taken, by simpa using hempty, ⟨r, hr⟩, rfl⟩

/-- A reader that fails has read a front of the text. -/
lemma shows_acceptRead {k : Kind} {read : Except Misread (List Char)} (hne : s.rest ≠ [])
    (hread : ∀ misread, read = .error misread → misread.taken <+: s.rest)
    (h : s.acceptRead k read = .error f) : f.Shows s.mark s.rest := by
  unfold acceptRead at h
  split at h
  · cases h
  · cases h
    exact shows_giveUp hne (hread _ rfl)

/-- A string that does not end has been read up to where it should. -/
lemma readString_error_front (h : readString (tick :: text) = .error misread) :
    misread.taken <+: tick :: text := by
  unfold readString at h
  dsimp only [List.drop_succ_cons, List.drop_zero] at h
  split at h
  · cases h
  · cases h
    exact List.cons_prefix_cons.2 ⟨rfl, List.takeWhile_prefix _⟩

/-- A number that does not end has been read up to where it should. -/
lemma readNumber_error_front (h : readNumber text = .error misread) : misread.taken <+: text := by
  have hend {lexeme : List Char} (hlexeme : lexeme <+: text)
      (h : endNumber lexeme text = .error misread) : misread.taken <+: text := by
    unfold endNumber at h
    split at h <;> cases h
    exact hlexeme
  unfold readNumber at h
  split at h
  · exact hend ( readDecimal_prefix text) h
  · dsimp only at h
    split at h
    · cases h
      exact List.take_prefix 2 text
    · refine hend ?_ h
      obtain ⟨r, hr⟩ := List.takeWhile_prefix (l := text.drop 2) (Radix.isDigit _)
      exact ⟨r, by rw [List.append_assoc, hr, List.take_append_drop]⟩

/-- An operator that is none has not been read at all. -/
lemma readOperator_error_front (h : readOperator text = .error misread) : misread.taken <+: text := by
  have htaken : misread.taken = [] := by
    unfold readOperator at h
    repeat' split at h
    all_goals cases h
    all_goals rfl
  rw [htaken]
  exact List.nil_prefix

/-- A scanner that finds no token shows the text at its mark. -/
lemma shows_scanToken (hne : s.rest ≠ []) (h : s.scanToken = .error f) : f.Shows s.mark s.rest := by
  unfold scanToken at h
  split at h
  · next hrest => exact absurd hrest hne
  next c r hrest =>
  split at h
  · cases h
  split at h
  · next htick =>
    subst htick
    refine shows_acceptRead hne (fun misread hread => ?_) h
    rw [hrest] at hread ⊢
    exact readString_error_front hread
  split at h
  · next hback =>
    subst hback
    unfold scanCharacter at h
    split at h
    · next misread hread =>
      cases h
      refine shows_giveUp hne ?_
      rw [hrest] at hread ⊢
      unfold readCharacter at hread
      split at hread <;> cases hread
      exact List.cons_prefix_cons.2 ⟨rfl, List.nil_prefix⟩
    · cases h
  split at h
  · exact shows_acceptRead hne (fun _ => readNumber_error_front) h
  split at h
  · cases h
  split at h
  · cases h
  split at h
  · cases h
  split at h
  · next hbar =>
    subst hbar
    unfold scanBar at h
    split at h <;> cases h
    refine shows_giveUp hne ?_
    rw [hrest]
    exact List.cons_prefix_cons.2 ⟨rfl, List.nil_prefix⟩
  · exact shows_acceptRead hne (fun _ => readOperator_error_front) h

/-- A run that fails takes steps up to the one that does. -/
lemma steps_of_run_error (h : s.run = .error f) :
    ∃ m, s.Steps m ∧ m.rest ≠ [] ∧ m.step = .error f := by
  induction hn : s.effort using Nat.strongRecOn generalizing s with
  | ind n ih =>
    rw [run] at h
    split at h
    · cases h
    · next hne =>
      have hne : s.rest ≠ [] := by simpa using hne
      split at h
      · next hstep =>
        cases h
        exact ⟨s, .refl, hne, hstep⟩
      · next m hstep =>
        obtain ⟨m', hsteps, hm'⟩ := ih m.effort (hn ▸ effort_step_lt hstep) h rfl
        exact ⟨m', .head ⟨hne, hstep⟩ hsteps, hm'⟩

/-- A run that fails reports a place of the text, and shows the text that stands there. -/
theorem shows_run (h : (ofText text).run = .error f) :
    ∃ offset ≤ text.length, f.Shows (placeAt text offset) (text.drop offset) := by
  obtain ⟨m, hsteps, hne, hstep⟩ := steps_of_run_error h
  have hm := (placed_ofText text).steps hsteps
  have hshows : f.Shows m.setMark.mark m.rest := by
    unfold step at hstep
    split at hstep
    · cases hstep
    split at hstep
    · cases hstep
    · exact shows_scanToken hne hstep
  refine ⟨m.offset, hm.offset_le, ?_⟩
  rw [hm.place, hm.drop_offset]
  exact hshows

end GiveUp

end Scanner

open Scanner

variable {text : List Char}

/-- The tokens of a text stand at the places of their offsets. -/
theorem scan_placed {tokens : List Token} (h : scan (String.ofList text) = .ok tokens) :
    ∀ t ∈ tokens, t.PlacedIn text := by
  obtain ⟨f, hrun, rfl⟩ := scan_eq_ok.1 h
  have hf := (placed_ofText text).steps (steps_of_run hrun).1
  intro t ht
  rcases List.mem_append.1 ht with ht | ht
  · exact hf.emitted t (List.mem_reverse.1 ht)
  · rw [List.mem_singleton.1 ht]
    exact ⟨f.offset, hf.offset_le, rfl, by rw [hf.place], by rw [hf.place]⟩

/-- A text that is not scanned is refused at a place of it, and what stands there is shown. -/
theorem scan_error_shows {f : Failure} (h : scan (String.ofList text) = .error f) :
    ∃ offset ≤ text.length, f.Shows (placeAt text offset) (text.drop offset) := by
  unfold scan tokenize at h
  rw [String.toList_ofList] at h
  cases hrun : (ofText text).run with
  | ok s =>
    rw [hrun] at h
    cases h
  | error failure =>
    rw [hrun] at h
    cases h
    exact shows_run hrun

end SignLang
