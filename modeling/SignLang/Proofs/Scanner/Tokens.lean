import SignLang.Proofs.Scanner.Lexical

/-!
# The token at the front of a text

What the scanner reads inside of a line, said once and for all texts. `Scanner.Lexes` says which lexeme
stands at the front of the text, by the lexeme, the text after it and what stands behind the scanner, and
`Scanner.Reads` how the scanner moves over it. The token that is read is one that stands there
(`scanToken_inv`), and one that stands there is read (`scanToken_of_lexes`).
-/

namespace SignLang

open Lexeme

/-- The token is written at `offset` with the kind and the lexeme. -/
structure Token.Spells (t : Token) (kind : Kind) (lexeme : String) (offset : Int) : Prop where
  kind_eq : t.kind = kind
  lexeme_eq : t.lexeme = lexeme
  offset_eq : t.offset = offset
  written : t.synthetic = false

/-- A token that is written as an operator is that symbol. -/
lemma Token.Spells.isSymbol {t : Token} {symbol : String} {offset : Int}
    (h : t.Spells .operator symbol offset) : t.isSymbol symbol :=
  Token.isSymbol_iff.2 ⟨h.kind_eq, h.lexeme_eq⟩

/-- The level of an indentation token is the number of its tabs. -/
lemma Token.Spells.level_eq {t : Token} {tabs : List Char} {offset : Int}
    (h : t.Spells .indent (String.ofList tabs) offset) : t.level = tabs.length := by
  rw [Token.level, if_pos h.kind_eq, h.lexeme_eq, String.length_ofList]

namespace Scanner

/-! ## What a bar does -/

/-- Space or the inside of a bracket is on the left of the scanner. -/
def leftFree (s : Scanner) : Bool :=
  s.behind.head?.all fun c => isGap c || isOpener c

/-- A bar may close an absolute value here. -/
def canClose (s : Scanner) : Bool :=
  !s.behind.head?.all isGap && !s.setMark.afterOpening && s.bars.head? = some s.depth

/-- Only the last character behind a scanner says what is on the left of it. -/
lemma leftFree_congr {s s' : Scanner} (h : s'.behind.head? = s.behind.head?) : s'.leftFree = s.leftFree := by
  rw [leftFree, leftFree, h]

/-- Where space is behind a scanner, a bar has space on its left and closes nothing. -/
lemma leftFree_of_gap {s : Scanner} (h : s.behind.head?.all isGap) : s.leftFree = true ∧ s.canClose = false := by
  constructor
  · rw [leftFree]
    cases hhead : s.behind.head? with
    | none => rfl
    | some c =>
      rw [hhead] at h
      have hc : isGap c := h
      simp [hc]
  · rw [canClose, h]
    rfl

/-- A bar closes nothing behind space, behind an opening bracket and where none is open at this depth. -/
lemma canClose_eq_false {s : Scanner} : s.canClose = false ↔
    s.behind.head?.all isGap ∨ s.setMark.afterOpening ∨ s.bars.head? ≠ some s.depth := by
  rw [canClose]
  cases s.behind.head?.all isGap <;> cases s.setMark.afterOpening <;> simp

/-- Space or the inside of a bracket is at the front of the text. -/
def rightFree (text : List Char) : Bool :=
  text.head?.all fun c => isGap c || isCloser c

/-- What a bar does, by what is on its hands. -/
def roleOf (leftFree canClose rightFree : Bool) : BarRole :=
  if leftFree && rightFree then .operator
  else if canClose then .closes
  else if !rightFree then .opens
  else .stray

/-- The kind of the token that a bar is, by what is on its hands; none if it is stray. -/
def barKind? (leftFree canClose rightFree : Bool) : Option Kind :=
  match roleOf leftFree canClose rightFree with
  | .operator => some .operator
  | .opens => some .opening
  | .closes => some .closing
  | .stray => none

/-- A bar does what its hands say. -/
lemma barRole_eq {s : Scanner} {r : List Char} (h : s.rest = '|' :: r) :
    s.setMark.barRole = roleOf s.leftFree s.canClose (rightFree r) := by
  have hpeek : s.setMark.peek? 1 = r.head? := by
    change s.rest[1]? = _
    rw [h, List.getElem?_cons_succ, List.head?_eq_getElem?]
  unfold barRole roleOf
  rw [hpeek]
  rfl

/-! ## What a token does -/

/-- The bracket depth after a token. -/
def depthAfter (depth : Nat) (kind : Kind) (lexeme : List Char) : Nat :=
  if lexeme = ['|'] then depth
  else if kind = .opening then depth + 1
  else if kind = .closing then depth - 1
  else depth

/-- The open absolute values after a token. -/
def barsAfter (depth : Nat) (bars : List Nat) (kind : Kind) (lexeme : List Char) : List Nat :=
  if kind = .opening then if lexeme = ['|'] then depth :: bars else bars
  else if kind = .closing then
    if lexeme = ['|'] then bars.tail else bars.dropWhile (depth - 1 < ·)
  else bars

/-- A token that is no bracket changes no depth. -/
lemma depthAfter_other {k : Kind} (hk : k ≠ .opening ∧ k ≠ .closing) (depth : Nat) (w : List Char) :
    depthAfter depth k w = depth := by
  simp only [depthAfter, hk.1, hk.2, if_false, ite_self]

/-- A token that is no bracket opens and closes no absolute value. -/
lemma barsAfter_other {k : Kind} (hk : k ≠ .opening ∧ k ≠ .closing) (depth : Nat) (bars : List Nat)
    (w : List Char) : barsAfter depth bars k w = bars := by
  simp only [barsAfter, hk.1, hk.2, if_false]

/-- The scanner `m` is `s` after a token of the kind. -/
structure Reads (s : Scanner) (kind : Kind) (lexeme : List Char) (m : Scanner) : Prop where
  rest : s.rest = lexeme ++ m.rest
  behind : m.behind = lexeme.reverse ++ s.behind
  offset : m.offset = s.offset + lexeme.length
  start : m.atLineStart = decide (kind = .newline)
  depth : m.depth = depthAfter s.depth kind lexeme
  bars : m.bars = barsAfter s.depth s.bars kind lexeme
  emitted : ∃ t : Token, m.emitted = t :: s.emitted ∧ t.Spells kind (String.ofList lexeme) s.offset

/-- The token that is read ends where the scanner then stands. -/
lemma Reads.stop_eq {s m : Scanner} {k : Kind} {w : List Char} (h : s.Reads k w m) {t : Token}
    (ht : t.Spells k (String.ofList w) s.offset) : t.stop = m.offset := by
  rw [Token.stop, ht.offset_eq, ht.lexeme_eq, h.offset, String.length_ofList]
  push_cast
  rfl

section Reads

variable {s m : Scanner} {k : Kind} {w : List Char}

/-- A token that is no bracket leaves the depth as it is. -/
lemma Reads.depth_eq (h : s.Reads k w m) (hk : k ≠ .opening ∧ k ≠ .closing) : m.depth = s.depth :=
  h.depth.trans (depthAfter_other hk _ _)

/-- A token that is no bracket leaves the open absolute values as they are. -/
lemma Reads.bars_eq (h : s.Reads k w m) (hk : k ≠ .opening ∧ k ≠ .closing) : m.bars = s.bars :=
  h.bars.trans (barsAfter_other hk _ _ _)

/-- Behind a token is its last character. -/
lemma Reads.head?_behind (h : s.Reads k w m) (hw : w ≠ []) : m.behind.head? = w.getLast? := by
  rw [h.behind, List.head?_append_of_ne_nil _ (by simpa using hw), List.head?_reverse]

/-- A bracket has just been opened if the last token is one and ends here. -/
lemma afterOpening_of_stop {t : Token} (hlast : m.emitted.head? = some t)
    (hstop : t.stop = m.offset) : m.setMark.afterOpening = decide (t.kind = .opening) := by
  change m.emitted.head?.any _ = _
  simp [hlast, setMark, hstop]

/-- No bracket has just been opened if the last token is none. -/
lemma afterOpening_of_kind {t : Token} (hlast : m.emitted.head? = some t) (hk : t.kind ≠ .opening) :
    m.setMark.afterOpening = false := by
  change m.emitted.head?.any _ = _
  simp [hlast, hk]

/-- A bracket has just been opened behind a token that is one. -/
lemma Reads.afterOpening (h : s.Reads k w m) : m.setMark.afterOpening = decide (k = .opening) := by
  obtain ⟨t, ht, hspells⟩ := h.emitted
  rw [afterOpening_of_stop (by rw [ht]; rfl) (h.stop_eq hspells), hspells.kind_eq]

end Reads

/-- The lexeme stands before the text `r` as a token of the kind. -/
def Lexes (s : Scanner) (r w : List Char) : Kind → Prop
  | .newline => w = ['\n'] ∨ w = ['\r', '\n'] ∨ w = ['\r'] ∧ r.head? ≠ some '\n'
  | .string => IsString w
  | .character => IsCharacter w
  | .number => IsNumber w ∧ r.head?.any isNameChar = false ∧ readNumber (w ++ r) = .ok w
  | .identifier => IsName w ∧ r.head?.any isNameChar = false
  | .unit => w = ['_'] ∧ r.head?.any isNameChar = false
  | .opening => (∃ c, w = [c] ∧ isOpener c) ∨
      w = ['|'] ∧ barKind? s.leftFree s.canClose (rightFree r) = some .opening
  | .closing => (∃ c, w = [c] ∧ isCloser c) ∨
      w = ['|'] ∧ barKind? s.leftFree s.canClose (rightFree r) = some .closing
  | .operator => (∃ c d, w = [c, d] ∧ isPair c d) ∨
      (∃ c, w = [c] ∧ isSingle c ∧ r.head?.all (!isPair c ·)) ∨
      w = ['|'] ∧ barKind? s.leftFree s.canClose (rightFree r) = some .operator
  | .indent | .separator | .ending => False

/-- A class without spaces, line ends, ticks and backslashes. -/
lemma cases_of_class {p : Char → Bool} (hp : [' ', '\t', '\n', '\r', tick, '\\'].all (!p ·)) {c : Char}
    (hc : p c) : isSpace c = false ∧ isTerminator c = false ∧ c ≠ tick ∧ c ≠ '\\' := by
  have hne : ∀ d ∈ [' ', '\t', '\n', '\r', tick, '\\'], c ≠ d := by
    rintro d hd rfl
    have := List.all_eq_true.1 hp c hd
    simp [hc] at this
  simp only [List.forall_mem_cons] at hne
  simp [isSpace, isTerminator, hne]

/-- A letter or underscore is none of the characters that start something else. -/
lemma isNameStart_cases {c : Char} (h : isNameStart c) :
    isSpace c = false ∧ isTerminator c = false ∧ c ≠ tick ∧ c ≠ '\\' ∧ c.isDigit = false := by
  obtain ⟨hspace, hterm, htick, hback⟩ := cases_of_class (by decide) h
  refine ⟨hspace, hterm, htick, hback, ?_⟩
  simp only [isNameStart, Char.isAlpha, Char.isUpper, Char.isLower, Char.isDigit, Bool.or_eq_true,
    Bool.and_eq_true, decide_eq_true_eq, Bool.and_eq_false_iff, decide_eq_false_iff_not] at *
  rcases h with (h | h) | rfl
  · grind
  · grind
  · decide

/-- A digit is none of the characters that start something else. -/
lemma isDigit_cases {c : Char} (h : c.isDigit) :
    isSpace c = false ∧ isTerminator c = false ∧ c ≠ tick ∧ c ≠ '\\' :=
  cases_of_class (p := Char.isDigit) (by decide) h

/-- A character of an operator is none of the characters that start something else. -/
lemma isSingle_cases {c : Char} (h : isSingle c) :
    isSpace c = false ∧ isTerminator c = false ∧ c ≠ tick ∧ c ≠ '\\' ∧ c.isDigit = false ∧
      isNameStart c = false ∧ isOpener c = false ∧ isCloser c = false ∧ c ≠ '|' := by
  simp only [isSingle, List.contains_eq_mem, decide_eq_true_eq, List.mem_cons, List.not_mem_nil,
    or_false] at h
  rcases h with rfl | rfl | rfl | rfl | rfl | rfl | rfl | rfl | rfl | rfl | rfl | rfl | rfl | rfl |
    rfl | rfl | rfl | rfl | rfl | rfl <;> decide

/-- The first character of an operator of two is an operator. -/
lemma isSingle_of_isPair {c d : Char} (h : isPair c d) : isSingle c := by
  obtain ⟨rfl | rfl | rfl | rfl, -⟩ := isPair_iff.1 h <;> decide

/-- A character that starts a token. -/
def isStarter (c : Char) : Bool :=
  isTerminator c || c = tick || c = '\\' || c.isDigit || isNameStart c || isOpener c || isCloser c ||
    c = '|' || isSingle c

/-- The character can be the first one of a lexeme of the kind. -/
def startsKind (c : Char) : Kind → Bool
  | .newline => isTerminator c
  | .string => c = tick
  | .character => c = '\\'
  | .number => c.isDigit
  | .identifier => isNameStart c
  | .unit => c = '_'
  | .opening => isOpener c || c = '|'
  | .closing => isCloser c || c = '|'
  | .operator => isSingle c || c = '|'
  | .indent | .separator | .ending => false

/-- A lexeme starts as one of its kind. -/
lemma Lexes.exists_first {s : Scanner} {r w : List Char} {k : Kind} (h : s.Lexes r w k) :
    ∃ c cs, w = c :: cs ∧ startsKind c k := by
  have hof {p : Char → Bool} (h : w.head?.any p) : ∃ c cs, w = c :: cs ∧ p c := by
    cases w with
    | nil => cases h
    | cons c cs => exact ⟨c, cs, rfl, h⟩
  cases k with
  | newline => rcases h with rfl | rfl | ⟨rfl, -⟩ <;> exact ⟨_, _, rfl, by decide⟩
  | string =>
    obtain ⟨body, rfl, -⟩ := h
    exact ⟨_, _, rfl, by decide⟩
  | character =>
    obtain ⟨c, rfl⟩ := h
    exact ⟨_, _, rfl, by decide⟩
  | number => exact hof (p := Char.isDigit) h.1.1
  | identifier => exact hof (p := isNameStart) h.1.1
  | unit => exact ⟨_, _, h.1, by decide⟩
  | opening | closing =>
    rcases h with ⟨c, rfl, hc⟩ | ⟨rfl, -⟩
    · exact ⟨c, _, rfl, by simp [startsKind, hc]⟩
    · exact ⟨_, _, rfl, by decide⟩
  | operator =>
    rcases h with ⟨c, d, rfl, hc⟩ | ⟨c, rfl, hc, -⟩ | ⟨rfl, -⟩
    · exact ⟨c, _, rfl, by simp [startsKind, isSingle_of_isPair hc]⟩
    · exact ⟨c, _, rfl, by simp [startsKind, hc]⟩
    · exact ⟨_, _, rfl, by decide⟩
  | indent | separator | ending => exact h.elim

/-- A lexeme starts with a character that starts a token. -/
lemma Lexes.exists_starter {s : Scanner} {r w : List Char} {k : Kind} (h : s.Lexes r w k) :
    ∃ c cs, w = c :: cs ∧ isStarter c := by
  obtain ⟨c, cs, rfl, hc⟩ := h.exists_first
  refine ⟨c, cs, rfl, ?_⟩
  cases k with
  | indent | separator | ending => cases hc
  | unit =>
    obtain rfl : c = '_' := by simpa [startsKind] using hc
    decide
  | opening | closing | operator =>
    rw [startsKind, Bool.or_eq_true, decide_eq_true_eq] at hc
    rcases hc with hc | hc <;> simp [isStarter, hc]
  | _ =>
    simp only [startsKind, decide_eq_true_eq] at hc
    simp [isStarter, hc]

/-- A token that starts with a line terminator is a line end. -/
lemma Lexes.kind_of_isTerminator {s : Scanner} {r cs : List Char} {k : Kind} {c : Char}
    (h : s.Lexes r (c :: cs) k) (hc : isTerminator c) : k = .newline := by
  obtain ⟨d, ds, heq, hd⟩ := h.exists_first
  obtain ⟨rfl, -⟩ := List.cons.inj heq
  obtain rfl | rfl := isTerminator_iff.1 hc
  all_goals
    cases k with
    | newline => rfl
    | _ => exact absurd hd (by decide)

/-- A lexeme has characters, and does not start with a space. -/
lemma Lexes.head?_isSpace {s : Scanner} {r w : List Char} {k : Kind} (h : s.Lexes r w k) :
    w ≠ [] ∧ w.head?.any isSpace = false := by
  obtain ⟨c, cs, rfl, hc⟩ := h.exists_starter
  refine ⟨by simp, ?_⟩
  by_contra hspace
  have hspace : isSpace c := by simpa using hspace
  obtain rfl | rfl := isSpace_iff.1 hspace <;> exact absurd hc (by decide)

section Accept

variable {s m : Scanner} {k : Kind} {w r : List Char}

/-- A scanner that has accepted a lexeme has read it. -/
lemma Reads.of_accept (hrest : s.rest = w ++ r) (hm : m.rest = (s.setMark.accept k w).rest)
    (hbehind : m.behind = (s.setMark.accept k w).behind)
    (hoffset : m.offset = (s.setMark.accept k w).offset)
    (hemitted : m.emitted = (s.setMark.accept k w).emitted)
    (hstart : m.atLineStart = decide (k = .newline)) (hdepth : m.depth = depthAfter s.depth k w)
    (hbars : m.bars = barsAfter s.depth s.bars k w) : s.Reads k w m ∧ m.rest = r := by
  have htake : s.rest.take w.length = w := by rw [hrest, List.take_left]
  have hr : m.rest = r := by
    rw [hm]
    change s.rest.drop w.length = _
    rw [hrest, List.drop_left]
  refine ⟨⟨by rw [hr, hrest], ?_, ?_, hstart, hdepth, hbars, _, hemitted, rfl, rfl, rfl, rfl⟩, hr⟩
  · rw [hbehind]
    change (s.rest.take w.length).reverse ++ s.behind = _
    rw [htake]
  · rw [hoffset]
    change s.offset + (s.rest.take w.length).length = _
    rw [htake]

end Accept

/-! ## Readers take a front of the text -/

/-- A string that is read is a front of the text. -/
lemma readString_front {text found : List Char} (h : readString (tick :: text) = .ok found) :
    ∃ r, tick :: text = found ++ r := by
  unfold readString at h
  dsimp only [List.drop_succ_cons, List.drop_zero] at h
  split at h
  · next htick =>
    cases h
    obtain ⟨rest, hrest⟩ := List.head?_eq_some_iff.1 htick
    refine ⟨rest, ?_⟩
    rw [List.cons_append, List.cons_append, List.append_assoc, List.singleton_append, ← hrest,
      List.takeWhile_append_dropWhile]
    rfl
  · cases h

/-- A string is read from any text that it starts. -/
lemma readString_append {body : List Char} (h : body.all isStringChar) (r : List Char) :
    readString (tick :: body ++ [tick] ++ r) = .ok (tick :: body ++ [tick]) := by
  have htick : ((tick :: r).head?.any isStringChar) = false := by
    change isStringChar tick = false
    decide
  have htake := takeWhile_append_of_all h htick
  have hdrop : (body ++ tick :: r).dropWhile isStringChar = tick :: r := by
    have := List.takeWhile_append_dropWhile (p := isStringChar) (l := body ++ tick :: r)
    rw [htake] at this
    exact List.append_cancel_left this
  simp [readString, htake, hdrop]

/-- An operator that is read is a front of the text, and as long as possible. -/
lemma readOperator_front {text found : List Char} (h : readOperator text = .ok found) :
    ∃ r, text = found ++ r ∧ ((∃ c d, found = [c, d] ∧ isPair c d) ∨
      ∃ c, found = [c] ∧ isSingle c ∧ r.head?.all (!isPair c ·)) := by
  unfold readOperator at h
  split at h
  · next c d r =>
    split at h
    · next hpair => cases h; exact ⟨r, rfl, .inl ⟨c, d, rfl, hpair⟩⟩
    · next hpair =>
      split at h <;> cases h
      next hsingle => exact ⟨d :: r, rfl, .inr ⟨c, rfl, hsingle, by simpa using hpair⟩⟩
  · next c =>
    split at h <;> cases h
    next hsingle => exact ⟨[], rfl, .inr ⟨c, rfl, hsingle, rfl⟩⟩
  · cases h

/-- What follows a number that is read is no character of names. -/
lemma readNumber_front {c : Char} {text found : List Char} (hc : c.isDigit)
    (h : readNumber (c :: text) = .ok found) :
    ∃ r, c :: text = found ++ r ∧ IsNumber found ∧ r.head?.any isNameChar = false ∧
      readNumber (found ++ r) = .ok found := by
  obtain ⟨hnumber, r, hr⟩ := isNumber_of_readNumber hc h
  rw [← hr] at h ⊢
  refine ⟨r, rfl, hnumber, ?_, h⟩
  have hend {lexeme : List Char} (h : endNumber lexeme (found ++ r) = .ok found) :
      r.head?.any isNameChar = false := by
    unfold endNumber at h
    split at h <;> cases h
    next hnot => simpa using hnot
  unfold readNumber at h
  split at h
  · exact hend h
  · dsimp only at h
    split at h
    · cases h
    · exact hend h

/-- A name that is read is a front of the text, which no character of names follows. -/
lemma readName_front (text : List Char) :
    ∃ r, text = readName text ++ r ∧ r.head?.any isNameChar = false := by
  refine ⟨text.dropWhile isNameChar, List.takeWhile_append_dropWhile.symm, ?_⟩
  cases h : text.dropWhile isNameChar with
  | nil => rfl
  | cons c r =>
    have := List.head?_dropWhile_not isNameChar text
    rw [h] at this
    simpa using this

/-- A terminator that is read is a front of the text, and as long as possible. -/
lemma readTerminator_front {c : Char} {text : List Char} (hc : isTerminator c) :
    ∃ r, c :: text = readTerminator (c :: text) ++ r ∧ (readTerminator (c :: text) = ['\n'] ∨
      readTerminator (c :: text) = ['\r', '\n'] ∨
      readTerminator (c :: text) = ['\r'] ∧ r.head? ≠ some '\n') := by
  unfold readTerminator
  split
  · next r heq => exact ⟨r, by rw [heq]; rfl, .inr (.inl rfl)⟩
  · next d r hne heq =>
    obtain ⟨rfl, rfl⟩ := List.cons.inj heq
    refine ⟨text, rfl, ?_⟩
    obtain rfl | rfl := isTerminator_iff.1 hc
    · exact .inl rfl
    · refine .inr (.inr ⟨rfl, fun hhead => ?_⟩)
      obtain ⟨r, rfl⟩ := List.head?_eq_some_iff.1 hhead
      exact hne r rfl rfl
  · next heq => cases heq

/-! ## The step that reads a token -/

/-- A token other than a bracket or a line end changes nothing else. -/
lemma Reads.of_plain {s : Scanner} {k : Kind} {w r : List Char} (hin : s.atLineStart = false)
    (hrest : s.rest = w ++ r) (hk : k ≠ .newline ∧ k ≠ .opening ∧ k ≠ .closing) :
    s.Reads k w (s.setMark.accept k w) ∧ (s.setMark.accept k w).rest = r := by
  refine Reads.of_accept hrest rfl rfl rfl rfl ?_ ?_ ?_
  · rw [decide_eq_false hk.1]
    exact hin
  · exact (depthAfter_other hk.2 _ _).symm
  · exact (barsAfter_other hk.2 _ _ _).symm

/-- A line end starts a line. -/
lemma Reads.of_terminator {s : Scanner} {w r : List Char} (hrest : s.rest = w ++ r)
    (hread : readTerminator s.rest = w) :
    s.Reads .newline w s.setMark.scanTerminator ∧ s.setMark.scanTerminator.rest = r := by
  have hmark : readTerminator s.setMark.rest = w := hread
  rw [scanTerminator, hmark]
  exact Reads.of_accept hrest rfl rfl rfl rfl rfl (depthAfter_other (by decide) _ _).symm
    (barsAfter_other (by decide) _ _ _).symm

/-- A character literal, with or without the end of a line in it. -/
lemma Reads.of_character {s : Scanner} {c : Char} {r : List Char} (hin : s.atLineStart = false)
    (hrest : s.rest = '\\' :: c :: r) :
    ∃ m, s.setMark.scanCharacter = .ok m ∧ s.Reads .character ['\\', c] m ∧ m.rest = r := by
  have hread : readCharacter s.setMark.rest = .ok ['\\', c] := by
    rw [show s.setMark.rest = '\\' :: c :: r from hrest]
    rfl
  obtain ⟨hreads, hr⟩ := Reads.of_plain (w := ['\\', c]) (k := .character) hin hrest (by decide)
  rw [scanCharacter, hread]
  dsimp only
  split
  · exact ⟨_, rfl, ⟨hreads.rest, hreads.behind, hreads.offset, hreads.start, hreads.depth, hreads.bars,
      hreads.emitted⟩, hr⟩
  · exact ⟨_, rfl, hreads, hr⟩

/-- An opening bracket. -/
lemma Reads.of_opener {s : Scanner} {c : Char} {r : List Char} (hin : s.atLineStart = false)
    (hrest : s.rest = c :: r) (hc : isOpener c) :
    s.Reads .opening [c] s.setMark.scanOpener ∧ s.setMark.scanOpener.rest = r := by
  have hbar : [c] ≠ ['|'] := by
    rintro heq
    cases heq
    exact absurd hc (by decide)
  have htake : s.setMark.rest.take 1 = [c] := by
    rw [show s.setMark.rest = c :: r from hrest]
    rfl
  rw [scanOpener, htake]
  refine Reads.of_accept (w := [c]) hrest rfl rfl rfl rfl hin ?_ ?_
  · simp only [depthAfter, if_neg hbar, if_true]
    rfl
  · simp only [barsAfter, if_neg hbar, if_true]
    rfl

/-- A closing bracket. -/
lemma Reads.of_closer {s : Scanner} {c : Char} {r : List Char} (hin : s.atLineStart = false)
    (hrest : s.rest = c :: r) (hc : isCloser c) :
    s.Reads .closing [c] s.setMark.scanCloser ∧ s.setMark.scanCloser.rest = r := by
  have hbar : [c] ≠ ['|'] := by
    rintro heq
    cases heq
    exact absurd hc (by decide)
  have htake : s.setMark.rest.take 1 = [c] := by
    rw [show s.setMark.rest = c :: r from hrest]
    rfl
  rw [scanCloser, htake]
  refine Reads.of_accept (w := [c]) hrest rfl rfl rfl rfl hin ?_ ?_
  · simp only [depthAfter, if_neg hbar, if_true]
    rfl
  · simp only [barsAfter, if_neg hbar, if_true]
    rfl

/-- A bar is a token of the kind that its hands say. -/
lemma Reads.of_bar {s : Scanner} {r : List Char} {k : Kind} (hin : s.atLineStart = false)
    (hrest : s.rest = '|' :: r) (hk : barKind? s.leftFree s.canClose (rightFree r) = some k) :
    ∃ m, s.setMark.scanBar = .ok m ∧ s.Reads k ['|'] m ∧ m.rest = r := by
  unfold scanBar
  rw [barRole_eq hrest]
  unfold barKind? at hk
  cases hrole : roleOf s.leftFree s.canClose (rightFree r) with
  | operator =>
    rw [hrole] at hk
    cases hk
    exact ⟨_, rfl, Reads.of_plain (w := ['|']) hin hrest (by decide)⟩
  | opens =>
    rw [hrole] at hk
    cases hk
    exact ⟨_, rfl, Reads.of_accept (w := ['|']) hrest rfl rfl rfl rfl hin rfl rfl⟩
  | closes =>
    rw [hrole] at hk
    cases hk
    exact ⟨_, rfl, Reads.of_accept (w := ['|']) hrest rfl rfl rfl rfl hin rfl rfl⟩
  | stray =>
    rw [hrole] at hk
    cases hk

/-- A bar that is read has a kind. -/
lemma barKind?_isSome {s m : Scanner} {r : List Char} (hrest : s.rest = '|' :: r)
    (h : s.setMark.scanBar = .ok m) : ∃ k, barKind? s.leftFree s.canClose (rightFree r) = some k := by
  unfold scanBar at h
  rw [barRole_eq hrest] at h
  unfold barKind?
  cases hrole : roleOf s.leftFree s.canClose (rightFree r) with
  | stray =>
    rw [hrole] at h
    cases h
  | _ => exact ⟨_, rfl⟩

/-- A bar of its kind is a token. -/
lemma lexes_bar {s : Scanner} {r : List Char} {k : Kind}
    (hk : barKind? s.leftFree s.canClose (rightFree r) = some k) : s.Lexes r ['|'] k := by
  have hcases : k = .operator ∨ k = .opening ∨ k = .closing := by
    unfold barKind? at hk
    split at hk <;> cases hk <;> simp
  rcases hcases with rfl | rfl | rfl
  · exact .inr (.inr ⟨rfl, hk⟩)
  · exact .inr ⟨rfl, hk⟩
  · exact .inr ⟨rfl, hk⟩

/-- A bar that is read is of its kind. -/
lemma barKind?_of_lexes {s : Scanner} {r : List Char} {k : Kind} (h : s.Lexes r ['|'] k) :
    barKind? s.leftFree s.canClose (rightFree r) = some k := by
  obtain ⟨c, cs, heq, hc⟩ := h.exists_first
  obtain ⟨rfl, -⟩ := List.cons.inj heq
  cases k with
  | opening | closing =>
    rcases h with ⟨c, h, hc⟩ | ⟨-, h⟩
    · cases h
      exact absurd hc (by decide)
    · exact h
  | operator =>
    rcases h with ⟨c, d, h, -⟩ | ⟨c, h, hc, -⟩ | ⟨-, h⟩
    · cases h
    · cases h
      exact absurd hc (by decide)
    · exact h
  | _ => exact absurd hc (by decide)

/-- A token that the scanner reads stands at the front of the text. -/
theorem scanToken_inv {s m : Scanner} (hin : s.atLineStart = false)
    (h : s.setMark.scanToken = .ok m) : ∃ k w, s.Reads k w m ∧ s.Lexes m.rest w k := by
  unfold scanToken at h
  split at h
  · cases h
  next c text hrest =>
  change s.rest = c :: text at hrest
  have hmark : s.setMark.rest = c :: text := hrest
  split at h
  · next hc =>
    cases h
    obtain ⟨r, hr, hw⟩ : ∃ r, c :: text = _ ++ r ∧ _ := readTerminator_front hc
    obtain ⟨hreads, hm⟩ := Reads.of_terminator (hrest.trans hr) (by rw [hrest])
    exact ⟨_, _, hreads, hm ▸ hw⟩
  split at h
  · next hc =>
    subst hc
    unfold acceptRead at h
    rw [hmark] at h
    split at h <;> cases h
    next w hw =>
    obtain ⟨r, hr⟩ := readString_front hw
    obtain ⟨hreads, hm⟩ := Reads.of_plain (k := .string) hin (hrest.trans hr) (by decide)
    exact ⟨_, _, hreads, isString_of_readString hw⟩
  split at h
  · next hc =>
    subst hc
    obtain ⟨d, r, rfl⟩ : ∃ d r, text = d :: r := by
      cases text with
      | nil =>
        unfold scanCharacter at h
        rw [hmark] at h
        cases h
      | cons d r => exact ⟨d, r, rfl⟩
    obtain ⟨m', hm', hreads, -⟩ := Reads.of_character hin hrest
    cases hm'.symm.trans h
    exact ⟨_, _, hreads, d, rfl⟩
  split at h
  · next hc =>
    unfold acceptRead at h
    rw [hmark] at h
    split at h <;> cases h
    next w hw =>
    obtain ⟨r, hr, hnumber⟩ := readNumber_front hc hw
    obtain ⟨hreads, hm⟩ := Reads.of_plain (k := .number) hin (hrest.trans hr) (by decide)
    exact ⟨_, _, hreads, hm ▸ hnumber⟩
  split at h
  · next hc =>
    cases h
    obtain ⟨r, hr, hnext⟩ := readName_front (c :: text)
    unfold scanName
    rw [hmark]
    dsimp only
    split
    · next hunit =>
      obtain ⟨hreads, hm⟩ := Reads.of_plain (k := .unit) hin (hrest.trans hr) (by decide)
      exact ⟨_, _, hreads, hunit, hm ▸ hnext⟩
    · next hname =>
      obtain ⟨hreads, hm⟩ := Reads.of_plain (k := .identifier) hin (hrest.trans hr) (by decide)
      exact ⟨_, _, hreads, isName_of_readName hc hname, hm ▸ hnext⟩
  split at h
  · next hc =>
    cases h
    exact ⟨_, _, (Reads.of_opener hin hrest hc).1, .inl ⟨c, rfl, hc⟩⟩
  split at h
  · next hc =>
    cases h
    exact ⟨_, _, (Reads.of_closer hin hrest hc).1, .inl ⟨c, rfl, hc⟩⟩
  split at h
  · next hc =>
    subst hc
    obtain ⟨k, hk⟩ := barKind?_isSome hrest h
    obtain ⟨m', hm', hreads, hr⟩ := Reads.of_bar hin hrest hk
    cases hm'.symm.trans h
    exact ⟨k, _, hreads, hr ▸ lexes_bar hk⟩
  · unfold acceptRead at h
    rw [hmark] at h
    split at h <;> cases h
    next w hw =>
    obtain ⟨r, hr, hsymbol⟩ := readOperator_front hw
    obtain ⟨hreads, hm⟩ := Reads.of_plain (k := .operator) hin (hrest.trans hr) (by decide)
    exact ⟨_, _, hreads, hm ▸ hsymbol.imp_right .inl⟩

section Front

variable {s : Scanner} {c : Char} {w r : List Char}

/-- A line end at the front of the text is read to its end. -/
lemma scanToken_of_terminator (hrest : s.rest = w ++ r) (h : s.Lexes r w .newline) :
    s.setMark.scanToken = .ok s.setMark.scanTerminator ∧ readTerminator s.rest = w := by
  have hscan (hc : ∃ c cs, s.setMark.rest = c :: cs ∧ isTerminator c) :
      s.setMark.scanToken = .ok s.setMark.scanTerminator := by
    obtain ⟨c, cs, hfirst, hc⟩ := hc
    unfold scanToken
    rw [hfirst]
    exact if_pos hc
  have hmark : s.setMark.rest = w ++ r := hrest
  rw [hrest]
  rcases h with rfl | rfl | ⟨rfl, hr⟩
  · exact ⟨hscan ⟨_, _, hmark, by decide⟩, rfl⟩
  · exact ⟨hscan ⟨_, _, hmark, by decide⟩, rfl⟩
  · refine ⟨hscan ⟨_, _, hmark, by decide⟩, ?_⟩
    cases r with
    | nil => rfl
    | cons c r =>
      have hc : c ≠ '\n' := fun heq => hr (by rw [heq]; rfl)
      simp [readTerminator, hc]

/-- A tick at the front of the text starts a string. -/
lemma scanToken_of_tick (hrest : s.setMark.rest = tick :: r) :
    s.setMark.scanToken = s.setMark.acceptRead .string (readString s.setMark.rest) := by
  unfold scanToken
  rw [hrest]
  rfl

/-- A backslash at the front of the text starts a character literal. -/
lemma scanToken_of_backslash (hrest : s.setMark.rest = '\\' :: r) :
    s.setMark.scanToken = s.setMark.scanCharacter := by
  unfold scanToken
  rw [hrest]
  rfl

/-- A digit at the front of the text starts a number. -/
lemma scanToken_of_digit (hrest : s.setMark.rest = c :: r) (hc : c.isDigit) :
    s.setMark.scanToken = s.setMark.acceptRead .number (readNumber s.setMark.rest) := by
  obtain ⟨-, hterm, htick, hback⟩ := isDigit_cases hc
  unfold scanToken
  rw [hrest]
  simp [hterm, htick, hback, hc]

/-- A name, or a lone underscore, at the front of the text is read. -/
lemma scanToken_of_name (hrest : s.rest = w ++ r) (hhead : w.head?.any isNameStart)
    (hall : w.all isNameChar) (hr : r.head?.any isNameChar = false) : s.setMark.scanToken =
      .ok (s.setMark.accept (if w = ['_'] then .unit else .identifier) w) := by
  obtain ⟨c, cs, rfl⟩ := List.exists_cons_of_ne_nil (l := w) (by
    rintro rfl
    cases hhead)
  have hc : isNameStart c := by simpa using hhead
  obtain ⟨-, hterm, htick, hback, hdigit⟩ := isNameStart_cases hc
  have hmark : s.setMark.rest = c :: (cs ++ r) := hrest
  have hname : readName s.setMark.rest = c :: cs := by
    rw [hmark]
    exact takeWhile_append_of_all hall hr
  have hscan : s.setMark.scanToken = .ok s.setMark.scanName := by
    unfold scanToken
    rw [hmark]
    simp [hterm, htick, hback, hdigit, hc]
  rw [hscan, scanName, hname]

/-- An opening bracket at the front of the text is read. -/
lemma scanToken_of_opener (hrest : s.setMark.rest = c :: r) (hc : isOpener c) :
    s.setMark.scanToken = .ok s.setMark.scanOpener := by
  unfold scanToken
  rw [hrest]
  obtain rfl | rfl | rfl := isOpener_iff.1 hc <;> rfl

/-- A closing bracket at the front of the text is read. -/
lemma scanToken_of_closer (hrest : s.setMark.rest = c :: r) (hc : isCloser c) :
    s.setMark.scanToken = .ok s.setMark.scanCloser := by
  unfold scanToken
  rw [hrest]
  obtain rfl | rfl | rfl := isCloser_iff.1 hc <;> rfl

/-- A bar of its kind at the front of the text is read. -/
lemma scanToken_of_bar {k : Kind} (hin : s.atLineStart = false) (hrest : s.rest = '|' :: r)
    (hk : barKind? s.leftFree s.canClose (rightFree r) = some k) :
    ∃ m, s.setMark.scanToken = .ok m ∧ s.Reads k ['|'] m ∧ m.rest = r := by
  have hscan : s.setMark.scanToken = s.setMark.scanBar := by
    unfold scanToken
    rw [show s.setMark.rest = '|' :: r from hrest]
    rfl
  rw [hscan]
  exact Reads.of_bar hin hrest hk

/-- A character of an operator at the front of the text starts one. -/
lemma scanToken_of_single (hrest : s.setMark.rest = c :: r) (hc : isSingle c) :
    s.setMark.scanToken = s.setMark.acceptRead .operator (readOperator s.setMark.rest) := by
  obtain ⟨-, hterm, htick, hback, hdigit, hname, hopen, hclose, hne⟩ := isSingle_cases hc
  unfold scanToken
  rw [hrest]
  simp [hterm, htick, hback, hdigit, hname, hopen, hclose, hne]

end Front

/-- A token that stands at the front of the text is read. -/
theorem scanToken_of_lexes {s : Scanner} {k : Kind} {w r : List Char} (hin : s.atLineStart = false)
    (hrest : s.rest = w ++ r) (h : s.Lexes r w k) :
    ∃ m, s.setMark.scanToken = .ok m ∧ s.Reads k w m ∧ m.rest = r := by
  have hplain (hk : k ≠ .newline ∧ k ≠ .opening ∧ k ≠ .closing)
      (hscan : s.setMark.scanToken = .ok (s.setMark.accept k w)) :
      ∃ m, s.setMark.scanToken = .ok m ∧ s.Reads k w m ∧ m.rest = r :=
    ⟨_, hscan, Reads.of_plain hin hrest hk⟩
  have hmark : s.setMark.rest = w ++ r := hrest
  cases k with
  | newline =>
    obtain ⟨hscan, hread⟩ := scanToken_of_terminator hrest h
    exact ⟨_, hscan, Reads.of_terminator hrest hread⟩
  | string =>
    obtain ⟨body, rfl, hall⟩ := h
    refine hplain (by decide) ?_
    rw [scanToken_of_tick hmark, hmark, readString_append hall r]
    rfl
  | character =>
    obtain ⟨c, rfl⟩ := h
    rw [scanToken_of_backslash hmark]
    exact Reads.of_character hin hrest
  | number =>
    obtain ⟨hnumber, -, hread⟩ := h
    refine hplain (by decide) ?_
    obtain ⟨c, cs, rfl⟩ := List.exists_cons_of_ne_nil (l := w) (by
      rintro rfl
      simp [IsNumber] at hnumber)
    rw [scanToken_of_digit hmark (by simpa using hnumber.1), hmark, hread]
    rfl
  | identifier =>
    obtain ⟨⟨hhead, hall, hne⟩, hr⟩ := h
    refine hplain (by decide) ?_
    rw [scanToken_of_name hrest hhead hall hr, if_neg hne]
  | unit =>
    obtain ⟨rfl, hr⟩ := h
    refine hplain (by decide) ?_
    rw [scanToken_of_name hrest (by decide) (by decide) hr, if_pos rfl]
  | opening =>
    rcases h with ⟨c, rfl, hc⟩ | ⟨rfl, hk⟩
    · exact ⟨_, scanToken_of_opener hmark hc, Reads.of_opener hin hrest hc⟩
    · exact scanToken_of_bar hin hrest hk
  | closing =>
    rcases h with ⟨c, rfl, hc⟩ | ⟨rfl, hk⟩
    · exact ⟨_, scanToken_of_closer hmark hc, Reads.of_closer hin hrest hc⟩
    · exact scanToken_of_bar hin hrest hk
  | operator =>
    rcases h with ⟨c, d, rfl, hpair⟩ | ⟨c, rfl, hc, hr⟩ | ⟨rfl, hk⟩
    · refine hplain (by decide) ?_
      rw [scanToken_of_single hmark (isSingle_of_isPair hpair), hmark]
      simp [readOperator, hpair, acceptRead]
    · refine hplain (by decide) ?_
      rw [scanToken_of_single hmark hc, hmark]
      cases r with
      | nil => simp [readOperator, hc, acceptRead]
      | cons d r =>
        have hd : isPair c d = false := by simpa using hr
        simp [readOperator, hc, hd, acceptRead]
    · exact scanToken_of_bar hin hrest hk
  | indent => exact h.elim
  | separator => exact h.elim
  | ending => exact h.elim

end Scanner

end SignLang
