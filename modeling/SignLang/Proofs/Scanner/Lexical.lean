import Mathlib
import SignLang.Scanner.Run

/-!
# The lexemes of scanned tokens

A step of the scanner emits at most one token, and its lexeme is of the form of its kind
(`Token.Lexical`). So every token of a scanned text is of that form, and the end of the input stands
last and nowhere else (`scan_eq_concat`).
-/

namespace SignLang

open Lexeme

namespace Lexeme

/-- A name: a letter or underscore and further such characters or digits, but no lone underscore. -/
def IsName (cs : List Char) : Prop :=
  cs.head?.any isNameStart ∧ cs.all isNameChar ∧ cs ≠ ['_']

/-- A number: the reader of numbers takes all of it. -/
def IsNumber (cs : List Char) : Prop :=
  cs.head?.any Char.isDigit ∧ readNumber cs = .ok cs

/-- A string: characters of one line between two ticks. -/
def IsString (cs : List Char) : Prop :=
  ∃ body : List Char, cs = tick :: body ++ [tick] ∧ body.all isStringChar

/-- A character literal: a backslash and a character. -/
def IsCharacter (cs : List Char) : Prop :=
  ∃ c, cs = ['\\', c]

/-- An operator: one or two characters of the table, or a bar. -/
def IsSymbol (cs : List Char) : Prop :=
  cs = ['|'] ∨ (∃ c, cs = [c] ∧ isSingle c) ∨ ∃ c d, cs = [c, d] ∧ isPair c d

/-- A run of characters of a class, and what follows it, read as a whole. -/
lemma takeWhile_append_of_all {p : Char → Bool} {a b : List Char} (hall : a.all p)
    (h : b.head?.any p = false) : (a ++ b).takeWhile p = a := by
  induction a with
  | nil =>
    cases b with
    | nil => rfl
    | cons c b => simpa using h
  | cons c a ih =>
    simp only [List.all_cons, Bool.and_eq_true] at hall
    simp [hall.1, ih hall.2]

/-- A fraction is a front of the text. -/
lemma readFraction_prefix (text : List Char) : readFraction text <+: text := by
  unfold readFraction
  split
  · split
    · exact (List.prefix_cons_inj _).2 (List.takeWhile_prefix _)
    · exact List.nil_prefix
  · exact List.nil_prefix

/-- An exponent is a front of the text. -/
lemma readExponent_prefix (text : List Char) : readExponent text <+: text := by
  unfold readExponent
  split
  · split
    · exact (List.prefix_cons_inj _).2 ((List.prefix_cons_inj _).2 (List.takeWhile_prefix _))
    · exact List.nil_prefix
  · split
    · exact (List.prefix_cons_inj _).2 (List.takeWhile_prefix _)
    · exact List.nil_prefix
  · exact List.nil_prefix

/-- Digits, at least one. -/
def IsDigits (cs : List Char) : Prop :=
  cs ≠ [] ∧ cs.all Char.isDigit

/-- The digits that a digit starts are at least one. -/
lemma isDigits_takeWhile {d : Char} (h : d.isDigit) (rest : List Char) :
    IsDigits ((d :: rest).takeWhile Char.isDigit) :=
  ⟨by simp [h], List.all_takeWhile⟩

/-- A fraction is a point and digits, or missing. -/
lemma readFraction_cases (text : List Char) :
    readFraction text = [] ∨ ∃ ds, IsDigits ds ∧ readFraction text = '.' :: ds := by
  unfold readFraction
  split
  · split
    · next hd => exact .inr ⟨_, isDigits_takeWhile hd _, rfl⟩
    · exact .inl rfl
  · exact .inl rfl

/-- An exponent is its letter, perhaps a minus, and digits, or missing. -/
lemma readExponent_cases (text : List Char) :
    readExponent text = [] ∨
      ∃ ds, IsDigits ds ∧ (readExponent text = 'e' :: ds ∨ readExponent text = 'e' :: '-' :: ds) := by
  unfold readExponent
  split
  · split
    · next hd => exact .inr ⟨_, isDigits_takeWhile hd _, .inr rfl⟩
    · exact .inl rfl
  · split
    · next hd => exact .inr ⟨_, isDigits_takeWhile hd _, .inl rfl⟩
    · exact .inl rfl
  · exact .inl rfl

/-- A point and digits are a fraction, if no digit follows. -/
lemma readFraction_point {ds rest : List Char} (hds : IsDigits ds)
    (h : rest.head?.any Char.isDigit = false) :
    readFraction ('.' :: ds ++ rest) = '.' :: ds := by
  obtain ⟨d, ds, rfl⟩ := List.exists_cons_of_ne_nil hds.1
  have hd : d.isDigit := by
    have := hds.2
    simp only [List.all_cons, Bool.and_eq_true] at this
    exact this.1
  have := takeWhile_append_of_all hds.2 h
  simp only [List.cons_append] at this ⊢
  simp only [readFraction, hd, if_true, this]

/-- A text that runs neither into a name nor into a number before it. -/
def Apart (rest : List Char) : Prop :=
  rest.head?.any isNameChar = false ∧ rest.head? ≠ some '.'

/-- A digit is a character of names. -/
lemma isNameChar_of_isDigit {c : Char} (h : c.isDigit) : isNameChar c := by
  simp [isNameChar, Char.isAlphanum, h]

/-- No digit follows where no character of names does. -/
lemma Apart.isDigit {rest : List Char} (h : Apart rest) : rest.head?.any Char.isDigit = false := by
  cases rest with
  | nil => rfl
  | cons c rest =>
    by_contra hc
    have := isNameChar_of_isDigit (c := c) (by simpa using hc)
    simp [Apart, this] at h

/-- There is no exponent where no character of names follows. -/
lemma Apart.readExponent {rest : List Char} (h : Apart rest) : readExponent rest = [] := by
  unfold Lexeme.readExponent
  split
  · exact absurd (show isNameChar 'e' = false from h.1) (by decide)
  · exact absurd (show isNameChar 'e' = false from h.1) (by decide)
  · rfl

/-- There is no fraction where no point follows. -/
lemma Apart.readFraction {rest : List Char} (h : Apart rest) : readFraction rest = [] := by
  unfold Lexeme.readFraction
  split
  · exact absurd rfl h.2
  · rfl

/-- An exponent is read as one, whatever is apart from it. -/
lemma readExponent_append (text : List Char) {rest : List Char} (h : Apart rest) :
    readExponent (readExponent text ++ rest) = readExponent text := by
  rcases readExponent_cases text with he | ⟨ds, hds, he | he⟩
  · rw [he]
    exact h.readExponent
  all_goals
    rw [he]
    obtain ⟨d, ds, rfl⟩ := List.exists_cons_of_ne_nil hds.1
    have hall := hds.2
    have := takeWhile_append_of_all hds.2 h.isDigit
    simp only [List.all_cons, Bool.and_eq_true] at hall
    rw [List.cons_append] at this
  · have hne : d ≠ '-' := by
      rintro rfl
      exact absurd hall.1 (by decide)
    simp [readExponent, hall.1, this, hne]
  · simp [readExponent, hall.1, this]

/-- A decimal number is read as a whole, whatever is apart from it. -/
lemma readDecimal_append (text : List Char) {r : List Char} (hrest : Apart r) :
    readDecimal (readDecimal text ++ r) = readDecimal text := by
  simp only [readDecimal]
  generalize hw : text.takeWhile Char.isDigit = whole
  generalize text.drop whole.length = more
  generalize text.drop (whole.length + (readFraction more).length) = still
  have hall : whole.all Char.isDigit := hw ▸ List.all_takeWhile
  have hexp : (readExponent still ++ r).head?.any Char.isDigit = false := by
    rcases readExponent_cases still with h | ⟨ds, -, h | h⟩
    · simpa [h] using hrest.isDigit
    · simp [h]
    · simp [h]
  have hfrac : readFraction (readFraction more ++ (readExponent still ++ r)) =
      readFraction more := by
    rcases readFraction_cases more with h | ⟨ds, hds, h⟩
    · rw [h]
      rcases readExponent_cases still with h' | ⟨ds, -, h' | h'⟩
      · simpa [h'] using hrest.readFraction
      · simp [h', readFraction]
      · simp [h', readFraction]
    · rw [h]
      exact readFraction_point hds hexp
  have hhead : (readFraction more ++ (readExponent still ++ r)).head?.any Char.isDigit = false := by
    rcases readFraction_cases more with h | ⟨ds, -, h⟩
    · simpa [h] using hexp
    · simp [h]
  have hwhole := takeWhile_append_of_all hall hhead
  have hdrop : List.drop whole.length (whole ++ (readFraction more ++ (readExponent still ++ r))) =
      readFraction more ++ (readExponent still ++ r) := List.drop_left
  have hdrop' : List.drop (whole.length + (readFraction more).length)
      (whole ++ (readFraction more ++ (readExponent still ++ r))) = readExponent still ++ r := by
    rw [← List.drop_drop, hdrop, List.drop_left]
  simp only [List.append_assoc, hwhole, hdrop, hfrac, hdrop', readExponent_append still hrest]

/-- A decimal number alone is read as a whole. -/
lemma readDecimal_self (text : List Char) : readDecimal (readDecimal text) = readDecimal text := by
  simpa using readDecimal_append text (r := []) ⟨rfl, by simp⟩

/-- A decimal number is a front of the text. -/
lemma readDecimal_prefix (text : List Char) : readDecimal text <+: text := by
  obtain ⟨rest, hrest⟩ := List.takeWhile_prefix (l := text) Char.isDigit
  obtain ⟨rest', hrest'⟩ := readFraction_prefix rest
  obtain ⟨rest'', hrest''⟩ := readExponent_prefix rest'
  simp only [readDecimal]
  generalize text.takeWhile Char.isDigit = whole at hrest
  subst hrest
  rw [List.drop_left]
  generalize hf : readFraction rest = fraction at hrest' ⊢
  subst hrest'
  rw [← List.append_assoc, ← List.length_append, List.drop_left]
  exact ⟨rest'', by rw [List.append_assoc, hrest'']⟩

/-- A radix that is announced at the front of a text is announced in every longer front. -/
lemma radixAt?_of_front {cs text : List Char} (h : cs <+: text) (hlen : 2 ≤ cs.length) :
    radixAt? cs = radixAt? text := by
  obtain ⟨rest, rfl⟩ := h
  match cs, hlen with
  | c :: d :: cs, _ =>
    unfold radixAt?
    split
    · next heq => cases heq; rfl
    · next hne =>
      split
      · next heq => cases heq; exact absurd rfl (hne _ _)
      · rfl

/-- A text of one character announces no radix. -/
lemma radixAt?_of_length {cs : List Char} (h : cs.length < 2) : radixAt? cs = none := by
  unfold radixAt?
  split
  · simp at h
  · rfl

/-- A number that ends well is the one that was read. -/
lemma eq_of_endNumber {lexeme text found : List Char} (h : endNumber lexeme text = .ok found) : lexeme = found := by
  unfold endNumber at h
  split at h <;> cases h
  rfl

/-- A number that is read from a text is read as a whole from its lexeme alone. -/
lemma isNumber_of_readNumber {c : Char} {text found : List Char} (hc : c.isDigit)
    (h : readNumber (c :: text) = .ok found) : IsNumber found ∧ found <+: c :: text := by
  have hself : endNumber found found = .ok found := by simp [endNumber]
  unfold readNumber at h
  split at h
  · next hradix =>
    obtain rfl := eq_of_endNumber h
    have hpre := readDecimal_prefix (c :: text)
    have hhead : (readDecimal (c :: text)).head?.any Char.isDigit := by
      simp [readDecimal, hc]
    refine ⟨⟨hhead, ?_⟩, hpre⟩
    have : radixAt? (readDecimal (c :: text)) = none := by
      by_cases hlen : 2 ≤ (readDecimal (c :: text)).length
      · rw [radixAt?_of_front hpre hlen, hradix]
      · exact radixAt?_of_length (by omega)
    rw [readNumber, this]
    dsimp only
    rw [readDecimal_self, hself]
  · next radix hradix =>
    dsimp only at h
    split at h
    · cases h
    · next hdigits =>
      obtain rfl := eq_of_endNumber h
      obtain ⟨letter, text, rfl⟩ : ∃ letter text', text = letter :: text' := by
        cases text with
        | nil => simp [radixAt?] at hradix
        | cons letter text => exact ⟨letter, text, rfl⟩
      simp only [List.drop_succ_cons, List.drop_zero, List.take_succ_cons, List.take_zero] at *
      have hpre : [c, letter] ++ text.takeWhile radix.isDigit <+: c :: letter :: text :=
        (List.prefix_cons_inj _).2 ((List.prefix_cons_inj _).2 (List.takeWhile_prefix _))
      refine ⟨⟨by simp [hc], ?_⟩, hpre⟩
      have hall := takeWhile_append_of_all (p := radix.isDigit) (a := text.takeWhile radix.isDigit)
        (b := []) List.all_takeWhile rfl
      rw [List.append_nil] at hall
      rw [readNumber, radixAt?_of_front hpre (by simp), hradix]
      simp only [List.cons_append, List.nil_append, List.drop_succ_cons, List.drop_zero,
        List.take_succ_cons, List.take_zero, hall]
      rw [if_neg hdigits]
      exact hself

/-- A digit of a radix is a character of names. -/
lemma isNameChar_of_radix {r : Radix} {c : Char} (h : r.isDigit c) : isNameChar c := by
  simp only [isNameChar, Char.isAlphanum, Char.isAlpha, Char.isUpper, Char.isLower, Char.isDigit,
    Bool.or_eq_true, Bool.and_eq_true, decide_eq_true_eq]
  cases r with
  | hexadecimal =>
    simp only [Radix.isDigit, Char.isDigit, Bool.or_eq_true, Bool.and_eq_true, decide_eq_true_eq] at h
    rcases h with (h | ⟨h, h'⟩) | ⟨h, h'⟩
    · exact .inl (.inr h)
    · exact .inl (.inl (.inr ⟨h, h'.trans (by decide)⟩))
    · exact .inl (.inl (.inl ⟨h, h'.trans (by decide)⟩))
  | octal =>
    simp only [Radix.isDigit, Bool.and_eq_true, decide_eq_true_eq] at h
    exact .inl (.inr ⟨h.1, h.2.trans (by decide)⟩)
  | binary =>
    simp only [Radix.isDigit, Bool.or_eq_true, decide_eq_true_eq] at h
    rcases h with rfl | rfl <;> decide

/-- A number is read as a whole, whatever is apart from it. -/
lemma IsNumber.readNumber_append {cs rest : List Char} (h : IsNumber cs) (hrest : Apart rest) :
    readNumber (cs ++ rest) = .ok cs := by
  obtain ⟨hhead, hread⟩ := h
  have hend' : endNumber cs (cs ++ rest) = .ok cs := by
    simp [endNumber, hrest.1]
  unfold readNumber at hread
  split at hread
  · next hradix =>
    have hradix' : radixAt? (cs ++ rest) = none := by
      match cs, rest with
      | [], _ => simp at hhead
      | [c], [] => simpa using hradix
      | [c], d :: rest =>
        unfold radixAt?
        split
        · next heq =>
          cases heq
          have hd : isNameChar d = false := by simpa using hrest.1
          unfold Radix.ofLetter?
          split_ifs with hx ho hb
          · exact absurd (hx ▸ hd) (by decide)
          · exact absurd (ho ▸ hd) (by decide)
          · exact absurd (hb ▸ hd) (by decide)
          · rfl
        · rfl
      | c :: d :: cs, rest => rw [← radixAt?_of_front (List.prefix_append _ _) (by simp), hradix]
    rw [readNumber, hradix']
    dsimp only
    have := readDecimal_append cs hrest
    rw [eq_of_endNumber hread] at this
    rw [this, hend']
  · next radix hradix =>
    dsimp only at hread
    split at hread
    · cases hread
    · next hdigits =>
      obtain ⟨c, letter, ds, rfl⟩ : ∃ c letter ds, cs = c :: letter :: ds := by
        match cs with
        | [] => simp at hhead
        | [c] => simp [radixAt?] at hradix
        | c :: letter :: ds => exact ⟨c, letter, ds, rfl⟩
      simp only [List.drop_succ_cons, List.drop_zero, List.take_succ_cons, List.take_zero] at hdigits hread
      have hds : ds.takeWhile radix.isDigit = ds := by simpa using eq_of_endNumber hread
      rw [hds] at hdigits
      have happ : (ds ++ rest).takeWhile radix.isDigit = ds := by
        refine takeWhile_append_of_all (hds ▸ List.all_takeWhile) ?_
        cases rest with
        | nil => rfl
        | cons d rest =>
          by_contra hd
          have := isNameChar_of_radix (r := radix) (c := d) (by simpa using hd)
          simp [Apart, this] at hrest
      rw [readNumber, ← radixAt?_of_front (List.prefix_append _ _) (by simp), hradix]
      simp only [List.cons_append, List.drop_succ_cons, List.drop_zero, List.take_succ_cons,
        List.take_zero, happ, List.nil_append]
      rw [if_neg hdigits]
      exact hend'

/-- Numbers are made of characters of names, points and minus signs. -/
lemma IsNumber.forall_mem {cs : List Char} (h : IsNumber cs) :
    ∀ c ∈ cs, isNameChar c ∨ c = '.' ∨ c = '-' := by
  obtain ⟨hhead, hread⟩ := h
  have hdigits {ds : List Char} (h : ds.all Char.isDigit) : ∀ c ∈ ds, isNameChar c :=
    fun c hc => isNameChar_of_isDigit (List.all_eq_true.1 h c hc)
  unfold readNumber at hread
  split at hread
  · rw [← eq_of_endNumber hread]
    simp only [readDecimal, List.mem_append]
    rintro c ((hc | hc) | hc)
    · exact .inl (hdigits List.all_takeWhile c hc)
    · rcases readFraction_cases (cs.drop (cs.takeWhile Char.isDigit).length) with hf | ⟨ds, hds, hf⟩
      · rw [hf] at hc
        cases hc
      · rw [hf, List.mem_cons] at hc
        exact hc.elim (.inr ∘ .inl) fun hc => .inl (hdigits hds.2 c hc)
    · rcases readExponent_cases (cs.drop ((cs.takeWhile Char.isDigit).length +
        (readFraction (cs.drop (cs.takeWhile Char.isDigit).length)).length)) with
        he | ⟨ds, hds, he | he⟩
      · rw [he] at hc
        cases hc
      · rw [he, List.mem_cons] at hc
        rcases hc with rfl | hc
        · exact .inl (by decide)
        · exact .inl (hdigits hds.2 c hc)
      · rw [he, List.mem_cons, List.mem_cons] at hc
        rcases hc with rfl | rfl | hc
        · exact .inl (by decide)
        · exact .inr (.inr rfl)
        · exact .inl (hdigits hds.2 c hc)
  · next radix hradix =>
    dsimp only at hread
    split at hread
    · cases hread
    rw [← eq_of_endNumber hread]
    intro c hc
    rw [List.mem_append] at hc
    rcases hc with hc | hc
    · unfold radixAt? at hradix
      split at hradix
      · next letter rest =>
        simp only [List.take_succ_cons, List.take_zero, List.mem_cons, List.not_mem_nil, or_false] at hc
        rcases hc with rfl | rfl
        · exact .inl (by decide)
        · unfold Radix.ofLetter? at hradix
          split_ifs at hradix with hx ho hb
          · exact .inl (by rw [hx]; decide)
          · exact .inl (by rw [ho]; decide)
          · exact .inl (by rw [hb]; decide)
      · cases hradix
    · exact .inl (isNameChar_of_radix (List.mem_takeWhile_imp hc))

/-- A name that is read is a name or a lone underscore. -/
lemma isName_of_readName {c : Char} {text : List Char} (hc : isNameStart c)
    (h : readName (c :: text) ≠ ['_']) : IsName (readName (c :: text)) := by
  have hne : readName (c :: text) ≠ [] := readName_ne_nil hc
  refine ⟨?_, List.all_takeWhile, h⟩
  unfold readName at hne ⊢
  rw [List.takeWhile_cons] at hne ⊢
  split
  · simpa using hc
  · next hno => simp [hno] at hne

/-- A string that is read is a string. -/
lemma isString_of_readString {text found : List Char} (h : readString text = .ok found) :
    IsString found := by
  unfold readString at h
  dsimp only at h
  split at h <;> cases h
  exact ⟨_, rfl, List.all_takeWhile⟩

/-- A character literal that is read is one. -/
lemma isCharacter_of_readCharacter {text found : List Char} (h : readCharacter text = .ok found) :
    IsCharacter found := by
  unfold readCharacter at h
  split at h <;> cases h
  exact ⟨_, rfl⟩

/-- An operator that is read is one. -/
lemma isSymbol_of_readOperator {text found : List Char} (h : readOperator text = .ok found) :
    IsSymbol found := by
  unfold readOperator at h
  split at h
  · split at h
    · next hpair => cases h; exact .inr (.inr ⟨_, _, rfl, hpair⟩)
    · split at h <;> cases h
      next hsingle => exact .inr (.inl ⟨_, rfl, hsingle⟩)
  · split at h <;> cases h
    next hsingle => exact .inr (.inl ⟨_, rfl, hsingle⟩)
  · cases h

/-- A terminator that is read is one of three. -/
lemma readTerminator_cases {c : Char} {text : List Char} (hc : isTerminator c) :
    readTerminator (c :: text) = ['\n'] ∨ readTerminator (c :: text) = ['\r'] ∨
      readTerminator (c :: text) = ['\r', '\n'] := by
  rw [isTerminator_iff] at hc
  unfold readTerminator
  split
  · exact .inr (.inr rfl)
  · next heq =>
    cases heq
    rcases hc with rfl | rfl
    · exact .inl rfl
    · exact .inr (.inl rfl)
  · next heq => cases heq

end Lexeme

/-- A lexeme has the form of its kind. No lexeme is a separator or the end of the input. -/
def Kind.Admits (cs : List Char) : Kind → Prop
  | .identifier => IsName cs
  | .number => IsNumber cs
  | .string => IsString cs
  | .character => IsCharacter cs
  | .unit => cs = ['_']
  | .operator => IsSymbol cs
  | .opening => ∃ c, cs = [c] ∧ (isOpener c ∨ c = '|')
  | .closing => ∃ c, cs = [c] ∧ (isCloser c ∨ c = '|')
  | .indent => cs ≠ [] ∧ cs.all (· = '\t')
  | .newline => cs = ['\n'] ∨ cs = ['\r'] ∨ cs = ['\r', '\n']
  | .separator | .ending => False

/-- A token that a scanner can emit inside of a text. -/
def Token.Lexical (t : Token) : Prop :=
  t.synthetic = false ∧ t.kind.Admits t.lexeme.toList

/-- No token inside of a text is the end of the input. -/
lemma Token.Lexical.kind_ne_ending {t : Token} (h : t.Lexical) : t.kind ≠ .ending := by
  intro hk
  have := h.2
  rw [hk] at this
  exact this

namespace Scanner

/-- A scanner's tokens grow by at most one, which is a lexeme of its kind. -/
def Emits (s s' : Scanner) : Prop :=
  s'.emitted = s.emitted ∨ ∃ t, s'.emitted = t :: s.emitted ∧ t.Lexical

/-- Accepting a lexeme of its kind emits a token. -/
lemma emits_accept {s s' : Scanner} {k : Kind} {w : List Char} (h : k.Admits w)
    (hs : s'.emitted = (s.accept k w).emitted) : s.Emits s' :=
  .inr ⟨_, hs, rfl, by simpa using h⟩

/-- Accepting what a reader finds emits a token. -/
lemma emits_acceptRead {s s' : Scanner} {k : Kind} {read : Except Misread (List Char)}
    (hread : ∀ lexeme, read = .ok lexeme → k.Admits lexeme)
    (h : s.acceptRead k read = .ok s') : s.Emits s' := by
  unfold acceptRead at h
  split at h <;> cases h
  exact emits_accept (hread _ rfl) rfl

/-- The start of a line emits its tabs or nothing. -/
lemma emits_indentation (s : Scanner) : s.Emits s.indentation := by
  unfold indentation
  dsimp only
  split
  · exact .inl rfl
  · split
    · exact .inl rfl
    split
    · exact .inl rfl
    split
    · exact .inl rfl
    · next htabs =>
      refine .inr ⟨_, rfl, rfl, ?_⟩
      simp only [Kind.Admits, String.toList_ofList]
      exact ⟨by simpa using htabs, List.all_takeWhile⟩

/-- Reading a token emits it. -/
lemma emits_scanToken {s s' : Scanner} (h : s.scanToken = .ok s') : s.Emits s' := by
  unfold scanToken at h
  split at h
  · cases h
  · next c text hrest =>
    split at h
    · next hc =>
      cases h
      exact emits_accept (k := .newline) (w := readTerminator s.rest)
        (hrest ▸ readTerminator_cases hc) rfl
    split at h
    · exact emits_acceptRead (fun _ => isString_of_readString) h
    split at h
    · unfold scanCharacter at h
      split at h
      · cases h
      · next lexeme hread =>
        cases h
        refine emits_accept (k := .character) (isCharacter_of_readCharacter hread) ?_
        split <;> rfl
    split at h
    · next hc =>
      exact emits_acceptRead (k := .number)
        (fun _ hl => (isNumber_of_readNumber hc (hrest ▸ hl)).1) h
    split at h
    · next hc =>
      cases h
      unfold scanName
      dsimp only
      split
      · next hunit => exact emits_accept (k := .unit) hunit rfl
      · next hunit =>
        refine emits_accept (k := .identifier) ?_ rfl
        rw [hrest] at hunit ⊢
        exact isName_of_readName hc hunit
    split at h
    · next hc =>
      cases h
      exact emits_accept (k := .opening) (w := s.rest.take 1) ⟨c, by simp [hrest], .inl hc⟩ rfl
    split at h
    · next hc =>
      cases h
      exact emits_accept (k := .closing) (w := s.rest.take 1) ⟨c, by simp [hrest], .inl hc⟩ rfl
    split at h
    · unfold scanBar at h
      split at h <;> cases h
      · exact emits_accept (k := .operator) (.inl rfl) rfl
      · exact emits_accept (k := .closing) ⟨'|', rfl, .inr rfl⟩ rfl
      · exact emits_accept (k := .opening) ⟨'|', rfl, .inr rfl⟩ rfl
    · exact emits_acceptRead (fun _ => isSymbol_of_readOperator) h

/-- A step emits at most one token. -/
lemma emits_step {s s' : Scanner} (h : s.step = .ok s') : s.Emits s' := by
  unfold step at h
  split at h
  · cases h
    exact emits_indentation s
  split at h
  · cases h
    exact .inl rfl
  · exact (emits_scanToken h : s.setMark.Emits s')

/-- All tokens that a run emits are lexical. -/
lemma lexical_run {s s' : Scanner} (h : s.run = .ok s') (hs : ∀ t ∈ s.emitted, t.Lexical) :
    ∀ t ∈ s'.emitted, t.Lexical := by
  induction hn : s.effort using Nat.strongRecOn generalizing s with
  | ind n ih =>
    rw [run] at h
    split at h
    · cases h
      exact hs
    · split at h
      · cases h
      · next next hstep =>
        refine ih next.effort (hn ▸ effort_step_lt hstep) h ?_ rfl
        rcases emits_step hstep with he | ⟨t, he, ht⟩
        · exact he ▸ hs
        · rw [he]
          exact List.forall_mem_cons.2 ⟨ht, hs⟩

end Scanner

/-- The tokens of a text are lexical, up to the end of the input, which stands last. -/
lemma scan_eq_concat {text : String} {tokens : List Token} (h : scan text = .ok tokens) :
    ∃ body ending, tokens = body ++ [ending] ∧ (∀ t ∈ body, t.Lexical) ∧
      ending.kind = .ending ∧ ending.lexeme = "" ∧ ending.synthetic = false := by
  unfold scan Scanner.tokenize at h
  cases hrun : (Scanner.ofText text.toList).run with
  | error failure =>
    rw [hrun] at h
    cases h
  | ok s =>
    rw [hrun] at h
    cases h
    refine ⟨s.emitted.reverse, _, List.reverse_cons, ?_, rfl, rfl, rfl⟩
    intro t ht
    exact Scanner.lexical_run hrun (by simp [Scanner.ofText]) t (List.mem_reverse.1 ht)

end SignLang
