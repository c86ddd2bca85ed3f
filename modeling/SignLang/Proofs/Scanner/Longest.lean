import SignLang.Proofs.Scanner.Lossless

/-!
# Numbers are read as far as they go

A number of the grammar (`Lexeme.IsNumeral`) may go on in the text: with further digits, a fraction or an exponent.
The reader of numbers takes the longest front of the text that is a number, and fails where a character of names
follows it (`Lexeme.exists_longest`). The case to watch is an announced radix without digits: its longest number is
the zero before the letter.
-/

namespace SignLang

open Lexeme

namespace Lexeme

/-- The longest front of a text with a property. -/
structure IsLongest (P : List Char → Prop) (w text : List Char) : Prop where
  front : w <+: text
  holds : P w
  length_le : ∀ v, v <+: text → P v → v.length ≤ w.length

variable {whole fraction exponent : List Char}

/-! ## Parts of a decimal number -/

/-- A fraction at the front of a text is read, with the digits that follow. -/
lemma IsFraction.prefix_readFraction (h : IsFraction fraction) (rest : List Char) :
    fraction <+: readFraction (fraction ++ rest) := by
  obtain rfl | ⟨ds, ⟨hne, hall⟩, rfl⟩ := h
  · exact List.nil_prefix
  · obtain ⟨d, ds, rfl⟩ := List.exists_cons_of_ne_nil hne
    have hd : d.isDigit := List.all_eq_true.1 hall d List.mem_cons_self
    have htake : (d :: ds ++ rest).takeWhile Char.isDigit = d :: ds ++ rest.takeWhile Char.isDigit :=
      List.takeWhile_append_of_pos (List.all_eq_true.1 hall)
    rw [List.cons_append] at htake
    simp only [List.cons_append, readFraction, hd, if_true, htake]
    exact ⟨rest.takeWhile Char.isDigit, by simp⟩

/-- An exponent at the front of a text is read, with the digits that follow. -/
lemma IsExponent.prefix_readExponent (h : IsExponent exponent) (rest : List Char) :
    exponent <+: readExponent (exponent ++ rest) := by
  obtain rfl | ⟨ds, ⟨hne, hall⟩, hds⟩ := h
  · exact List.nil_prefix
  obtain ⟨d, ds, rfl⟩ := List.exists_cons_of_ne_nil hne
  have hd : d.isDigit := List.all_eq_true.1 hall d List.mem_cons_self
  have hminus : d ≠ '-' := by
    rintro rfl
    exact absurd hd (by decide)
  have htake : (d :: ds ++ rest).takeWhile Char.isDigit = d :: ds ++ rest.takeWhile Char.isDigit :=
    List.takeWhile_append_of_pos (List.all_eq_true.1 hall)
  rw [List.cons_append] at htake
  rcases hds with rfl | rfl
  · have hread : readExponent ('e' :: d :: (ds ++ rest)) = 'e' :: (d :: ds ++ rest.takeWhile Char.isDigit) := by
      simp [readExponent, hd, hminus, htake]
    rw [List.cons_append, List.cons_append, hread]
    exact ⟨rest.takeWhile Char.isDigit, rfl⟩
  · simp only [List.cons_append, readExponent, hd, if_true, htake]
    exact ⟨rest.takeWhile Char.isDigit, by simp⟩

/-- No digit starts what may follow the whole part of a number. -/
lemma head?_fraction (hfraction : IsFraction fraction) (hexponent : IsExponent exponent) :
    (fraction ++ exponent).head?.any Char.isDigit = false := by
  obtain rfl | ⟨ds, -, rfl⟩ := hfraction
  · obtain rfl | ⟨ds, -, rfl | rfl⟩ := hexponent <;> rfl
  · rfl

/-- Digits end at a fraction or an exponent. -/
lemma head?_parts (hfraction : IsFraction fraction) (hexponent : IsExponent exponent)
    (hne : fraction ++ exponent ≠ []) (rest : List Char) :
    (fraction ++ exponent ++ rest).head?.any Char.isDigit = false := by
  rw [List.head?_append_of_ne_nil _ hne]
  exact head?_fraction hfraction hexponent

/-- A fraction ends at an exponent. -/
lemma IsFraction.readFraction_eq (hfraction : IsFraction fraction) (hexponent : IsExponent exponent)
    (hne : exponent ≠ []) (rest : List Char) : readFraction (fraction ++ (exponent ++ rest)) = fraction := by
  obtain rfl | ⟨ds, hds, rfl⟩ := hfraction
  · obtain rfl | ⟨ds, -, rfl | rfl⟩ := hexponent
    · exact absurd rfl hne
    · rfl
    · rfl
  · exact readFraction_point hds (head?_parts (.inl rfl) hexponent hne rest)

/-- A decimal number is read up to the part in which it ends. -/
lemma readDecimal_eq {rest rest' : List Char} (hwhole : whole.all Char.isDigit)
    (hrest : rest.head?.any Char.isDigit = false) (h : rest = readFraction rest ++ rest') :
    readDecimal (whole ++ rest) = whole ++ readFraction rest ++ readExponent rest' := by
  have htake := takeWhile_append_of_all hwhole hrest
  have hdrop : rest.drop (readFraction rest).length = rest' := by
    generalize readFraction rest = fraction at h
    rw [h, List.drop_left]
  simp only [readDecimal, htake, List.drop_left, ← List.drop_drop, hdrop]

/-- A decimal number at the front of a text is read, with more of the text where that makes a longer one. -/
lemma prefix_readDecimal (hwhole : IsDigits whole) (hfraction : IsFraction fraction) (hexponent : IsExponent exponent)
    (rest : List Char) :
    whole ++ fraction ++ exponent <+: readDecimal (whole ++ fraction ++ exponent ++ rest) := by
  by_cases hexp : exponent = []
  · subst hexp
    rw [List.append_nil]
    by_cases hfrac : fraction = []
    · -- digits alone: those that follow are taken as well
      subst hfrac
      rw [List.append_nil, readDecimal, List.takeWhile_append_of_pos (List.all_eq_true.1 hwhole.2)]
      simp only [List.append_assoc]
      exact List.prefix_append _ _
    · have hhead := head?_parts hfraction (.inl rfl) (by simpa using hfrac) rest
      rw [List.append_nil] at hhead
      obtain ⟨more, hmore⟩ := readFraction_prefix (fraction ++ rest)
      rw [List.append_assoc whole, readDecimal_eq hwhole.2 hhead hmore.symm]
      exact ((List.prefix_append_right_inj _).2 (hfraction.prefix_readFraction rest)).trans (List.prefix_append _ _)
  · -- an exponent ends the digits before it, so that the parts before it are read as they are
    have hhead := head?_parts hfraction hexponent (by simp [hexp]) rest
    have hfrac := hfraction.readFraction_eq hexponent hexp rest
    rw [List.append_assoc fraction] at hhead
    rw [List.append_assoc (whole ++ fraction), List.append_assoc whole fraction (exponent ++ rest),
      readDecimal_eq hwhole.2 hhead (by rw [hfrac]), hfrac]
    exact (List.prefix_append_right_inj _).2 (hexponent.prefix_readExponent rest)

/-! ## The longest number -/

variable {c : Char} {text : List Char}

/-- Where a text starts with a digit, the decimal number that is read is one. -/
lemma isNumeral_readDecimal (hc : c.isDigit) : IsNumeral (readDecimal (c :: text)) :=
  .decimal (isDigits_takeWhile hc text) (readFraction_cases _) (readExponent_cases _)

/-- A letter that announces a radix is a character of names, and continues no decimal number. -/
lemma letter_cases {letter : Char} {radix : Radix} (h : Radix.ofLetter? letter = some radix) :
    letter = 'x' ∨ letter = 'o' ∨ letter = 'b' := by
  unfold Radix.ofLetter? at h
  split_ifs at h with hx ho hb
  · exact .inl hx
  · exact .inr (.inl ho)
  · exact .inr (.inr hb)

/-- Of a radix that is announced, a decimal number takes no more than the zero. -/
lemma readDecimal_of_radix {letter : Char} {radix : Radix} (h : Radix.ofLetter? letter = some radix) :
    readDecimal ('0' :: letter :: text) = ['0'] := by
  obtain rfl | rfl | rfl := letter_cases h <;> rfl

/-- The reader of numbers takes the longest number at the front of the text, and fails if a character of names
follows it. -/
theorem exists_longest (hc : c.isDigit) (text : List Char) :
    ∃ w, IsLongest IsNumeral w (c :: text) ∧
      if ((c :: text).drop w.length).head?.any isNameChar then ∃ misread, readNumber (c :: text) = .error misread
      else readNumber (c :: text) = .ok w := by
  have hend (w : List Char) : if ((c :: text).drop w.length).head?.any isNameChar then
      ∃ misread, endNumber w (c :: text) = .error misread else endNumber w (c :: text) = .ok w := by
    unfold endNumber
    split
    · exact ⟨_, rfl⟩
    · rfl
  cases hradix : radixAt? (c :: text) with
  | none =>
    have hread : readNumber (c :: text) = endNumber (readDecimal (c :: text)) (c :: text) := by
      rw [readNumber, hradix]
    have hfront := readDecimal_prefix (c :: text)
    refine ⟨readDecimal (c :: text), ⟨hfront, isNumeral_readDecimal hc, ?_⟩, hread ▸ hend _⟩
    rintro v ⟨rest, hv⟩ hnumeral
    cases hnumeral with
    | radix hletter =>
      rw [← hv] at hradix
      rw [List.cons_append, List.cons_append, radixAt?, hletter] at hradix
      cases hradix
    | decimal hwhole hfraction hexponent =>
      rw [← hv]
      exact (prefix_readDecimal hwhole hfraction hexponent rest).length_le
  | some radix =>
    unfold radixAt? at hradix
    split at hradix
    case h_2 => cases hradix
    next letter text' heq =>
    cases heq
    have hread : readNumber ('0' :: letter :: text') =
        if (text'.takeWhile radix.isDigit).isEmpty then .error ⟨.noDigits radix, ['0', letter]⟩
        else endNumber ('0' :: letter :: text'.takeWhile radix.isDigit) ('0' :: letter :: text') := by
      rw [readNumber, radixAt?, hradix]
      rfl
    -- a decimal number ends at the letter, and a number with a radix takes digits of that radix
    have hdecimal {v : List Char} (hv : v <+: '0' :: letter :: text') (hnumeral : IsNumeral v) :
        v.length ≤ 1 ∨ ∃ digits, v = '0' :: letter :: digits ∧ digits ≠ [] ∧
          digits <+: text'.takeWhile radix.isDigit := by
      obtain ⟨rest, hv⟩ := hv
      cases hnumeral with
      | @radix letter' radix' digits hletter hne hall =>
        obtain ⟨rfl, rfl⟩ : letter' = letter ∧ digits ++ rest = text' := by simpa using hv
        obtain rfl : radix = radix' := Option.some.inj (hradix.symm.trans hletter)
        refine .inr ⟨digits, rfl, hne, ?_⟩
        rw [List.takeWhile_append_of_pos (List.all_eq_true.1 hall)]
        exact List.prefix_append _ _
      | decimal hwhole hfraction hexponent =>
        have hpre := prefix_readDecimal hwhole hfraction hexponent rest
        rw [hv, readDecimal_of_radix hradix] at hpre
        exact .inl hpre.length_le
    by_cases hempty : text'.takeWhile radix.isDigit = []
    · have hzero : IsNumeral (['0'] ++ [] ++ []) := .decimal ⟨by simp, rfl⟩ (.inl rfl) (.inl rfl)
      refine ⟨['0'], ⟨⟨_, rfl⟩, hzero, ?_⟩, ?_⟩
      · intro v hv hnumeral
        obtain hle | ⟨digits, -, hne, hpre⟩ := hdecimal hv hnumeral
        · exact hle
        · rw [hempty, List.prefix_nil] at hpre
          exact absurd hpre hne
      · have hnext : isNameChar letter := by obtain rfl | rfl | rfl := letter_cases hradix <;> decide
        rw [if_pos (by simpa using hnext), hread, hempty]
        exact ⟨_, rfl⟩
    · have hfront : '0' :: letter :: text'.takeWhile radix.isDigit <+: '0' :: letter :: text' :=
        (List.prefix_cons_inj _).2 ((List.prefix_cons_inj _).2 (List.takeWhile_prefix _))
      refine ⟨_, ⟨hfront, .radix hradix hempty List.all_takeWhile, ?_⟩, ?_⟩
      · intro v hv hnumeral
        obtain hle | ⟨digits, rfl, -, hpre⟩ := hdecimal hv hnumeral
        · simp only [List.length_cons]
          omega
        · simpa using hpre.length_le
      · have hnumber : readNumber ('0' :: letter :: text') =
            endNumber ('0' :: letter :: text'.takeWhile radix.isDigit) ('0' :: letter :: text') := by
          rw [hread]
          exact if_neg (mt List.isEmpty_iff.1 hempty)
        rw [hnumber]
        exact hend _

end Lexeme

/-! ## Steps of the scanner -/

namespace Scanner

variable {s : Scanner} {c : Char} {text : List Char}

/-- Inside of a line, a digit starts a number. -/
lemma step_of_digit (hin : s.atLineStart = false) (hrest : s.rest = c :: text) (hc : c.isDigit) :
    s.step = s.setMark.acceptRead .number (readNumber s.rest) := by
  obtain ⟨hspace, hterm, htick, hback⟩ := isDigit_cases hc
  rw [step, hin, if_neg Bool.false_ne_true, hrest]
  rw [if_neg (by simp [hspace]), scanToken, show s.setMark.rest = c :: text from hrest]
  simp [hterm, htick, hback, hc]

/-- Where a token starts with a digit, the scanner reads the longest number there as a token, and gives up if a
character of names follows it. -/
theorem exists_longest_step (hin : s.atLineStart = false) (hrest : s.rest = c :: text) (hc : c.isDigit) :
    ∃ w, IsLongest IsNumeral w s.rest ∧
      if (s.rest.drop w.length).head?.any isNameChar then ∃ failure, s.step = .error failure
      else ∃ m, s.step = .ok m ∧ s.Reads .number w m := by
  obtain ⟨w, hlongest, hread⟩ := exists_longest hc text
  rw [← hrest] at hlongest hread
  refine ⟨w, hlongest, ?_⟩
  rw [step_of_digit hin hrest hc]
  by_cases hnext : (s.rest.drop w.length).head?.any isNameChar
  · rw [if_pos hnext] at hread ⊢
    obtain ⟨misread, hread⟩ := hread
    exact ⟨s.setMark.giveUp misread, by rw [hread]; rfl⟩
  · rw [if_neg hnext] at hread ⊢
    obtain ⟨r, hr⟩ := hlongest.front
    exact ⟨_, by rw [hread]; rfl, (Reads.of_plain hin hr.symm (by decide)).1⟩

end Scanner

end SignLang
