import SignLang.Numeral
import SignLang.Proofs.Scanner.Longest

/-!
# What numbers stand for

The reader of values looks at a literal anew: it takes off blanks and underscores, looks for an announced radix, and
takes a point or the letter of the exponent, which is also a digit of a radix, for the mark of a double. On the
numbers of the grammar it comes to what they say (`Numeral.Stands`): the digits of a radix and those of a whole
number are read in positional notation, and everything else as the double that is nearest to its digits and exponent.

Main statement:

* `stands_of_step`: what the scanner reads where a token starts with a digit, and what that stands for.
-/

namespace SignLang

open Lexeme

namespace Numeral

/-! ## Positional notation -/

/-- The digits of all radices, by their value. -/
def digits : List Char :=
  ['0', '1', '2', '3', '4', '5', '6', '7', '8', '9', 'a', 'b', 'c', 'd', 'e', 'f']

/-- The number that digits write in a base, the most significant one first. -/
def numberOf (base : Nat) (ds : List Char) : Nat :=
  Nat.ofDigits base (ds.reverse.map fun c => digits.idxOf c.toLower)

/-- The power of ten that an exponent writes. -/
def exponentOf : List Char → Int
  | [] => 0
  | _ :: '-' :: ds => -(numberOf 10 ds)
  | _ :: ds => numberOf 10 ds

/-- What a number of the grammar stands for. -/
inductive Stands : List Char → Except Fault Value → Prop where
  | radix {letter radix ds} :
    Radix.ofLetter? letter = some radix →
    ds ≠ [] →
    ds.all radix.isDigit →
    Stands ('0' :: letter :: ds) (.ok (.int (numberOf radix.base ds)))
  | whole {ds} :
    IsDigits ds →
    ds.length ≤ 4300 →
    Stands ds (.ok (.int (numberOf 10 ds)))
  | tooLong {ds} :
    IsDigits ds →
    4300 < ds.length →
    Stands ds (.error (.tooLong ds.length))
  | double {whole fraction exponent} :
    IsDigits whole →
    IsFraction fraction →
    IsExponent exponent →
    fraction ++ exponent ≠ [] →
    Stands (whole ++ fraction ++ exponent)
      (.ok (.float (Double.ofDecimal false (numberOf 10 (whole ++ fraction.tail)) (whole ++ fraction.tail).length
        (exponentOf exponent - fraction.tail.length))))

/-- A decimal digit is a hexadecimal one. -/
lemma isDigit_hexadecimal {c : Char} (h : c.isDigit) : Radix.hexadecimal.isDigit c := by
  simp [Radix.isDigit, h]

/-- The digits of a radix are among those of all radices, in small or capital letters. -/
lemma mem_of_isDigit {radix : Radix} {c : Char} (h : radix.isDigit c) :
    c ∈ digits ++ ['A', 'B', 'C', 'D', 'E', 'F'] := by
  have hrange : 48 ≤ c.toNat ∧ c.toNat ≤ 57 ∨ 97 ≤ c.toNat ∧ c.toNat ≤ 102 ∨ 65 ≤ c.toNat ∧ c.toNat ≤ 70 := by
    cases radix with
    | hexadecimal =>
      simp only [Radix.isDigit, Char.isDigit, Bool.or_eq_true, Bool.and_eq_true, decide_eq_true_eq,
        Char.le_def, UInt32.le_iff_toNat_le] at h
      rcases h with (⟨hl, hu⟩ | ⟨hl, hu⟩) | ⟨hl, hu⟩
      · exact .inl ⟨hl, hu⟩
      · exact .inr (.inl ⟨hl, hu⟩)
      · exact .inr (.inr ⟨hl, hu⟩)
    | octal =>
      simp only [Radix.isDigit, Bool.and_eq_true, decide_eq_true_eq, Char.le_def, UInt32.le_iff_toNat_le] at h
      exact .inl ⟨h.1, h.2.trans (by decide)⟩
    | binary =>
      simp only [Radix.isDigit, Bool.or_eq_true, decide_eq_true_eq] at h
      rcases h with rfl | rfl <;> exact .inl (by decide)
  rw [← Char.ofNat_toNat c]
  generalize c.toNat = n at hrange
  rcases hrange with ⟨hl, hu⟩ | ⟨hl, hu⟩ | ⟨hl, hu⟩ <;> interval_cases n <;> decide

/-- The value of a digit is its place among the digits. -/
lemma digitValue_eq {radix : Radix} {c : Char} (h : radix.isDigit c) : digitValue c = digits.idxOf c.toLower := by
  have hall : (digits ++ ['A', 'B', 'C', 'D', 'E', 'F']).all fun c => digitValue c = digits.idxOf c.toLower := by
    decide
  exact of_decide_eq_true (List.all_eq_true.1 hall c (mem_of_isDigit h))

/-- Digits are read in positional notation. -/
lemma positional_eq {radix : Radix} {ds : List Char} (h : ds.all radix.isDigit) (base : Nat) :
    positional base ds = numberOf base ds := by
  induction ds using List.reverseRecOn with
  | nil => rfl
  | append_singleton ds c ih =>
    rw [List.all_append, Bool.and_eq_true] at h
    have hstep : positional base (ds ++ [c]) = base * positional base ds + digitValue c := by
      rw [positional, List.foldl_concat, ← positional]
    have hc : radix.isDigit c := List.all_eq_true.1 h.2 c List.mem_cons_self
    rw [hstep, ih h.1, digitValue_eq hc, numberOf, numberOf, List.reverse_concat, List.map_cons, Nat.ofDigits_cons]
    exact Nat.add_comm _ _

/-- Decimal digits are read in positional notation. -/
lemma positional_decimal {ds : List Char} (h : ds.all Char.isDigit) (base : Nat) :
    positional base ds = numberOf base ds :=
  positional_eq (List.all_eq_true.2 fun c hc => isDigit_hexadecimal (List.all_eq_true.1 h c hc)) base

/-! ## Nothing is taken off -/

/-- The character is read as it stands: it is none that is changed, taken off or passed over. -/
def Verbatim (c : Char) : Prop :=
  45 ≤ c.toNat ∧ c.toNat < 127 ∧ c ≠ '_'

instance (c : Char) : Decidable (Verbatim c) :=
  inferInstanceAs (Decidable (_ ∧ _))

variable {c : Char} {cs ds whole fraction exponent : List Char}

/-- Digits are read as they stand. -/
lemma verbatim_of_isDigit {radix : Radix} (h : radix.isDigit c) : Verbatim c := by
  have hall : (digits ++ ['A', 'B', 'C', 'D', 'E', 'F']).all fun c => Verbatim c := by decide
  exact of_decide_eq_true (List.all_eq_true.1 hall c (mem_of_isDigit h))

/-- Decimal digits are read as they stand. -/
lemma verbatim_digits (h : ds.all Char.isDigit) : ∀ c ∈ ds, Verbatim c :=
  fun c hc => verbatim_of_isDigit (isDigit_hexadecimal (List.all_eq_true.1 h c hc))

/-- Fractions are read as they stand. -/
lemma verbatim_fraction (h : IsFraction fraction) : ∀ c ∈ fraction, Verbatim c := by
  obtain rfl | ⟨ds, hds, rfl⟩ := h
  · exact List.forall_mem_nil _
  · exact List.forall_mem_cons.2 ⟨by decide, verbatim_digits hds.2⟩

/-- Exponents are read as they stand. -/
lemma verbatim_exponent (h : IsExponent exponent) : ∀ c ∈ exponent, Verbatim c := by
  obtain rfl | ⟨ds, hds, rfl | rfl⟩ := h
  · exact List.forall_mem_nil _
  · exact List.forall_mem_cons.2 ⟨by decide, verbatim_digits hds.2⟩
  · exact List.forall_mem_cons.2 ⟨by decide, List.forall_mem_cons.2 ⟨by decide, verbatim_digits hds.2⟩⟩

/-- What is read as it stands is in plain form. -/
lemma map_plain (h : ∀ c ∈ cs, Verbatim c) : cs.map plain = cs := by
  refine (List.map_congr_left fun c hc => ?_).trans (List.map_id cs)
  rw [plain, if_pos (h c hc).2.1, id]

/-- What is read as it stands is no padding. -/
lemma Verbatim.isPadding_eq (h : Verbatim c) : isPadding c = false := by
  have hspace : c ≠ ' ' := by
    rintro rfl
    exact absurd h (by decide)
  have := h.1
  simp only [isPadding, hspace, decide_false, Bool.false_or, Bool.and_eq_false_iff, decide_eq_false_iff_not]
  omega

/-- There is no padding before what is read as it stands. -/
lemma dropWhile_isPadding (h : ∀ c ∈ cs, Verbatim c) : cs.dropWhile isPadding = cs := by
  cases cs with
  | nil => rfl
  | cons c cs => rw [List.dropWhile_cons_of_neg (by simp [(h c List.mem_cons_self).isPadding_eq])]

/-- Without underscores no two stand next to each other. -/
lemma hasDoubleUnderscore_eq (h : '_' ∉ ds) : hasDoubleUnderscore ds = false := by
  induction ds with
  | nil => rfl
  | cons d ds ih =>
    rw [List.mem_cons, not_or] at h
    unfold hasDoubleUnderscore
    split
    · next heq => exact absurd (List.cons.inj heq).1.symm h.1
    · next heq =>
      cases heq
      exact ih h.2
    · rfl

/-- Digits that are read as they stand have no underscores. -/
lemma plainDigits?_eq (hne : ds ≠ []) (h : ∀ c ∈ ds, Verbatim c) : plainDigits? ds = some ds := by
  have hmem : '_' ∉ ds := fun hc => (h _ hc).2.2 rfl
  have hhead : ds.head? ≠ some '_' := fun hc => hmem (List.mem_of_head? hc)
  have hlast : ds.getLast? ≠ some '_' := fun hc => hmem (List.mem_of_getLast? hc)
  simp [plainDigits?, hne, hhead, hlast, hasDoubleUnderscore_eq hmem]
  exact fun c hc => (h c hc).2.2

/-- What is read as it stands has no underscores. -/
lemma withoutUnderscores?_eq (h : ∀ c ∈ cs, Verbatim c) (previous : Option Char) :
    withoutUnderscores? previous cs = some cs := by
  induction cs generalizing previous with
  | nil => rfl
  | cons c cs ih =>
    rw [List.forall_mem_cons] at h
    unfold withoutUnderscores?
    split
    · next heq => cases heq
    · next heq =>
      obtain ⟨rfl, -⟩ := List.cons.inj heq
      exact absurd rfl h.1.2.2
    · next heq =>
      obtain ⟨rfl, rfl⟩ := List.cons.inj heq
      rw [ih h.2, Option.map_some]

/-- All of a row of digits is taken, where underscores may stand among them. -/
lemma span_isPart {p : Char → Bool} (h : ds.all p) :
    ds.takeWhile (fun c => p c || c = '_') = ds ∧ ds.dropWhile (fun c => p c || c = '_') = [] := by
  have hall : ∀ c ∈ ds, (p c || c = '_') = true := fun c hc => by simp [List.all_eq_true.1 h c hc]
  exact ⟨List.takeWhile_eq_self_iff.2 hall, List.dropWhile_eq_nil_iff.2 hall⟩

/-- What a row of digits ends at is left after it. -/
lemma dropWhile_append_of_all {p : Char → Bool} {rest : List Char} (h : ds.all p) (hrest : rest.head?.any p = false) :
    (ds ++ rest).dropWhile p = rest := by
  have htake := takeWhile_append_of_all h hrest
  have hsplit := List.takeWhile_append_dropWhile (p := p) (l := ds ++ rest)
  rw [htake] at hsplit
  exact List.append_cancel_left hsplit

/-- A number that starts with a digit has no sign. -/
lemma takeSign_digits (h : IsDigits ds) (rest : List Char) : takeSign (ds ++ rest) = (false, ds ++ rest) := by
  obtain ⟨d, ds, rfl⟩ := List.exists_cons_of_ne_nil h.1
  have hd : d.isDigit := List.all_eq_true.1 h.2 d List.mem_cons_self
  rw [List.cons_append]
  unfold takeSign
  split
  · next heq =>
    obtain ⟨rfl, -⟩ := List.cons.inj heq
    exact absurd hd (by decide)
  · next heq =>
    obtain ⟨rfl, -⟩ := List.cons.inj heq
    exact absurd hd (by decide)
  · rfl

/-! ## The three kinds of numbers -/

/-- The digits of a radix are read in positional notation. -/
lemma radixValue_eq {letter : Char} {radix : Radix} (hne : ds ≠ []) (h : ds.all radix.isDigit) :
    radixValue radix (String.ofList ('0' :: letter :: ds)) = .ok (.int (numberOf radix.base ds)) := by
  have hverbatim : ∀ c ∈ ds, Verbatim c := fun c hc => verbatim_of_isDigit (List.all_eq_true.1 h c hc)
  have hhead : ds.head? ≠ some '_' := fun hc => (hverbatim _ (List.mem_of_head? hc)).2.2 rfl
  have hbody : List.drop 2 (plain '0' :: plain letter :: ds) = ds := rfl
  obtain ⟨htake, hdrop⟩ := span_isPart h
  unfold radixValue
  dsimp only
  rw [String.toList_ofList, List.map_cons, List.map_cons, map_plain hverbatim, hbody, if_neg hhead, htake, hdrop,
    plainDigits?_eq hne hverbatim]
  dsimp only
  rw [List.all_nil, if_pos rfl, positional_eq h]

/-- A whole number is read in positional notation, unless it is too long. -/
lemma decimalValue_eq (h : IsDigits ds) :
    decimalValue (String.ofList ds) =
      if 4300 < ds.length then .error (.tooLong ds.length) else .ok (.int (numberOf 10 ds)) := by
  have hverbatim := verbatim_digits h.2
  have hsign : takeSign ds = (false, ds) := by simpa using takeSign_digits h []
  obtain ⟨htake, hdrop⟩ := span_isPart h.2
  unfold decimalValue
  dsimp only
  rw [String.toList_ofList, map_plain hverbatim, dropWhile_isPadding hverbatim, hsign]
  dsimp only
  rw [htake, hdrop, plainDigits?_eq h.1 hverbatim]
  simp only [List.all_nil, if_true, positional_decimal h.2, maxDigits, Bool.false_eq_true, if_false]

/-- An exponent is read as the power that it writes. -/
lemma exponent?_eq (h : IsExponent exponent) : exponent? exponent = some (exponentOf exponent) := by
  obtain rfl | ⟨ds, hds, rfl | rfl⟩ := h
  · rfl
  · have hsign : takeSign ds = (false, ds) := by simpa using takeSign_digits hds []
    have hpower : exponentOf ('e' :: ds) = numberOf 10 ds := by
      unfold exponentOf
      split
      · next heq => cases heq
      · next heq =>
        cases heq
        exact absurd (List.all_eq_true.1 hds.2 '-' List.mem_cons_self) (by decide)
      · next heq => rw [(List.cons.inj heq).2]
    simp [exponent?, hsign, hds.1, hds.2, positional_decimal hds.2, hpower]
  · simp [exponent?, takeSign, hds.1, hds.2, positional_decimal hds.2, exponentOf]

/-- The fraction of a number is its digits, and what follows is left. -/
lemma takeFraction_eq (hfraction : IsFraction fraction) (hexponent : IsExponent exponent) :
    takeFraction (fraction ++ exponent) = (fraction.tail, exponent) := by
  have hhead : exponent.head?.any Char.isDigit = false := head?_fraction (.inl rfl) hexponent
  obtain rfl | ⟨ds, hds, rfl⟩ := hfraction
  · obtain rfl | ⟨ds, -, rfl | rfl⟩ := hexponent <;> rfl
  · rw [List.cons_append, takeFraction, takeWhile_append_of_all hds.2 hhead, dropWhile_append_of_all hds.2 hhead]
    rfl

/-- A number with a fraction or an exponent is read as the double that is nearest to it. -/
lemma doubleValue_eq (hwhole : IsDigits whole) (hfraction : IsFraction fraction) (hexponent : IsExponent exponent) :
    doubleValue (String.ofList (whole ++ fraction ++ exponent)) =
      .ok (.float (Double.ofDecimal false (numberOf 10 (whole ++ fraction.tail)) (whole ++ fraction.tail).length
        (exponentOf exponent - fraction.tail.length))) := by
  have hverbatim : ∀ c ∈ whole ++ fraction ++ exponent, Verbatim c :=
    List.forall_mem_append.2 ⟨List.forall_mem_append.2 ⟨verbatim_digits hwhole.2, verbatim_fraction hfraction⟩,
      verbatim_exponent hexponent⟩
  have hreverse : ∀ c ∈ (whole ++ fraction ++ exponent).reverse, Verbatim c :=
    fun c hc => hverbatim c (List.mem_reverse.1 hc)
  have hhead := head?_fraction hfraction hexponent
  have htail : fraction.tail.all Char.isDigit := by
    obtain rfl | ⟨ds, hds, rfl⟩ := hfraction
    · rfl
    · exact hds.2
  have hdigits : (whole ++ fraction.tail).all Char.isDigit := by rw [List.all_append, hwhole.2, htail, Bool.and_self]
  have hne : (whole ++ fraction.tail).isEmpty = false := by simp [hwhole.1]
  have hread : double? (whole ++ fraction ++ exponent) =
      some (Double.ofDecimal false (numberOf 10 (whole ++ fraction.tail)) (whole ++ fraction.tail).length
        (exponentOf exponent - fraction.tail.length)) := by
    rw [List.append_assoc, double?, takeSign_digits hwhole]
    simp only [takeWhile_append_of_all hwhole.2 hhead, dropWhile_append_of_all hwhole.2 hhead,
      takeFraction_eq hfraction hexponent, hne, exponent?_eq hexponent, positional_decimal hdigits]
    rfl
  simp only [doubleValue, String.toList_ofList, map_plain hverbatim, dropWhile_isPadding hverbatim,
    dropWhile_isPadding hreverse, List.reverse_reverse, withoutUnderscores?_eq hverbatim, Option.bind_eq_bind,
    Option.bind_some, hread]

/-- No number of the grammar without a radix announces one. -/
lemma radixAt?_decimal (hwhole : IsDigits whole) (hfraction : IsFraction fraction) (hexponent : IsExponent exponent) :
    radixAt? (whole ++ fraction ++ exponent) = none := by
  have hnone {c : Char} (h : c.isDigit ∨ c = '.' ∨ c = 'e') : Radix.ofLetter? c = none := by
    by_contra hsome
    obtain ⟨radix, hradix⟩ := Option.ne_none_iff_exists'.1 hsome
    obtain rfl | rfl | rfl := letter_cases hradix <;> exact absurd h (by decide)
  unfold radixAt?
  split
  · next letter text heq =>
    refine hnone ?_
    obtain ⟨d, ds, rfl⟩ := List.exists_cons_of_ne_nil hwhole.1
    obtain ⟨-, heq⟩ := List.cons.inj heq
    have hletter : letter ∈ (ds ++ fraction ++ exponent).head? := by
      rw [show ds ++ fraction ++ exponent = letter :: text from heq]
      rfl
    rw [Option.mem_def, List.append_assoc, List.head?_append, List.head?_append] at hletter
    cases ds with
    | cons d' ds =>
      obtain rfl : d' = letter := by simpa using hletter
      exact .inl (List.all_eq_true.1 hwhole.2 d' (by simp))
    | nil =>
      obtain rfl | ⟨ds, -, rfl⟩ := hfraction
      · obtain rfl | ⟨ds, -, rfl | rfl⟩ := hexponent
        · cases hletter
        · exact .inr (.inr (by simpa using hletter.symm))
        · exact .inr (.inr (by simpa using hletter.symm))
      · exact .inr (.inl (by simpa using hletter.symm))
  · rfl

/-- A whole number has no mark of a double. -/
lemma value_whole (h : IsDigits ds) : value (String.ofList ds) = decimalValue (String.ofList ds) := by
  have hradix : radixAt? ds = none := by simpa using radixAt?_decimal h (.inl rfl) (.inl rfl)
  have hno (c : Char) (hc : c.isDigit = false) : ds.contains c = false := by
    rw [Bool.eq_false_iff, Ne, List.contains_iff_mem]
    intro hmem
    rw [List.all_eq_true.1 h.2 c hmem] at hc
    cases hc
  rw [value, String.toList_ofList, hradix]
  simp only [hno '.' (by decide), hno 'e' (by decide), Bool.or_self, Bool.false_eq_true, if_false]

/-- A fraction or an exponent shows that a number is a double. -/
lemma value_double (hwhole : IsDigits whole) (hfraction : IsFraction fraction) (hexponent : IsExponent exponent)
    (hne : fraction ++ exponent ≠ []) :
    value (String.ofList (whole ++ fraction ++ exponent)) =
      doubleValue (String.ofList (whole ++ fraction ++ exponent)) := by
  have hmark :
      ((whole ++ fraction ++ exponent).contains '.' || (whole ++ fraction ++ exponent).contains 'e') = true := by
    obtain rfl | ⟨ds, -, rfl⟩ := hfraction
    · obtain rfl | ⟨ds, -, rfl | rfl⟩ := hexponent
      · exact absurd rfl hne
      · simp
      · simp
    · simp
  rw [value, String.toList_ofList, radixAt?_decimal hwhole hfraction hexponent]
  exact if_pos hmark

/-- What a number stands for is what it is read as. -/
lemma Stands.value_eq {w : List Char} {r : Except Fault Value} (h : Stands w r) : value (String.ofList w) = r := by
  cases h with
  | radix hletter hne hall =>
    rw [value, String.toList_ofList, radixAt?, hletter]
    exact radixValue_eq hne hall
  | whole hds hle => rw [value_whole hds, decimalValue_eq hds, if_neg (not_lt.2 hle)]
  | tooLong hds hlong => rw [value_whole hds, decimalValue_eq hds, if_pos hlong]
  | double hwhole hfraction hexponent hne =>
    rw [value_double hwhole hfraction hexponent hne, doubleValue_eq hwhole hfraction hexponent]

/-- Every number of the grammar stands for something. -/
lemma exists_stands {w : List Char} (h : IsNumeral w) : ∃ r, Stands w r := by
  cases h with
  | radix hletter hne hall => exact ⟨_, .radix hletter hne hall⟩
  | @decimal whole fraction exponent hwhole hfraction hexponent =>
    by_cases hnil : fraction ++ exponent = []
    · obtain ⟨rfl, rfl⟩ := List.append_eq_nil_iff.1 hnil
      rw [List.append_nil, List.append_nil]
      exact (le_or_gt whole.length 4300).elim (⟨_, .whole hwhole ·⟩) (⟨_, .tooLong hwhole ·⟩)
    · exact ⟨_, .double hwhole hfraction hexponent hnil⟩

/-- A number of the grammar is read as what it stands for, and as nothing else. -/
theorem stands_iff {w : List Char} (h : IsNumeral w) {r : Except Fault Value} :
    Stands w r ↔ value (String.ofList w) = r := by
  refine ⟨Stands.value_eq, ?_⟩
  rintro rfl
  obtain ⟨r, hr⟩ := exists_stands h
  exact hr.value_eq ▸ hr

end Numeral

/-- Where a token starts with a digit, the longest number there is read as a token, unless a character of names
follows it, which is refused. The number has the value that it stands for. -/
theorem stands_of_step {s : Scanner} (hin : s.atLineStart = false) {c : Char} {text : List Char}
    (hrest : s.rest = c :: text) (hc : c.isDigit) :
    ∃ w, IsLongest IsNumeral w s.rest ∧
      (if (s.rest.drop w.length).head?.any isNameChar then ∃ failure, s.step = .error failure
        else ∃ m, s.step = .ok m ∧ s.Reads .number w m) ∧
      ∀ r, Numeral.Stands w r ↔ literalValue .number (String.ofList w) = r := by
  obtain ⟨w, hlongest, hstep⟩ := Scanner.exists_longest_step hin hrest hc
  exact ⟨w, hlongest, hstep, fun _ => Numeral.stands_iff hlongest.holds⟩

/-- A scanner in a text in which digits of a radix, the letter of the exponent and a suffix follow each other. -/
def numberedText : Scanner :=
  { Scanner.ofText "0x1e5 .. 01.50e-3+2eb".toList with atLineStart := false }

theorem stands_of_step_numberedText :
    (numberedText.atLineStart = false ∧ numberedText.rest = '0' :: "x1e5 .. 01.50e-3+2eb".toList ∧ '0'.isDigit) ∧
      ∃ w, IsLongest IsNumeral w numberedText.rest ∧
        (if (numberedText.rest.drop w.length).head?.any isNameChar then ∃ failure, numberedText.step = .error failure
          else ∃ m, numberedText.step = .ok m ∧ numberedText.Reads .number w m) ∧
        ∀ r, Numeral.Stands w r ↔ literalValue .number (String.ofList w) = r :=
  have hrest : numberedText.rest = '0' :: "x1e5 .. 01.50e-3+2eb".toList := by decide
  ⟨⟨rfl, hrest, by decide⟩, stands_of_step rfl hrest (by decide)⟩

end SignLang
