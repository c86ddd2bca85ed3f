import SignLang.Proofs.Scanner.Lexical
import SignLang.Text.Lines

/-!
# Indented texts

A text is moved to the right line by line. `Text.indentAfter` says the same character by character: a tab stands in
front of each character at which a line starts (`Text.indent_eq`). So the parts of a text are indented by themselves,
and only the character before a part tells whether a tab stands in front of it.
-/

namespace SignLang

open Lexeme

namespace Text

variable {p : Option Char} {c d : Char} {w r text : List Char}

/-! ## Line ends -/

/-- A space ends no line. -/
@[simp] lemma isLineEnd_space : isLineEnd ' ' = false := by
  decide

/-- No line ends in spaces. -/
lemma isLineEnd_of_spaces (h : w.all isSpace) : ∀ c ∈ w, isLineEnd c = false := by
  intro c hc
  have hspace := List.all_eq_true.1 h c hc
  obtain rfl | rfl := isSpace_iff.1 hspace <;> decide

/-- Characters of names, points and minus signs end no line. -/
lemma isLineEnd_eq_false (h : isNameChar c ∨ c = '.' ∨ c = '-') :
    isLineEnd c = false := by
  rcases h with h | rfl | rfl
  · have hle : 0x30 ≤ c.toNat ∧ c.toNat ≤ 0x7a := by
      simp only [isNameChar, Char.isAlphanum, Char.isAlpha, Char.isUpper, Char.isLower, Char.isDigit,
        Bool.or_eq_true, Bool.and_eq_true, decide_eq_true_eq] at h
      rcases h with ((h | h) | h) | rfl
      · exact ⟨le_trans (by decide) h.1, le_trans h.2 (by decide)⟩
      · exact ⟨le_trans (by decide) h.1, le_trans h.2 (by decide)⟩
      · exact ⟨le_trans (by decide) h.1, le_trans h.2 (by decide)⟩
      · decide
    simp [isLineEnd]
    omega
  · decide
  · decide

/-! ## Tabs in front of lines -/

/-- A line starts at the character `c` after `previous`. -/
def breaksLine (previous : Option Char) (c : Char) : Bool :=
  previous.all fun p => isLineEnd p && !(p = '\r' && c = '\n')

/-- The text after `previous`, with a tab in front of each character at which a line starts. -/
def indentAfter (previous : Option Char) : List Char → List Char
  | [] => []
  | c :: rest => (if breaksLine previous c then ['\t'] else []) ++ c :: indentAfter (some c) rest

/-- At the start of a text a line starts. -/
@[simp] lemma breaksLine_none (c : Char) : breaksLine none c = true := rfl

/-- After a character that ends no line, none starts. -/
@[simp] lemma breaksLine_inside (hd : isLineEnd d = false) (c : Char) : breaksLine (some d) c = false := by
  simp [breaksLine, hd]

/-- After a character that ends no line, no tab comes first. -/
lemma indentAfter_inside (hd : isLineEnd d = false) (text : List Char) :
    indentAfter (some d) text = indentAfter (some ' ') text := by
  cases text with
  | nil => rfl
  | cons c rest => simp [indentAfter, hd]

/-- At the start of a text a tab comes first. -/
lemma indentAfter_none (h : text ≠ []) : indentAfter none text = '\t' :: indentAfter (some ' ') text := by
  cases text with
  | nil => exact absurd rfl h
  | cons c rest => simp [indentAfter]

/-- After a line end a line starts, unless a line feed follows a carriage return. -/
lemma indentAfter_lineEnd (hc : isLineEnd c) (h : c = '\r' → text.head? ≠ some '\n') :
    indentAfter (some c) text = indentAfter none text := by
  cases text with
  | nil => rfl
  | cons d rest =>
    have hbreak : breaksLine (some c) d := by
      simp only [breaksLine, Option.all_some, hc, Bool.true_and, Bool.not_eq_true', Bool.and_eq_false_iff,
        decide_eq_false_iff_not]
      by_cases hreturn : c = '\r'
      · exact .inr fun hd => h hreturn (by rw [hd]; rfl)
      · exact .inl hreturn
    simp [indentAfter, hbreak]

/-- A tab comes first or it does not. -/
lemma indentAfter_cases (p : Option Char) (text : List Char) :
    indentAfter p text = indentAfter (some ' ') text ∨ indentAfter p text = '\t' :: indentAfter (some ' ') text := by
  cases text with
  | nil => exact .inl rfl
  | cons c rest =>
    by_cases hbreak : breaksLine p c
    · exact .inr (by simp [indentAfter, hbreak])
    · exact .inl (by simp [indentAfter, hbreak])

/-- A text is indented part by part. -/
lemma indentAfter_append (p : Option Char) (w r : List Char) :
    indentAfter p (w ++ r) = indentAfter p w ++ indentAfter (w.getLast?.or p) r := by
  induction w generalizing p with
  | nil => rfl
  | cons c w ih =>
    have hlast : w.getLast?.or (some c) = ((c :: w).getLast?).or p := by
      rw [List.getLast?_cons]
      cases w.getLast? <;> rfl
    rw [List.cons_append, indentAfter, indentAfter, ih, hlast, List.append_assoc, List.cons_append]

/-- The first character of a text stays, where no line starts. -/
lemma head?_indentAfter (text : List Char) : (indentAfter (some ' ') text).head? = text.head? := by
  cases text with
  | nil => rfl
  | cons c rest => simp [indentAfter]

/-- A text without line ends stays. -/
lemma indentAfter_eq_self (h : ∀ c ∈ w, isLineEnd c = false) : indentAfter (some ' ') w = w := by
  induction w with
  | nil => rfl
  | cons c w ih =>
    rw [List.forall_mem_cons] at h
    rw [indentAfter, indentAfter_inside h.1, ih h.2]
    simp

/-- A part without line ends stays. -/
lemma indentAfter_append_inside (h : ∀ c ∈ w, isLineEnd c = false) (r : List Char) :
    indentAfter (some ' ') (w ++ r) = w ++ indentAfter (some ' ') r := by
  rw [indentAfter_append, indentAfter_eq_self h]
  cases hlast : w.getLast? with
  | none => rfl
  | some d => rw [Option.some_or, indentAfter_inside (h d (List.mem_of_getLast? hlast))]

/-- Only tabs are put in. -/
lemma mem_indentAfter {p : Option Char} (h : c ∈ indentAfter p text) : c = '\t' ∨ c ∈ text := by
  induction text generalizing p with
  | nil => cases h
  | cons d rest ih =>
    rw [indentAfter, List.mem_append, List.mem_cons] at h
    rcases h with h | rfl | h
    · split at h
      · exact .inl (List.mem_singleton.1 h)
      · cases h
    · exact .inr List.mem_cons_self
    · exact (ih h).imp_right (List.mem_cons_of_mem _)

/-- Nothing is taken out. -/
lemma length_le_indentAfter (p : Option Char) (text : List Char) : text.length ≤ (indentAfter p text).length := by
  induction text generalizing p with
  | nil => exact le_rfl
  | cons c rest ih =>
    have := ih (some c)
    rw [indentAfter, List.length_append, List.length_cons, List.length_cons]
    omega

/-- After a line end inside of a text a tab is put in. -/
lemma length_lt_indentAfter {a : List Char} (hc : isLineEnd c) (hreturn : c ≠ '\r') (hr : r ≠ []) :
    (a ++ c :: r).length < (indentAfter p (a ++ c :: r)).length := by
  have ha := length_le_indentAfter p a
  have hle := length_le_indentAfter (some ' ') r
  rw [indentAfter_append, indentAfter, indentAfter_lineEnd hc (fun h => absurd h hreturn), indentAfter_none hr]
  simp only [List.length_append, List.length_cons]
  omega

/-- The lines of a text, each with a tab in front. -/
lemma flatMap_loop (line text : List Char) (hline : line.head?.any isLineEnd = false) :
    (splitLines.loop line text).flatMap ('\t' :: ·) =
      if line = [] then indentAfter none text else '\t' :: line.reverse ++ indentAfter (some ' ') text := by
  fun_induction splitLines.loop line text with
  | case1 line hnil =>
    rw [if_pos (by simpa using hnil)]
    rfl
  | case2 line hnil =>
    rw [if_neg (by simpa using hnil)]
    simp [indentAfter]
  | case3 line rest ih =>
    have hpair : breaksLine (some '\r') '\n' = false := by decide
    have hrest : indentAfter (some '\n') rest = indentAfter none rest := indentAfter_lineEnd (by decide) nofun
    rw [List.flatMap_cons, ih rfl, if_pos rfl]
    split <;> simp [indentAfter, *]
  | case4 line c rest hpair hc ih =>
    have hrest : indentAfter (some c) rest = indentAfter none rest :=
      indentAfter_lineEnd hc fun hreturn hhead => by
        obtain ⟨rest', rfl⟩ := List.head?_eq_some_iff.1 hhead
        exact hpair rest' hreturn rfl
    rw [List.flatMap_cons, ih rfl, if_pos rfl]
    split <;> simp [indentAfter, *]
  | case5 line c rest _ hc ih =>
    rw [Bool.not_eq_true] at hc
    rw [ih (by simpa using hc), if_neg (by simp), ← indentAfter_inside hc rest]
    split <;> simp [indentAfter, *]

/-- A text is moved by a tab in front of each of its lines. -/
lemma indent_eq (text : List Char) : indent (String.ofList text) = String.ofList (indentAfter none text) := by
  rw [indent, String.toList_ofList, splitLines, flatMap_loop [] text rfl, if_pos rfl]

end Text

end SignLang
