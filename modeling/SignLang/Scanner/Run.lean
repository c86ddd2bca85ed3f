import SignLang.Scanner.Step

/-!
# Scanner runs

`run` steps until the text is used up, and `scan` is a whole run over a text. A run ends because
every step lowers the `effort` that is left (`effort_step_lt`).
-/

namespace SignLang

open Lexeme

namespace Scanner

/-- What is left to do: two for each character, and one for a line that has to be started. -/
def effort (s : Scanner) : Nat :=
  2 * s.rest.length + s.atLineStart.toNat

@[simp] theorem rest_advance (s : Scanner) (n : Nat) : (s.advance n).rest = s.rest.drop n := rfl

@[simp] theorem rest_accept (s : Scanner) (kind : Kind) (lexeme : List Char) :
    (s.accept kind lexeme).rest = s.rest.drop lexeme.length := rfl

/-- Accepting a lexeme that is not empty uses up some text. -/
theorem length_rest_accept_lt {s : Scanner} (kind : Kind) {lexeme : List Char}
    (hs : s.rest ≠ []) (hl : lexeme ≠ []) :
    (s.accept kind lexeme).rest.length < s.rest.length := by
  have := List.length_pos_iff.2 hs
  have := List.length_pos_iff.2 hl
  simp only [rest_accept, List.length_drop]
  omega

/-- Reading the start of a line leaves the scanner inside the line. -/
theorem atLineStart_indentation (s : Scanner) : s.indentation.atLineStart = false := by
  unfold indentation
  dsimp only
  split
  · rfl
  · repeat' split
    all_goals rfl

/-- Reading the start of a line never moves back. -/
theorem length_rest_indentation_le (s : Scanner) : s.indentation.rest.length ≤ s.rest.length := by
  have advance_le (s : Scanner) (n : Nat) : (s.advance n).rest.length ≤ s.rest.length :=
    (List.drop_sublist _ _).length_le
  unfold indentation
  dsimp only
  split
  · exact Nat.le_trans (advance_le _ _) (advance_le _ _)
  · split
    · exact Nat.le_trans (advance_le _ _) (advance_le _ _)
    split
    · exact Nat.le_trans (advance_le _ _) (Nat.le_trans (advance_le _ _) (advance_le _ _))
    split <;> exact Nat.le_trans (advance_le _ _) (advance_le _ _)

/-- Reading a token uses up some text. -/
theorem length_rest_scanToken_lt {s s' : Scanner} (h : s.scanToken = .ok s') :
    s'.rest.length < s.rest.length := by
  have acceptRead_lt {kind : Kind} {read : Except Misread (List Char)} (hs : s.rest ≠ [])
      (hl : ∀ lexeme, read = .ok lexeme → lexeme ≠ []) (h : s.acceptRead kind read = .ok s') :
      s'.rest.length < s.rest.length := by
    unfold acceptRead at h
    split at h <;> cases h
    exact length_rest_accept_lt _ hs (hl _ rfl)
  unfold scanToken at h
  split at h
  · cases h
  · next c text hrest =>
    have hs : s.rest ≠ [] := by simp [hrest]
    split at h
    · cases h
      exact length_rest_accept_lt .newline hs (readTerminator_ne_nil hs)
    split at h
    · exact acceptRead_lt hs (fun _ => ne_nil_of_readString) h
    split at h
    · unfold scanCharacter at h
      split at h
      · cases h
      · next lexeme hread =>
        cases h
        split <;> exact length_rest_accept_lt .character hs (ne_nil_of_readCharacter hread)
    split at h
    · next hc =>
      exact acceptRead_lt hs (fun _ hl => ne_nil_of_readNumber hc (hrest ▸ hl)) h
    split at h
    · next hc =>
      cases h
      exact length_rest_accept_lt _ hs (hrest ▸ readName_ne_nil hc)
    split at h
    · cases h
      exact length_rest_accept_lt .opening hs (by simp [hrest])
    split at h
    · cases h
      exact length_rest_accept_lt .closing hs (by simp [hrest])
    split at h
    · unfold scanBar at h
      split at h <;> cases h
      · exact length_rest_accept_lt .operator hs (by simp)
      · exact length_rest_accept_lt .closing hs (by simp)
      · exact length_rest_accept_lt .opening hs (by simp)
    · exact acceptRead_lt hs (fun _ => ne_nil_of_readOperator) h

/-- Every step lowers the effort that is left. -/
theorem effort_step_lt {s s' : Scanner} (h : s.step = .ok s') : s'.effort < s.effort := by
  unfold step at h
  split at h
  · next hline =>
    cases h
    have := length_rest_indentation_le s
    simp only [effort, atLineStart_indentation, hline, Bool.toNat_false, Bool.toNat_true]
    omega
  · next hline =>
    split at h
    · next hspace =>
      cases h
      cases hrest : s.rest with
      | nil => simp [hrest] at hspace
      | cons c text =>
        have hc : isSpace c := by simpa [hrest] using hspace
        have : (s.rest.takeWhile isSpace).length = (text.takeWhile isSpace).length + 1 := by
          rw [hrest, List.takeWhile_cons_of_pos hc, List.length_cons]
        have : s.skipSpaces.rest.length = s.rest.length - (s.rest.takeWhile isSpace).length :=
          List.length_drop
        have : s.skipSpaces.atLineStart = s.atLineStart := rfl
        have : s.rest.length = text.length + 1 := by rw [hrest, List.length_cons]
        simp only [effort]
        grind
    · have := length_rest_scanToken_lt h
      have := Bool.toNat_le s'.atLineStart
      simp only [setMark] at *
      simp only [effort]
      omega

/-- Reads tokens until the text is used up. -/
def run (s : Scanner) : Except Failure Scanner :=
  if s.rest.isEmpty then .ok s
  else
    match _h : s.step with
    | .error failure => .error failure
    | .ok next => run next
termination_by s.effort
decreasing_by exact effort_step_lt (by assumption)

/-- Reads the rest of the text, and the end of the input after it. -/
def tokenize (s : Scanner) : Except Failure Scanner :=
  s.run.map fun s => s.setMark.emit .ending []

end Scanner

/-- The tokens of a text. -/
def scan (text : String) : Except Scanner.Failure (List Token) :=
  ((Scanner.ofText text.toList).tokenize).map (·.tokens)

end SignLang
