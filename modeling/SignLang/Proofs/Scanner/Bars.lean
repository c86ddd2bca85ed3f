import SignLang.Proofs.Scanner.Brackets
import SignLang.Proofs.Scanner.Payload

/-!
# Bars close what bars open

The scanner tells the bars apart by counters of its own, and the parser checks the brackets with a stack of tokens.
As long as the brackets match, the counters are those of the stack (`Steps.keeps`). So wherever the scanner lets a
bar close, a bar is on top of the stack, and the check never blames a bar for closing what it did not open
(`closingBars_of_scan`).
-/

namespace SignLang

open Lexeme

namespace Scanner

variable {s : Scanner} {r : List Char}

/-- Where a bar may close, a bar is the innermost open bracket. -/
lemma Keeps.exists_of_canClose {stack : List Bool} (h : s.Keeps stack) (hclose : s.canClose) :
    ∃ outer, stack = true :: outer := by
  rw [canClose, Bool.and_eq_true, decide_eq_true_eq, h.bars, h.depth] at hclose
  cases stack with
  | nil => cases hclose.2
  | cons family outer =>
    cases family with
    | true => exact ⟨outer, rfl⟩
    | false =>
      -- every bar that is open was opened where fewer brackets were
      have hmem : depthOf (false :: outer) ∈ barsOf outer := List.mem_of_mem_head? hclose.2
      have hle := le_depthOf _ hmem
      rw [depthOf, List.count_cons_self] at hle
      exact absurd hle (Nat.not_succ_le_self _)

/-- A bar closes only where it may. -/
lemma canClose_of_lexes (h : s.Lexes r ['|'] .closing) : s.canClose := by
  have hk := barKind?_of_lexes h
  by_contra hclose
  rw [Bool.not_eq_true] at hclose
  rw [barKind?, roleOf, hclose] at hk
  cases hleft : s.leftFree <;> cases hright : rightFree r <;> simp [hleft, hright] at hk

/-- Where the brackets before a closing bar match, a bar is the innermost open one. -/
theorem exists_openAfter_of_closingBar {text : List Char} {before after : List Token} {closer : Token}
    (hscan : scan (String.ofList text) = .ok (before ++ closer :: after)) (hk : closer.kind = .closing)
    (hbar : closer.isBar) {stack : List Bool} (hstack : openAfter [] before = some stack) :
    ∃ outer, stack = true :: outer := by
  obtain ⟨f, after₀, hrun, hemitted, -⟩ := scan_eq_ok_of_mem hscan (by simp [hk])
  obtain ⟨u, v, w, hu, -, -, -, -, hlexes, -, rfl, hspells⟩ := exists_read hrun hemitted (by simp [hk])
  rw [isBar_eq hspells, decide_eq_true_eq] at hbar
  rw [hbar, hk] at hlexes
  exact (hu.keeps hstack).exists_of_canClose (canClose_of_lexes hlexes)

end Scanner

open SignLang.Parser Scanner

/-- In the tokens of a text, up to which brackets match, a closing bar meets an open bar. So a bar is never
blamed for closing what it did not open: only an open bar can be at fault, since nothing closes it, or
another bracket does. -/
theorem closingBars_of_scan {text : String} {tokens : List Token} (h : scan text = .ok tokens) :
    (∀ before closer after kept, tokens = before ++ closer :: after → closer.kind = .closing →
      closer.lexeme = Operator.bar → trackBrackets [] before.zipIdx = .ok kept →
      ∃ opener outer, kept = opener :: outer ∧ opener.1.kind = .opening ∧
        opener.1.lexeme = Operator.bar) ∧
    ∀ fault position, bracketFault? tokens = some (fault, position) →
      (∃ opener, fault = .unmatchedOpening opener) ∨
      (∃ closer, fault = .unmatchedClosing closer ∧ closer.lexeme ≠ Operator.bar) ∨
      ∃ opener closer, fault = .mismatched opener closer ∧ opener.lexeme = Operator.bar ∧
        closer.lexeme ≠ Operator.bar := by
  have hmeets (before after : List Token) (closer : Token) (kept : OpenBrackets)
      (hsplit : tokens = before ++ closer :: after) (hk : closer.kind = .closing)
      (hbar : closer.lexeme = Operator.bar) (hkept : trackBrackets [] before.zipIdx = .ok kept) :
      ∃ opener outer, kept = opener :: outer ∧ opener.1.kind = .opening ∧
        opener.1.lexeme = Operator.bar := by
    have hfamilies := trackBrackets_families [] before.zipIdx
    rw [hkept, List.zipIdx_map_fst] at hfamilies
    rw [← String.ofList_toList (s := text), hsplit] at h
    obtain ⟨outer, houter⟩ :=
      exists_openAfter_of_closingBar h hk (by simpa [Token.isBar] using hbar) hfamilies.symm
    cases kept with
    | nil => cases houter
    | cons opener outer =>
      have hopener : opener.1.isBar := (List.cons.inj houter).1
      exact ⟨opener, outer, rfl, kind_of_trackBrackets hkept (by simp) opener List.mem_cons_self,
        by simpa [Token.isBar] using hopener⟩
  refine ⟨fun before closer after kept => hmeets before after closer kept, fun fault position hfault => ?_⟩
  unfold bracketFault? at hfault
  split at hfault
  · next found hfound =>
    cases hfault
    obtain ⟨before, entry, after, kept, hsplit, hkept, htrack⟩ := exists_of_trackBrackets_error hfound
    obtain ⟨ts, us, htokens, rfl⟩ := exists_of_zipIdx_eq hsplit
    unfold trackBracket at htrack
    split at htrack
    · cases htrack
    · next hk =>
      -- a bar would have met an open bar
      have hbar (hbar : entry.1.lexeme = Operator.bar) := hmeets ts us entry.1 kept htokens hk hbar hkept
      split at htrack
      · cases htrack
        refine .inr (.inl ⟨_, rfl, fun hbar' => ?_⟩)
        obtain ⟨opener, outer, hnil, -⟩ := hbar hbar'
        cases hnil
      · split at htrack <;> cases htrack
        next opener outer hfamily =>
        have hcloser : entry.1.lexeme ≠ Operator.bar := by
          intro hbar'
          obtain ⟨opener', outer', heq, -, hopener⟩ := hbar hbar'
          obtain ⟨rfl, -⟩ := List.cons.inj heq
          simp [sameFamily, hopener, hbar'] at hfamily
        refine .inr (.inr ⟨_, _, rfl, ?_, hcloser⟩)
        simpa [sameFamily, hcloser] using hfamily
    · cases htrack
  · cases hfault
  · cases hfault
    exact .inl ⟨_, rfl⟩

/-- Where an absolute value stands in brackets inside of another one, its bar meets the bar that opens it.
The outer one is left open: the parenthesis after it is of another family. -/
theorem closingBars_of_scan_nested :
    ∃ before closer after, scan "|x + [|y|] )" = .ok (before ++ closer :: after) ∧
      closer.kind = .closing ∧ closer.lexeme = Operator.bar ∧
      (∃ opener outer, trackBrackets [] before.zipIdx = .ok (opener :: outer) ∧ outer.length = 2 ∧
        opener.1.kind = .opening ∧ opener.1.lexeme = Operator.bar) ∧
      ∃ opener closer' position,
        bracketFault? (before ++ closer :: after) = some (.mismatched opener closer', position) ∧
        opener.lexeme = Operator.bar ∧ closer'.lexeme ≠ Operator.bar := by
  let outerBar : Token := ⟨.opening, "|", 1, 1, 0, false⟩
  let square : Token := ⟨.opening, "[", 1, 6, 5, false⟩
  let innerBar : Token := ⟨.opening, "|", 1, 7, 6, false⟩
  let before : List Token := [outerBar, ⟨.identifier, "x", 1, 2, 1, false⟩, ⟨.operator, "+", 1, 4, 3, false⟩,
    square, innerBar, ⟨.identifier, "y", 1, 8, 7, false⟩]
  let closer : Token := ⟨.closing, "|", 1, 9, 8, false⟩
  let round : Token := ⟨.closing, ")", 1, 12, 11, false⟩
  let after : List Token := [⟨.closing, "]", 1, 10, 9, false⟩, round, ⟨.ending, "", 1, 13, 12, false⟩]
  have hscan : scan "|x + [|y|] )" = .ok (before ++ closer :: after) := by decide +kernel
  have hkept : trackBrackets [] before.zipIdx = .ok [(innerBar, 4), (square, 3), (outerBar, 0)] := by
    decide +kernel
  have hfault : bracketFault? (before ++ closer :: after) = some (.mismatched outerBar round, 8) := by
    decide +kernel
  obtain ⟨hmeets, hblamed⟩ := closingBars_of_scan hscan
  obtain ⟨opener, outer, heq, hk, hbar⟩ := hmeets before closer after _ rfl rfl rfl hkept
  refine ⟨before, closer, after, hscan, rfl, rfl, ⟨opener, outer, heq ▸ hkept, ?_, hk, hbar⟩, ?_⟩
  · have := congrArg List.length heq
    simpa using this.symm
  · obtain ⟨_, hopening⟩ | ⟨_, hclosing, -⟩ | ⟨opener', closer', hmismatch, hbars⟩ := hblamed _ _ hfault
    · cases hopening
    · cases hclosing
    · exact ⟨opener', closer', 8, hmismatch ▸ hfault, hbars⟩

end SignLang
