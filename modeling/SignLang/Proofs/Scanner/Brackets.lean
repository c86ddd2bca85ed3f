import SignLang.Proofs.Brackets
import SignLang.Proofs.Scanner.Alike

/-!
# The brackets that a scanner keeps

A scanner counts the brackets that are open, and keeps the count at which each absolute value was opened.
As long as the brackets behind it match, both are determined by the families that are open there
(`Scanner.Steps.keeps`).
-/

namespace SignLang.Scanner

open Lexeme

/-- How many of the open brackets are no bars. -/
def depthOf (stack : List Bool) : Nat :=
  stack.count false

/-- The bracket depth at which each of the open bars was opened. -/
def barsOf : List Bool → List Nat
  | [] => []
  | true :: stack => depthOf stack :: barsOf stack
  | false :: stack => barsOf stack

/-- The scanner keeps what the open brackets tell. -/
structure Keeps (s : Scanner) (stack : List Bool) : Prop where
  depth : s.depth = depthOf stack
  bars : s.bars = barsOf stack

lemma le_depthOf {stack : List Bool} : ∀ n ∈ barsOf stack, n ≤ depthOf stack := by
  induction stack with
  | nil => simp [barsOf]
  | cons family stack ih =>
    cases family with
    | true =>
      rw [barsOf, List.forall_mem_cons, depthOf, depthOf, List.count_cons_of_ne (by simp)]
      exact ⟨le_rfl, ih⟩
    | false =>
      rw [barsOf, depthOf, List.count_cons_self]
      exact fun n hn => (ih n hn).trans (Nat.le_succ _)

variable {s m : Scanner}

/-- A bar is the token of a single bar. -/
lemma isBar_eq {t : Token} {k : Kind} {w : List Char} {n : Int} (h : t.Spells k (String.ofList w) n) :
    t.isBar = decide (w = ['|']) := by
  rw [Token.isBar, h.lexeme_eq, decide_eq_decide]
  exact ⟨fun h => String.ofList_injective h, fun h => by rw [h]; rfl⟩

/-- An opening bracket is kept. -/
lemma Keeps.opening {stack : List Bool} {w : List Char} (h : s.Keeps stack) (hreads : s.Reads .opening w m) :
    m.Keeps (decide (w = ['|']) :: stack) := by
  by_cases hbar : w = ['|']
  · refine ⟨?_, ?_⟩
    · rw [hreads.depth, depthAfter, if_pos hbar, h.depth, depthOf, depthOf, List.count_cons_of_ne (by simp [hbar])]
    · rw [hreads.bars, barsAfter, if_pos rfl, if_pos hbar, h.depth, h.bars, decide_eq_true hbar, barsOf]
  · refine ⟨?_, ?_⟩
    · rw [hreads.depth, depthAfter, if_neg hbar, if_pos rfl, h.depth, depthOf, depthOf, decide_eq_false hbar,
        List.count_cons_self]
    · rw [hreads.bars, barsAfter, if_pos rfl, if_neg hbar, h.bars, decide_eq_false hbar, barsOf]

/-- A closing bracket is taken from those that are kept. -/
lemma Keeps.closing {stack : List Bool} {w : List Char} (h : s.Keeps (decide (w = ['|']) :: stack))
    (hreads : s.Reads .closing w m) : m.Keeps stack := by
  obtain ⟨hdepth, hbars⟩ := h
  by_cases hbar : w = ['|']
  · rw [decide_eq_true hbar] at hdepth hbars
    refine ⟨?_, ?_⟩
    · rw [hreads.depth, depthAfter, if_pos hbar, hdepth, depthOf, depthOf, List.count_cons_of_ne (by simp)]
    · rw [hreads.bars, barsAfter, if_neg (by simp), if_pos rfl, if_pos hbar, hbars, barsOf, List.tail_cons]
  · rw [decide_eq_false hbar] at hdepth hbars
    rw [depthOf, List.count_cons_self] at hdepth
    rw [barsOf] at hbars
    refine ⟨?_, ?_⟩
    · rw [hreads.depth, depthAfter, if_neg hbar, if_neg (by simp), if_pos rfl, hdepth, depthOf]
      rfl
    · rw [hreads.bars, barsAfter, if_neg (by simp), if_pos rfl, if_neg hbar, hbars, hdepth, Nat.add_sub_cancel]
      -- no absolute value is open that was opened deeper than what is left
      have hle : ∀ n ∈ barsOf stack, n ≤ depthOf stack := le_depthOf
      cases hb : barsOf stack with
      | nil => rfl
      | cons n bars =>
        rw [hb, List.forall_mem_cons] at hle
        exact List.dropWhile_cons_of_neg (by simpa [depthOf] using hle.1)

/-- A step keeps what is open after its token. -/
lemma Stepped.keeps {w : List Char} {stack : List Bool} (h : s.Stepped m w)
    (hs : ∀ stack, openAfter [] s.emitted.reverse = some stack → s.Keeps stack)
    (hm : openAfter [] m.emitted.reverse = some stack) : m.Keeps stack := by
  have hmoves (hmoves : s.Moves w m) (h : openAfter [] s.emitted.reverse = some stack) : m.Keeps stack :=
    ⟨hmoves.depth.trans (hs stack h).depth, hmoves.bars.trans (hs stack h).bars⟩
  have hconcat {t : Token} (ht : m.emitted = t :: s.emitted) : ∃ stack₀,
      openAfter [] s.emitted.reverse = some stack₀ ∧ openAfter stack₀ [t] = some stack := by
    rw [ht, List.reverse_cons, openAfter_append] at hm
    exact Option.bind_eq_some_iff.1 hm
  cases h with
  | @token k hin hreads hlexes =>
    obtain ⟨t, ht, hspells⟩ := hreads.emitted
    obtain ⟨stack₀, hstack₀, hlast⟩ := hconcat ht
    have hkept := hs stack₀ hstack₀
    by_cases hopening : k = .opening
    · subst hopening
      rw [openAfter_opening hspells.kind_eq, isBar_eq hspells] at hlast
      cases hlast
      exact hkept.opening hreads
    by_cases hclosing : k = .closing
    · subst hclosing
      cases stack₀ with
      | nil =>
        rw [openAfter_nil_closing hspells.kind_eq] at hlast
        cases hlast
      | cons family stack₀ =>
        rw [openAfter_closing hspells.kind_eq, isBar_eq hspells] at hlast
        split at hlast
        · next hfamily =>
          cases hlast
          exact Keeps.closing (hfamily ▸ hkept) hreads
        · cases hlast
    · rw [openAfter_other (by simp [Token.isBracket, hspells.kind_eq, hopening, hclosing])] at hlast
      cases hlast
      refine ⟨?_, ?_⟩
      · rw [hreads.depth_eq ⟨hopening, hclosing⟩, hkept.depth]
      · rw [hreads.bars_eq ⟨hopening, hclosing⟩, hkept.bars]
  | spaces _ _ _ _ h hemitted | blank _ _ _ h hemitted => exact hmoves h (hemitted ▸ hm)
  | margin _ _ _ h hemitted =>
    split at hemitted
    · obtain ⟨t, ht, hspells⟩ := hemitted
      obtain ⟨stack₀, hstack₀, hlast⟩ := hconcat ht
      rw [openAfter_other (by simp [Token.isBracket, hspells.kind_eq])] at hlast
      cases hlast
      exact hmoves h hstack₀
    · exact hmoves h (hemitted ▸ hm)

/-- A scanner keeps the brackets that are open after what it has read. -/
theorem Steps.keeps {text : List Char} (h : (ofText text).Steps m) {stack : List Bool}
    (hm : openAfter [] m.emitted.reverse = some stack) : m.Keeps stack := by
  induction h generalizing stack with
  | refl =>
    cases hm
    exact ⟨rfl, rfl⟩
  | tail _ hstep ih =>
    obtain ⟨w, hw⟩ := hstep.stepped
    exact hw.keeps (fun _ => ih) hm

end SignLang.Scanner
