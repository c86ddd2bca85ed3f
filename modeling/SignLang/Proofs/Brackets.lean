import Mathlib
import SignLang.Parser.Brackets

/-!
# Balanced brackets

The brackets of a token list are balanced if every closing one has an earlier open one of its family
and none stays open (`Balanced`). Without the families, only the number of open brackets counts
(`heightAfter`): a list whose brackets are balanced never falls below zero.
-/

namespace SignLang

/-- A bracket is a bar. -/
def Token.isBar (t : Token) : Bool :=
  t.lexeme = Operator.bar

/-- The families of the brackets that are open after a token list, innermost first, when those of
`stack` were open before it. There is none if a closing bracket meets no open one of its family. -/
def openAfter (stack : List Bool) : List Token → Option (List Bool)
  | [] => some stack
  | t :: rest =>
    match t.kind with
    | .opening => openAfter (t.isBar :: stack) rest
    | .closing =>
      match stack with
      | [] => none
      | family :: outer => if family = t.isBar then openAfter outer rest else none
    | _ => openAfter stack rest

/-- Every closing bracket has an earlier open one of its family, and no bracket stays open. -/
def Balanced (tokens : List Token) : Prop :=
  openAfter [] tokens = some []

instance (tokens : List Token) : Decidable (Balanced tokens) :=
  inferInstanceAs (Decidable (openAfter [] tokens = some []))

/-- How many brackets are open after a token list, when `height` were open before it. There is no
such number if a closing bracket meets no open one, of whatever family. -/
def heightAfter (height : Nat) : List Token → Option Nat
  | [] => some height
  | t :: rest =>
    match t.kind with
    | .opening => heightAfter (height + 1) rest
    | .closing =>
      match height with
      | 0 => none
      | height + 1 => heightAfter height rest
    | _ => heightAfter height rest

/-- A token is a bracket. -/
def Token.isBracket (t : Token) : Bool :=
  t.kind = .opening || t.kind = .closing

/-- The number of opening brackets. -/
def openings (tokens : List Token) : Nat :=
  tokens.countP (·.kind = .opening)

/-- The number of closing brackets. -/
def closings (tokens : List Token) : Nat :=
  tokens.countP (·.kind = .closing)

/-! ## One token -/

/-- An opening bracket opens its family. -/
lemma openAfter_opening {t : Token} (h : t.kind = .opening) (stack : List Bool)
    (rest : List Token) : openAfter stack (t :: rest) = openAfter (t.isBar :: stack) rest := by
  simp [openAfter, h]

/-- A closing bracket closes the innermost family, if it is its own. -/
lemma openAfter_closing {t : Token} (h : t.kind = .closing) (family : Bool) (stack : List Bool)
    (rest : List Token) : openAfter (family :: stack) (t :: rest) =
      if family = t.isBar then openAfter stack rest else none := by
  simp [openAfter, h]

/-- Nothing is closed where nothing is open. -/
lemma openAfter_nil_closing {t : Token} (h : t.kind = .closing) (rest : List Token) :
    openAfter [] (t :: rest) = none := by
  simp [openAfter, h]

/-- Other tokens open and close nothing. -/
lemma openAfter_other {t : Token} (h : t.isBracket = false) (stack : List Bool)
    (rest : List Token) : openAfter stack (t :: rest) = openAfter stack rest := by
  simp only [Token.isBracket, Bool.or_eq_false_iff, decide_eq_false_iff_not] at h
  rw [openAfter.eq_def]
  dsimp only
  split
  · next hk => exact absurd hk h.1
  · next hk => exact absurd hk h.2
  · rfl

/-- An opening bracket adds one. -/
lemma heightAfter_opening {t : Token} (h : t.kind = .opening) (height : Nat)
    (rest : List Token) : heightAfter height (t :: rest) = heightAfter (height + 1) rest := by
  simp [heightAfter, h]

/-- A closing bracket takes one away. -/
lemma heightAfter_closing {t : Token} (h : t.kind = .closing) (height : Nat)
    (rest : List Token) : heightAfter (height + 1) (t :: rest) = heightAfter height rest := by
  simp [heightAfter, h]

/-- A closing bracket has none to take away at zero. -/
lemma heightAfter_zero_closing {t : Token} (h : t.kind = .closing) (rest : List Token) :
    heightAfter 0 (t :: rest) = none := by
  simp [heightAfter, h]

/-- Other tokens do not count. -/
lemma heightAfter_other {t : Token} (h : t.isBracket = false) (height : Nat)
    (rest : List Token) : heightAfter height (t :: rest) = heightAfter height rest := by
  simp only [Token.isBracket, Bool.or_eq_false_iff, decide_eq_false_iff_not] at h
  rw [heightAfter.eq_def]
  dsimp only
  split
  · next hk => exact absurd hk h.1
  · next hk => exact absurd hk h.2
  · rfl

/-- A token opens, closes or is no bracket. -/
lemma Token.bracket_cases (t : Token) :
    t.kind = .opening ∨ t.kind = .closing ∨ t.isBracket = false := by
  by_cases ho : t.kind = .opening
  · exact .inl ho
  by_cases hc : t.kind = .closing
  · exact .inr (.inl hc)
  · exact .inr (.inr (by simp [Token.isBracket, ho, hc]))

/-! ## Token lists -/

/-- The families open after two lists are those open after the second, from those open after the
first. -/
lemma openAfter_append (stack : List Bool) (ts us : List Token) :
    openAfter stack (ts ++ us) = (openAfter stack ts).bind (openAfter · us) := by
  induction ts generalizing stack with
  | nil => rfl
  | cons t ts ih =>
    rw [List.cons_append]
    rcases t.bracket_cases with h | h | h
    · rw [openAfter_opening h, openAfter_opening h, ih]
    · cases stack with
      | nil => rw [openAfter_nil_closing h, openAfter_nil_closing h]; rfl
      | cons family stack =>
        rw [openAfter_closing h, openAfter_closing h]
        split
        · exact ih stack
        · rfl
    · rw [openAfter_other h, openAfter_other h, ih]

/-- The height after two lists is that after the second, from that after the first. -/
lemma heightAfter_append (height : Nat) (ts us : List Token) :
    heightAfter height (ts ++ us) = (heightAfter height ts).bind (heightAfter · us) := by
  induction ts generalizing height with
  | nil => rfl
  | cons t ts ih =>
    rw [List.cons_append]
    rcases t.bracket_cases with h | h | h
    · rw [heightAfter_opening h, heightAfter_opening h, ih]
    · cases height with
      | zero => rw [heightAfter_zero_closing h, heightAfter_zero_closing h]; rfl
      | succ height => rw [heightAfter_closing h, heightAfter_closing h, ih]
    · rw [heightAfter_other h, heightAfter_other h, ih]

/-- What a list does to the height does not depend on the brackets below. -/
lemma heightAfter_add {height height' : Nat} {ts : List Token} (n : Nat)
    (h : heightAfter height ts = some height') : heightAfter (height + n) ts = some (height' + n) := by
  induction ts generalizing height with
  | nil => cases h; rfl
  | cons t ts ih =>
    rcases t.bracket_cases with ht | ht | ht
    · rw [heightAfter_opening ht] at h ⊢
      rw [Nat.add_right_comm]
      exact ih h
    · cases height with
      | zero => rw [heightAfter_zero_closing ht] at h; cases h
      | succ height =>
        rw [heightAfter_closing ht] at h
        rw [Nat.add_right_comm, heightAfter_closing ht]
        exact ih h
    · rw [heightAfter_other ht] at h ⊢
      exact ih h

/-- Only the brackets of a list open and close families. -/
lemma openAfter_filter {keep : Token → Bool} (hkeep : ∀ t, t.isBracket → keep t)
    (stack : List Bool) (ts : List Token) :
    openAfter stack (ts.filter keep) = openAfter stack ts := by
  induction ts generalizing stack with
  | nil => rfl
  | cons t ts ih =>
    by_cases hb : t.isBracket
    · rw [List.filter_cons_of_pos (hkeep t hb), ← List.singleton_append,
        ← List.singleton_append (l := ts), openAfter_append, openAfter_append]
      simp only [ih]
    · rw [Bool.not_eq_true] at hb
      rw [openAfter_other hb, List.filter_cons]
      split
      · rw [openAfter_other hb, ih]
      · exact ih stack

/-- Where families match, the number of open brackets is known. -/
lemma heightAfter_of_openAfter {stack stack' : List Bool} {ts : List Token}
    (h : openAfter stack ts = some stack') : heightAfter stack.length ts = some stack'.length := by
  induction ts generalizing stack with
  | nil => cases h; rfl
  | cons t ts ih =>
    rcases t.bracket_cases with ht | ht | ht
    · rw [openAfter_opening ht] at h
      rw [heightAfter_opening ht]
      exact ih h
    · cases stack with
      | nil => rw [openAfter_nil_closing ht] at h; cases h
      | cons family stack =>
        rw [openAfter_closing ht] at h
        rw [List.length_cons, heightAfter_closing ht]
        split at h
        · exact ih h
        · cases h
    · rw [openAfter_other ht] at h
      rw [heightAfter_other ht]
      exact ih h

/-- A list that never falls below the height at which it starts leaves the brackets alone that were
open before. -/
lemma openAfter_frame {a outer stack' : List Bool} {height : Nat} {ts : List Token}
    (h : openAfter (a ++ outer) ts = some stack')
    (hheight : heightAfter a.length ts = some height) :
    ∃ inner, stack' = inner ++ outer ∧ inner.length = height ∧ openAfter a ts = some inner := by
  induction ts generalizing a with
  | nil =>
    cases h
    cases hheight
    exact ⟨a, rfl, rfl, rfl⟩
  | cons t ts ih =>
    rcases t.bracket_cases with ht | ht | ht
    · rw [openAfter_opening ht] at h ⊢
      rw [heightAfter_opening ht] at hheight
      exact ih (a := t.isBar :: a) h hheight
    · cases a with
      | nil => rw [List.length_nil, heightAfter_zero_closing ht] at hheight; cases hheight
      | cons family a =>
        rw [List.cons_append, openAfter_closing ht] at h
        rw [List.length_cons, heightAfter_closing ht] at hheight
        rw [openAfter_closing ht]
        split at h
        · next hf =>
          rw [if_pos hf]
          exact ih h hheight
        · cases h
    · rw [openAfter_other ht] at h ⊢
      rw [heightAfter_other ht] at hheight
      exact ih h hheight

/-- What a list does to the brackets that are open inside of others does not depend on those. -/
lemma openAfter_extend {inner inner' : List Bool} {ts : List Token} (outer : List Bool)
    (h : openAfter inner ts = some inner') :
    openAfter (inner ++ outer) ts = some (inner' ++ outer) := by
  induction ts generalizing inner with
  | nil => cases h; rfl
  | cons t ts ih =>
    rcases t.bracket_cases with ht | ht | ht
    · rw [openAfter_opening ht] at h ⊢
      exact ih h
    · cases inner with
      | nil => rw [openAfter_nil_closing ht] at h; cases h
      | cons family inner =>
        rw [openAfter_closing ht] at h
        rw [List.cons_append, openAfter_closing ht]
        split at h
        · next hf =>
          rw [if_pos hf]
          exact ih h
        · cases h
    · rw [openAfter_other ht] at h ⊢
      exact ih h

/-- A balanced list changes nothing. -/
lemma Balanced.openAfter {ts : List Token} (h : Balanced ts) (stack : List Bool) :
    openAfter stack ts = some stack :=
  openAfter_extend stack h

/-- What closes all that it opens leaves the number of open brackets as it is. -/
lemma Balanced.heightAfter {ts : List Token} (h : Balanced ts) (n : Nat) :
    heightAfter n ts = some n := by
  simpa using heightAfter_of_openAfter (h.openAfter (List.replicate n false))

/-- Heights count the brackets. -/
lemma heightAfter_count {height height' : Nat} {ts : List Token}
    (h : heightAfter height ts = some height') :
    height + openings ts = height' + closings ts := by
  induction ts generalizing height with
  | nil => cases h; rfl
  | cons t ts ih =>
    rcases t.bracket_cases with ht | ht | ht
    · rw [heightAfter_opening ht] at h
      have := ih h
      simp only [openings, closings, List.countP_cons, ht] at this ⊢
      simp only [decide_true, if_true, reduceCtorEq, decide_false, Bool.false_eq_true, if_false]
      omega
    · cases height with
      | zero => rw [heightAfter_zero_closing ht] at h; cases h
      | succ height =>
        rw [heightAfter_closing ht] at h
        have := ih h
        simp only [openings, closings, List.countP_cons, ht] at this ⊢
        simp only [decide_true, if_true, reduceCtorEq, decide_false, Bool.false_eq_true, if_false]
        omega
    · rw [heightAfter_other ht] at h
      simp only [Token.isBracket, Bool.or_eq_false_iff] at ht
      have := ih h
      simp only [openings, closings, List.countP_cons, ht] at this ⊢
      simpa using this

/-- A list falls below zero exactly if some front of it closes more brackets than it opens. -/
lemma heightAfter_isSome_iff {height : Nat} {ts : List Token} :
    (heightAfter height ts).isSome ↔ ∀ us, us <+: ts → closings us ≤ height + openings us := by
  constructor
  · rintro h us ⟨vs, rfl⟩
    rw [heightAfter_append] at h
    cases hus : heightAfter height us with
    | none => simp [hus] at h
    | some height' =>
      have := heightAfter_count hus
      omega
  · intro h
    induction ts generalizing height with
    | nil => rfl
    | cons t ts ih =>
      have hcons (us : List Token) (hus : us <+: ts) := h (t :: us) ((List.prefix_cons_inj t).2 hus)
      simp only [openings, closings, List.countP_cons] at hcons
      rcases t.bracket_cases with ht | ht | ht
      · rw [heightAfter_opening ht]
        refine ih fun us hus => ?_
        have := hcons us hus
        simp only [ht, decide_true, if_true, reduceCtorEq, decide_false, Bool.false_eq_true,
          if_false] at this
        simp only [openings, closings]
        omega
      · cases height with
        | zero =>
          have := hcons [] List.nil_prefix
          simp [ht] at this
        | succ height =>
          rw [heightAfter_closing ht]
          refine ih fun us hus => ?_
          have := hcons us hus
          simp only [ht, decide_true, if_true, reduceCtorEq, decide_false, Bool.false_eq_true,
            if_false] at this
          simp only [openings, closings]
          omega
      · rw [heightAfter_other ht]
        refine ih fun us hus => ?_
        have := hcons us hus
        simp only [Token.isBracket, Bool.or_eq_false_iff] at ht
        simpa [ht, openings, closings] using this

/-! ## The check of the parser -/

namespace Parser

/-- The families of the brackets that the check keeps. -/
def families (opened : OpenBrackets) : List Bool :=
  opened.map (·.1.isBar)

/-- The check keeps track of families. -/
lemma trackBrackets_families (opened : OpenBrackets) (entries : List (Token × Nat)) :
    (trackBrackets opened entries).toOption.map families =
      openAfter (families opened) (entries.map (·.1)) := by
  induction entries generalizing opened with
  | nil => rfl
  | cons entry entries ih =>
    rw [List.map_cons]
    unfold trackBrackets trackBracket
    rcases entry.1.bracket_cases with h | h | h
    · rw [openAfter_opening h, h]
      exact ih (entry :: opened)
    · rw [h]
      cases opened with
      | nil => rw [families, List.map_nil, openAfter_nil_closing h]; rfl
      | cons opener outer =>
        rw [families, List.map_cons, openAfter_closing h]
        have hsame : sameFamily opener.1 entry.1 = true ↔ opener.1.isBar = entry.1.isBar := by
          simp [sameFamily, Token.isBar, decide_eq_decide]
        by_cases hf : opener.1.isBar = entry.1.isBar
        · simp only [hsame.2 hf, hf, if_true]
          exact ih outer
        · simp only [mt hsame.1 hf, if_neg hf]
          rfl
    · rw [openAfter_other h]
      simp only [Token.isBracket, Bool.or_eq_false_iff, decide_eq_false_iff_not] at h
      split
      · next heq =>
        split at heq
        · next hk => exact absurd hk h.1
        · next hk => exact absurd hk h.2
        · cases heq
      · next heq =>
        split at heq
        · next hk => exact absurd hk h.1
        · next hk => exact absurd hk h.2
        · cases heq
          exact ih _

/-- The check accepts the token lists whose brackets are balanced, and no others. -/
lemma bracketFault?_eq_none_iff (tokens : List Token) :
    bracketFault? tokens = none ↔ Balanced tokens := by
  have h := trackBrackets_families [] tokens.zipIdx
  rw [List.zipIdx_map_fst] at h
  unfold Balanced
  rw [show ([] : List Bool) = families [] from rfl, ← h]
  unfold bracketFault?
  cases trackBrackets [] tokens.zipIdx with
  | error found => simp [Except.toOption]
  | ok opened =>
    cases opened with
    | nil => simp [Except.toOption, families]
    | cons opener outer => simp [Except.toOption, families]

/-- The check keeps opening brackets only. -/
lemma kind_of_trackBrackets {opened opened' : OpenBrackets} {entries : List (Token × Nat)}
    (h : trackBrackets opened entries = .ok opened')
    (hopened : ∀ entry ∈ opened, entry.1.kind = .opening) :
    ∀ entry ∈ opened', entry.1.kind = .opening := by
  induction entries generalizing opened with
  | nil =>
    cases h
    exact hopened
  | cons entry entries ih =>
    unfold trackBrackets at h
    split at h
    · cases h
    next kept hkept =>
    refine ih h ?_
    unfold trackBracket at hkept
    split at hkept
    · next hk =>
      cases hkept
      exact List.forall_mem_cons.2 ⟨hk, hopened⟩
    · split at hkept
      · cases hkept
      · split at hkept <;> cases hkept
        exact fun entry hentry => hopened entry (List.mem_cons_of_mem _ hentry)
    · cases hkept
      exact hopened

/-- A fault shows at some token, after the brackets before it have been tracked. -/
lemma exists_of_trackBrackets_error {opened : OpenBrackets} {entries : List (Token × Nat)} {found : Fault × Nat}
    (h : trackBrackets opened entries = .error found) :
    ∃ before entry after kept, entries = before ++ entry :: after ∧
      trackBrackets opened before = .ok kept ∧ trackBracket kept entry = .error found := by
  induction entries generalizing opened with
  | nil => cases h
  | cons entry entries ih =>
    unfold trackBrackets at h
    split at h
    · next hfound =>
      cases h
      exact ⟨[], entry, entries, opened, rfl, rfl, hfound⟩
    · next kept hkept =>
      obtain ⟨before, entry', after, kept', rfl, hbefore, hfound⟩ := ih h
      refine ⟨entry :: before, entry', after, kept', rfl, ?_, hfound⟩
      rw [trackBrackets, hkept]
      exact hbefore

/-- The tokens before one of a list, at their positions, are those before its entry. -/
lemma exists_of_zipIdx_eq {tokens : List Token} {before after : List (Token × Nat)} {entry : Token × Nat}
    (h : tokens.zipIdx = before ++ entry :: after) :
    ∃ ts us, tokens = ts ++ entry.1 :: us ∧ before = ts.zipIdx := by
  have hfst := congrArg (List.map Prod.fst) h
  rw [List.zipIdx_map_fst, List.map_append, List.map_cons] at hfst
  refine ⟨_, _, hfst, ?_⟩
  rw [hfst, List.zipIdx_append] at h
  exact (List.append_inj h (by simp)).1.symm

end Parser

end SignLang
