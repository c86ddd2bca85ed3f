import SignLang.Proofs.Layout.Brackets
import SignLang.Proofs.Parser.Pairs
import SignLang.Proofs.Parser.Settled
import SignLang.Proofs.Parser.Words

/-!
# Where groups are closed

The check of the parser finds the partner of every bracket with one stack, before anything is read. Reading
finds it again, because what is read inside of a group is level (`Reads.levels`). So a group is closed where
the check has closed it, and in a list that the check accepts no group runs to the end of the input, and no
closing bracket is left over.

Main statement:

* `closes_of_checkBrackets`: for all token lists that the check accepts.
-/

namespace SignLang

open Cursor SignLang.Parser

namespace Cursor

/-- A cursor is moved on by as many positions as there are tokens. -/
lemma Passes.index_eq {c d : Cursor} {ts : List Token} (h : c.Passes d ts) : d.index = c.index + ts.length := by
  induction ts generalizing c with
  | nil =>
    obtain rfl : c = d := h
    rfl
  | cons t ts ih =>
    obtain ⟨-, hafter, h⟩ := h
    obtain ⟨u, rest, heq⟩ := List.exists_cons_of_ne_nil hafter
    rw [ih h, advance_eq heq, index, index, List.length_cons, List.length_cons]
    omega

/-- A cursor that is moved over tokens stands in the same list. -/
lemma Passes.tokens_eq {c d : Cursor} {ts : List Token} (h : c.Passes d ts) : d.tokens = c.tokens :=
  Reaches.tokens_eq ⟨ts.length, h.skip_eq.symm⟩

end Cursor

namespace Parser

/-- A bracket that opens in a list that the check accepts, and one that closes after a level part, are a
pair. -/
lemma mem_pairsFrom {before inside after : List Token} {opener closer : Token}
    (hbal : Balanced (before ++ opener :: (inside ++ closer :: after))) (hopener : opener.kind = .opening)
    (hcloser : closer.kind = .closing) (hinside : heightAfter 0 inside = some 0) :
    ((opener, before.length), (closer, before.length + 1 + inside.length)) ∈
      pairsFrom [] (before ++ opener :: (inside ++ closer :: after)).zipIdx := by
  rw [Balanced, openAfter_append] at hbal
  obtain ⟨stack, hbefore, hrest⟩ := Option.bind_eq_some_iff.1 hbal
  rw [openAfter_opening hopener, openAfter_append] at hrest
  obtain ⟨stack', hmid, hclose⟩ := Option.bind_eq_some_iff.1 hrest
  obtain ⟨hbalanced, rfl⟩ := Outline.balanced_of_level hmid hinside
  have hfamily : opener.isBar = closer.isBar := by
    rw [openAfter_closing hcloser] at hclose
    by_contra hne
    rw [if_neg hne] at hclose
    cases hclose
  obtain ⟨kept, hkept⟩ : ∃ kept, trackBrackets [] before.zipIdx = .ok kept := by
    have hfamilies := trackBrackets_families [] before.zipIdx
    rw [List.zipIdx_map_fst, show families [] = [] from rfl, hbefore] at hfamilies
    cases htrack : trackBrackets [] before.zipIdx with
    | error found =>
      rw [htrack] at hfamilies
      cases hfamilies
    | ok kept => exact ⟨kept, rfl⟩
  rw [List.zipIdx_append, pairsFrom_append hkept, List.zipIdx_cons, pairsFrom, trackBracket_opening hopener]
  simp only [hopener, reduceCtorEq, if_false]
  rw [List.zipIdx_append, pairsFrom_append (trackBrackets_zipIdx hbalanced _ _),
    List.zipIdx_cons, pairsFrom, trackBracket_closing (opener, _) hcloser hfamily]
  simp [hcloser, Nat.add_comm]

/-- A group is read up to a closing bracket after a level part. -/
lemma Reads.exists_closer {c d : Cursor} {e : Expr} (h : Reads .primary c e d) (ends : c.Ends)
    (hk : c.here.kind = .opening) :
    ∃ m : Cursor, c.advance.Levels m ∧ m.Ends ∧ m.here.kind = .closing ∧ d = m.advance := by
  cases h with
  | atom ha => simp [atom?, hk] at ha
  | thunk hq => simp [kind_of_isSymbol hq] at hk
  | leading hop => simp [hop] at hk
  | bars _ _ _ hreads hclosing | group _ _ _ _ hreads hclosing =>
    exact ⟨_, hreads.levels ends.advance, (hreads.progress ends.advance).1, hclosing, rfl⟩
  | emptyGroup _ _ hclosing => exact ⟨_, .refl _, ends.advance, hclosing, rfl⟩
  | bareSymbol _ _ hfree hclosing =>
    exact ⟨_, .of_operator ends.advance (kind_of_headsPointFree hfree), ends.advance.advance, hclosing, rfl⟩
  | preset _ _ hfree _ hreads hclosing =>
    have ends' := (hreads.progress ends.advance.advance).1
    exact ⟨_, (Levels.of_operator ends.advance (kind_of_headsPointFree hfree)).trans
      ((hreads.levels ends.advance.advance).trans (levels_pastComma ends')), (pastComma_progress ends').1,
      hclosing, rfl⟩

section Balanced

variable {tokens : List Token} {c d : Cursor}

/-- What stands in a list before a part between two cursors and after it. -/
lemma exists_split (h : c.tokens = tokens) {ts : List Token} (hpass : c.Passes d ts) :
    tokens = c.before.reverse ++ (ts ++ d.ahead) := by
  rw [← h, ← hpass.ahead_eq]
  rfl

/-- In a balanced list no group runs to the end of the input. -/
lemma kind_ne_ending_of_levels (hbal : Balanced tokens) (hinner : ∀ t ∈ tokens.dropLast, t.kind ≠ .ending)
    (hc : c.tokens = tokens) (ends : c.Ends) (hk : c.here.kind = .opening) (hlevels : c.advance.Levels d) :
    d.here.kind ≠ .ending := by
  intro hending
  obtain ⟨ts, hpass, hts⟩ := hlevels
  have hall : c.Passes d ([c.here] ++ ts) := passes_append.2 ⟨_, ends.passes (by simp [hk]), hpass⟩
  have hsplit := exists_split hc hall
  -- nothing follows the end of the input, where the group is still open
  have hafter : d.after = [] := by
    refine after_eq_nil_of_ending (c := d) ?_ hending
    rw [hall.tokens_eq, hc]
    exact hinner
  have hheight := hbal.heightAfter 0
  rw [hsplit, ahead, hafter, heightAfter_append] at hheight
  obtain ⟨height, -, hrest⟩ := Option.bind_eq_some_iff.1 hheight
  have hts' := heightAfter_add (height + 1) hts
  rw [Nat.zero_add] at hts'
  rw [List.append_assoc, List.singleton_append, heightAfter_opening hk, heightAfter_append, hts',
    Option.bind_some, heightAfter_other (by simp [Token.isBracket, hending])] at hrest
  cases hrest

/-- In a balanced list no closing bracket follows a level front. -/
lemma kind_ne_closing_of_levels (hbal : Balanced tokens) (hc : c.tokens = tokens) (hstart : c.before = [])
    (hlevels : c.Levels d) : d.here.kind ≠ .closing := by
  intro hclosing
  obtain ⟨ts, hpass, hts⟩ := hlevels
  have hsplit := exists_split hc hpass
  have hheight := hbal.heightAfter 0
  rw [hsplit, hstart, List.reverse_nil, List.nil_append, heightAfter_append, hts, Option.bind_some, ahead,
    heightAfter_zero_closing hclosing] at hheight
  cases hheight

/-- A group of a balanced list is closed at its partner. -/
lemma pair_of_parseGroup (hbal : Balanced tokens) (hc : c.tokens = tokens) (ends : c.Ends)
    (hk : c.here.kind = .opening) {depth : Nat} {e : Expr} (h : parseGroup (parseExpr depth) c = .ok (e, d)) :
    ∃ closer j, ((c.here, c.index), (closer, j)) ∈ pairsFrom [] tokens.zipIdx ∧ d.index = j + 1 := by
  obtain ⟨m, ⟨ts, hpass, hts⟩, ends', hclosing, rfl⟩ :=
    (Sound.group (Reads.of_parseExpr depth) hk h).exists_closer ends hk
  have hall : c.Passes m ([c.here] ++ ts) := passes_append.2 ⟨_, ends.passes (by simp [hk]), hpass⟩
  have hsplit := exists_split hc hall
  rw [ahead, List.append_assoc, List.singleton_append] at hsplit
  subst hsplit
  refine ⟨m.here, _, by simpa [index] using mem_pairsFrom hbal hk hclosing hts, ?_⟩
  rw [(ends'.passes (by simp [hclosing])).index_eq, hall.index_eq]
  simp only [index, List.length_append, List.length_singleton]
  omega

end Balanced

/-- The failure is not that a group runs to the end of the input, nor that a token is left over. -/
def Failure.Closes (f : Failure) : Prop :=
  (∀ opener found, f.fault = .unclosed opener found → found.kind ≠ .ending) ∧
    ∀ found, f.fault ≠ .leftOver found

/-- In a balanced list the parser does not fail at the end of the input in a group. -/
lemma allows_closes {tokens : List Token} (hbal : Balanced tokens)
    (hinner : ∀ t ∈ tokens.dropLast, t.kind ≠ .ending) : Allows tokens Failure.Closes := by
  refine ⟨fun f hf => ⟨?_, ?_⟩, fun c d hc ends hk hlevels _ => ⟨?_, by simp⟩⟩
  · rintro opener found heq
    rw [heq] at hf
    exact hf.elim
  · rintro found heq
    rw [heq] at hf
    exact hf.elim
  · rintro opener found ⟨⟩
    exact kind_ne_ending_of_levels hbal hinner hc ends hk hlevels

/-- In a balanced list the parser closes groups, whatever else it refuses. -/
lemma settles_closes {tokens : List Token} (hbal : Balanced tokens)
    (hinner : ∀ t ∈ tokens.dropLast, t.kind ≠ .ending) (depth n : Nat) :
    Settles tokens n Failure.Closes (parseExpr depth) (parseExpr depth) := by
  induction depth generalizing n with
  | zero => exact ⟨fun p c _ => .error ⟨by simp, by simp⟩, Reads.of_parseExpr 0⟩
  | succ depth ih =>
    cases n with
    | zero => exact ⟨fun p c hc => absurd hc.length_lt (Nat.not_lt_zero _), Reads.of_parseExpr _⟩
    | succ n => exact (ih n).parseExpr (allows_closes hbal hinner)

end Parser

/-- Groups are closed where the check of brackets has closed them. In a token list that the check accepts,
with the end of the input nowhere but at its end, a group that is read from its opening bracket on is left
one position after the partner that the check has found for the bracket. So the parser neither comes to the
end of the input where a group should be closed, nor to a closing bracket after a complete expression. -/
theorem closes_of_checkBrackets {tokens : List Token} (hinner : ∀ t ∈ tokens.dropLast, t.kind ≠ .ending)
    (hcheck : checkBrackets (Cursor.ofTokens tokens) = .ok ()) :
    (∀ (depth : Nat) (c d : Cursor) (e : Expr), c.tokens = (Cursor.ofTokens tokens).tokens →
      c.here.kind = .opening → parseGroup (parseExpr depth) c = .ok (e, d) →
        ∃ closer j, ((c.here, c.index), (closer, j)) ∈ pairsFrom [] (Cursor.ofTokens tokens).tokens.zipIdx ∧
          d.index = j + 1) ∧
      ∀ depth f, buildWithin depth tokens = .error f →
        (∀ opener found, f.fault = .unclosed opener found → found.kind ≠ .ending) ∧
          ∀ found, f.fault = .leftOver found → found.kind ≠ .closing := by
  have hbal : Balanced (Cursor.ofTokens tokens).tokens := by
    refine (bracketFault?_eq_none_iff _).1 ?_
    unfold checkBrackets at hcheck
    split at hcheck
    · assumption
    · cases hcheck
  have ends := Cursor.ofTokens_ends tokens
  refine ⟨fun depth c d e hc hk h => pair_of_parseGroup hbal hc (Cursor.ends_of_tokens_eq hc ends) hk h, ?_⟩
  intro depth f h
  have hc : (Cursor.ofTokens tokens).Within (Cursor.ofTokens tokens).tokens
      ((Cursor.ofTokens tokens).after.length + 1) := ⟨rfl, ends, Nat.lt_succ_self _⟩
  have hsettled := (settles_closes hbal (kind_ne_ending_ofTokens hinner) depth _).parseSequence hc
  unfold buildWithin parseAll at h
  rw [hcheck] at h
  cases hread : parseSequence (parseExpr depth) (Cursor.ofTokens tokens) with
  | error g =>
    rw [hread] at h
    cases h
    obtain ⟨hclosed, hleft⟩ := hsettled.2 _ hread
    exact ⟨hclosed, fun found heq => absurd heq (hleft found)⟩
  | ok r =>
    rw [hread] at h
    change Except.map _ (if r.2.here.kind = .ending then _ else _) = _ at h
    split at h
    · cases h
    · cases h
      refine ⟨by simp, ?_⟩
      rintro found ⟨⟩
      have hlevels := (Sound.sequence (Reads.of_parseExpr depth) hread).levels ends
      exact kind_ne_closing_of_levels hbal rfl (by cases tokens <;> rfl) hlevels

/-- The tokens of `([* 2,] |x|)`: a group with a group without left operand and an absolute value inside. -/
def nestedTokens : List Token :=
  [(.opening, "("), (.opening, "["), (.operator, "*"), (.number, "2"), (.operator, ","), (.closing, "]"),
    (.opening, "|"), (.identifier, "x"), (.closing, "|"), (.closing, ")"), (.ending, "")].map
      fun (kind, lexeme) => Token.emptyEnding.borrow kind lexeme

/-- The outer group of `nestedTokens` is closed at its last bracket. -/
theorem closes_of_nestedTokens :
    ∃ e d closer, parseGroup (parseExpr 8) (Cursor.ofTokens nestedTokens) = .ok (e, d) ∧
      (((Cursor.ofTokens nestedTokens).here, 0), (closer, 9)) ∈ pairsFrom [] nestedTokens.zipIdx ∧
        d.index = 10 := by
  have hinner : ∀ t ∈ nestedTokens.dropLast, t.kind ≠ .ending := by decide
  obtain ⟨hgroup, -⟩ := closes_of_checkBrackets hinner (by decide +kernel)
  obtain ⟨⟨e, d⟩, hread, hindex⟩ : ∃ r, parseGroup (parseExpr 8) (Cursor.ofTokens nestedTokens) = .ok r ∧
      r.2.index = 10 := by
    have h : (parseGroup (parseExpr 8) (Cursor.ofTokens nestedTokens)).toOption.any (·.2.index = 10) := by
      decide +kernel
    generalize parseGroup (parseExpr 8) (Cursor.ofTokens nestedTokens) = outcome at h
    cases outcome with
    | error failure => cases h
    | ok r => exact ⟨r, rfl, by simpa [Except.toOption] using h⟩
  obtain ⟨closer, j, hpair, hj⟩ := hgroup 8 _ d e rfl rfl hread
  obtain rfl : j = 9 := by
    rw [hindex] at hj
    omega
  exact ⟨e, d, closer, hread, hpair, hindex⟩

end SignLang
