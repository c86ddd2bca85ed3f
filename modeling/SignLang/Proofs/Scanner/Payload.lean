import SignLang.Proofs.Scanner.Alike

/-!
# What literals hold

The payload of a string or a character literal is replaced in a text (`Token.replaceIn`). The tokens of
the text stay the same but for the literal itself, with one exception: a bar looks at the character
directly before it, and takes a bracket that is the payload of a character literal for one that the
program opens (`Leaks`).

* `Scanner.exists_read`: where a token of a text was read.
* `Scanner.near_of_reads`: after a literal only the bracket in its payload can be told.
* `scan_replaceIn_iff`: the payloads that change nothing else.
-/

namespace SignLang

open Lexeme

/-- The lexeme of a literal with the payload. -/
def literal (k : Kind) (payload : List Char) : List Char :=
  if k = .string then tick :: payload ++ [tick] else '\\' :: payload

/-- The text can be the payload of a literal of the kind; that of a character literal is no space. -/
def IsPayload : Kind → List Char → Prop
  | .string, payload => payload.all isStringChar
  | .character, payload => ∃ c, payload = [c] ∧ isGap c = false
  | _, _ => False

/-- The text with another lexeme in the place of the token. -/
def Token.replaceIn (t : Token) (text lexeme : List Char) : List Char :=
  text.take t.offset.toNat ++ lexeme ++ text.drop t.stop.toNat

/-- One of two lexemes ends with an opening bracket and the other does not, and they stand before a bar
with space or a closing bracket on its right. -/
def Leaks (w w' r : List Char) : Prop :=
  w.getLast?.any isOpener ≠ w'.getLast?.any isOpener ∧ ∃ r', r = '|' :: r' ∧ Scanner.rightFree r'

/-- A literal is a string or a character. -/
lemma IsPayload.kind {k : Kind} {payload : List Char} (h : IsPayload k payload) :
    k = .string ∨ k = .character := by
  cases k with
  | string => exact .inl rfl
  | character => exact .inr rfl
  | _ => exact h.elim

/-- A literal with a payload does not end with a space. -/
lemma IsPayload.getLast? {k : Kind} {payload : List Char} (h : IsPayload k payload) :
    ∃ c, (literal k payload).getLast? = some c ∧ isGap c = false := by
  obtain rfl | rfl := h.kind
  · refine ⟨tick, ?_, by decide⟩
    rw [literal, if_pos rfl, List.getLast?_append_of_ne_nil _ (by simp)]
    rfl
  · obtain ⟨c, rfl, hc⟩ := h
    exact ⟨c, rfl, hc⟩

namespace Scanner

variable {s s' m m' : Scanner} {k : Kind} {w r : List Char}

/-- A literal is read wherever it stands. -/
lemma lexes_literal {payload : List Char} (h : IsPayload k payload) (s : Scanner) (r : List Char) :
    s.Lexes r (literal k payload) k := by
  obtain rfl | rfl := h.kind
  · exact ⟨payload, rfl, h⟩
  · obtain ⟨c, rfl, -⟩ := h
    exact ⟨c, rfl⟩

/-- A token of a text, other than its indentation, was read where it stands. -/
lemma exists_read {text : List Char} {f : Scanner} (hrun : (ofText text).run = .ok f)
    {before after : List Token} {t : Token} (ht : f.emitted.reverse = before ++ t :: after)
    (hk : t.kind ≠ .indent) :
    ∃ u v w, (ofText text).Steps u ∧ v.Steps f ∧ u.Step v ∧ u.atLineStart = false ∧
      u.Reads t.kind w v ∧ u.Lexes v.rest w t.kind ∧ v.emitted = t :: u.emitted ∧
      u.emitted.reverse = before ∧ t.Spells t.kind (String.ofList w) u.offset := by
  obtain ⟨hsteps, -⟩ := steps_of_run hrun
  obtain ⟨u, v, hu, huv, hv, heq, hbefore⟩ := hsteps.exists_step ht (by simp [ofText])
  obtain ⟨w, hw⟩ := huv.stepped
  cases hw with
  | @token k hin hreads hlexes =>
    obtain ⟨t', ht', hspells⟩ := hreads.emitted
    rw [heq] at ht'
    obtain ⟨rfl, -⟩ := List.cons.inj ht'
    obtain rfl := hspells.kind_eq
    exact ⟨u, v, w, hu, hv, huv, hin, hreads, hlexes, heq, hbefore, hspells⟩
  | spaces _ _ _ _ _ hemitted | blank _ _ _ _ hemitted =>
    rw [heq] at hemitted
    simp at hemitted
  | margin _ _ _ _ hemitted =>
    split at hemitted
    · obtain ⟨t', ht', hspells⟩ := hemitted
      rw [heq] at ht'
      obtain ⟨rfl, -⟩ := List.cons.inj ht'
      exact absurd hspells.kind_eq hk
    · rw [heq] at hemitted
      simp at hemitted

section Literal

variable {payload payload' : List Char}

/-- What stands on the left after a literal. -/
lemma leftFree_of_reads (h : IsPayload k payload) (hm : s.Reads k (literal k payload) m) :
    m.behind.head?.all isGap = false ∧
      m.leftFree = (literal k payload).getLast?.any isOpener := by
  obtain ⟨c, hlast, hc⟩ := h.getLast?
  have hne : literal k payload ≠ [] := by
    intro heq
    rw [heq] at hlast
    cases hlast
  have hbehind : m.behind.head? = some c := (hm.head?_behind hne).trans hlast
  rw [leftFree, hbehind, hlast]
  simp [hc]

/-- After literals of one kind two scanners see the same, but for a bracket in the payload. -/
lemma near_of_reads {distance : Int} (h : s.Alike distance s') (hp : IsPayload k payload)
    (hp' : IsPayload k payload') (hm : s.Reads k (literal k payload) m)
    (hm' : s'.Reads k (literal k payload') m') :
    m.Near (distance + (literal k payload').length - (literal k payload).length) m' := by
  have hk : k ≠ .opening ∧ k ≠ .closing := by rcases hp.kind with rfl | rfl <;> decide
  obtain ⟨t, ht, hspells⟩ := hm.emitted
  obtain ⟨t', ht', hspells'⟩ := hm'.emitted
  refine ⟨?_, hm'.start.trans hm.start.symm, ?_, ?_, ?_, hm'.afterOpening.trans hm.afterOpening.symm,
    ?_, ?_⟩
  · have := h.offset
    rw [hm.offset, hm'.offset]
    omega
  · rw [hm.depth_eq hk, hm'.depth_eq hk, h.depth]
  · rw [hm.bars_eq hk, hm'.bars_eq hk, h.bars]
  · rw [(leftFree_of_reads hp hm).1, (leftFree_of_reads hp' hm').1]
  · simp [ht, hm.stop_eq hspells]
  · simp [ht', hm'.stop_eq hspells']

end Literal

/-- The scanner reads another literal in the place of one, with the same before it and, but for a
bracket in the payload, after it. -/
lemma exists_replaced {text x : List Char} {u v f : Scanner} {payload payload' : List Char}
    (hu : (ofText text).Steps u) (hx : text = x ++ u.rest) (hrun : u.run = .ok f)
    (hin : u.atLineStart = false) (hp : IsPayload k payload) (hp' : IsPayload k payload')
    (hreads : u.Reads k (literal k payload) v) :
    ∃ (v' : Scanner) (t' : Token) (ts' : List Token),
      (ofText (x ++ (literal k payload' ++ v.rest))).Steps v' ∧ v'.rest = v.rest ∧
      v'.leftFree = (literal k payload').getLast?.any isOpener ∧ (∃ distance, v.Near distance v') ∧
      v'.emitted = t' :: ts' ∧ List.Forall₂ Token.Same u.emitted ts' ∧
      t'.kind = k ∧ t'.lexeme = String.ofList (literal k payload') := by
  have hhead : ∃ c, (literal k payload ++ v.rest).head? = some c ∧
      (literal k payload' ++ v.rest).head? = some c ∧ c ≠ '\n' := by
    obtain rfl | rfl := hp.kind
    · exact ⟨tick, rfl, rfl, by decide⟩
    · exact ⟨'\\', rfl, rfl, by decide⟩
  obtain ⟨c, hc, hc', hne⟩ := hhead
  obtain ⟨u', hu', hrest', halike, ts, ts', hts, hts', hmoved⟩ := Alike.steps hu
    (alike_ofText text (x ++ (literal k payload' ++ v.rest))) hx rfl
    (.inl (by rw [hreads.rest, hc, hc'])) hrun fun _ => by simpa [hc'] using hne
  rw [show u.emitted = ts by simpa [ofText] using hts]
  obtain ⟨v', hstep, hreads', hv'⟩ := exists_step_of_lexes (halike.start.trans hin) hrest'
    (lexes_literal hp' u' v.rest)
  obtain ⟨t', ht', hspells⟩ := hreads'.emitted
  refine ⟨v', t', u'.emitted, hu'.tail hstep, hv', (leftFree_of_reads hp' hreads').2,
    ⟨_, near_of_reads halike hp hp' hreads hreads'⟩, ht', ?_, hspells.kind_eq, hspells.lexeme_eq⟩
  rw [show u'.emitted = ts' by simpa [ofText] using hts']
  exact hmoved.imp fun _ _ h => h.toSame

/-- A bar with space on its right is an operator if it has space or an opening bracket on its left. -/
lemma exists_bar {f : Scanner} (hrun : s.run = .ok f) (hin : s.atLineStart = false)
    (hrest : s.rest = '|' :: r) (hr : rightFree r) :
    ∃ (b : Token) (ts : List Token), f.emitted = ts ++ b :: s.emitted ∧
      (b.kind = .operator ↔ s.leftFree) := by
  obtain ⟨hsteps, hf⟩ := steps_of_run hrun
  obtain heq | ⟨m, hstep, hsteps⟩ := Relation.ReflTransGen.cases_head hsteps
  · rw [heq, hf] at hrest
    cases hrest
  have hscan : s.setMark.scanBar = .ok m := by
    have h := hstep.2
    rw [step, if_neg (by simp [hin]), if_neg (by simp [hrest, isSpace]), scanToken,
      show s.setMark.rest = '|' :: r from hrest] at h
    exact h
  obtain ⟨k, hk⟩ := barKind?_isSome hrest hscan
  obtain ⟨m', hm', hreads, -⟩ := Reads.of_bar hin hrest hk
  cases hm'.symm.trans hscan
  obtain ⟨b, hb, hspells⟩ := hreads.emitted
  obtain ⟨ts, hts⟩ := Steps.exists_emitted hsteps
  refine ⟨b, ts, by rw [hts, hb], ?_⟩
  rw [hspells.kind_eq]
  rw [hr] at hk
  cases hleft : s.leftFree <;> cases hclose : s.canClose <;>
    simp [barKind?, roleOf, hleft, hclose] at hk <;> simp [← hk]

end Scanner

open Scanner

/-- The tokens before the end of a text are those that its run has read. -/
lemma scan_eq_ok_of_mem {text : List Char} {before after : List Token} {t : Token}
    (hscan : scan (String.ofList text) = .ok (before ++ t :: after)) (ht : t.kind ≠ .ending) :
    ∃ (f : Scanner) (after₀ : List Token), (ofText text).run = .ok f ∧
      f.emitted.reverse = before ++ t :: after₀ ∧
      after = after₀ ++ [⟨.ending, "", f.line, f.column, f.offset, false⟩] := by
  obtain ⟨f, hrun, htokens⟩ := scan_eq_ok.1 hscan
  obtain rfl | ⟨after₀, e, rfl⟩ := after.eq_nil_or_concat
  · obtain ⟨-, heq⟩ := List.append_inj' htokens rfl
    obtain ⟨rfl, -⟩ := List.cons.inj heq
    exact absurd rfl ht
  · rw [List.concat_eq_append, ← List.cons_append, ← List.append_assoc] at htokens
    obtain ⟨hemitted, heq⟩ := List.append_inj' htokens rfl
    exact ⟨f, after₀, hrun, hemitted.symm, by rw [List.concat_eq_append, heq]⟩

/-- The text around a token that was read. -/
lemma exists_text {text w : List Char} {k : Kind} {u v : Scanner} {t : Token}
    (hu : (ofText text).Steps u) (hreads : u.Reads k w v)
    (hspells : t.Spells k (String.ofList w) u.offset) :
    ∃ x, text = x ++ u.rest ∧ text.drop t.stop.toNat = v.rest ∧
      ∀ w', t.replaceIn text w' = x ++ (w' ++ v.rest) := by
  obtain ⟨x, hx⟩ := hu.exists_rest
  replace hx : text = x ++ u.rest := hx
  have hoffset : u.offset = x.length := by
    have := hu.offset_add
    simp only [ofText, hx, List.length_append] at this
    omega
  have hstop : t.stop.toNat = x.length + w.length := by
    rw [hreads.stop_eq hspells, hreads.offset, hoffset, Int.toNat_natCast]
  have hdrop : text.drop t.stop.toNat = v.rest := by
    rw [hstop, hx, hreads.rest, ← List.append_assoc, ← List.length_append, List.drop_left]
  refine ⟨x, hx, hdrop, fun w' => ?_⟩
  rw [Token.replaceIn, hdrop, hspells.offset_eq, Int.toNat_natCast, hoffset, hx, List.take_left,
    List.append_assoc]

/-- Replacing the payload of a literal changes no other token of a text, neither its kind nor its
lexeme, exactly if no bar takes a bracket in a payload for an open one. -/
theorem scan_replaceIn_iff {text payload payload' : List Char} {before after : List Token} {t : Token}
    (hscan : scan (String.ofList text) = .ok (before ++ t :: after))
    (ht : t.lexeme = String.ofList (literal t.kind payload)) (hp : IsPayload t.kind payload)
    (hp' : IsPayload t.kind payload') :
    (∃ before' after' t', scan (String.ofList (t.replaceIn text (literal t.kind payload'))) =
        .ok (before' ++ t' :: after') ∧ List.Forall₂ Token.Same before before' ∧
      t'.kind = t.kind ∧ t'.lexeme = String.ofList (literal t.kind payload') ∧
      List.Forall₂ Token.Same after after') ↔
    ¬ Leaks (literal t.kind payload) (literal t.kind payload') (text.drop t.stop.toNat) := by
  have hkind : t.kind ≠ .ending ∧ t.kind ≠ .indent := by rcases hp.kind with h | h <;> simp [h]
  obtain ⟨f, after₀, hrun, hemitted, rfl⟩ := scan_eq_ok_of_mem hscan hkind.1
  obtain ⟨u, v, w, hu, hv, huv, hin, hreads, -, hvt, rfl, hspells⟩ := exists_read hrun hemitted hkind.2
  obtain rfl : w = literal t.kind payload := String.ofList_injective (hspells.lexeme_eq.symm.trans ht)
  obtain ⟨x, hx, hdrop, hreplace⟩ := exists_text hu hreads hspells
  rw [hdrop, hreplace]
  have hvrun : v.run = .ok f := (Steps.run_eq (hu.tail huv)).symm.trans hrun
  have hvin : v.atLineStart = false := by
    rw [hreads.start]
    rcases hp.kind with h | h <;> simp [h]
  have hleft := (leftFree_of_reads hp hreads).2
  obtain ⟨v', t', ts', hv', hrest', hleft', ⟨distance, hnear⟩, hvt', hsame, hk', hl'⟩ :=
    exists_replaced hu hx ((Steps.run_eq hu).symm.trans hrun) hin hp hp' hreads
  have hvin' : v'.atLineStart = false := hnear.start.trans hvin
  constructor
  · -- the bar after the literal is an operator in one of the texts only
    rintro ⟨before', after', t'', hscan', hbefore, -, -, hafter⟩ ⟨hne, r, hr, hfree⟩
    obtain ⟨f', hrun', htokens'⟩ := scan_eq_ok.1 hscan'
    obtain ⟨b, ts, hb, hoperator⟩ := exists_bar hvrun hvin hr hfree
    obtain ⟨b', us, hb', hoperator'⟩ := exists_bar ((Steps.run_eq hv').symm.trans hrun') hvin'
      (hrest'.trans hr) hfree
    have hkinds : b'.kind = b.kind := by
      rw [hb, hvt] at hemitted
      simp only [List.reverse_append, List.reverse_cons, List.append_assoc, List.cons_append,
        List.nil_append, List.append_cancel_left_eq, List.cons.injEq, true_and] at hemitted
      rw [hb', hvt'] at htokens'
      simp only [List.reverse_append, List.reverse_cons, List.append_assoc, List.cons_append,
        List.nil_append] at htokens'
      obtain ⟨-, heq⟩ := List.append_inj htokens' (by
        rw [List.length_reverse, ← hsame.length_eq, ← hbefore.length_eq, List.length_reverse])
      rw [← hemitted, (List.cons.inj heq).2] at hafter
      cases hafter with
      | cons h _ => exact h.kind_eq
    rw [hkinds, hoperator, hleft, hleft', Bool.coe_iff_coe] at hoperator'
    exact hne hoperator'
  · intro hleaks
    have hfree : v'.leftFree = v.leftFree ∨ ∀ r, v.rest = '|' :: r → rightFree r = false := by
      rw [hleft, hleft']
      by_contra hnot
      rw [not_or, not_forall] at hnot
      obtain ⟨hne, r, hr⟩ := hnot
      rw [Classical.not_imp, Bool.not_eq_false] at hr
      exact hleaks ⟨fun h => hne h.symm, r, hr⟩
    obtain ⟨f', hrun', ts, us, hts, hus, hmoved⟩ := hnear.run hvin hrest' hvrun hfree
    have hafter : after₀ = ts.reverse := by
      rw [hts, hvt] at hemitted
      simpa using hemitted.symm
    refine ⟨ts'.reverse, us.reverse ++ [⟨.ending, "", f'.line, f'.column, f'.offset, false⟩], t',
      scan_eq_ok.2 ⟨f', (Steps.run_eq hv').trans hrun', ?_⟩, List.rel_reverse hsame, hk', hl', ?_⟩
    · rw [hus, hvt']
      simp
    · rw [hafter]
      exact List.rel_append (List.rel_reverse (hmoved.imp fun _ _ h => h.toSame))
        (.cons ⟨rfl, rfl, rfl⟩ .nil)

/-- The character literal of the text `|\a|`. -/
def letterToken : Token := ⟨.character, "\\a", 1, 2, 1, false⟩

/-- The letter between two bars can be replaced by another letter, but not by a bracket: the bar after it
no longer closes the absolute value. -/
theorem scan_replaceIn_letterToken :
    (∃ before' after' t', scan (String.ofList (letterToken.replaceIn "|\\a|".toList "\\b".toList)) =
        .ok (before' ++ t' :: after') ∧
      List.Forall₂ Token.Same [⟨.opening, "|", 1, 1, 0, false⟩] before' ∧
      t'.kind = letterToken.kind ∧ t'.lexeme = "\\b" ∧
      List.Forall₂ Token.Same [⟨.closing, "|", 1, 4, 3, false⟩, ⟨.ending, "", 1, 5, 4, false⟩] after') ∧
    ¬ ∃ before' after' t', scan (String.ofList (letterToken.replaceIn "|\\a|".toList "\\(".toList)) =
        .ok (before' ++ t' :: after') ∧
      List.Forall₂ Token.Same [⟨.opening, "|", 1, 1, 0, false⟩] before' ∧
      t'.kind = letterToken.kind ∧ t'.lexeme = "\\(" ∧
      List.Forall₂ Token.Same [⟨.closing, "|", 1, 4, 3, false⟩, ⟨.ending, "", 1, 5, 4, false⟩] after' := by
  have hscan : scan (String.ofList "|\\a|".toList) = .ok ([⟨.opening, "|", 1, 1, 0, false⟩] ++
      letterToken :: [⟨.closing, "|", 1, 4, 3, false⟩, ⟨.ending, "", 1, 5, 4, false⟩]) := by
    decide +kernel
  have hpayload (c : Char) (hc : isGap c = false) : IsPayload letterToken.kind [c] := ⟨c, rfl, hc⟩
  constructor
  · refine (scan_replaceIn_iff hscan rfl (hpayload 'a' (by decide)) (hpayload 'b' (by decide))).2 ?_
    rintro ⟨hne, -⟩
    exact hne (by decide)
  · refine mt (scan_replaceIn_iff hscan rfl (hpayload 'a' (by decide)) (hpayload '(' (by decide))).1 ?_
    rw [not_not]
    exact ⟨by decide, [], by decide, rfl⟩

end SignLang
