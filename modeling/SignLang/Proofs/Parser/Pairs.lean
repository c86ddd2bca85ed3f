import SignLang.Proofs.Brackets

/-!
# Pairs of brackets

The check of the parser takes an opening bracket off its stack when it comes to a closing one. The two are
a pair, and all pairs of a token list are listed in the order in which they are closed (`pairsFrom` with
positions, `bracketPairs` without). What stands between the brackets of a pair is balanced, so the pairs of
a list can be read off its groups (`bracketPairs_append`, `bracketPairs_group`), and in a balanced list every
bracket is in one pair (`perm_openers`, `map_closers`).
-/

namespace SignLang

/-- Balanced lists one after the other are balanced. -/
lemma Balanced.append {ts us : List Token} (hts : Balanced ts) (hus : Balanced us) : Balanced (ts ++ us) := by
  rw [Balanced, openAfter_append, hts, Option.bind_some]
  exact hus

lemma Balanced.nil : Balanced [] :=
  rfl

/-- A token that is no bracket may stand before a balanced list. -/
lemma Balanced.cons {t : Token} {ts : List Token} (ht : t.isBracket = false) (hts : Balanced ts) :
    Balanced (t :: ts) :=
  (openAfter_other ht [] ts).trans hts

/-- A balanced list in brackets of one family is balanced. -/
lemma Balanced.group {opener closer : Token} {ts : List Token} (hts : Balanced ts)
    (hopener : opener.kind = .opening) (hcloser : closer.kind = .closing)
    (hfamily : opener.isBar = closer.isBar) : Balanced (opener :: (ts ++ [closer])) := by
  rw [Balanced, openAfter_opening hopener, openAfter_append, hts.openAfter, Option.bind_some,
    openAfter_closing hcloser, if_pos hfamily]
  rfl

namespace Parser

/-- The pairs of brackets that the check finds in a token list, when the brackets `opened` are open before
it: each closing bracket with the opening one that it takes off the stack. There are none from a fault on. -/
def pairsFrom (opened : OpenBrackets) : List (Token × Nat) → List ((Token × Nat) × (Token × Nat))
  | [] => []
  | entry :: rest =>
    match trackBracket opened entry with
    | .error _ => []
    | .ok kept =>
      if entry.1.kind = .closing then (opened.head?.map (·, entry)).toList ++ pairsFrom kept rest
      else pairsFrom kept rest

/-- The pairs of brackets of a token list. -/
def bracketPairs (tokens : List Token) : List (Token × Token) :=
  (pairsFrom [] tokens.zipIdx).map (Prod.map Prod.fst Prod.fst)

@[simp] lemma bracketPairs_nil : bracketPairs [] = [] :=
  rfl

/-! ## One token -/

section Token

variable {opened : OpenBrackets} {entry opener : Token × Nat} {rest : List (Token × Nat)}

/-- An opening bracket is put on the stack. -/
lemma trackBracket_opening (h : entry.1.kind = .opening) (opened : OpenBrackets) :
    trackBracket opened entry = .ok (entry :: opened) := by
  simp [trackBracket, h]

/-- A closing bracket takes one of its family off the stack. -/
lemma trackBracket_closing (opener : Token × Nat) (h : entry.1.kind = .closing)
    (hfamily : opener.1.isBar = entry.1.isBar) (opened : OpenBrackets) :
    trackBracket (opener :: opened) entry = .ok opened := by
  have hsame : sameFamily opener.1 entry.1 := by
    simpa [sameFamily, Token.isBar, decide_eq_decide] using hfamily
  simp [trackBracket, h, hsame]

/-- Other tokens leave the stack as it is. -/
lemma trackBracket_other (h : entry.1.isBracket = false) (opened : OpenBrackets) :
    trackBracket opened entry = .ok opened := by
  simp only [Token.isBracket, Bool.or_eq_false_iff, decide_eq_false_iff_not] at h
  unfold trackBracket
  split
  · next hk => exact absurd hk h.1
  · next hk => exact absurd hk h.2
  · rfl

/-- What the check does to the stack at one token. -/
lemma trackBracket_cases {kept : OpenBrackets} (h : trackBracket opened entry = .ok kept) :
    entry.1.kind = .opening ∧ kept = entry :: opened ∨
      (∃ opener, entry.1.kind = .closing ∧ opened = opener :: kept ∧ opener.1.isBar = entry.1.isBar) ∨
        entry.1.isBracket = false ∧ kept = opened := by
  rcases entry.1.bracket_cases with hk | hk | hk
  · rw [trackBracket_opening hk] at h
    exact .inl ⟨hk, (Except.ok.inj h).symm⟩
  · refine .inr (.inl ?_)
    unfold trackBracket at h
    rw [hk] at h
    cases opened with
    | nil => cases h
    | cons opener outer =>
      dsimp only at h
      split at h
      · next hfamily =>
        cases h
        exact ⟨opener, hk, rfl, by simpa [sameFamily, Token.isBar, decide_eq_decide] using hfamily⟩
      · cases h
  · rw [trackBracket_other hk] at h
    exact .inr (.inr ⟨hk, (Except.ok.inj h).symm⟩)

end Token

/-! ## Token lists -/

section Lists

variable {opened kept inner inner' : OpenBrackets} {a b : List (Token × Nat)}

/-- The check goes through a list token by token. -/
lemma exists_of_trackBrackets_cons {entry : Token × Nat} (h : trackBrackets opened (entry :: a) = .ok kept) :
    ∃ next, trackBracket opened entry = .ok next ∧ trackBrackets next a = .ok kept := by
  rw [trackBrackets] at h
  cases hentry : trackBracket opened entry with
  | error found =>
    rw [hentry] at h
    cases h
  | ok next =>
    rw [hentry] at h
    exact ⟨next, rfl, h⟩

/-- The pairs of two lists are those of the first and then those of the second. -/
lemma pairsFrom_append (h : trackBrackets opened a = .ok kept) (b : List (Token × Nat)) :
    pairsFrom opened (a ++ b) = pairsFrom opened a ++ pairsFrom kept b := by
  induction a generalizing opened with
  | nil =>
    cases h
    rfl
  | cons entry a ih =>
    obtain ⟨next, hentry, hrest⟩ := exists_of_trackBrackets_cons h
    rw [List.cons_append, pairsFrom, pairsFrom, hentry]
    dsimp only
    rw [ih hrest]
    split
    · rw [List.append_assoc]
    · rfl

/-- What the check does to the brackets that are opened inside of others does not depend on those. -/
lemma trackBrackets_extend (outer : OpenBrackets) (h : trackBrackets inner a = .ok inner') :
    trackBrackets (inner ++ outer) a = .ok (inner' ++ outer) ∧
      pairsFrom (inner ++ outer) a = pairsFrom inner a := by
  induction a generalizing inner with
  | nil =>
    cases h
    exact ⟨rfl, rfl⟩
  | cons entry a ih =>
    obtain ⟨next, hentry, hrest⟩ := exists_of_trackBrackets_cons h
    obtain ⟨htrack, hpairs⟩ := ih hrest
    have hentry' : trackBracket (inner ++ outer) entry = .ok (next ++ outer) := by
      rcases trackBracket_cases hentry with ⟨hk, rfl⟩ | ⟨opener, hk, rfl, hfamily⟩ | ⟨hk, rfl⟩
      · exact trackBracket_opening hk _
      · exact trackBracket_closing _ hk hfamily _
      · exact trackBracket_other hk _
    rw [trackBrackets, pairsFrom, pairsFrom, hentry, hentry']
    refine ⟨htrack, ?_⟩
    dsimp only
    rw [hpairs]
    rcases trackBracket_cases hentry with ⟨hk, -⟩ | ⟨opener, hk, rfl, -⟩ | ⟨hk, -⟩
    · simp [hk]
    · rfl
    · simp only [Token.isBracket, Bool.or_eq_false_iff, decide_eq_false_iff_not] at hk
      simp [hk.2]

/-- The check leaves a balanced list with the brackets that were open before it. -/
lemma trackBrackets_of_balanced (h : Balanced (a.map (·.1))) (opened : OpenBrackets) :
    trackBrackets opened a = .ok opened := by
  have hfamilies := trackBrackets_families [] a
  rw [show families [] = [] from rfl, show openAfter [] (a.map (·.1)) = some [] from h] at hfamilies
  cases htrack : trackBrackets [] a with
  | error found =>
    rw [htrack] at hfamilies
    cases hfamilies
  | ok kept =>
    rw [htrack] at hfamilies
    obtain rfl : kept = [] := by simpa [families] using Option.some.inj hfamilies
    exact (trackBrackets_extend opened htrack).1

/-- Pairs do not depend on the positions of the brackets. -/
lemma pairsFrom_congr {opened' : OpenBrackets} (h : trackBrackets opened a = .ok kept)
    (hopened : opened'.map (·.1) = opened.map (·.1)) (hentries : b.map (·.1) = a.map (·.1)) :
    (pairsFrom opened' b).map (Prod.map Prod.fst Prod.fst) =
      (pairsFrom opened a).map (Prod.map Prod.fst Prod.fst) := by
  induction a generalizing opened opened' b with
  | nil =>
    obtain rfl : b = [] := by simpa using hentries
    rfl
  | cons entry a ih =>
    obtain ⟨entry', b, rfl, hentry, hrest⟩ := List.map_eq_cons_iff.1 hentries
    obtain ⟨next, htrack, htail⟩ := exists_of_trackBrackets_cons h
    rw [pairsFrom, pairsFrom, htrack]
    dsimp only
    rw [hentry]
    rcases trackBracket_cases htrack with ⟨hk, rfl⟩ | ⟨opener, hk, rfl, hfamily⟩ | ⟨hk, rfl⟩
    · rw [trackBracket_opening (hentry ▸ hk)]
      simp only [hk, reduceCtorEq, if_false]
      exact ih htail (by simp [hopened, hentry]) hrest
    · obtain ⟨opener', outer', rfl, hopener, houter⟩ := List.map_eq_cons_iff.1 hopened
      rw [trackBracket_closing _ (hentry ▸ hk) (by rw [hopener, hentry, hfamily])]
      simp only [hk, if_true, List.map_append, ih htail houter hrest]
      simp [hopener, hentry]
    · rw [trackBracket_other (hentry ▸ hk)]
      simp only [Token.isBracket, Bool.or_eq_false_iff, decide_eq_false_iff_not] at hk
      simp only [hk.2, if_false]
      exact ih htail hopened hrest

/-- Only brackets make pairs. -/
lemma pairsFrom_filter {keep : Token → Bool} (hkeep : ∀ t, t.isBracket → keep t) (opened : OpenBrackets)
    (a : List (Token × Nat)) : pairsFrom opened (a.filter (keep ·.1)) = pairsFrom opened a := by
  induction a generalizing opened with
  | nil => rfl
  | cons entry a ih =>
    rw [List.filter_cons]
    by_cases hb : entry.1.isBracket
    · rw [if_pos (hkeep entry.1 hb), pairsFrom, pairsFrom]
      simp only [ih]
    · rw [Bool.not_eq_true] at hb
      have hk := hb
      simp only [Token.isBracket, Bool.or_eq_false_iff, decide_eq_false_iff_not] at hk
      have hcons (b : List (Token × Nat)) : pairsFrom opened (entry :: b) = pairsFrom opened b := by
        rw [pairsFrom, trackBracket_other hb]
        simp only [hk.2, if_false]
      rw [hcons]
      split
      · rw [hcons, ih]
      · exact ih opened

/-- Every bracket that is open at some point is closed later or stays open. -/
lemma opened_of_trackBrackets (h : trackBrackets opened a = .ok kept) :
    ((pairsFrom opened a).map (·.1) ++ kept).Perm (a.filter (·.1.kind = .opening) ++ opened) := by
  induction a generalizing opened with
  | nil =>
    cases h
    exact .refl _
  | cons entry a ih =>
    obtain ⟨next, htrack, h⟩ := exists_of_trackBrackets_cons h
    rw [pairsFrom, htrack]
    dsimp only
    have hperm := ih h
    rcases trackBracket_cases htrack with ⟨hk, rfl⟩ | ⟨opener, hk, rfl, -⟩ | ⟨hk, rfl⟩
    · simp only [hk, reduceCtorEq, if_false, List.filter_cons, decide_true, if_true]
      exact hperm.trans List.perm_middle
    · simp only [hk, if_true, reduceCtorEq, decide_false, List.filter_cons, Bool.false_eq_true, if_false]
      exact (hperm.cons opener).trans List.perm_middle.symm
    · simp only [Token.isBracket, Bool.or_eq_false_iff] at hk
      simp only [hk, decide_eq_false_iff_not.1 hk.2, if_false, List.filter_cons, Bool.false_eq_true]
      exact hperm

/-- Every closing bracket takes one off the stack. -/
lemma closed_of_trackBrackets (h : trackBrackets opened a = .ok kept) :
    (pairsFrom opened a).map (·.2) = a.filter (·.1.kind = .closing) := by
  induction a generalizing opened with
  | nil => rfl
  | cons entry a ih =>
    obtain ⟨next, htrack, hrest⟩ := exists_of_trackBrackets_cons h
    rw [pairsFrom, htrack]
    dsimp only
    have hmap := ih hrest
    rcases trackBracket_cases htrack with ⟨hk, rfl⟩ | ⟨opener, hk, rfl, -⟩ | ⟨hk, rfl⟩
    · simp [hk, hmap]
    · simp [hk, hmap]
    · simp only [Token.isBracket, Bool.or_eq_false_iff, decide_eq_false_iff_not] at hk
      simp [hk.2, hmap]

/-- A pair is an opening bracket and a closing one of its family. -/
lemma pair_of_mem_pairsFrom {p : (Token × Nat) × (Token × Nat)} (hp : p ∈ pairsFrom opened a)
    (hopened : ∀ entry ∈ opened, entry.1.kind = .opening) :
    p.1.1.kind = .opening ∧ p.2.1.kind = .closing ∧ p.1.1.isBar = p.2.1.isBar ∧
      p.1 ∈ a ++ opened ∧ p.2 ∈ a := by
  induction a generalizing opened with
  | nil => cases hp
  | cons entry a ih =>
    rw [pairsFrom] at hp
    cases htrack : trackBracket opened entry with
    | error found =>
      rw [htrack] at hp
      cases hp
    | ok next =>
      rw [htrack] at hp
      dsimp only at hp
      rcases trackBracket_cases htrack with ⟨hk, rfl⟩ | ⟨opener, hk, rfl, hfamily⟩ | ⟨hk, rfl⟩
      · rw [if_neg (by simp [hk])] at hp
        obtain ⟨ho, hc, hbar, hmem, hmem'⟩ := ih hp (List.forall_mem_cons.2 ⟨hk, hopened⟩)
        exact ⟨ho, hc, hbar, List.perm_middle.mem_iff.1 hmem, List.mem_cons_of_mem _ hmem'⟩
      · rw [List.forall_mem_cons] at hopened
        rw [if_pos hk] at hp
        rcases List.mem_cons.1 hp with rfl | hp
        · exact ⟨hopened.1, hk, hfamily, by simp, List.mem_cons_self⟩
        · obtain ⟨ho, hc, hbar, hmem, hmem'⟩ := ih hp hopened.2
          exact ⟨ho, hc, hbar, List.mem_cons_of_mem _ (List.perm_middle.mem_iff.2 (List.mem_cons_of_mem _ hmem)),
            List.mem_cons_of_mem _ hmem'⟩
      · simp only [Token.isBracket, Bool.or_eq_false_iff, decide_eq_false_iff_not] at hk
        rw [if_neg hk.2] at hp
        obtain ⟨ho, hc, hbar, hmem, hmem'⟩ := ih hp hopened
        exact ⟨ho, hc, hbar, List.mem_cons_of_mem _ hmem, List.mem_cons_of_mem _ hmem'⟩

end Lists

/-! ## Groups -/

section Groups

variable {ts us : List Token} {t opener closer : Token}

/-- The check goes through a balanced list, wherever it starts. -/
lemma trackBrackets_zipIdx (h : Balanced ts) (opened : OpenBrackets) (k : Nat) :
    trackBrackets opened (ts.zipIdx k) = .ok opened :=
  trackBrackets_of_balanced (by rwa [List.zipIdx_map_fst]) opened

/-- The tokens that are kept, without their positions. -/
lemma map_filter_zipIdx (keep : Token → Bool) (ts : List Token) :
    (ts.zipIdx.filter (keep ·.1)).map (·.1) = ts.filter keep := by
  conv_rhs => rw [← List.zipIdx_map_fst (i := 0) (l := ts), List.filter_map]
  rfl

/-- The pairs of a balanced list, wherever it starts. -/
lemma bracketPairs_zipIdx (h : Balanced ts) (opened : OpenBrackets) (k : Nat) :
    (pairsFrom opened (ts.zipIdx k)).map (Prod.map Prod.fst Prod.fst) = bracketPairs ts := by
  rw [show pairsFrom opened (ts.zipIdx k) = pairsFrom [] (ts.zipIdx k) from
    (trackBrackets_extend opened (trackBrackets_zipIdx h [] k)).2]
  exact pairsFrom_congr (trackBrackets_zipIdx h [] 0) rfl (by simp)

/-- The pairs of two balanced lists are those of the first and then those of the second. -/
lemma bracketPairs_append (hts : Balanced ts) (hus : Balanced us) :
    bracketPairs (ts ++ us) = bracketPairs ts ++ bracketPairs us := by
  rw [bracketPairs, List.zipIdx_append, pairsFrom_append (trackBrackets_zipIdx hts [] 0), List.map_append,
    bracketPairs_zipIdx hus]
  rfl

/-- Tokens that are no brackets are in no pair. -/
lemma bracketPairs_of_forall (h : ∀ t ∈ ts, t.isBracket = false) : bracketPairs ts = [] := by
  have hnone (k : Nat) : pairsFrom [] (ts.zipIdx k) = [] := by
    induction ts generalizing k with
    | nil => rfl
    | cons t ts ih =>
      rw [List.forall_mem_cons] at h
      have hk := h.1
      simp only [Token.isBracket, Bool.or_eq_false_iff, decide_eq_false_iff_not] at hk
      rw [List.zipIdx_cons, pairsFrom, trackBracket_other h.1]
      simp only [hk.2, if_false]
      exact ih h.2 (k + 1)
  rw [bracketPairs, hnone, List.map_nil]

/-- The brackets of a balanced list have its pairs. -/
lemma bracketPairs_filter {keep : Token → Bool} (hkeep : ∀ t, t.isBracket → keep t) (hts : Balanced ts) :
    bracketPairs (ts.filter keep) = bracketPairs ts := by
  have hfst := map_filter_zipIdx keep ts
  have htrack : trackBrackets [] (ts.zipIdx.filter (keep ·.1)) = .ok [] :=
    trackBrackets_of_balanced (by rw [hfst]; exact (openAfter_filter hkeep [] ts).trans hts) []
  rw [bracketPairs, pairsFrom_congr htrack rfl (by rw [hfst, List.zipIdx_map_fst]), pairsFrom_filter hkeep]
  rfl

/-- A token that is no bracket may stand before a balanced list. -/
lemma bracketPairs_cons (ht : t.isBracket = false) (hts : Balanced ts) :
    bracketPairs (t :: ts) = bracketPairs ts := by
  rw [← List.singleton_append, bracketPairs_append (Balanced.nil.cons ht) hts,
    bracketPairs_of_forall (by simpa using ht), List.nil_append]

/-- The brackets around a balanced list are a pair, which is closed last. -/
lemma bracketPairs_group (hts : Balanced ts) (hopener : opener.kind = .opening)
    (hcloser : closer.kind = .closing) (hfamily : opener.isBar = closer.isBar) :
    bracketPairs (opener :: (ts ++ [closer])) = bracketPairs ts ++ [(opener, closer)] := by
  rw [bracketPairs, List.zipIdx_cons, pairsFrom, trackBracket_opening hopener]
  simp only [hopener, reduceCtorEq, if_false]
  rw [List.zipIdx_append, pairsFrom_append (trackBrackets_zipIdx hts _ _), List.map_append,
    bracketPairs_zipIdx hts, List.zipIdx_singleton, pairsFrom, trackBracket_closing (opener, 0) hcloser hfamily]
  simp [hcloser, pairsFrom]

/-- A pair is an opening bracket and a closing one of its family. -/
lemma pair_of_mem_bracketPairs {p : Token × Token} (hp : p ∈ bracketPairs ts) :
    p.1.kind = .opening ∧ p.2.kind = .closing ∧ p.1.isBar = p.2.isBar ∧ p.1 ∈ ts ∧ p.2 ∈ ts := by
  have hfst {entry : Token × Nat} (h : entry ∈ ts.zipIdx) : entry.1 ∈ ts :=
    List.fst_mem_of_mem_zipIdx h
  obtain ⟨q, hq, rfl⟩ := List.mem_map.1 hp
  obtain ⟨ho, hc, hbar, hmem, hmem'⟩ := pair_of_mem_pairsFrom hq nofun
  exact ⟨ho, hc, hbar, hfst (by simpa using hmem), hfst hmem'⟩

/-- In a balanced list every opening bracket is in one pair. -/
lemma perm_openers (hts : Balanced ts) :
    ((bracketPairs ts).map (·.1)).Perm (ts.filter (·.kind = .opening)) := by
  have hperm := (opened_of_trackBrackets (trackBrackets_zipIdx hts [] 0)).map Prod.fst
  rw [List.append_nil, List.append_nil, List.map_map] at hperm
  rw [bracketPairs, List.map_map, ← map_filter_zipIdx]
  exact hperm

/-- In a balanced list every closing bracket is in one pair, and the pairs are listed in the order of these. -/
lemma map_closers (hts : Balanced ts) : (bracketPairs ts).map (·.2) = ts.filter (·.kind = .closing) := by
  have heq := congrArg (List.map Prod.fst) (closed_of_trackBrackets (trackBrackets_zipIdx hts [] 0))
  rw [List.map_map] at heq
  rw [bracketPairs, List.map_map, ← map_filter_zipIdx]
  exact heq

end Groups

end Parser

end SignLang
