import SignLang.Proofs.Places
import SignLang.Proofs.Scanner.Payload

/-!
# Bracket families are interchangeable

Round, square and curly brackets say the same. If brackets of a text are written in another family, each
by itself and whether they match or not, then the scanner reads twins of the tokens at the same places
(`scan_rebracketed`), and the text has the same meaning or is refused by the same stage at the same place
(`parseWithin_rebracketed`).
-/

namespace SignLang

open Lexeme Scanner

/-- The character is a bracket that opens or closes as the kind says. -/
def Kind.faces : Kind → Char → Bool
  | .opening, c => isOpener c
  | .closing, c => isCloser c
  | _, _ => false

/-- The texts differ only where a bracket of the tokens, other than a bar, is written as another one of
the same direction. -/
def Rebracketed (tokens : List Token) (text text' : List Char) : Prop :=
  text'.length = text.length ∧ ∀ (i : Nat) (c' : Char), text'[i]? = some c' → text[i]? = some c' ∨
    ∃ t ∈ tokens, t.offset = i ∧ t.isBar = false ∧ t.kind.faces c'

/-- A bracket that faces either way is a bracket, and no bar, space or line end. -/
lemma faces_cases {k : Kind} {c : Char} (h : k.faces c) :
    (k = .opening ∧ isOpener c ∨ k = .closing ∧ isCloser c) ∧ c ≠ '|' ∧ isGap c = false := by
  have hside : k = .opening ∧ isOpener c ∨ k = .closing ∧ isCloser c := by
    cases k with
    | opening => exact .inl ⟨rfl, h⟩
    | closing => exact .inr ⟨rfl, h⟩
    | _ => cases h
  refine ⟨hside, ?_⟩
  rcases hside with ⟨-, hc⟩ | ⟨-, hc⟩
  · obtain rfl | rfl | rfl := isOpener_iff.1 hc <;> decide
  · obtain rfl | rfl | rfl := isCloser_iff.1 hc <;> decide

/-- A bracket opens if its kind does. -/
lemma isOpener_of_faces {k : Kind} {c : Char} (h : k.faces c) : isOpener c = decide (k = .opening) := by
  rcases (faces_cases h).1 with ⟨rfl, hc⟩ | ⟨rfl, hc⟩
  · exact hc
  · obtain rfl | rfl | rfl := isCloser_iff.1 hc <;> rfl

/-! ## Scanning -/

namespace Scanner

variable {s s' m m' : Scanner} {k : Kind} {c c' : Char} {r : List Char}

/-- A bracket is read wherever it stands. -/
lemma lexes_bracket (h : k.faces c) (s : Scanner) (r : List Char) : s.Lexes r [c] k := by
  rcases (faces_cases h).1 with ⟨rfl, hc⟩ | ⟨rfl, hc⟩
  · exact .inl ⟨c, rfl, hc⟩
  · exact .inl ⟨c, rfl, hc⟩

/-- A bracket that is read and is no bar faces as its kind says. -/
lemma faces_of_lexes {w : List Char} (h : s.Lexes r w k) (hk : k = .opening ∨ k = .closing)
    (hbar : w ≠ ['|']) : ∃ c, w = [c] ∧ k.faces c := by
  rcases hk with rfl | rfl
  · rcases h with ⟨c, rfl, hc⟩ | ⟨rfl, -⟩
    · exact ⟨c, rfl, hc⟩
    · exact absurd rfl hbar
  · rcases h with ⟨c, rfl, hc⟩ | ⟨rfl, -⟩
    · exact ⟨c, rfl, hc⟩
    · exact absurd rfl hbar

/-- After brackets of one direction two scanners still see the same. -/
lemma Near.reads_bracket {distance : Int} (h : s.Near distance s') (hc : k.faces c) (hc' : k.faces c')
    (hm : s.Reads k [c] m) (hm' : s'.Reads k [c'] m') : m.Alike distance m' := by
  obtain ⟨-, hbar, hgap⟩ := faces_cases hc
  obtain ⟨-, hbar', hgap'⟩ := faces_cases hc'
  obtain ⟨t, ht, hspells⟩ := hm.emitted
  obtain ⟨t', ht', hspells'⟩ := hm'.emitted
  have hstop := hm.stop_eq hspells
  have hstop' := hm'.stop_eq hspells'
  have hbehind : m.behind = c :: s.behind := hm.behind
  have hbehind' : m'.behind = c' :: s'.behind := hm'.behind
  refine ⟨⟨?_, hm'.start.trans hm.start.symm, ?_, ?_, ?_, ?_, ?_, ?_⟩, ?_⟩
  · rw [hm.offset, hm'.offset]
    push_cast
    rw [h.offset]
    simp only [List.length_cons, List.length_nil]
    omega
  · rw [hm.depth, hm'.depth, h.depth]
    simp [depthAfter, hbar, hbar']
  · rw [hm.bars, hm'.bars, h.depth, h.bars]
    simp [barsAfter, hbar, hbar']
  · simp [hbehind, hbehind', hgap, hgap']
  · change m'.emitted.head?.any _ = m.emitted.head?.any _
    simp [ht, ht', hspells.kind_eq, hspells'.kind_eq, setMark, hstop, hstop']
  · simp [ht, hstop]
  · simp [ht', hstop']
  · have hopener : isOpener c' = isOpener c := by
      rw [isOpener_of_faces hc, isOpener_of_faces hc']
    simp [Scanner.leftFree, hbehind, hbehind', hgap, hgap', hopener]

end Scanner

/-- Texts with line terminators at the same offsets have the same places. -/
lemma placeAt_congr {text text' : List Char} (h : ∀ (i : Nat) (c : Char), isTerminator c →
    (text'[i]? = some c ↔ text[i]? = some c)) : placeAt text' = placeAt text := by
  have hends : endsLineAt text' = endsLineAt text := by
    funext n
    cases n with
    | zero => rfl
    | succ n =>
      simp only [endsLineAt, ne_eq, h n '\n' rfl, h n '\r' rfl, h (n + 1) '\n' rfl]
  funext n
  simp only [placeAt, lineEnds, hends]

/-- The token `u` is `t` with another bracket of its direction, or the same. -/
structure Token.Rewritten (t u : Token) : Prop where
  kind_eq : u.kind = t.kind
  lexeme_eq : u.lexeme = t.lexeme ∨ ∃ c c', t.lexeme = String.ofList [c] ∧ u.lexeme = String.ofList [c'] ∧
    t.kind.faces c ∧ t.kind.faces c'
  offset_eq : u.offset = t.offset
  synthetic_eq : u.synthetic = t.synthetic

/-- A token that has not moved is the same. -/
lemma Token.Moved.rewritten {t u : Token} (h : t.Moved 0 u) : t.Rewritten u :=
  ⟨h.kind_eq, .inl h.lexeme_eq, by simpa using h.offset_eq, h.synthetic_eq⟩

/-- Tokens with other brackets are twins if both are in place. -/
lemma Token.Rewritten.twin {text text' : List Char} {t u : Token} (h : t.Rewritten u)
    (hplace : placeAt text' = placeAt text) (ht : t.PlacedIn text) (hu : u.PlacedIn text') :
    t.Twin u := by
  obtain ⟨n, -, hn, hline, hcolumn⟩ := ht
  obtain ⟨n', -, hn', hline', hcolumn'⟩ := hu
  obtain rfl : n' = n := by
    have := h.offset_eq
    omega
  rw [hplace] at hline' hcolumn'
  have hbar {c : Char} (hc : t.kind.faces c) : String.ofList [c] ≠ Operator.bar := by
    intro heq
    have heq : [c] = ['|'] := String.ofList_injective heq
    exact (faces_cases hc).2.1 (by simpa using heq)
  have hlexeme : (t.isBracket = false → u.lexeme = t.lexeme) ∧ u.lexeme.length = t.lexeme.length ∧
      u.isBar = t.isBar := by
    rcases h.lexeme_eq with heq | ⟨c, c', hc, hc', hf, hf'⟩
    · rw [Token.isBar, Token.isBar, heq]
      exact ⟨fun _ => rfl, rfl, rfl⟩
    · refine ⟨fun hnot => ?_, by rw [hc, hc', String.length_ofList, String.length_ofList]; rfl, ?_⟩
      · rcases (faces_cases hf).1 with ⟨hk, -⟩ | ⟨hk, -⟩ <;> simp [Token.isBracket, hk] at hnot
      · rw [Token.isBar, Token.isBar, hc, hc', decide_eq_decide]
        exact iff_of_false (hbar hf') (hbar hf)
  exact ⟨h.kind_eq, hlexeme.1, hlexeme.2.1, hlexeme.2.2, hline'.trans hline.symm,
    hcolumn'.trans hcolumn.symm, h.offset_eq, h.synthetic_eq⟩

/-- Lists of tokens with other brackets are lists of twins if all tokens are in place. -/
lemma twins_of_rewritten {text text' : List Char} {ts us : List Token}
    (hplace : placeAt text' = placeAt text) (h : List.Forall₂ Token.Rewritten ts us)
    (ht : ∀ t ∈ ts, t.PlacedIn text) (hu : ∀ u ∈ us, u.PlacedIn text') :
    List.Forall₂ Token.Twin ts us := by
  induction h with
  | nil => exact .nil
  | cons h _ ih =>
    rw [List.forall_mem_cons] at ht hu
    exact .cons (h.twin hplace ht.1 hu.1) (ih ht.2 hu.2)

/-- Another bracket leaves all places of a text where they are. -/
lemma placeAt_bracket {x r : List Char} {k : Kind} {c c' : Char} (hc : k.faces c) (hc' : k.faces c') :
    placeAt (x ++ c' :: r) = placeAt (x ++ c :: r) := by
  refine placeAt_congr fun i d hd => ?_
  rcases Nat.lt_trichotomy i x.length with hlt | rfl | hgt
  · rw [List.getElem?_append_left hlt, List.getElem?_append_left hlt]
  · have hne {c : Char} (hc : k.faces c) : c ≠ d := by
      rintro rfl
      have := (faces_cases hc).2.2
      rw [isGap, hd, Bool.or_true] at this
      cases this
    simp [hne hc, hne hc']
  · rw [List.getElem?_append_right hgt.le, List.getElem?_append_right hgt.le]
    obtain ⟨j, hj⟩ : ∃ j, i - x.length = j + 1 := ⟨i - x.length - 1, by omega⟩
    rw [hj, List.getElem?_cons_succ, List.getElem?_cons_succ]

/-- A scanner that meets another bracket reads it, and all other tokens as they were. -/
lemma Scanner.run_bracket {x : List Char} {k : Kind} {c c' : Char} {u v f : Scanner}
    (hu : (ofText (x ++ u.rest)).Steps u) (huv : u.Step v) (hin : u.atLineStart = false)
    (hreads : u.Reads k [c] v) (hc : k.faces c) (hc' : k.faces c') (hrun : v.run = .ok f) :
    ∃ f', (ofText (x ++ c' :: v.rest)).run = .ok f' ∧
      List.Forall₂ Token.Rewritten f.emitted f'.emitted := by
  have hfits : Fits u.rest (c' :: v.rest) := by
    rw [hreads.rest]
    rcases (faces_cases hc).1 with ⟨rfl, ho⟩ | ⟨rfl, ho⟩
    · exact .inr (.inr (.inr (.inl ⟨ho, hc'⟩)))
    · exact .inr (.inr (.inr (.inr ⟨ho, hc'⟩)))
  have hfeed : (c' :: v.rest).head? ≠ some '\n' := by
    intro heq
    have := (faces_cases hc').2.2
    rw [show c' = '\n' by simpa using heq] at this
    cases this
  -- both scanners come to the bracket, read it, and go on over the same text
  obtain ⟨u', hu', hrest', halike, ts, ts', hts, hts', hmoved⟩ := Alike.steps hu
    (alike_ofText _ (x ++ c' :: v.rest)) rfl rfl hfits (huv.run_eq.trans hrun)
    fun _ => hfeed
  obtain rfl : u.emitted = ts := by simpa [ofText] using hts
  obtain rfl : u'.emitted = ts' := by simpa [ofText] using hts'
  obtain ⟨v', hstep', hreads', hv'⟩ := exists_step_of_lexes (halike.start.trans hin) hrest'
    (lexes_bracket hc' u' v.rest)
  obtain ⟨f', hrun', us, us', hus, hus', hmoved'⟩ :=
    (halike.toNear.reads_bracket hc hc' hreads hreads').run hv' hrun
  refine ⟨f', (Steps.run_eq (hu'.tail hstep')).trans hrun', ?_⟩
  obtain ⟨t, ht, hspells⟩ := hreads.emitted
  obtain ⟨t', ht', hspells'⟩ := hreads'.emitted
  have hrewritten : t.Rewritten t' := by
    refine ⟨hspells'.kind_eq.trans hspells.kind_eq.symm, .inr ⟨c, c', hspells.lexeme_eq,
      hspells'.lexeme_eq, ?_, ?_⟩, ?_, hspells'.written.trans hspells.written.symm⟩
    · rw [hspells.kind_eq]
      exact hc
    · rw [hspells.kind_eq]
      exact hc'
    · rw [hspells'.offset_eq, hspells.offset_eq, halike.offset, Int.add_zero]
  rw [hus, hus', ht, ht']
  exact List.rel_append (hmoved'.imp fun _ _ h => h.rewritten)
    (.cons hrewritten (hmoved.imp fun _ _ h => h.rewritten))

/-- One bracket of a text can be written as another one of its direction: the tokens are twins. -/
lemma scan_set {text : List Char} {tokens : List Token} {t : Token} {c' : Char}
    (hscan : scan (String.ofList text) = .ok tokens) (ht : t ∈ tokens) (hbar : t.isBar = false)
    (hc' : t.kind.faces c') : ∃ tokens', scan (String.ofList (text.set t.offset.toNat c')) = .ok tokens' ∧
      List.Forall₂ Token.Twin tokens tokens' := by
  obtain ⟨before, after, rfl⟩ := List.append_of_mem ht
  have hkind : t.kind = .opening ∨ t.kind = .closing := (faces_cases hc').1.imp And.left And.left
  have hne : t.kind ≠ .ending ∧ t.kind ≠ .indent := by rcases hkind with h | h <;> simp [h]
  obtain ⟨f, after₀, hrun, hemitted, rfl⟩ := scan_eq_ok_of_mem hscan hne.1
  obtain ⟨u, v, w, hu, hv, huv, hin, hreads, hlexes, hvt, rfl, hspells⟩ :=
    exists_read hrun hemitted hne.2
  obtain ⟨c, rfl, hc⟩ := faces_of_lexes hlexes hkind (by
    rintro rfl
    rw [Token.isBar, hspells.lexeme_eq] at hbar
    exact absurd hbar (by decide))
  obtain ⟨x, hx⟩ := hu.exists_rest
  obtain rfl : text = x ++ u.rest := hx
  have hoffset : u.offset = x.length := by
    have := hu.offset_add
    simp only [ofText, List.length_append] at this
    omega
  have hset : (x ++ u.rest).set t.offset.toNat c' = x ++ c' :: v.rest := by
    rw [hspells.offset_eq, Int.toNat_natCast, hoffset, hreads.rest]
    simp
  obtain ⟨f', hrun', hrewritten⟩ :=
    run_bracket hu huv hin hreads hc hc' ((Steps.run_eq (hu.tail huv)).symm.trans hrun)
  have hscan' := scan_eq_ok.2 ⟨f', hrun', rfl⟩
  rw [hset]
  refine ⟨_, hscan', ?_⟩
  -- the ends of both texts are their lengths
  have hend : (f'.offset : Int) = f.offset := by
    obtain ⟨hsteps, hf⟩ := steps_of_run hrun
    obtain ⟨hsteps', hf'⟩ := steps_of_run hrun'
    have h := hsteps.offset_add
    have h' := hsteps'.offset_add
    rw [hf] at h
    rw [hf'] at h'
    simp only [ofText, hreads.rest, List.length_append, List.length_cons, List.length_nil] at h h'
    omega
  have hplace : placeAt (x ++ c' :: v.rest) = placeAt (x ++ u.rest) := by
    rw [hreads.rest]
    exact placeAt_bracket hc hc'
  have hplaced := scan_placed hscan
  have hplaced' := scan_placed hscan'
  rw [← List.cons_append, ← List.append_assoc, ← hemitted] at hplaced ⊢
  have hending : Token.Rewritten ⟨.ending, "", f.line, f.column, f.offset, false⟩
      ⟨.ending, "", f'.line, f'.column, f'.offset, false⟩ := ⟨rfl, .inl rfl, hend, rfl⟩
  exact twins_of_rewritten hplace
    (List.rel_append (List.rel_reverse hrewritten) (.cons hending .nil)) hplaced hplaced'

/-- Twins of twins are twins. -/
lemma Token.Twin.trans {t u v : Token} (h : t.Twin u) (h' : u.Twin v) : t.Twin v where
  kind_eq := h'.kind_eq.trans h.kind_eq
  lexeme_eq hbracket := by
    have hbracket' : u.isBracket = false := by rwa [isBracket, h.kind_eq]
    exact (h'.lexeme_eq hbracket').trans (h.lexeme_eq hbracket)
  length_eq := h'.length_eq.trans h.length_eq
  isBar_eq := h'.isBar_eq.trans h.isBar_eq
  line_eq := h'.line_eq.trans h.line_eq
  column_eq := h'.column_eq.trans h.column_eq
  offset_eq := h'.offset_eq.trans h.offset_eq
  synthetic_eq := h'.synthetic_eq.trans h.synthetic_eq

/-- Lists of twins of twins are lists of twins. -/
lemma twins_trans {ts us vs : List Token} (h : List.Forall₂ Token.Twin ts us)
    (h' : List.Forall₂ Token.Twin us vs) : List.Forall₂ Token.Twin ts vs := by
  induction h generalizing vs with
  | nil => exact h'
  | cons h _ ih =>
    cases h' with
    | cons h₁ h₂ => exact .cons (h.trans h₁) (ih h₂)

/-- Every token has its twin. -/
lemma exists_twin {ts us : List Token} (h : List.Forall₂ Token.Twin ts us) {t : Token} (ht : t ∈ ts) :
    ∃ u ∈ us, t.Twin u := by
  induction h with
  | nil => cases ht
  | @cons _ u _ _ h _ ih =>
    rcases List.mem_cons.1 ht with rfl | ht
    · exact ⟨u, List.mem_cons_self, h⟩
    · obtain ⟨u, hu, htwin⟩ := ih ht
      exact ⟨u, List.mem_cons_of_mem _ hu, htwin⟩

/-- Any brackets of a text can be written as others of their direction: the tokens are twins. -/
theorem scan_rebracketed {text text' : List Char} {tokens : List Token}
    (hscan : scan (String.ofList text) = .ok tokens) (h : Rebracketed tokens text text') :
    ∃ tokens', scan (String.ofList text') = .ok tokens' ∧ List.Forall₂ Token.Twin tokens tokens' := by
  obtain ⟨hlength, hchange⟩ := h
  -- one character after the other is taken from the second text
  have hfront (n : Nat) : n ≤ text.length → ∃ tokens',
      scan (String.ofList (text'.take n ++ text.drop n)) = .ok tokens' ∧
        List.Forall₂ Token.Twin tokens tokens' := by
    induction n with
    | zero =>
      intro _
      exact ⟨tokens, by simpa using hscan, List.forall₂_same.2 fun t _ => .refl t⟩
    | succ n ih =>
      intro hn
      obtain ⟨tokens', hscan', htwins⟩ := ih (by omega)
      obtain ⟨c, hc⟩ : ∃ c, text[n]? = some c := ⟨_, List.getElem?_eq_getElem (by omega)⟩
      obtain ⟨c', hc'⟩ : ∃ c', text'[n]? = some c' := ⟨_, List.getElem?_eq_getElem (by omega)⟩
      have htake : text'.take (n + 1) = text'.take n ++ [c'] := by
        rw [List.take_add_one, hc']
        rfl
      have hdrop : text.drop n = c :: text.drop (n + 1) := by
        rw [List.drop_eq_getElem?_toList_append, hc]
        rfl
      have hfirst : (text'.take n).length = n := by
        rw [List.length_take]
        omega
      rw [htake, List.append_assoc, List.singleton_append]
      rw [hdrop] at hscan'
      rcases hchange n c' hc' with heq | ⟨t, ht, hoffset, hbar, hfaces⟩
      · obtain rfl : c = c' := Option.some.inj (hc.symm.trans heq)
        exact ⟨tokens', hscan', htwins⟩
      · obtain ⟨u, hu, htwin⟩ := exists_twin htwins ht
        rw [← htwin.kind_eq] at hfaces
        rw [← htwin.isBar_eq] at hbar
        rw [← htwin.offset_eq] at hoffset
        obtain ⟨tokens'', hscan'', htwins'⟩ := scan_set hscan' hu hbar hfaces
        have hset : (text'.take n ++ c :: text.drop (n + 1)).set u.offset.toNat c' =
            text'.take n ++ c' :: text.drop (n + 1) := by
          rw [hoffset, Int.toNat_natCast, List.set_append_right _ _ hfirst.le, hfirst, Nat.sub_self]
          rfl
        rw [hset] at hscan''
        exact ⟨tokens'', hscan'', twins_trans htwins htwins'⟩
  have hall := hfront text.length le_rfl
  rwa [List.drop_length, List.append_nil, ← hlength, List.take_length] at hall

/-! ## Parsing -/

/-- The stage that refuses a text, and where. -/
def Refusal.site (refusal : Refusal) : Stage × Int × Int :=
  (refusal.diagnostic.stage, refusal.diagnostic.line, refusal.diagnostic.column)

/-- Texts whose tokens are twins have the same meaning, or none. -/
lemma agree_of_twins (limits : Limits) {text text' : String} {tokens tokens' : List Token}
    (hscan : scan text = .ok tokens) (hscan' : scan text' = .ok tokens')
    (h : List.Forall₂ Token.Twin tokens tokens') :
    Agree (fun f g => g.site = f.site) (fun e e' => e' = e) (parseWithin limits text)
      (parseWithin limits text') := by
  have hlaid := twins_normalizeWithin Token.twinning_twin limits.levels h (ne_nil_of_scan hscan)
  unfold parseWithin layOutWithin
  rw [hscan, hscan']
  simp only [Except.mapError, bind, Except.bind]
  cases hl : normalizeWithin limits.levels tokens with
  | error f =>
    rw [hl] at hlaid
    generalize normalizeWithin limits.levels tokens' = y at hlaid
    cases hlaid with
    | error hf =>
      refine .error ?_
      simp only [Refusal.site, Refusal.diagnostic, Layout.Failure.diagnostic, Diagnostic.ofLayout,
        hf.2.line_eq, hf.2.column_eq]
  | ok laidOut =>
    have hne : laidOut ≠ [] := by
      obtain ⟨outline, -, rfl⟩ := normalizeWithin_eq_ok hl
      simp
    rw [hl] at hlaid
    generalize normalizeWithin limits.levels tokens' = y at hlaid
    cases hlaid with
    | @ok _ laidOut' htwins =>
      have hbuild := twins_buildWithin Token.twinning_twin limits.depth htwins hne
      dsimp only
      generalize buildWithin limits.depth laidOut = x at hbuild
      generalize buildWithin limits.depth laidOut' = y at hbuild
      cases hbuild with
      | ok he => exact .ok he
      | error hf =>
        refine .error ?_
        simp only [Refusal.site, Refusal.diagnostic, Parser.Failure.diagnostic, Diagnostic.ofParser,
          hf.here.line_eq, hf.here.column_eq]

/-- The three bracket families are interchangeable: a text with some of its brackets written in another
family has the same meaning, or is refused by the same stage at the same place. -/
theorem parseWithin_rebracketed (limits : Limits) {text text' : List Char} {tokens : List Token}
    (hscan : scan (String.ofList text) = .ok tokens) (h : Rebracketed tokens text text') :
    Agree (fun f g => g.site = f.site) (fun e e' => e' = e) (parseWithin limits (String.ofList text))
      (parseWithin limits (String.ofList text')) := by
  obtain ⟨tokens', hscan', htwins⟩ := scan_rebracketed hscan h
  exact agree_of_twins limits hscan hscan' htwins

/-- The tokens of the text `(a]`. -/
def groupTokens : List Token :=
  [⟨.opening, "(", 1, 1, 0, false⟩, ⟨.identifier, "a", 1, 2, 1, false⟩,
   ⟨.closing, "]", 1, 3, 2, false⟩, ⟨.ending, "", 1, 4, 3, false⟩]

/-- A group that mixes two families, and the same group with both brackets exchanged. -/
theorem parseWithin_rebracketed_group : scan (String.ofList "(a]".toList) = .ok groupTokens ∧
    Rebracketed groupTokens "(a]".toList "[a)".toList ∧
    parseWithin .standard (String.ofList "[a)".toList) = .ok (.identifier "a") := by
  have hscan : scan (String.ofList "(a]".toList) = .ok groupTokens := by decide +kernel
  have hparse : parseWithin .standard (String.ofList "(a]".toList) = .ok (.identifier "a") := by
    decide +kernel
  have h : Rebracketed groupTokens "(a]".toList "[a)".toList := by
    refine ⟨rfl, fun i c' hc' => ?_⟩
    match i with
    | 0 =>
      obtain rfl : '[' = c' := Option.some.inj hc'
      exact .inr ⟨⟨.opening, "(", 1, 1, 0, false⟩, by simp [groupTokens], rfl, rfl, rfl⟩
    | 1 => exact .inl hc'
    | 2 =>
      obtain rfl : ')' = c' := Option.some.inj hc'
      exact .inr ⟨⟨.closing, "]", 1, 3, 2, false⟩, by simp [groupTokens], rfl, rfl, rfl⟩
    | i + 3 => exact absurd hc' (by simp)
  refine ⟨hscan, h, ?_⟩
  have hagree := parseWithin_rebracketed .standard hscan h
  rw [hparse] at hagree
  generalize parseWithin .standard (String.ofList "[a)".toList) = outcome at hagree ⊢
  cases hagree with
  | ok he => rw [he]

end SignLang
