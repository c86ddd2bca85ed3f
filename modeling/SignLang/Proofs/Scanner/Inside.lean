import SignLang.Proofs.Scanner.Brackets
import SignLang.Proofs.Scanner.Seam

/-!
# A text in brackets

A text of one line with balanced brackets is read inside of brackets as it is read alone. The two scanners
run side by side (`Scanner.Inside`): inside, the bracket depth is one more, and so is the depth at which
each absolute value was opened. The closing bracket ends the last token as the end of the text does. So a
header and a block in brackets after it have the tokens of the header, then those of the block
(`scan_bracketed`).
-/

namespace SignLang

open Lexeme

namespace Scanner

/-- A closing bracket ends a token as the end of the text does. -/
lemma continues_closer (r : List Char) {y : List Char} (hy : y.head?.any isCloser) :
    Continues r (r ++ y) := by
  cases r with
  | cons c r => exact Fits.continues (.inl rfl)
  | nil =>
    cases y with
    | nil => cases hy
    | cons c y =>
      have hc : isCloser c := hy
      obtain rfl | rfl | rfl := isCloser_iff.1 hc
      all_goals exact ⟨rfl, fun _ => ⟨rfl, by simp⟩, fun c => by simp [isPair]⟩

/-- One bracket more is open after a token if one more was open before it. -/
lemma depthAfter_succ {depth : Nat} {k : Kind} {w : List Char}
    (h : k = .closing → w ≠ ['|'] → 0 < depth) : depthAfter (depth + 1) k w = depthAfter depth k w + 1 := by
  unfold depthAfter
  split
  · rfl
  · next hbar =>
    split
    · rfl
    · split
      · next hk =>
        have := h hk hbar
        omega
      · rfl

/-- The open absolute values were opened one bracket deeper if that was so before a token. -/
lemma barsAfter_succ {depth : Nat} {bars : List Nat} {k : Kind} {w : List Char}
    (h : k = .closing → w ≠ ['|'] → 0 < depth) :
    barsAfter (depth + 1) (bars.map (· + 1)) k w = (barsAfter depth bars k w).map (· + 1) := by
  unfold barsAfter
  split
  · split <;> simp
  · split
    · next hk =>
      split
      · simp
      · next hbar =>
        have hpos := h hk hbar
        rw [List.dropWhile_map]
        congr 2
        funext n
        simp only [Function.comp_apply, decide_eq_decide]
        omega
    · rfl

/-- Two scanners inside of a line, of which the second one has one more bracket open. What they see behind
them says the same about a bar. -/
structure Inside (distance : Int) (s s' : Scanner) : Prop where
  offset : (s'.offset : Int) = s.offset + distance
  start : s.atLineStart = false
  start' : s'.atLineStart = false
  depth : s'.depth = s.depth + 1
  bars : s'.bars = s.bars.map (· + 1)
  leftFree : s'.leftFree = s.leftFree
  bare : (s'.behind.head?.all isGap || s'.setMark.afterOpening) =
    (s.behind.head?.all isGap || s.setMark.afterOpening)

namespace Inside

variable {distance : Int} {s s' m m' : Scanner} {k : Kind} {w y : List Char}

/-- A bar can close for both scanners or for none. -/
lemma canClose (h : s.Inside distance s') : s'.canClose = s.canClose := by
  have hbars : decide (s'.bars.head? = some s'.depth) = decide (s.bars.head? = some s.depth) := by
    rw [h.bars, h.depth, List.head?_map, decide_eq_decide]
    cases s.bars.head? <;> simp
  rw [Scanner.canClose, Scanner.canClose, hbars, ← Bool.not_or, ← Bool.not_or, h.bare]

/-- After a token the second scanner still has one more bracket open. -/
lemma reads (h : s.Inside distance s') (hw : w ≠ []) (hk : k ≠ .newline)
    (hpos : k = .closing → w ≠ ['|'] → 0 < s.depth) (hm : s.Reads k w m) (hm' : s'.Reads k w m') :
    m.Inside distance m' ∧ ∃ t t' : Token, m.emitted = t :: s.emitted ∧ m'.emitted = t' :: s'.emitted ∧
      t.Moved distance t' := by
  obtain ⟨t, ht, hspells⟩ := hm.emitted
  obtain ⟨t', ht', hspells'⟩ := hm'.emitted
  have hbehind : m'.behind.head? = m.behind.head? := (hm'.head?_behind hw).trans (hm.head?_behind hw).symm
  refine ⟨⟨?_, ?_, ?_, ?_, ?_, ?_, ?_⟩, t, t', ht, ht', hspells'.same hspells, ?_⟩
  · rw [hm.offset, hm'.offset]
    push_cast
    rw [h.offset]
    omega
  · rw [hm.start, decide_eq_false hk]
  · rw [hm'.start, decide_eq_false hk]
  · rw [hm.depth, hm'.depth, h.depth, depthAfter_succ hpos]
  · rw [hm.bars, hm'.bars, h.depth, h.bars, barsAfter_succ hpos]
  · exact leftFree_congr hbehind
  · rw [hbehind, hm.afterOpening, hm'.afterOpening]
  · rw [hspells'.offset_eq, hspells.offset_eq, h.offset]

/-- After spaces the second scanner still has one more bracket open. -/
lemma moves (h : s.Inside distance s') (hw : w ≠ []) (hspace : w.all isSpace) (hm : s.Moves w m)
    (hm' : s'.Moves w m') : m.Inside distance m' := by
  have hbehind : m'.behind.head? = m.behind.head? := (hm'.head?_behind hw).trans (hm.head?_behind hw).symm
  refine ⟨?_, hm.start, hm'.start, by rw [hm.depth, hm'.depth, h.depth], by rw [hm.bars, hm'.bars, h.bars],
    ?_, ?_⟩
  · rw [hm.offset, hm'.offset]
    push_cast
    rw [h.offset]
    omega
  · exact leftFree_congr hbehind
  · rw [hbehind, hm.gap_of_spaces hw hspace, Bool.true_or, Bool.true_or]

/-- A step of the scanner outside is a step of the one inside, if it starts no line. -/
lemma stepped (h : s.Inside distance s') (hs : s.Stepped m w) (hrest : s'.rest = s.rest ++ y)
    (hy : y.head?.any isCloser) (hline : ∀ t ∈ m.emitted, t.kind ≠ .newline)
    (hpos : s.Reads .closing w m → w ≠ ['|'] → 0 < s.depth) (hpoint : m.rest.head? ≠ some '.') :
    ∃ m', s'.Step m' ∧ m'.rest = m.rest ++ y ∧ m.Inside distance m' ∧
      ∃ ts ts' : List Token, m.emitted = ts ++ s.emitted ∧ m'.emitted = ts' ++ s'.emitted ∧
        List.Forall₂ (Token.Moved distance) ts ts' := by
  have hcontinues := continues_closer m.rest hy
  rw [hs.rest, List.append_assoc] at hrest
  cases hs with
  | @token k _ hreads hlexes =>
    have hk : k ≠ .newline := by
      obtain ⟨t, ht, hspells⟩ := hreads.emitted
      rw [← hspells.kind_eq]
      exact hline t (by simp [ht])
    have hlexes' : s'.Lexes (m.rest ++ y) w k := by
      refine hlexes.congr hcontinues (fun _ => ?_) hpoint ?_
      · rw [h.leftFree, h.canClose, hcontinues.rightFree_eq]
      · rintro rfl
        exact absurd hlexes.of_return.1 hk
    obtain ⟨m', hstep, hreads', hm'⟩ := exists_step_of_lexes h.start' hrest hlexes'
    obtain ⟨hinside, t, t', ht, ht', hmoved⟩ := h.reads hlexes.head?_isSpace.1 hk
      (fun hk => hpos (hk ▸ hreads)) hreads hreads'
    exact ⟨m', hstep, hm', hinside, [t], [t'], ht, ht', .cons hmoved .nil⟩
  | spaces _ hw hall hr hm hemitted =>
    have hr' : (m.rest ++ y).head?.any isSpace = false := by
      cases hmr : m.rest with
      | cons c r =>
        rw [hmr] at hr
        exact hr
      | nil =>
        cases y with
        | nil => cases hy
        | cons c y =>
          have hc : isCloser c := hy
          obtain rfl | rfl | rfl := isCloser_iff.1 hc <;> rfl
    obtain ⟨m', hstep, hm', hrest', hemitted'⟩ := exists_step_of_spaces h.start' hrest hw hall hr'
    exact ⟨m', hstep, hrest', h.moves hw hall hm hm', [], [], hemitted, hemitted', .nil⟩
  | blank hline | margin hline =>
    rw [h.start] at hline
    cases hline

end Inside

section Runs

variable {distance : Int} {s s' m f : Scanner} {text w y : List Char} {stack : List Bool}

/-- A scanner that closes a bracket has one open, as long as the brackets match. -/
lemma Steps.depth_pos (hs : (ofText text).Steps s) (hreads : s.Reads .closing w m) (hbar : w ≠ ['|'])
    (hm : openAfter [] m.emitted.reverse = some stack) : 0 < s.depth := by
  obtain ⟨t, ht, hspells⟩ := hreads.emitted
  rw [ht, List.reverse_cons, openAfter_append] at hm
  obtain ⟨stack₀, hstack₀, hlast⟩ := Option.bind_eq_some_iff.1 hm
  have hkeeps := hs.keeps hstack₀
  cases stack₀ with
  | nil =>
    rw [openAfter_nil_closing hspells.kind_eq] at hlast
    cases hlast
  | cons family stack₀ =>
    rw [openAfter_closing hspells.kind_eq, isBar_eq hspells, decide_eq_false hbar] at hlast
    cases family with
    | true => simp at hlast
    | false =>
      rw [hkeeps.depth, depthOf, List.count_cons_self]
      omega

/-- What the scanner reads of a line outside of a bracket, it reads inside of it. -/
theorem Inside.steps (hs : (ofText text).Steps s) (hsteps : s.Steps m) (h : s.Inside distance s')
    (hrest : s'.rest = s.rest ++ y) (hy : y.head?.any isCloser) (hrun : m.run = .ok f)
    (hline : ∀ t ∈ m.emitted, t.kind ≠ .newline) (hopen : openAfter [] m.emitted.reverse = some stack) :
    ∃ m', s'.Steps m' ∧ m'.rest = m.rest ++ y ∧ m.Inside distance m' ∧
      ∃ ts ts' : List Token, m.emitted = ts ++ s.emitted ∧ m'.emitted = ts' ++ s'.emitted ∧
        List.Forall₂ (Token.Moved distance) ts ts' := by
  induction hsteps generalizing stack with
  | refl => exact ⟨s', .refl, hrest, h, [], [], rfl, rfl, .nil⟩
  | @tail m n hsteps hstep ih =>
    obtain ⟨w, hw⟩ := hstep.stepped
    obtain ⟨us, hus⟩ := Steps.exists_emitted (Relation.ReflTransGen.single hstep)
    obtain ⟨stack₀, hstack₀⟩ : ∃ stack₀, openAfter [] m.emitted.reverse = some stack₀ := by
      have hsplit := hopen
      rw [hus, List.reverse_append, openAfter_append] at hsplit
      obtain ⟨stack₀, hstack₀, -⟩ := Option.bind_eq_some_iff.1 hsplit
      exact ⟨stack₀, hstack₀⟩
    obtain ⟨m', hsteps', hrest', hinside, ts, ts', hts, hts', hmoved⟩ :=
      ih (hstep.run_eq.trans hrun) (fun t ht => hline t (by simp [hus, ht])) hstack₀
    obtain ⟨n', hstep', hn', hinside', vs, vs', hvs, hvs', hmoved'⟩ := hinside.stepped hw hrest' hy hline
      (fun hreads hbar => Steps.depth_pos (hs.trans hsteps) hreads hbar hopen) (head?_ne_point hrun)
    refine ⟨n', hsteps'.tail hstep', hn', hinside', vs ++ ts, vs' ++ ts', ?_, ?_,
      List.rel_append hmoved' hmoved⟩
    · rw [hvs, hts, List.append_assoc]
    · rw [hvs', hts', List.append_assoc]

/-- Inside of a line only spaces follow the last token. -/
lemma Steps.all_isSpace (h : s.Steps f) (hin : s.atLineStart = false) (hf : f.rest = [])
    (hemitted : f.emitted = s.emitted) : s.rest.all isSpace := by
  induction h using Relation.ReflTransGen.head_induction_on with
  | refl => simp [hf]
  | @head s m hstep hsteps ih =>
    obtain ⟨ts, hts⟩ := Steps.exists_emitted hsteps
    obtain ⟨w, hw⟩ := hstep.stepped
    cases hw with
    | token _ hreads _ =>
      obtain ⟨t, ht, -⟩ := hreads.emitted
      have hlength := congrArg List.length hemitted
      rw [hts, ht, List.length_append, List.length_cons] at hlength
      omega
    | spaces _ _ hall _ hmoves hsame =>
      rw [hmoves.rest, List.all_append, hall, ih hmoves.start (by rw [hemitted, hsame])]
      rfl
    | blank hline | margin hline =>
      rw [hin] at hline
      cases hline

end Runs

end Scanner

open Scanner

/-- Tokens that are read and moved match where they are put. -/
lemma Scanner.Steps.matches_of_moved {text : List Char} {distance : Int} {s : Scanner} {ts' : List Token}
    (hs : (ofText text).Steps s) (h : List.Forall₂ (Token.Moved distance) s.emitted ts') :
    List.Forall₂ (Token.Matches (Token.Shift distance)) s.emitted.reverse ts'.reverse :=
  List.rel_reverse (((List.forall₂_and_left _ _).2 ⟨fun t ht => (hs.stop_le t ht).inside, h⟩).imp
    fun _ _ h => h.2.matches h.1)

/-- A bracket opens after a header that ends in a block operator and closes its own brackets. -/
lemma exists_opened {header r : List Char} {f : Scanner} {before : List Token} {op : Token}
    (hrun : (ofText header).run = .ok f) (hop : f.emitted.reverse = before ++ [op])
    (hblock : op.isOperator Operator.blockSymbols) (hbal : Balanced f.emitted.reverse) :
    ∃ m o : Scanner, (ofText (header ++ ' ' :: '[' :: r)).Steps m ∧ m.rest = r ∧ o.Reads .opening ['['] m ∧
      o.Keeps [] ∧ List.Forall₂ (Token.Moved 0) f.emitted o.emitted := by
  have hoperator := Token.isOperator_blockSymbols_iff.1 hblock
  obtain ⟨hsteps, hf⟩ := steps_of_run hrun
  obtain ⟨u, v, w, hu, hv, huv, hin, hreads, hlexes, hvt, hbefore, hspells⟩ :=
    exists_read hrun hop (by simp [hoperator.1])
  have hemitted : f.emitted = v.emitted := by
    rw [← List.reverse_inj, hop, hvt, List.reverse_cons, hbefore]
  have hspaces : v.rest.all isSpace :=
    Steps.all_isSpace hv (by simp [hreads.start, hoperator.1]) hf hemitted
  -- the header is read up to its last token
  obtain ⟨x, hx⟩ := hu.exists_rest
  have hx : header = x ++ u.rest := hx
  have hw : w = [':'] ∨ w = ['?'] := by
    rcases hoperator.2 with h | h
    · exact .inl (String.ofList_injective (hspells.lexeme_eq.symm.trans h))
    · exact .inr (String.ofList_injective (hspells.lexeme_eq.symm.trans h))
  have hne : w ≠ [] := hlexes.head?_isSpace.1
  have hx' : header ++ ' ' :: '[' :: r = x ++ (w ++ ((v.rest ++ [' ']) ++ '[' :: r)) := by
    rw [hx, hreads.rest]
    simp
  obtain ⟨u', hu', hrest, halike, ts, ts', hts, hts', hmoved⟩ := Alike.steps hu
    (alike_ofText header (header ++ ' ' :: '[' :: r)) hx hx'
    (.inl (by rw [hreads.rest, List.head?_append_of_ne_nil _ hne, List.head?_append_of_ne_nil _ hne]))
    ((Steps.run_eq hu).symm.trans hrun) (fun _ => by rcases hw with rfl | rfl <;> simp)
  -- the last token
  rw [hoperator.1] at hreads
  have hlexes' : u'.Lexes ((v.rest ++ [' ']) ++ '[' :: r) w .operator := by
    rcases hw with rfl | rfl
    · exact .inr (.inl ⟨':', rfl, by decide, by cases ((v.rest ++ [' ']) ++ '[' :: r).head? <;> simp [isPair]⟩)
    · exact .inr (.inl ⟨'?', rfl, by decide, by cases ((v.rest ++ [' ']) ++ '[' :: r).head? <;> simp [isPair]⟩)
  obtain ⟨v', hstep, hreads', hrest'⟩ := exists_step_of_lexes (halike.start.trans hin) hrest hlexes'
  obtain ⟨halike', t, t', ht, ht', hmoved'⟩ := halike.reads hne hreads hreads'
  -- the spaces after it, and the bracket
  have hspaces' : (v.rest ++ [' ']).all isSpace := by
    rw [List.all_append, hspaces]
    rfl
  obtain ⟨o, hstep₁, hmoves, hrest₁, hemitted₁⟩ :=
    exists_step_of_spaces (by simp [hreads'.start]) hrest' (by simp) hspaces' rfl
  have hlexes₁ : o.Lexes r ['['] .opening := .inl ⟨'[', rfl, by decide⟩
  obtain ⟨m, hstep₂, hreads₂, hrest₂⟩ := exists_step_of_lexes hmoves.start hrest₁ hlexes₁
  have hkeeps : u.Keeps [] := by
    refine hu.keeps ?_
    rw [Balanced, hop, openAfter_append] at hbal
    obtain ⟨stack, hstack, hlast⟩ := Option.bind_eq_some_iff.1 hbal
    rw [openAfter_other (by simp [Token.isBracket, hoperator.1])] at hlast
    cases hlast
    rw [hbefore, hstack]
  refine ⟨m, o, ((hu'.tail hstep).tail hstep₁).tail hstep₂, hrest₂, hreads₂, ⟨?_, ?_⟩, ?_⟩
  · rw [hmoves.depth, hreads'.depth_eq (by decide), halike.depth, hkeeps.depth]
  · rw [hmoves.bars, hreads'.bars_eq (by decide), halike.bars, hkeeps.bars]
  · rw [hemitted, hemitted₁, ht, ht']
    rw [show u.emitted = ts by simpa [ofText] using hts, show u'.emitted = ts' by simpa [ofText] using hts']
    exact .cons hmoved' hmoved

/-- A text that starts with a token has an empty margin. -/
lemma exists_start {text : List Char} {f : Scanner} (hrun : (ofText text).run = .ok f)
    (hink : text.head?.any isInk) : ∃ s, (ofText text).Step s ∧ s.Steps f ∧ (ofText text).Moves [] s ∧
      s.rest = text ∧ s.emitted = [] := by
  obtain ⟨hsteps, hf⟩ := steps_of_run hrun
  obtain ⟨hmargin, hrest, hempty⟩ := indentation_margin (s := ofText text) (w := []) rfl rfl hink
  rw [if_neg (by simp)] at hempty
  have hne : text ≠ [] := by
    rintro rfl
    cases hink
  have hstep : (ofText text).Step (ofText text).indentation := ⟨hne, by rw [step]; exact if_pos rfl⟩
  refine ⟨_, hstep, ?_, hmargin, hrest, hempty⟩
  obtain rfl | ⟨s, hs, hsteps⟩ := Relation.ReflTransGen.cases_head hsteps
  · exact absurd hf hne
  · cases hs.2.symm.trans hstep.2
    exact hsteps

/-- A text that starts with a token has one. -/
lemma emitted_ne_nil {text : List Char} {f : Scanner} (hrun : (ofText text).run = .ok f)
    (hink : text.head?.any isInk) : f.emitted ≠ [] := by
  intro hnil
  obtain ⟨s, -, hsteps, hmargin, hrest, hempty⟩ := exists_start hrun hink
  have hspaces := Steps.all_isSpace hsteps hmargin.start (steps_of_run hrun).2 (hnil.trans hempty.symm)
  rw [hrest] at hspaces
  cases text with
  | nil => cases hink
  | cons c text =>
    have hc : isSpace c := List.all_eq_true.1 hspaces c List.mem_cons_self
    simp [isInk, isGap, hc] at hink

/-- A text of one line in brackets is read as it is read alone, and the bracket closes after it. -/
lemma exists_closed {text block : List Char} {g m o : Scanner} (hm : (ofText text).Steps m)
    (hrest : m.rest = block ++ [']']) (hopen : o.Reads .opening ['['] m) (hkeeps : o.Keeps [])
    (hrun : (ofText block).run = .ok g) (hbal : Balanced g.emitted.reverse)
    (hline : ∀ t ∈ g.emitted, t.kind ≠ .newline) (hink : block.head?.any isInk) :
    ∃ n closer ts' distance, (ofText text).run = .ok n ∧ n.emitted = closer :: (ts' ++ m.emitted) ∧
      (closer.kind = .closing ∧ closer.lexeme = "]") ∧
      List.Forall₂ (Token.Moved distance) g.emitted ts' := by
  have hg := (steps_of_run hrun).2
  obtain ⟨s, hstep, hsteps, hmargin, hstart, hempty⟩ := exists_start hrun hink
  obtain ⟨opener, hopener, hspells⟩ := hopen.emitted
  have hafter : m.setMark.afterOpening := hopen.afterOpening.trans (decide_eq_true rfl)
  have hinside : s.Inside m.offset m := by
    refine ⟨?_, hmargin.start, hopen.start, ?_, ?_, ?_, ?_⟩
    · rw [hmargin.offset]
      simp [ofText]
    · rw [hopen.depth, hmargin.depth, hkeeps.depth]
      rfl
    · rw [hopen.bars, hmargin.bars, hkeeps.bars]
      rfl
    · rw [Scanner.leftFree, Scanner.leftFree, hopen.behind, hmargin.behind]
      rfl
    · rw [hafter, hmargin.behind, Bool.or_true]
      rfl
  obtain ⟨n, hn, hnrest, hinside', ts, ts', hts, hts', hmoved⟩ := Inside.steps (.single hstep) hsteps hinside
    (hrest.trans (by rw [hstart])) (y := [']']) rfl (run_of_rest hg) hline hbal
  rw [hempty] at hts
  rw [hg, List.nil_append] at hnrest
  obtain ⟨f, hlast, hclose, hf⟩ := exists_step_of_lexes (w := [']']) (r := []) (k := .closing) hinside'.start'
    hnrest (.inl ⟨']', rfl, by decide⟩)
  obtain ⟨closer, hcloser, hspells'⟩ := hclose.emitted
  refine ⟨f, closer, ts', m.offset, ?_, by rw [hcloser, hts'], ⟨hspells'.kind_eq, hspells'.lexeme_eq⟩, ?_⟩
  · rw [Steps.run_eq (hm.trans (hn.tail hlast)), run_of_rest hf]
  · rw [hts, List.append_nil]
    exact hmoved

/-- The tokens of a header and a block in brackets after it, if the header ends in a block operator. -/
theorem scan_bracketed {header block : List Char} {f g : Scanner} {before : List Token} {op : Token}
    (hrun : (ofText header).run = .ok f) (hrun' : (ofText block).run = .ok g)
    (hop : f.emitted.reverse = before ++ [op]) (hblock : op.isOperator Operator.blockSymbols)
    (hbal : Balanced f.emitted.reverse) (hbal' : Balanced g.emitted.reverse)
    (hline : ∀ t ∈ g.emitted, t.kind ≠ .newline) (hink : block.head?.any isInk) :
    ∃ us' opener ts' closer ending distance,
      scan (String.ofList (header ++ ' ' :: '[' :: (block ++ [']']))) =
        .ok (us' ++ opener :: (ts' ++ [closer, ending])) ∧
      List.Forall₂ (Token.Matches (Token.Shift 0)) f.emitted.reverse us' ∧
      (opener.kind = .opening ∧ opener.lexeme = "[") ∧
      List.Forall₂ (Token.Matches (Token.Shift distance)) g.emitted.reverse ts' ∧
      (closer.kind = .closing ∧ closer.lexeme = "]") ∧ ending.kind = .ending := by
  obtain ⟨m, o, hm, hrest, hopen, hkeeps, hmoved⟩ := exists_opened (r := block ++ [']']) hrun hop hblock hbal
  obtain ⟨n, closer, ts', distance, hn, hemitted, hcloser, hmoved'⟩ :=
    exists_closed hm hrest hopen hkeeps hrun' hbal' hline hink
  obtain ⟨opener, hopener, hspells⟩ := hopen.emitted
  refine ⟨o.emitted.reverse, opener, ts'.reverse, closer, ⟨.ending, "", n.line, n.column, n.offset, false⟩,
    distance, scan_eq_ok.2 ⟨n, hn, ?_⟩, (steps_of_run hrun).1.matches_of_moved hmoved,
    ⟨hspells.kind_eq, hspells.lexeme_eq⟩, (steps_of_run hrun').1.matches_of_moved hmoved', hcloser, rfl⟩
  rw [hemitted, hopener]
  simp

end SignLang
