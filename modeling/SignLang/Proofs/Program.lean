import SignLang.Proofs.Layout.Brackets
import SignLang.Proofs.Layout.Matching
import SignLang.Proofs.Limits
import SignLang.Proofs.Parser.Abreast

/-!
# Programs, stage by stage

What it takes for a text to be read: its tokens, their outline and the statements that the laid-out
tokens write (`Staged`). Two texts whose tokens write matching lines have the same meaning, within the
same limits (`parseWithin_of_lined`).
-/

namespace SignLang

open SignLang.Parser

/-- The cursor at the first of the laid-out tokens. -/
def Outline.cursor (outline : Outline) (tokens : List Token) : Cursor :=
  Cursor.ofTokens (outline.tokens ++ [endingOf tokens])

/-- The text has the tokens, which the outline nests and which write the statements. -/
structure Staged (limits : Limits) (text : String) (tokens : List Token) (outline : Outline)
    (es : List Expr) : Prop where
  scan_eq : scan text = .ok tokens
  nest_eq : Outline.nest limits.levels 0 (Line.split tokens) = .ok outline
  balanced : Balanced outline.tokens
  statements : ∃ d, parseStatements (parseExpr limits.depth) (outline.cursor tokens).after
    (outline.cursor tokens) = .ok (es, d) ∧ d.here.kind = .ending

lemma endingOf_kind (tokens : List Token) : (endingOf tokens).kind = .ending := by
  unfold endingOf
  split
  · rfl
  · split
    · next h => exact h
    · rfl

/-- All laid-out tokens are ahead of the first one. -/
lemma Outline.ahead_cursor (outline : Outline) (tokens : List Token) :
    (outline.cursor tokens).ahead = outline.tokens ++ [endingOf tokens] := by
  rw [cursor, Cursor.ahead_ofTokens, tokens_ofTokens_concat (endingOf_kind tokens)]

/-- The brackets of laid-out tokens match if they are balanced. -/
lemma Outline.bracketFault?_cursor (outline : Outline) (tokens : List Token) :
    bracketFault? (outline.cursor tokens).tokens = none ↔ Balanced outline.tokens := by
  rw [cursor, tokens_ofTokens_concat (endingOf_kind tokens), bracketFault?_eq_none_iff,
    balanced_concat (endingOf_kind tokens)]

/-- A text writes what is read from its laid-out tokens. -/
lemma Writes.of_outline {limit : Nat} {text : String} {tokens : List Token} {outline : Outline} {e : Expr}
    (hscan : scan text = .ok tokens) (hnest : Outline.nest limit 0 (Line.split tokens) = .ok outline)
    (hbal : Balanced outline.tokens)
    (h : ∃ d, Reads (.statements []) (outline.cursor tokens) e d ∧ d.here.kind = .ending) : Writes text e :=
  .of_spells hscan (normalizeWithin_of_nest hnest) ⟨(outline.bracketFault?_cursor tokens).2 hbal, h⟩

/-- Laid-out tokens write their statements if their brackets match. -/
lemma buildWithin_eq_ok {depth : Nat} {outline : Outline} {tokens : List Token} {e : Expr} :
    buildWithin depth (outline.tokens ++ [endingOf tokens]) = .ok e ↔ Balanced outline.tokens ∧
      ∃ es d, parseStatements (parseExpr depth) (outline.cursor tokens).after (outline.cursor tokens) =
        .ok (es, d) ∧ d.here.kind = .ending ∧ sequenced es = e := by
  rw [buildWithin, ← outline.bracketFault?_cursor tokens]
  change (parseAll depth (outline.cursor tokens)).map _ = _ ↔ _
  generalize outline.cursor tokens = c
  unfold parseAll checkBrackets
  cases hbrackets : bracketFault? c.tokens with
  | some found =>
    constructor
    · intro h
      cases h
    · rintro ⟨h, -⟩
      cases h
  | none =>
    have hsequence : parseSequence (parseExpr depth) c =
        parseStatements (parseExpr depth) c.after c >>= fun r => return (sequenced r.1, r.2) := rfl
    cases hs : parseStatements (parseExpr depth) c.after c with
    | error f =>
      simp [hsequence, hs, bind, Except.bind, Except.map]
    | ok r =>
      obtain ⟨es, d⟩ := r
      by_cases hd : d.here.kind = .ending
      · simp [hsequence, hs, hd, bind, Except.bind, Except.map, pure, Except.pure]
      · simp [hsequence, hs, hd, bind, Except.bind, Except.map, pure, Except.pure, fail]

/-- A text is read exactly if all stages go through. -/
theorem parseWithin_iff {limits : Limits} {text : String} {e : Expr} :
    parseWithin limits text = .ok e ↔
      ∃ tokens outline es, Staged limits text tokens outline es ∧ sequenced es = e := by
  constructor
  · intro h
    obtain ⟨tokens, laid, hscan, hlaid, hbuild⟩ := parseWithin_eq_ok h
    obtain ⟨outline, hnest, rfl⟩ := normalizeWithin_eq_ok hlaid
    obtain ⟨hbal, es, d, hs, hd, rfl⟩ := buildWithin_eq_ok.1 hbuild
    exact ⟨tokens, outline, es, ⟨hscan, hnest, hbal, d, hs, hd⟩, rfl⟩
  · rintro ⟨tokens, outline, es, ⟨hscan, hnest, hbal, d, hs, hd⟩, he⟩
    have hbuild := buildWithin_eq_ok.2 ⟨hbal, es, d, hs, hd, he⟩
    simp only [parseWithin, layOutWithin, hscan, normalizeWithin_of_nest hnest, Except.mapError, bind,
      Except.bind, hbuild]

/-- What a text writes is read from its laid-out tokens. -/
lemma Writes.exists_reads {limit : Nat} {text : String} {tokens : List Token} {outline : Outline} {e : Expr}
    (h : Writes text e) (hscan : scan text = .ok tokens)
    (hnest : Outline.nest limit 0 (Line.split tokens) = .ok outline) :
    ∃ d, Reads (.statements []) (outline.cursor tokens) e d ∧ d.here.kind = .ending := by
  obtain ⟨limits₀, hparse⟩ := h.admitted
  obtain ⟨_, o, es, staged, rfl⟩ := parseWithin_iff.1
    (hparse ⟨max limit limits₀.levels, limits₀.depth⟩ ⟨Nat.le_max_right _ _, le_rfl⟩)
  cases hscan.symm.trans staged.scan_eq
  cases (Outline.nest_mono hnest (Nat.le_max_left limit limits₀.levels)).symm.trans staged.nest_eq
  obtain ⟨d, hs, hd⟩ := staged.statements
  exact ⟨d, Sound.statements (Reads.of_parseExpr limits₀.depth) hs [], hd⟩

/-- Tokens that say the same leave the same brackets open. -/
lemma openAfter_same {stack : List Bool} {ts ts' : List Token} (h : List.Forall₂ Token.Same ts ts') :
    openAfter stack ts' = openAfter stack ts := by
  induction h generalizing stack with
  | nil => rfl
  | @cons t t' ts ts' ht _ ih =>
    have hbar : t'.isBar = t.isBar := by rw [Token.isBar, Token.isBar, ht.lexeme_eq]
    rcases t.bracket_cases with hk | hk | hk
    · rw [openAfter_opening hk, openAfter_opening (ht.kind_eq.trans hk), hbar, ih]
    · have hk' := ht.kind_eq.trans hk
      cases stack with
      | nil => rw [openAfter_nil_closing hk, openAfter_nil_closing hk']
      | cons family stack => rw [openAfter_closing hk, openAfter_closing hk', hbar, ih]
    · have hk' : t'.isBracket = false := by
        rw [Token.isBracket, ht.kind_eq]
        exact hk
      rw [openAfter_other hk, openAfter_other hk', ih]

/-- Tokens that match balanced ones are balanced. -/
lemma Balanced.of_matches {place : Int → Int → Prop} {ts ts' : List Token} (hbal : Balanced ts)
    (h : List.Forall₂ (Token.Matches place) ts ts') : Balanced ts' := by
  rw [Balanced, openAfter_same (h.imp fun _ _ h => h.toSame)]
  exact hbal

/-- Matching outlines have their brackets balanced alike. -/
lemma Outline.Matches.balanced {place : Int → Int → Prop} {k : Nat} {o o' : Outline}
    (h : o.Matches place k o') (hbal : Balanced o.tokens) : Balanced o'.tokens :=
  hbal.of_matches h.tokens

/-- Statements that reach the end of their list are read from a matching list, up to what follows there. -/
lemma statements_of_abreast {place : Int → Int → Prop} (unique : Relator.BiUnique place) {depth : Nat}
    {c c' d : Cursor} {tail turns turns' : List Token} {es : List Expr} (habreast : c.Abreast place tail c')
    (htail : tail.head?.all (·.kind ≠ .separator)) (hturns : turns.length ≤ turns'.length)
    (h : parseStatements (parseExpr depth) turns c = .ok (es, d)) (hd : d.here.kind = .ending) :
    ∃ d', parseStatements (parseExpr depth) turns' c' = .ok (es, d') ∧ d'.ahead = tail := by
  obtain ⟨d', hd', hs'⟩ := (Carries.parseExpr unique depth).statements habreast hturns h
  obtain ⟨-, -, -, hahead⟩ := hd'.cases.resolve_right fun h => h.1.inside hd
  rw [← hahead] at htail
  exact ⟨d', hs' (by simpa [Cursor.ahead] using htail), hahead⟩

/-- The statements of an outline are read from a matching one. -/
lemma Staged.statements_of_matches {place : Int → Int → Prop} (unique : Relator.BiUnique place)
    {limits : Limits} {text : String} {tokens : List Token} {outline : Outline} {es : List Expr}
    (h : Staged limits text tokens outline es) {k : Nat} {o : Outline} (hmatches : outline.Matches place k o)
    {ending : Token} (hending : ending.kind = .ending) {c : Cursor} (hc : c.ahead = o.tokens ++ [ending])
    {turns : List Token} (hturns : c.after.length ≤ turns.length) :
    ∃ d, parseStatements (parseExpr limits.depth) turns c = .ok (es, d) ∧ d.here.kind = .ending := by
  obtain ⟨d, hs, hd⟩ := h.statements
  have habreast : (outline.cursor tokens).Abreast place [ending] c := by
    rw [Cursor.Abreast, outline.ahead_cursor, hc]
    exact .of_forall₂ hmatches.tokens (endingOf_kind _) (by simp [Token.isEnd, hending])
  obtain ⟨d', hs', hahead⟩ := statements_of_abreast unique habreast (by simp [hending])
    (habreast.length_le.trans hturns) hs hd
  refine ⟨d', hs', ?_⟩
  rw [(List.cons.inj hahead).1]
  exact hending

/-- Texts whose tokens write matching lines are read alike, within the same limits. -/
theorem parseWithin_of_lined {place : Int → Int → Prop} (unique : Relator.BiUnique place)
    {limits : Limits} {text text' : String} {tokens tokens' : List Token} {e : Expr}
    (hscan : scan text = .ok tokens) (hscan' : scan text' = .ok tokens')
    (h : Lined place 0 true tokens tokens') (hparse : parseWithin limits text = .ok e) :
    parseWithin limits text' = .ok e := by
  obtain ⟨_, outline, es, staged, he⟩ := parseWithin_iff.1 hparse
  cases hscan.symm.trans staged.scan_eq
  obtain ⟨outline', hnest', hmatches⟩ := Outline.nest_matches h.split staged.nest_eq
  exact parseWithin_iff.2 ⟨tokens', outline', es, ⟨hscan', hnest', hmatches.balanced staged.balanced,
    staged.statements_of_matches unique hmatches (endingOf_kind tokens') (outline'.ahead_cursor tokens')
      le_rfl⟩, he⟩

end SignLang
