import SignLang.Proofs.Layout.Brackets
import SignLang.Proofs.Parser.Twins
import SignLang.Proofs.Scanner.Place

/-!
# Every position is right

All tokens of a text, written and borrowed, and all places where a text is refused are places of the
text as its line terminators make them (`placeAt`). The layout and the parser invent no places: what they
make and what they report stands where some scanned token does.
-/

namespace SignLang

open Scanner

/-- Some token of the list stands at the line, the column and the offset. -/
def Holds (tokens : List Token) (line column offset : Int) : Prop :=
  ∃ t ∈ tokens, t.line = line ∧ t.column = column ∧ t.offset = offset

variable {tokens : List Token}

/-- A list of tokens is related to itself by the places that it holds. -/
lemma forall₂_holds (tokens : List Token) :
    List.Forall₂ (fun t u => u = t ∧ Holds tokens t.line t.column t.offset) tokens tokens :=
  List.forall₂_same.2 fun t ht => ⟨rfl, t, ht, rfl, rfl, rfl⟩

/-- Laid-out tokens stand where tokens of the list do. -/
lemma holds_of_normalizeWithin {limit : Nat} {laidOut : List Token} (hne : tokens ≠ [])
    (h : normalizeWithin limit tokens = .ok laidOut) :
    ∀ t ∈ laidOut, Holds tokens t.line t.column t.offset := by
  have hagree := twins_normalizeWithin (Token.twinning_placed (Holds tokens)) limit
    (forall₂_holds tokens) hne
  rw [h] at hagree
  cases hagree with
  | ok hlaid =>
    intro t ht
    exact (List.forall₂_same.1 hlaid t ht).2

/-- Tokens that cannot be laid out are refused where a token of the list stands. -/
lemma holds_of_normalizeWithin_error {limit : Nat} {f : Layout.Failure} (hne : tokens ≠ [])
    (h : normalizeWithin limit tokens = .error f) :
    Holds tokens f.token.line f.token.column f.token.offset := by
  have hagree := twins_normalizeWithin (Token.twinning_placed (Holds tokens)) limit
    (forall₂_holds tokens) hne
  rw [h] at hagree
  cases hagree with
  | error hf => exact hf.2.2

/-- Tokens that cannot be parsed are refused where a token of the list stands. -/
lemma holds_of_buildWithin_error {depth : Nat} {laidOut : List Token} {f : Parser.Failure}
    (hne : laidOut ≠ []) (hlaid : ∀ t ∈ laidOut, Holds tokens t.line t.column t.offset)
    (h : buildWithin depth laidOut = .error f) :
    Holds tokens f.culprit.here.line f.culprit.here.column f.culprit.here.offset := by
  have hagree := twins_buildWithin (Token.twinning_placed (Holds tokens)) depth
    (List.forall₂_same.2 fun t ht => ⟨rfl, hlaid t ht⟩) hne
  rw [h] at hagree
  cases hagree with
  | error hf => exact hf.here.2

/-- A text is refused by the first stage that fails. -/
lemma parseWithin_eq_error {limits : Limits} {text : String} {refusal : Refusal}
    (h : parseWithin limits text = .error refusal) :
    (∃ f, scan text = .error f ∧ refusal = .lexical f) ∨
      ∃ tokens, scan text = .ok tokens ∧
        ((∃ f, normalizeWithin limits.levels tokens = .error f ∧ refusal = .layout f) ∨
          ∃ laidOut f, normalizeWithin limits.levels tokens = .ok laidOut ∧
            buildWithin limits.depth laidOut = .error f ∧ refusal = .parsing f) := by
  unfold parseWithin layOutWithin at h
  cases hscan : scan text with
  | error f =>
    rw [hscan] at h
    cases h
    exact .inl ⟨f, rfl, rfl⟩
  | ok tokens =>
    refine .inr ⟨tokens, rfl, ?_⟩
    cases hlaid : normalizeWithin limits.levels tokens with
    | error f =>
      simp only [hscan, hlaid, Except.mapError, bind, Except.bind, Except.error.injEq] at h
      exact .inl ⟨f, rfl, h.symm⟩
    | ok laidOut =>
      simp only [hscan, hlaid, Except.mapError, bind, Except.bind] at h
      cases hbuild : buildWithin limits.depth laidOut with
      | error f =>
        rw [hbuild] at h
        cases h
        exact .inr ⟨laidOut, f, rfl, hbuild, rfl⟩
      | ok e =>
        rw [hbuild] at h
        cases h

/-- A list that ends the input has a token. -/
lemma ne_nil_of_scan {text : String} (h : scan text = .ok tokens) : tokens ≠ [] := by
  obtain ⟨body, ending, rfl, -⟩ := scan_eq_concat h
  simp

/-- The refusal is reported at a place of the text: where a token stands, or, if there are no tokens
because the scanner gave up, where the lexeme stands that it shows. -/
def Refusal.PlacedIn (text : String) (refusal : Refusal) : Prop :=
  ∃ offset ≤ text.length, refusal.diagnostic.line = (placeAt text.toList offset).line ∧
    refusal.diagnostic.column = (placeAt text.toList offset).column ∧
    ((∃ tokens, scan text = .ok tokens ∧ ∃ t ∈ tokens, t.offset = offset) ∨
      refusal.diagnostic.stage = .lexical ∧ ∃ w, w ≠ [] ∧ w <+: text.toList.drop offset ∧
        refusal.diagnostic.lexeme = some (String.ofList w))

/-- A refusal at the place of a token is placed as the token is. -/
lemma Refusal.placedIn_of_holds {text : String} {refusal : Refusal} {offset : Int}
    (hscan : scan text = .ok tokens) (hplaced : ∀ t ∈ tokens, t.PlacedIn text.toList)
    (h : Holds tokens refusal.diagnostic.line refusal.diagnostic.column offset) :
    refusal.PlacedIn text := by
  obtain ⟨t, ht, hline, hcolumn, -⟩ := h
  obtain ⟨n, hn, hoffset, hline', hcolumn'⟩ := hplaced t ht
  refine ⟨n, String.length_toList ▸ hn, hline.symm.trans hline', hcolumn.symm.trans hcolumn', .inl ?_⟩
  exact ⟨tokens, hscan, t, ht, hoffset⟩

/-- Every position is right: all tokens of a text, scanned and laid out, stand at the places of their
offsets, and a text is refused at the place of a token, or at the place of the lexeme that is no
token. -/
theorem placedIn_of_parseWithin (limits : Limits) (text : String) :
    (∀ tokens, scan text = .ok tokens → (∀ t ∈ tokens, t.PlacedIn text.toList) ∧
      ∀ laidOut, normalizeWithin limits.levels tokens = .ok laidOut →
        ∀ t ∈ laidOut, t.PlacedIn text.toList) ∧
    ∀ refusal, parseWithin limits text = .error refusal → refusal.PlacedIn text := by
  have hscanned {tokens : List Token} (hscan : scan text = .ok tokens) :
      ∀ t ∈ tokens, t.PlacedIn text.toList :=
    scan_placed (by rwa [String.ofList_toList])
  constructor
  · intro tokens hscan
    refine ⟨hscanned hscan, fun laidOut hlaid t ht => ?_⟩
    obtain ⟨u, hu, hline, hcolumn, hoffset⟩ :=
      holds_of_normalizeWithin (ne_nil_of_scan hscan) hlaid t ht
    have hplaced := hscanned hscan u hu
    rwa [Token.PlacedIn, hline, hcolumn, hoffset] at hplaced
  · intro refusal h
    rcases parseWithin_eq_error h with ⟨f, hscan, rfl⟩ | ⟨tokens, hscan, hlater⟩
    · rw [← String.ofList_toList (s := text)] at hscan
      obtain ⟨offset, hle, hmark, w, hw, hfront, hlexeme⟩ := scan_error_shows hscan
      refine ⟨offset, String.length_toList ▸ hle, ?_, ?_, .inr ⟨rfl, w, hw, hfront, hlexeme⟩⟩
      · rw [← hmark]
        rfl
      · rw [← hmark]
        rfl
    · have hne := ne_nil_of_scan hscan
      rcases hlater with ⟨f, hlaid, rfl⟩ | ⟨laidOut, f, hlaid, hbuild, rfl⟩
      · exact Refusal.placedIn_of_holds hscan (hscanned hscan) (holds_of_normalizeWithin_error hne hlaid)
      · obtain ⟨outline, -, heq⟩ := normalizeWithin_eq_ok hlaid
        refine Refusal.placedIn_of_holds hscan (hscanned hscan) (holds_of_buildWithin_error ?_
          (holds_of_normalizeWithin hne hlaid) hbuild)
        rw [heq]
        simp

/-- The tokens of a character literal with a carriage return, the line feed after it, and an opening
bracket. -/
def returnTokens : List Token :=
  [⟨.character, "\\\r", 1, 1, 0, false⟩, ⟨.newline, "\n", 1, 3, 2, false⟩,
   ⟨.opening, "(", 2, 1, 3, false⟩, ⟨.ending, "", 2, 2, 4, false⟩]

/-- A line terminator of which the first half is in a literal, with a bracket after it that nothing
closes: all tokens are in place, and so is the refusal. -/
theorem placedIn_returnTokens : (∃ laidOut, scan "\\\r\n(" = .ok returnTokens ∧
      normalizeWithin 1 returnTokens = .ok laidOut ∧ (∀ t ∈ returnTokens, t.PlacedIn "\\\r\n(".toList) ∧
      ∀ t ∈ laidOut, t.PlacedIn "\\\r\n(".toList) ∧
    ∃ refusal, parseWithin ⟨1, 1⟩ "\\\r\n(" = .error refusal ∧ refusal.PlacedIn "\\\r\n(" := by
  obtain ⟨htokens, hrefusal⟩ := placedIn_of_parseWithin ⟨1, 1⟩ "\\\r\n("
  have hscan : scan "\\\r\n(" = .ok returnTokens := by decide +kernel
  have hlaid : (normalizeWithin 1 returnTokens).toBool := by decide +kernel
  have herror : (parseWithin ⟨1, 1⟩ "\\\r\n(").toBool = false := by decide +kernel
  constructor
  · cases h : normalizeWithin 1 returnTokens with
    | error f =>
      rw [h] at hlaid
      cases hlaid
    | ok laidOut =>
      exact ⟨laidOut, hscan, rfl, (htokens _ hscan).1, (htokens _ hscan).2 laidOut h⟩
  · cases h : parseWithin ⟨1, 1⟩ "\\\r\n(" with
    | error refusal => exact ⟨refusal, rfl, hrefusal refusal h⟩
    | ok e =>
      rw [h] at herror
      cases herror

end SignLang
