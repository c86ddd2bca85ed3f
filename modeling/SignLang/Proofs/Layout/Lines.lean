import Mathlib
import SignLang.Layout

/-!
# Lines and their nesting

The layout stage takes a token list apart into lines and nests them. Neither step loses a token: the
lines of a nesting are the lines it was made of (`Outline.lines_of_nest`), and the tokens of the
lines are those of the list that are neither indentation nor the end of a line (`Line.flatMap_split`).
-/

namespace SignLang

/-- The token stands inside of a line: it is no indentation, no line end and no end of the input. -/
def Token.isContent (t : Token) : Bool :=
  t.kind ≠ .newline && t.kind ≠ .indent && t.kind ≠ .ending

/-- The tokens of a list before the end of the input. -/
def beforeEnding (ts : List Token) : List Token :=
  ts.takeWhile (·.kind ≠ .ending)

/-- A token before the end of the input is followed by what is before it. -/
lemma beforeEnding_cons {t : Token} (h : t.kind ≠ .ending) (ts : List Token) :
    beforeEnding (t :: ts) = t :: beforeEnding ts := by
  simp [beforeEnding, h]

/-- A list that is closed by the end of the input is what is before it. -/
lemma beforeEnding_concat {ts : List Token} {ending : Token} (hts : ∀ t ∈ ts, t.kind ≠ .ending)
    (h : ending.kind = .ending) : beforeEnding (ts ++ [ending]) = ts := by
  rw [beforeEnding, List.takeWhile_append_of_pos (by simpa using hts)]
  simp [h]

namespace Outline

/-- The lines of an outline, a line before its body and its body before its siblings. -/
def lines : Outline → List Line
  | done => []
  | entry line body next => line :: (body.lines ++ next.lines)

/-- A line with its body is never empty. -/
lemma enclose_ne_nil (line : Line) (body : List Token) : enclose line body ≠ [] := by
  unfold enclose
  split
  · exact List.cons_ne_nil _ _
  · next last hlast =>
    have : body ≠ [] := by
      rintro rfl
      cases hlast
    simp [this]

/-- Only the outline without lines has no tokens. -/
lemma tokens_ne_nil (line : Line) (body next : Outline) : (entry line body next).tokens ≠ [] := by
  simp [tokens, enclose_ne_nil]

/-- A line is nested by the lines below it that are deeper. -/
lemma nest_cons (limit level : Nat) (line : Line) (rest : List Line) :
    nest limit level (line :: rest) =
      if level < line.level then .error ⟨.unexpectedIndent, line.first⟩
      else
        match rest.takeWhile (level < ·.level) with
        | [] => do
          let next ← nest limit level rest
          return .entry line .done next
        | first :: others =>
          if line.headers.isEmpty then .error ⟨.unexpectedIndent, first.first⟩
          else if first.level ≠ level + 1 then .error ⟨.jump level first.level, first.first⟩
          else if limit ≤ first.level then .error ⟨.tooDeep, first.first⟩
          else do
            let body ← nest limit (level + 1) (first :: others)
            let next ← nest limit level (rest.dropWhile (level < ·.level))
            return .entry line body next := by
  rw [nest]
  split
  · rfl
  · split
    · next hnil => rw [hnil]
    · next hcons => rw [hcons]

/-- The outline nests the lines at a level and below a limit: a line without deeper ones directly below it
stands alone, and any other one is a header and has them as its body, one level deeper. -/
inductive Nesting (limit : Nat) : Nat → List Line → Outline → Prop where
  | done {level} : Nesting limit level [] .done
  | plain {level line rest next} :
    line.level ≤ level →
    rest.takeWhile (level < ·.level) = [] →
    Nesting limit level rest next →
    Nesting limit level (line :: rest) (.entry line .done next)
  | header {level line rest first others body next} :
    line.level ≤ level →
    rest.takeWhile (level < ·.level) = first :: others →
    line.headers ≠ [] →
    first.level = level + 1 →
    first.level < limit →
    Nesting limit (level + 1) (first :: others) body →
    Nesting limit level (rest.dropWhile (level < ·.level)) next →
    Nesting limit level (line :: rest) (.entry line body next)

section Nesting

variable {limit level : Nat} {line first : Line} {rest others ls : List Line} {o : Outline}

/-- A line without deeper ones directly below it stands alone. -/
lemma nest_plain (hlevel : line.level ≤ level) (hnone : rest.takeWhile (level < ·.level) = []) :
    nest limit level (line :: rest) = do
      let next ← nest limit level rest
      return .entry line .done next := by
  rw [nest_cons, if_neg (Nat.not_lt.2 hlevel), hnone]

/-- A header has the deeper lines directly below it as its body. -/
lemma nest_header (hlevel : line.level ≤ level) (hsome : rest.takeWhile (level < ·.level) = first :: others)
    (hheaders : line.headers ≠ []) (hfirst : first.level = level + 1) (hlimit : first.level < limit) :
    nest limit level (line :: rest) = do
      let body ← nest limit (level + 1) (first :: others)
      let next ← nest limit level (rest.dropWhile (level < ·.level))
      return .entry line body next := by
  rw [nest_cons, if_neg (Nat.not_lt.2 hlevel), hsome]
  dsimp only
  rw [if_neg (by simpa using hheaders), if_neg (not_not.2 hfirst), if_neg (Nat.not_le.2 hlimit)]

/-- What is found for the lines is their nesting. -/
lemma nesting_of_nest (h : nest limit level ls = .ok o) : Nesting limit level ls o := by
  fun_induction nest limit level ls generalizing o with
  | case1 =>
    cases h
    exact .done
  | case2 | case4 | case5 | case6 => cases h
  | case3 level line rest hlevel hnone ih =>
    cases hn : nest limit level rest with
    | error f => rw [hn] at h; cases h
    | ok next =>
      rw [hn] at h
      cases h
      exact .plain (Nat.not_lt.1 hlevel) hnone (ih hn)
  | case7 level line rest hlevel first others hsome hheaders hjump hdeep ihbody ihnext =>
    cases hb : nest limit (level + 1) (first :: others) with
    | error f => rw [hb] at h; cases h
    | ok body =>
      cases hn : nest limit level (rest.dropWhile (level < ·.level)) with
      | error f => rw [hb, hn] at h; cases h
      | ok next =>
        rw [hb, hn] at h
        cases h
        exact .header (Nat.not_lt.1 hlevel) hsome (by simpa using hheaders) (not_not.1 hjump)
          (Nat.not_le.1 hdeep) (ihbody hb) (ihnext hn)

/-- The nesting of the lines is found. -/
lemma Nesting.nest_eq (h : Nesting limit level ls o) : nest limit level ls = .ok o := by
  induction h with
  | done => rw [nest]
  | plain hlevel hnone _ ih =>
    rw [nest_plain hlevel hnone, ih]
    rfl
  | header hlevel hsome hheaders hfirst hlimit _ _ ihbody ihnext =>
    rw [nest_header hlevel hsome hheaders hfirst hlimit, ihbody, ihnext]
    rfl

/-- An outline is found for the lines if it nests them. -/
theorem nest_iff : nest limit level ls = .ok o ↔ Nesting limit level ls o :=
  ⟨nesting_of_nest, Nesting.nest_eq⟩

/-- Nesting keeps the lines and their order. -/
lemma lines_of_nest (h : nest limit level ls = .ok o) : o.lines = ls := by
  rw [nest_iff] at h
  induction h with
  | done => rfl
  | plain _ _ _ ih => rw [lines, ih, lines, List.nil_append]
  | header _ hsome _ _ _ _ _ ihbody ihnext =>
    rw [lines, ihbody, ihnext, ← hsome, List.takeWhile_append_dropWhile]

/-- A nesting is found within any limit, unless the limit is too low. -/
lemma nest_or_tooDeep (h : nest limit level ls = .ok o) (limit' : Nat) :
    nest limit' level ls = .ok o ∨
      limit' < limit ∧ ∃ t, nest limit' level ls = .error ⟨.tooDeep, t⟩ := by
  rw [nest_iff] at h
  induction h with
  | done => exact .inl Nesting.done.nest_eq
  | plain hlevel hnone _ ih =>
    rw [nest_plain hlevel hnone]
    rcases ih with ih | ⟨hlt, t, ih⟩
    · exact .inl (by rw [ih]; rfl)
    · exact .inr ⟨hlt, t, by rw [ih]; rfl⟩
  | @header level line rest first others body next hlevel hsome hheaders hfirst hlimit _ _ ihbody ihnext =>
    by_cases hdeep : limit' ≤ first.level
    · refine .inr ⟨by omega, first.first, ?_⟩
      rw [nest_cons, if_neg (Nat.not_lt.2 hlevel), hsome]
      dsimp only
      rw [if_neg (by simpa using hheaders), if_neg (not_not.2 hfirst), if_pos hdeep]
    rw [nest_header hlevel hsome hheaders hfirst (Nat.not_le.1 hdeep)]
    rcases ihbody with ihbody | ⟨hlt, t, ihbody⟩
    · rcases ihnext with ihnext | ⟨hlt, t, ihnext⟩
      · exact .inl (by rw [ihbody, ihnext]; rfl)
      · exact .inr ⟨hlt, t, by rw [ihbody, ihnext]; rfl⟩
    · exact .inr ⟨hlt, t, by rw [ihbody]; rfl⟩

end Nesting

/-- A nesting that is found is found within any higher limit. -/
lemma nest_mono {limit limit' level : Nat} {ls : List Line} {o : Outline}
    (h : nest limit level ls = .ok o) (hle : limit ≤ limit') : nest limit' level ls = .ok o :=
  (nest_or_tooDeep h limit').resolve_right fun h => absurd h.1 (Nat.not_lt.2 hle)

end Outline

namespace Line

/-- The tokens gathered for a line are its tokens. -/
lemma flatMap_ofGathered (level : Nat) (gathered : List Token) :
    (ofGathered level gathered).flatMap tokens = gathered.reverse := by
  unfold ofGathered
  split
  · next h => simp [h]
  · next h => simp [h, tokens]

/-- The block operators end their line. -/
lemma stem_append_headers (line : Line) : line.stem ++ line.headers = line.tokens := by
  have h : line.headers <:+ line.tokens := by
    rw [headers, trailingBlockOps, ← List.reverse_prefix, List.reverse_reverse]
    exact List.takeWhile_prefix _
  rw [stem, ← List.suffix_iff_eq_append.1 h]
  simp

/-- The headers of a line are block operators. -/
lemma isOperator_of_mem_headers {line : Line} {t : Token} (h : t ∈ line.headers) :
    t.isOperator Operator.blockSymbols := by
  rw [headers, trailingBlockOps, List.mem_reverse] at h
  have hop := List.mem_takeWhile_imp h
  exact hop

/-- The block operators of a line are operators. -/
lemma kind_of_mem_headers {line : Line} {t : Token} (h : t ∈ line.headers) :
    t.kind = .operator :=
  Token.kind_of_isOperator (isOperator_of_mem_headers h)

/-- Splitting keeps the content of a list, up to the end of the input. -/
lemma flatMap_splitFrom (level depth : Nat) (gathered ts : List Token) :
    (splitFrom level depth gathered ts).flatMap tokens =
      gathered.reverse ++ (beforeEnding ts).filter Token.isContent := by
  fun_induction splitFrom level depth gathered ts with
  | case1 => simp [flatMap_ofGathered, beforeEnding]
  | case2 level depth gathered t rest hk => simp [flatMap_ofGathered, beforeEnding, hk]
  | case3 level gathered t rest hk ih =>
    rw [List.flatMap_append, flatMap_ofGathered, ih, beforeEnding_cons (by simp [hk])]
    simp [Token.isContent, hk]
  | case4 level depth gathered t rest hk _ ih | case5 level depth gathered t rest hk ih =>
    rw [ih, beforeEnding_cons (by simp [hk])]
    simp [Token.isContent, hk]
  | case6 level depth gathered t rest hk ih | case7 level depth gathered t rest hk ih =>
    rw [ih, beforeEnding_cons (by simp [hk])]
    simp [Token.isContent, hk]
  | case8 level depth gathered t rest hend hnewline hindent hopening hclosing ih =>
    have hcontent : t.isContent := by
      simp only [Token.isContent, Bool.and_eq_true, decide_eq_true_eq]
      exact ⟨⟨hnewline, hindent⟩, hend⟩
    rw [ih, beforeEnding_cons hend, List.filter_cons_of_pos hcontent]
    simp

/-- Splitting keeps the content of a list, up to the end of the input. -/
lemma flatMap_split (ts : List Token) :
    (split ts).flatMap tokens = (beforeEnding ts).filter Token.isContent := by
  simpa [split] using flatMap_splitFrom 0 0 [] ts

end Line

end SignLang
