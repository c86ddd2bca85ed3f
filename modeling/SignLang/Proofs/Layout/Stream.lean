import SignLang.Proofs.Layout.Page

/-!
# Laid-out pages

The layout of a page, as a parser that reads from the left meets it. A line with a body puts one
bracket after each of the block operators that end it, so that the brackets open from the left while
nothing but block operators is left of the line (`encloseFrom`).

* `Phrase.Streams`: the laid-out tokens of a phrase and of the page below it.
* `streamOf_append`, `streamOf_join`: the tokens of a line, part by part.
* `Page.Formed.layOut`: the text of a formed page is laid out as the page.
-/

namespace SignLang

open Item

/-- The token is an operator that takes the lines indented below it. -/
def Token.isHeader (t : Token) : Bool :=
  t.isOperator Operator.blockSymbols

/-- The rest of a line with the tokens `body` below it. Every block operator of those that end the
line opens a bracket, and `closer` closes it. -/
def encloseFrom (closer : Token) (body : List Token) : List Token → List Token
  | [] => body
  | t :: ts =>
    if (t :: ts).all Token.isHeader then
      t :: t.borrow .opening "[" :: encloseFrom closer body ts ++ [closer]
    else t :: encloseFrom closer body ts

/-- The tokens of a line with those of the lines below it. -/
def streamOf (line body : List Token) : List Token :=
  match body.getLast? with
  | none => line
  | some last => encloseFrom (last.borrow .closing "]") body line

/-- What is left of a line that is used up is its body. -/
lemma streamOf_nil_left (body : List Token) : streamOf [] body = body := by
  unfold streamOf
  split
  · next h => exact (List.getLast?_eq_none_iff.1 h).symm
  · rfl

section Enclose

variable {closer : Token} {body us vs : List Token}

/-- Tokens before one that takes no block stand as they are. -/
lemma encloseFrom_append (h : us.getLast?.all (!·.isHeader) ∨ vs.all Token.isHeader = false) :
    encloseFrom closer body (us ++ vs) = us ++ encloseFrom closer body vs := by
  induction us with
  | nil => rfl
  | cons t us ih =>
    have hnot : ((t :: (us ++ vs)).all Token.isHeader) = false := by
      rcases h with h | h
      · obtain ⟨init, last, heq⟩ := (List.eq_nil_or_concat' (t :: us)).resolve_left (by simp)
        rw [heq, List.getLast?_concat, Option.all_some, Bool.not_eq_true'] at h
        rw [← List.cons_append, heq]
        simp [h]
      · rw [← List.cons_append, List.all_append, h, Bool.and_false]
    rw [List.cons_append, encloseFrom, hnot, if_neg Bool.false_ne_true]
    refine congrArg (t :: ·) (ih (h.imp_left fun h => ?_))
    cases us with
    | nil => rfl
    | cons u us => rwa [List.getLast?_cons_cons] at h

/-- Block operators that end a line open a bracket each. -/
lemma encloseFrom_headers (h : us.all Token.isHeader) :
    encloseFrom closer body us =
      us.flatMap (fun op => [op, op.borrow .opening "["]) ++ body ++ us.map fun _ => closer := by
  induction us with
  | nil => simp [encloseFrom]
  | cons t us ih =>
    have hus : us.all Token.isHeader := by
      rw [List.all_cons, Bool.and_eq_true] at h
      exact h.2
    have hmap : (us.map fun _ => closer) ++ [closer] = closer :: us.map fun _ => closer := by
      rw [List.map_const', ← List.replicate_succ', List.replicate_succ]
    rw [encloseFrom, if_pos h, ih hus, List.cons_append, List.cons_append, List.append_assoc, hmap]
    simp

end Enclose

/-- The block operators of a line, as the longest run of headers at its end. -/
lemma Line.headers_eq (line : Line) :
    line.headers = (line.tokens.reverse.takeWhile Token.isHeader).reverse := rfl

/-- The block operators of a line are headers. -/
lemma Line.all_headers (line : Line) : line.headers.all Token.isHeader := by
  rw [List.all_eq_true]
  intro t ht
  rw [headers_eq, List.mem_reverse] at ht
  exact List.mem_takeWhile_imp ht

/-- No other block operator stands before those that end a line. -/
lemma Line.getLast?_stem (line : Line) : line.stem.getLast?.all (!·.isHeader) := by
  have hsplit := line.stem_append_headers
  cases hlast : line.stem.getLast? with
  | none => rfl
  | some t =>
    obtain ⟨init, hinit⟩ := List.getLast?_eq_some_iff.1 hlast
    rw [Option.all_some, Bool.not_eq_true']
    by_contra ht
    rw [Bool.not_eq_false] at ht
    have hall : ∀ u ∈ line.headers.reverse, u.isHeader := by
      intro u hu
      exact List.all_eq_true.1 line.all_headers u (List.mem_reverse.1 hu)
    have hheaders := line.headers_eq
    rw [← hsplit, hinit, List.reverse_append, List.takeWhile_append_of_pos hall,
      List.reverse_concat, List.takeWhile_cons_of_pos ht] at hheaders
    have hlength := congrArg List.length hheaders
    simp at hlength
    omega

/-- A line with a body, from the left. -/
lemma Outline.enclose_eq_streamOf (line : Line) (body : List Token) :
    enclose line body = streamOf line.tokens body := by
  unfold enclose streamOf
  cases body.getLast? with
  | none => rfl
  | some last =>
    dsimp only
    conv => rhs; rw [← line.stem_append_headers]
    rw [encloseFrom_append (.inl line.getLast?_stem), encloseFrom_headers line.all_headers]
    simp

/-! ## The tokens of a line, part by part -/

/-- The tokens are a bracket of the layout, `inside`, and the bracket that closes it. -/
def Bracketed (inside ts : List Token) : Prop :=
  ∃ opener closer : Token, opener.kind = .opening ∧ opener.lexeme = "[" ∧ closer.kind = .closing ∧
    ts = opener :: inside ++ [closer]

section Stream

variable {body us vs : List Token} {op : Token}

/-- What stands before the rest of a line stands before the rest of its tokens, if it does not end in
a block operator. -/
lemma streamOf_append (h : us.getLast?.all (!·.isHeader)) :
    streamOf (us ++ vs) body = us ++ streamOf vs body := by
  unfold streamOf
  split
  · rfl
  · exact encloseFrom_append (.inl h)

/-- Block operators that end a line have what they take in brackets. -/
lemma streamOf_headers (h : us.getLast?.all (!·.isHeader)) (hop : op.isHeader)
    (hvs : vs.all Token.isHeader) (hbody : body ≠ []) :
    ∃ ts, streamOf (us ++ op :: vs) body = us ++ op :: ts ∧ Bracketed (streamOf vs body) ts := by
  rw [streamOf_append h]
  unfold streamOf
  split
  · next hnone => exact absurd (List.getLast?_eq_none_iff.1 hnone) hbody
  · next last hlast =>
    rw [encloseFrom, if_pos (by rw [List.all_cons, hop, hvs, Bool.and_self])]
    exact ⟨_, rfl, op.borrow .opening "[", last.borrow .closing "]", rfl, rfl, rfl, rfl⟩

/-- What stands before the rest of a line stands before the rest of its tokens, which the layout may
have put in brackets. -/
lemma streamOf_join (h : us.getLast?.all (!·.isHeader)) :
    ∃ ts, streamOf (us ++ op :: vs) body = us ++ op :: ts ∧
      (ts = streamOf vs body ∨ body ≠ [] ∧ Bracketed (streamOf vs body) ts) := by
  by_cases hall : op.isHeader ∧ vs.all Token.isHeader ∧ body ≠ []
  · obtain ⟨ts, hts, hbracketed⟩ := streamOf_headers h hall.1 hall.2.1 hall.2.2
    exact ⟨ts, hts, .inr ⟨hall.2.2, hbracketed⟩⟩
  · refine ⟨streamOf vs body, ?_, .inl rfl⟩
    rw [streamOf_append h]
    refine congrArg (us ++ ·) ?_
    by_cases hop : op.isHeader
    · by_cases hbody : body = []
      · rw [hbody]
        rfl
      · unfold streamOf
        split
        · rfl
        · refine @encloseFrom_append _ body [op] vs (.inr ?_)
          by_contra hvs
          rw [Bool.not_eq_false] at hvs
          exact hall ⟨hop, hvs, hbody⟩
    · exact @streamOf_append body [op] vs (by simpa using hop)

end Stream

/-- The laid-out tokens of a phrase: its line, and the page below it. -/
def Phrase.Streams (p : Phrase) (ts : List Token) : Prop :=
  ∃ offset us outline, Spelled offset p.line us ∧ p.body.Outlined outline ∧
    ts = streamOf us outline.tokens

/-- The layout of a page that has lines has tokens. -/
lemma Page.Outlined.tokens_ne_nil {page : Page} {outline : Outline} (h : page.Outlined outline)
    (hsome : page.isSome) : outline.tokens ≠ [] := by
  cases h with
  | done => cases hsome
  | entry => exact Outline.tokens_ne_nil _ _ _

/-- The layout of a formed page closes what it opens. -/
lemma Page.Outlined.balanced {page : Page} {outline : Outline} (h : page.Outlined outline)
    (formed : page.Formed) : Balanced outline.tokens := by
  induction h with
  | done => rfl
  | @entry words body next line body' next' offset hwords _ _ ihbody ihnext =>
    obtain ⟨hlegible, -, -, hbody, hnext⟩ := formed
    have hline := Outline.balanced_enclose (hlegible.closed hwords).2 (ihbody hbody)
    rw [Balanced, Outline.tokens, openAfter_append, openAfter_append, hline, Option.bind_some,
      Outline.openAfter_separator, Option.bind_some]
    exact ihnext hnext

/-- The end of a list that is closed by the end of the input. -/
lemma endingOf_concat {ts : List Token} {ending : Token} (h : ending.kind = .ending) :
    endingOf (ts ++ [ending]) = ending := by
  simp [endingOf, h]

/-- The text of a formed page is laid out as the page, if enough levels are admitted. -/
theorem Page.Formed.layOut {page : Page} (h : page.Formed) :
    ∃ tokens limit outline ending, SignLang.scan (String.ofList (page.text 0).tail) = .ok tokens ∧
      normalizeWithin limit tokens = .ok (outline.tokens ++ [ending]) ∧ ending.kind = .ending ∧
      page.Outlined outline := by
  obtain ⟨ts, ending, hscan, hending, hprinted⟩ := h.scan
  obtain ⟨limit, outline, hnest, hout⟩ := h.nest (hprinted.split (h.starts 0) hending)
  refine ⟨ts ++ [ending], limit, outline, ending, hscan, ?_, hending, hout⟩
  unfold normalizeWithin Layout.ofTokensWithin
  dsimp only
  rw [hnest, endingOf_concat hending]
  rfl

end SignLang
