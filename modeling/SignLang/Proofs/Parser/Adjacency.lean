import SignLang.Proofs.Parser.Safety
import SignLang.Proofs.Parser.Twins
import SignLang.Proofs.Token

/-!
# Places tell the parser which tokens touch

The parser asks of two neighbours whether one is written directly after the other, and asks for no other
place. Token lists of which the same neighbours touch (`Displaced`) therefore write the same expression,
whatever lines, columns and offsets their tokens have. If they are refused, then for the same fault, at the
same position and with the same window around it (`Parser.Failure.Displaced`): only the lines and columns in
the report tell the refusals apart.

Main statement:

* `agree_of_displaced`: for all token lists, within any limit on nesting.
-/

namespace SignLang

variable {ts us : List Token}

/-- The list `us` is `ts` at other places: its tokens say the same, and the same neighbours touch. -/
structure Displaced (ts us : List Token) : Prop where
  same : List.Forall₂ Token.Same ts us
  touching_eq : touching us = touching ts

namespace Token.Same

variable {t u : Token}

lemma akin (h : t.Same u) : t.Akin u where
  kind_eq := h.kind_eq
  lexeme_eq _ := h.lexeme_eq
  length_eq := by rw [h.lexeme_eq]
  isBar_eq := by rw [isBar, isBar, h.lexeme_eq]
  synthetic_eq := h.synthetic_eq

lemma windowText_eq (h : t.Same u) : u.windowText = t.windowText := by
  rw [windowText, windowText, h.kind_eq, h.lexeme_eq]

end Token.Same

/-- Tokens that say the same are akin, and so is what is borrowed from them. -/
lemma Token.likening_same : Likening Same :=
  ⟨Same.akin, fun _ _ _ => ⟨rfl, rfl, rfl⟩⟩

/-- A window shows no more of a token list than its texts. -/
lemma window_congr (h : us.map Token.windowText = ts.map Token.windowText) (index radius : Int) :
    window us index radius = window ts index radius := by
  have hnear (ts : List Token) : window ts index radius =
      " ".intercalate (((ts.map Token.windowText).zipIdx.filter fun (_, i) =>
        index - radius ≤ i && i ≤ index + radius).map fun (text, i) =>
          if index = i then ">>" ++ text ++ "<<" else text) := by
    rw [window, List.zipIdx_map, List.filter_map, List.map_map]
    rfl
  rw [hnear, hnear, h]

/-- Lists whose tokens say the same have the same texts. -/
lemma map_windowText_eq (h : List.Forall₂ Token.Same ts us) :
    us.map Token.windowText = ts.map Token.windowText := by
  induction h with
  | nil => rfl
  | cons htu _ ih => exact congrArg₂ List.cons htu.windowText_eq ih

namespace Parser

/-- The refusals of two token lists that places alone tell apart. -/
structure Failure.Displaced (ts us : List Token) (f g : Failure) : Prop where
  /-- It is the same fault, of tokens that say the same. -/
  fault : f.fault.Like Token.Same g.fault
  /-- The tokens to blame are at the same position of the two lists. -/
  culprit : f.culprit.tokens = (Cursor.ofTokens ts).tokens ∧
    g.culprit.tokens = (Cursor.ofTokens us).tokens ∧ g.culprit.index = f.culprit.index
  /-- So are the tokens at which the parser stood. -/
  stopped : f.stopped.tokens = (Cursor.ofTokens ts).tokens ∧
    g.stopped.tokens = (Cursor.ofTokens us).tokens ∧ g.stopped.index = f.stopped.index
  /-- The report shows the same lexeme. -/
  lexeme_eq : g.diagnostic.lexeme = f.diagnostic.lexeme
  /-- The report shows the same window. -/
  window_eq : g.diagnostic.window = f.diagnostic.window

/-- Failures at the same places of lists whose tokens say the same are reported alike. -/
lemma Failure.Beside.displaced {f g : Failure} (h : f.Beside Token.Same g)
    (hf : f.culprit.tokens = (Cursor.ofTokens ts).tokens ∧ f.stopped.tokens = (Cursor.ofTokens ts).tokens)
    (hg : g.culprit.tokens = (Cursor.ofTokens us).tokens ∧ g.stopped.tokens = (Cursor.ofTokens us).tokens) :
    f.Displaced ts us g where
  fault := h.fault
  culprit := ⟨hf.1, hg.1, h.culprit.index_eq⟩
  stopped := ⟨hf.2, hg.2, h.stopped.index_eq⟩
  lexeme_eq := by
    simp only [Failure.diagnostic, Diagnostic.ofParser, h.culprit.here.kind_eq, h.culprit.here.lexeme_eq]
  window_eq := by
    have hwindow := window_congr (map_windowText_eq h.culprit.tokens) f.culprit.index windowRadius
    simp only [Failure.diagnostic, Diagnostic.ofParser, Cursor.window, h.culprit.index_eq, hwindow]

end Parser

/-- Places are read as adjacency only. Token lists of which the same neighbours touch write the same
expression, or none: then the fault is the same, and the same position is to blame, in the same window. -/
theorem agree_of_displaced (depth : Nat) (h : Displaced ts us) :
    Agree (Parser.Failure.Displaced ts us) (fun e e' => e' = e) (buildWithin depth ts)
      (buildWithin depth us) := by
  by_cases hne : ts = []
  · subst hne
    obtain rfl := List.forall₂_nil_left_iff.1 h.same
    have hempty : buildWithin depth [] = .ok (.block []) := rfl
    rw [hempty]
    exact .ok rfl
  have hagree := beside_buildWithin Token.likening_same depth h.same h.touching_eq hne
  generalize hx : buildWithin depth ts = x at hagree ⊢
  generalize hy : buildWithin depth us = y at hagree ⊢
  cases hagree with
  | ok he => exact .ok he
  | error hfailure =>
    apply Agree.error
    exact hfailure.displaced (Positions.tokens_of_buildWithin_error hx) (Positions.tokens_of_buildWithin_error hy)

/-- The tokens of `a! b`. -/
def bangTokens : List Token :=
  [⟨.identifier, "a", 1, 1, 0, false⟩, ⟨.operator, "!", 1, 2, 1, false⟩,
   ⟨.identifier, "b", 1, 4, 3, false⟩, ⟨.ending, "", 1, 5, 4, false⟩]

/-- The same tokens at places that no text has. -/
def strewnBangTokens : List Token :=
  [⟨.identifier, "a", 7, -3, -9, false⟩, ⟨.operator, "!", 0, 0, -8, false⟩,
   ⟨.identifier, "b", 2, 9, -100, false⟩, ⟨.ending, "", 1, 5, -99, false⟩]

/-- The tokens of `[- 2,, 3]`. -/
def commaTokens : List Token :=
  [⟨.opening, "[", 1, 1, 0, false⟩, ⟨.operator, "-", 1, 2, 1, false⟩, ⟨.number, "2", 1, 4, 3, false⟩,
   ⟨.operator, ",", 1, 5, 4, false⟩, ⟨.operator, ",", 1, 6, 5, false⟩, ⟨.number, "3", 1, 8, 7, false⟩,
   ⟨.closing, "]", 1, 9, 8, false⟩, ⟨.ending, "", 1, 10, 9, false⟩]

/-- The same tokens at places that no text has. -/
def strewnCommaTokens : List Token :=
  [⟨.opening, "[", 4, 4, 20, false⟩, ⟨.operator, "-", 3, 3, 21, false⟩, ⟨.number, "2", 2, 2, 5, false⟩,
   ⟨.operator, ",", 9, 1, 6, false⟩, ⟨.operator, ",", 9, 1, 7, false⟩, ⟨.number, "3", 0, 0, 7, false⟩,
   ⟨.closing, "]", 5, 5, 8, false⟩, ⟨.ending, "", 6, 6, 9, false⟩]

/-- An exclamation mark that touches its operand, and a group without left operand that is not closed where a
second comma stands, each with its tokens strewn about. -/
theorem agree_of_displaced_strewn :
    (Displaced bangTokens strewnBangTokens ∧ buildWithin Parser.maxDepth strewnBangTokens =
      .ok (.apply (.unary "!" false (.identifier "a")) [.identifier "b"])) ∧
    Displaced commaTokens strewnCommaTokens ∧ ∃ g, buildWithin Parser.maxDepth strewnCommaTokens = .error g ∧
      g.culprit.index = 4 ∧ g.diagnostic.window = some "- 2 , >>,<< 3 ] <eof>" := by
  have hbang : Displaced bangTokens strewnBangTokens := by
    refine ⟨?_, by decide⟩
    repeat refine .cons ⟨rfl, rfl, rfl⟩ ?_
    exact .nil
  have hcomma : Displaced commaTokens strewnCommaTokens := by
    refine ⟨?_, by decide⟩
    repeat refine .cons ⟨rfl, rfl, rfl⟩ ?_
    exact .nil
  have hread : buildWithin Parser.maxDepth bangTokens =
      .ok (.apply (.unary "!" false (.identifier "a")) [.identifier "b"]) := by
    decide +kernel
  have hrefused : (buildWithin Parser.maxDepth commaTokens).mapError
      (fun f => (f.culprit.index, f.diagnostic.window)) = .error (4, some "- 2 , >>,<< 3 ] <eof>") := by
    decide +kernel
  have hread' := agree_of_displaced Parser.maxDepth hbang
  have hrefused' := agree_of_displaced Parser.maxDepth hcomma
  constructor
  · rw [hread] at hread'
    refine ⟨hbang, ?_⟩
    generalize buildWithin Parser.maxDepth strewnBangTokens = outcome at hread' ⊢
    cases hread' with
    | ok he => rw [he]
  · refine ⟨hcomma, ?_⟩
    generalize buildWithin Parser.maxDepth commaTokens = written at hrefused hrefused'
    generalize buildWithin Parser.maxDepth strewnCommaTokens = outcome at hrefused' ⊢
    cases hrefused' with
    | ok he => cases hrefused
    | @error f g hfailure =>
      obtain ⟨hindex, hwindow⟩ := Prod.mk.inj (Except.error.inj hrefused)
      exact ⟨g, rfl, hfailure.culprit.2.2.trans hindex, hfailure.window_eq.trans hwindow⟩

end SignLang
