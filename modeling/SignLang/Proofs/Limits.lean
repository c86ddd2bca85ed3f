import SignLang.Proofs.Layout.Brackets
import SignLang.Proofs.Parser.Reads

/-!
# Limits on nesting

A text is read within limits on its levels of indentation and on the expressions nested in it. Lower
limits change nothing about what a text means: it is read as the same expression or refused as nested
too deeply, and for no other reason. `Writes text e` says that `e` is the meaning of `text` in this
sense, whatever the limits are.
-/

namespace SignLang

/-- The text is refused only because it is nested too deeply. -/
def Refusal.isTooDeep : Refusal → Bool
  | lexical _ => false
  | layout failure => failure.fault = .tooDeep
  | parsing failure => failure.fault = .tooDeep

namespace Parser

/-! ## Lower limits on nested expressions -/

/-- The outcome `x` is the outcome `y`, unless a lower limit is in the way. -/
def Curbs {α : Type} (x y : Except Failure α) : Prop :=
  x = y ∨ ∃ f, x = .error f ∧ f.fault = .tooDeep

namespace Curbs

/-- Every outcome curbs itself. -/
lemma refl {α : Type} (x : Except Failure α) : Curbs x x :=
  .inl rfl

/-- What is made of a curbed outcome is curbed. -/
lemma map {α β : Type} {x y : Except Failure α} (h : Curbs x y) (f : α → β) :
    Curbs (x.map f) (y.map f) := by
  rcases h with rfl | ⟨failure, rfl, hdeep⟩
  · exact refl _
  · exact .inr ⟨failure, rfl, hdeep⟩

/-- What goes on after a curbed outcome is curbed. -/
lemma bind {α β : Type} {x y : Except Failure α} {f g : α → Except Failure β} (h : Curbs x y)
    (hfg : ∀ a, Curbs (f a) (g a)) : Curbs (x >>= f) (y >>= g) := by
  rcases h with rfl | ⟨failure, rfl, hdeep⟩
  · cases x with
    | error failure => exact refl _
    | ok a => exact hfg a
  · exact .inr ⟨failure, rfl, hdeep⟩

/-- Both outcomes are chosen by one condition. -/
lemma ite {α : Type} {p : Prop} [Decidable p] {x x' y y' : Except Failure α} (h : Curbs x x')
    (h' : Curbs y y') : Curbs (if p then x else y) (if p then x' else y') := by
  split
  · exact h
  · exact h'

end Curbs

section Readers

variable {parse parse' : Reader} (h : ∀ p c, Curbs (parse p c) (parse' p c))
include h

/-- A right operand is read within the lower limit or not at all. -/
lemma Curbs.parseRight (operator : Cursor) (p : Nat) (c : Cursor) :
    Curbs (parseRight parse operator p c) (parseRight parse' operator p c) :=
  .ite (h p c) (.refl _)

/-- Statements are read within the lower limit or not at all. -/
lemma Curbs.parseStatements (turns : List Token) (c : Cursor) :
    Curbs (parseStatements parse turns c) (parseStatements parse' turns c) := by
  induction turns generalizing c with
  | nil =>
    rw [Parser.parseStatements, Parser.parseStatements]
    exact .ite (.refl _) (.bind (h 0 c) fun _ => .refl _)
  | cons t turns ih =>
    rw [Parser.parseStatements, Parser.parseStatements]
    exact .ite (.refl _) (.bind (h 0 c) fun r => .ite (.bind (ih r.2.advance) fun _ => .refl _) (.refl _))

/-- A sequence is read within the lower limit or not at all. -/
lemma Curbs.parseSequence (c : Cursor) :
    Curbs (parseSequence parse c) (parseSequence parse' c) :=
  .bind (.parseStatements h c.after c) fun _ => .refl _

/-- The inside of a group is read within the lower limit or not at all. -/
lemma Curbs.parsePointFree (c : Cursor) :
    Curbs (parsePointFree parse c) (parsePointFree parse' c) :=
  .ite (.refl _) (.bind (.parseRight h c _ c.advance) fun _ => .refl _)

/-- A group is read within the lower limit or not at all. -/
lemma Curbs.parseGroup (c : Cursor) : Curbs (parseGroup parse c) (parseGroup parse' c) :=
  .ite (.ite (.refl _) (.bind (.parseSequence h c.advance) fun _ => .refl _))
    (.ite (.refl _) (.ite (.bind (.parsePointFree h c.advance) fun _ => .refl _)
      (.bind (.parseSequence h c.advance) fun _ => .refl _)))

/-- A definition is read within the lower limit or not at all. -/
lemma Curbs.parseDefine (c : Cursor) : Curbs (parseDefine parse c) (parseDefine parse' c) :=
  .bind (.parseRight h c.advance _ c.advance.advance) fun _ => .refl _

/-- A function is read within the lower limit or not at all. -/
lemma Curbs.parseLambda (params : List Parameter) (c : Cursor) :
    Curbs (parseLambda parse params c) (parseLambda parse' params c) :=
  .bind (.parseRight h _ _ _) fun _ => .refl _

/-- An operand is read by its first token within the lower limit or not at all. -/
lemma Curbs.parsePrimary (c : Cursor) : Curbs (parsePrimary parse c) (parsePrimary parse' c) := by
  unfold Parser.parsePrimary
  split
  case h_6 => exact .parseGroup h c
  case h_7 =>
    refine .ite (.parseLambda h [] c) ?_
    split
    · exact .bind (.parseRight h c _ c.advance) fun _ => .refl _
    · exact .refl _
  all_goals exact .refl _

/-- An operand is read within the lower limit or not at all. -/
lemma Curbs.parseOperand (p : Nat) (c : Cursor) :
    Curbs (parseOperand parse p c) (parseOperand parse' p c) := by
  unfold Parser.parseOperand
  refine .ite (.parseDefine h c) ?_
  split
  · exact .parseLambda h _ c
  · exact .parsePrimary h c

/-- An operator takes its right operand within the lower limit or not at all. -/
lemma Curbs.parseJoin (op : Operator) (left : Left) (c : Cursor) :
    Curbs (parseJoin parse op left c) (parseJoin parse' op left c) := by
  have hright := Curbs.parseRight h c op.rightPower c.advance
  unfold Parser.parseJoin
  refine .ite (.bind hright fun _ => .refl _) (.ite ?_ (.bind hright fun _ => .refl _))
  split
  · exact .refl _
  · exact .bind hright fun _ => .refl _

/-- What follows an operand is read within the lower limit or not at all. -/
lemma Curbs.climb (p : Nat) (turns : List Token) (left : Left) (c : Cursor) :
    Curbs (climb parse p turns left c) (climb parse' p turns left c) := by
  induction turns generalizing left c with
  | nil =>
    unfold Parser.climb
    cases moveAt p c <;> exact .refl _
  | cons t turns ih =>
    unfold Parser.climb
    cases moveAt p c with
    | stop => exact .refl _
    | trail => exact ih _ _
    | join op => exact .bind (.parseJoin h op left c) fun r => ih r.1 r.2
    | argue => exact .bind (h _ c) fun r => ih _ r.2

end Readers

/-- A reader that reads nothing without depth, and for which one more depth curbs one more, reads within a
lower limit or not at all. -/
lemma Curbs.of_succ {read : Nat → Reader} (hzero : ∀ p c, read 0 p c = fail .tooDeep c)
    (hsucc : ∀ depth depth', (∀ p c, Curbs (read depth p c) (read depth' p c)) →
      ∀ p c, Curbs (read (depth + 1) p c) (read (depth' + 1) p c))
    {depth depth' : Nat} (hle : depth ≤ depth') (p : Nat) (c : Cursor) :
    Curbs (read depth p c) (read depth' p c) := by
  induction depth generalizing depth' p c with
  | zero => exact .inr ⟨_, hzero p c, rfl⟩
  | succ depth ih =>
    obtain ⟨depth', rfl⟩ := Nat.exists_eq_succ_of_ne_zero (Nat.pos_iff_ne_zero.1 (by omega : 0 < depth'))
    exact hsucc depth depth' (ih (Nat.le_of_succ_le_succ hle)) p c

/-- An expression is read within the lower limit or refused as nested too deeply. -/
lemma Curbs.parseExpr {depth depth' : Nat} (hle : depth ≤ depth') (p : Nat) (c : Cursor) :
    Curbs (parseExpr depth p c) (parseExpr depth' p c) :=
  .of_succ (fun _ _ => rfl) (fun _ _ h p c => .bind (.parseOperand h p c) fun r =>
    .climb h p r.2.after (.single r.1) r.2) hle p c

end Parser

open SignLang.Parser

/-- A token list is read within the lower limit or refused as nested too deeply. -/
lemma curbs_buildWithin {depth depth' : Nat} (hle : depth ≤ depth') (tokens : List Token) :
    Curbs (buildWithin depth tokens) (buildWithin depth' tokens) :=
  .map (.bind (.refl _) fun _ => .bind (.parseSequence (Curbs.parseExpr hle) _) fun _ => .refl _) _

/-- Within lower limits on nested expressions, tokens that write an expression write the same one or
are refused as nested too deeply. -/
lemma buildWithin_or {tokens : List Token} {e : Expr} (h : Spells tokens e) (depth : Nat) :
    buildWithin depth tokens = .ok e ∨
      ∃ f, buildWithin depth tokens = .error f ∧ f.fault = .tooDeep := by
  obtain ⟨depth₀, hbuild⟩ := h.buildWithin
  have hcurbs := curbs_buildWithin (Nat.le_max_left depth depth₀) tokens
  rwa [hbuild _ (Nat.le_max_right depth depth₀)] at hcurbs

/-! ## Lower limits on levels of indentation -/

/-- Within other limits on indentation, tokens are laid out in the same way or refused as nested too
deeply, which no higher limit does. -/
lemma normalizeWithin_or {limit : Nat} {tokens laid : List Token}
    (h : normalizeWithin limit tokens = .ok laid) (limit' : Nat) :
    normalizeWithin limit' tokens = .ok laid ∨
      limit' < limit ∧ ∃ f, normalizeWithin limit' tokens = .error f ∧ f.fault = .tooDeep := by
  unfold normalizeWithin Layout.ofTokensWithin at h ⊢
  dsimp only at h ⊢
  cases hnest : Outline.nest limit 0 (Line.split tokens) with
  | error f =>
    rw [hnest] at h
    dsimp only at h
    split at h <;> cases h
  | ok outline =>
    rw [hnest] at h
    cases h
    rcases Outline.nest_or_tooDeep hnest limit' with hnest' | ⟨hlt, t, hnest'⟩
    · rw [hnest']
      exact .inl rfl
    · rw [hnest']
      exact .inr ⟨hlt, _, rfl, rfl⟩

/-! ## The meaning of a text -/

/-- The limits admit all that other limits admit. -/
def Limits.Admits (limits limits' : Limits) : Prop :=
  limits'.levels ≤ limits.levels ∧ limits'.depth ≤ limits.depth

/-- The text writes `e`: it is read as `e` wherever the limits on nesting admit it, which high enough
limits do, and otherwise refused as nested too deeply. -/
structure Writes (text : String) (e : Expr) : Prop where
  /-- High enough limits admit the text. -/
  admitted : ∃ limits₀, ∀ limits : Limits, limits.Admits limits₀ → parseWithin limits text = .ok e
  /-- Limits that do not admit the text refuse it for no other reason. -/
  refused : ∀ limits, parseWithin limits text = .ok e ∨
    ∃ r, parseWithin limits text = .error r ∧ r.isTooDeep

/-- A text writes `e` if its tokens, laid out within some limit, do. -/
lemma Writes.of_spells {text : String} {limit : Nat} {tokens laid : List Token} {e : Expr}
    (hscan : scan text = .ok tokens) (hlaid : normalizeWithin limit tokens = .ok laid)
    (h : Spells laid e) : Writes text e := by
  have hparse (limits : Limits) : parseWithin limits text =
      ((normalizeWithin limits.levels tokens).mapError .layout).bind fun laid =>
        (buildWithin limits.depth laid).mapError .parsing := by
    simp only [parseWithin, layOutWithin, hscan]
    rfl
  constructor
  case admitted =>
    obtain ⟨depth₀, hbuild⟩ := h.buildWithin
    refine ⟨⟨limit, depth₀⟩, fun limits hle => ?_⟩
    have hlaid' := (normalizeWithin_or hlaid limits.levels).resolve_right fun h =>
      absurd h.1 (Nat.not_lt.2 hle.1)
    rw [hparse, hlaid']
    change (buildWithin limits.depth laid).mapError _ = _
    rw [hbuild _ hle.2]
    rfl
  case refused =>
    intro limits
    rw [hparse]
    rcases normalizeWithin_or hlaid limits.levels with hlaid' | ⟨-, f, hlaid', hdeep⟩
    · rw [hlaid']
      simp only [Except.mapError, Except.bind]
      rcases buildWithin_or h limits.depth with hbuild | ⟨f, hbuild, hdeep⟩
      · exact .inl (by rw [hbuild])
      · exact .inr ⟨.parsing f, by rw [hbuild], by simp [Refusal.isTooDeep, hdeep]⟩
    · exact .inr ⟨.layout f, by rw [hlaid']; rfl, by simp [Refusal.isTooDeep, hdeep]⟩

/-- A text that is read within some limits writes what it is read as. -/
lemma Writes.of_parseWithin {limits : Limits} {text : String} {e : Expr}
    (h : parseWithin limits text = .ok e) : Writes text e := by
  obtain ⟨tokens, laid, hscan, hlaid, hbuild⟩ := parseWithin_eq_ok h
  exact .of_spells hscan hlaid (.of_buildWithin hbuild)

end SignLang
