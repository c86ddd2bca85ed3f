import SignLang.Proofs.Brackets
import SignLang.Proofs.Layout.Matching

/-!
# Token lists that differ in how their brackets are written

The layout and the parser know a bracket by whether it opens or closes and by whether it is a bar.
`Token.Twin` relates two tokens that differ in nothing else than the writing of a bracket; `Token.Akin` lets
them stand at different places as well. Lists of twins run through the front end side by side: every stage
succeeds on both or fails on both (`Agree`), and if it fails, then at twins. Here this is said of the layout.

The relation between the tokens is left open, as long as it holds of twins only and of what is borrowed
from them (`Token.Twinning`). With equality of tokens from a given set, it follows that a failure is
reported at a token of that set.
-/

namespace SignLang

/-- Two outcomes agree: both are results that are related by `S`, or both are failures that are related
by `F`. -/
inductive Agree {ε α : Type} (F : ε → ε → Prop) (S : α → α → Prop) :
    Except ε α → Except ε α → Prop where
  | ok {a b : α} :
    S a b →
    Agree F S (.ok a) (.ok b)
  | error {f g : ε} :
    F f g →
    Agree F S (.error f) (.error g)

namespace Agree

variable {ε α β : Type} {F : ε → ε → Prop} {S : α → α → Prop} {T : β → β → Prop}
  {x y : Except ε α}

/-- Outcomes agree if what they are made from agrees, and what is made of it. -/
lemma bind (h : Agree F S x y) {f g : α → Except ε β} (hfg : ∀ a b, S a b → Agree F T (f a) (g b)) :
    Agree F T (x >>= f) (y >>= g) := by
  cases h with
  | ok h => exact hfg _ _ h
  | error h => exact .error h

/-- Outcomes that agree do so after a change of both results. -/
lemma map (h : Agree F S x y) {f g : α → β} (hfg : ∀ a b, S a b → T (f a) (g b)) :
    Agree F T (x.map f) (y.map g) := by
  cases h with
  | ok h => exact .ok (hfg _ _ h)
  | error h => exact .error h

/-- Outcomes that agree do so with less said about their failures. -/
lemma imp_error {G : ε → ε → Prop} (h : Agree F S x y) (hFG : ∀ f g, F f g → G f g) : Agree G S x y := by
  cases h with
  | ok h => exact .ok h
  | error h => exact .error (hFG _ _ h)

end Agree

/-! ## Tokens -/

namespace Token

/-- The token `u` is `t` at some place, but for the writing of a bracket that is no bar. -/
structure Akin (t u : Token) : Prop where
  kind_eq : u.kind = t.kind
  lexeme_eq : t.isBracket = false → u.lexeme = t.lexeme
  length_eq : u.lexeme.length = t.lexeme.length
  isBar_eq : u.isBar = t.isBar
  synthetic_eq : u.synthetic = t.synthetic

/-- The token `u` is `t`, but for the writing of a bracket that is no bar. -/
structure Twin (t u : Token) : Prop where
  kind_eq : u.kind = t.kind
  lexeme_eq : t.isBracket = false → u.lexeme = t.lexeme
  length_eq : u.lexeme.length = t.lexeme.length
  isBar_eq : u.isBar = t.isBar
  line_eq : u.line = t.line
  column_eq : u.column = t.column
  offset_eq : u.offset = t.offset
  synthetic_eq : u.synthetic = t.synthetic

/-- A relation that holds of twins only, and of what is borrowed from tokens in it. -/
structure Twinning (r : Token → Token → Prop) : Prop where
  twin : ∀ {t u}, r t u → t.Twin u
  borrow : ∀ {t u} kind lexeme, r t u → r (t.borrow kind lexeme) (u.borrow kind lexeme)

namespace Akin

variable {t u : Token}

/-- Akin tokens of a kind that is not a bracket have the same lexeme. -/
lemma lexeme_of_kind (h : t.Akin u) {k : Kind} (hk : t.kind = k)
    (hne : k ≠ .opening ∧ k ≠ .closing) : u.lexeme = t.lexeme :=
  h.lexeme_eq (by simp [isBracket, hk, hne.1, hne.2])

lemma isSymbol_eq (h : t.Akin u) (symbol : String) : u.isSymbol symbol = t.isSymbol symbol := by
  unfold isSymbol
  rw [h.kind_eq]
  by_cases hk : t.kind = .operator
  · rw [h.lexeme_of_kind hk (by decide)]
  · simp [hk]

lemma isOperator_eq (h : t.Akin u) (symbols : List String) :
    u.isOperator symbols = t.isOperator symbols := by
  unfold isOperator
  rw [h.kind_eq]
  by_cases hk : t.kind = .operator
  · rw [h.lexeme_of_kind hk (by decide)]
  · simp [hk]

lemma level_eq (h : t.Akin u) : u.level = t.level := by
  rw [level, level, h.kind_eq, h.length_eq]

lemma startsOperand_eq (h : t.Akin u) : u.startsOperand = t.startsOperand := by
  unfold startsOperand
  rw [h.kind_eq]
  split
  all_goals try rfl
  next hk => rw [h.lexeme_of_kind hk (by decide)]

end Akin

namespace Twin

variable {t u t' u' : Token}

lemma refl (t : Token) : t.Twin t :=
  ⟨rfl, fun _ => rfl, rfl, rfl, rfl, rfl, rfl, rfl⟩

lemma borrow (h : t.Twin u) (kind : Kind) (lexeme : String) :
    (t.borrow kind lexeme).Twin (u.borrow kind lexeme) :=
  ⟨rfl, fun _ => rfl, rfl, rfl, h.line_eq, h.column_eq, h.offset_eq, rfl⟩

lemma akin (h : t.Twin u) : t.Akin u :=
  ⟨h.kind_eq, h.lexeme_eq, h.length_eq, h.isBar_eq, h.synthetic_eq⟩

lemma touches_eq (h : t.Twin u) (h' : t'.Twin u') : u.touches u' = t.touches t' := by
  rw [touches, touches, stop, stop, h.offset_eq, h.length_eq, h'.offset_eq]

end Twin

/-- Equality of tokens that stand where some token of a set does. -/
lemma twinning_placed (P : Int → Int → Int → Prop) :
    Twinning fun t u => u = t ∧ P t.line t.column t.offset where
  twin := by
    rintro t u ⟨rfl, -⟩
    exact .refl u
  borrow := by
    rintro t u kind lexeme ⟨rfl, h⟩
    exact ⟨rfl, h⟩

/-- Twins, and nothing else. -/
lemma twinning_twin : Twinning Twin :=
  ⟨id, fun kind lexeme h => h.borrow kind lexeme⟩

end Token

open Token

variable {r : Token → Token → Prop} {ts us : List Token}

/-! ## Lines -/

/-- Lines of the same level whose tokens are related. -/
structure Line.Twins (r : Token → Token → Prop) (l l' : Line) : Prop where
  level_eq : l'.level = l.level
  first : r l.first l'.first
  others : List.Forall₂ r l.others l'.others

namespace Line.Twins

variable {l l' : Line}

lemma tokens (h : l.Twins r l') : List.Forall₂ r l.tokens l'.tokens :=
  .cons h.first h.others

end Line.Twins

/-- Related tokens make related lines. -/
lemma Line.twins_ofGathered (level : Nat) (h : List.Forall₂ r ts us) :
    List.Forall₂ (Line.Twins r) (ofGathered level ts) (ofGathered level us) := by
  unfold ofGathered
  have hrev : List.Forall₂ r ts.reverse us.reverse := List.rel_reverse h
  generalize ts.reverse = ts' at hrev
  generalize us.reverse = us' at hrev
  cases hrev with
  | nil => exact .nil
  | cons h hs => exact .cons ⟨rfl, h, hs⟩ .nil

/-- Related token lists have related lines. -/
lemma Line.twins_splitFrom (hr : Twinning r) {gathered gathered' : List Token} (level depth : Nat)
    (hg : List.Forall₂ r gathered gathered') (h : List.Forall₂ r ts us) :
    List.Forall₂ (Line.Twins r) (splitFrom level depth gathered ts)
      (splitFrom level depth gathered' us) := by
  induction h generalizing level depth gathered gathered' with
  | nil => exact twins_ofGathered level hg
  | @cons t u ts us htu h ih =>
    have hk := (hr.twin htu).kind_eq
    simp only [splitFrom, hk, (hr.twin htu).akin.level_eq]
    split
    · exact twins_ofGathered level hg
    · split
      · exact List.rel_append (twins_ofGathered level hg) (ih 0 0 .nil)
      · exact ih level depth hg
    · exact ih _ depth hg
    · exact ih level (depth + 1) (.cons htu hg)
    · exact ih level (depth - 1) (.cons htu hg)
    · exact ih level depth (.cons htu hg)

namespace Line.Twins

variable {l l' : Line}

/-- Related lines end in related block operators. -/
lemma headers (hr : Twinning r) (h : l.Twins r l') : List.Forall₂ r l.headers l'.headers := by
  have hblock (t u : Token) (htu : r t u) : u.isOperator Operator.blockSymbols =
      t.isOperator Operator.blockSymbols := (hr.twin htu).akin.isOperator_eq _
  exact List.rel_reverse (forall₂_takeWhile hblock (List.rel_reverse h.tokens)).1

/-- Related lines have related tokens before their block operators. -/
lemma stem (hr : Twinning r) (h : l.Twins r l') : List.Forall₂ r l.stem l'.stem := by
  rw [Line.stem, Line.stem, h.tokens.length_eq, (h.headers hr).length_eq]
  exact List.forall₂_take _ h.tokens

end Line.Twins

/-! ## Outlines -/

/-- Outlines of the same shape whose lines are related. -/
inductive Outline.Twins (r : Token → Token → Prop) : Outline → Outline → Prop where
  | done :
    Twins r .done .done
  | entry {l l' : Line} {body body' next next' : Outline} :
    l.Twins r l' →
    Twins r body body' →
    Twins r next next' →
    Twins r (.entry l body next) (.entry l' body' next')

/-- The same fault, at related tokens. -/
def Layout.Failure.Twins (r : Token → Token → Prop) (f g : Layout.Failure) : Prop :=
  g.fault = f.fault ∧ r f.token g.token

/-- Related lines are nested alike, or refused at related lines. -/
theorem Outline.twins_nest (hr : Twinning r) (limit level : Nat) {lines lines' : List Line}
    (h : List.Forall₂ (Line.Twins r) lines lines') :
    Agree (Layout.Failure.Twins r) (Outline.Twins r) (nest limit level lines)
      (nest limit level lines') := by
  induction hn : lines.length using Nat.strongRecOn generalizing level lines lines' with
  | ind n ih =>
    cases h with
    | nil =>
      rw [nest]
      exact .ok .done
    | @cons l l' rest rest' hl h =>
      rw [List.length_cons] at hn
      have hdeeper (l l' : Line) (h : l.Twins r l') :
          decide (level < l'.level) = decide (level < l.level) := by rw [h.level_eq]
      obtain ⟨htake, hdrop⟩ := forall₂_takeWhile hdeeper h
      have hbody := (List.takeWhile_sublist (p := (level < ·.level)) (l := rest)).length_le
      have hrest := (List.dropWhile_sublist (p := (level < ·.level)) (l := rest)).length_le
      rw [nest_cons, nest_cons, hl.level_eq]
      split
      · exact .error ⟨rfl, hl.first⟩
      generalize rest.takeWhile (level < ·.level) = inner at htake hbody
      generalize rest'.takeWhile (level < ·.level) = inner' at htake
      cases htake with
      | nil =>
        refine (ih rest.length (by omega) level h rfl).bind fun next next' hnext => ?_
        exact .ok (.entry hl .done hnext)
      | @cons first first' others others' hfirst hothers =>
        have hempty : l'.headers.isEmpty = l.headers.isEmpty := by
          rw [Bool.eq_iff_iff, List.isEmpty_iff_length_eq_zero, List.isEmpty_iff_length_eq_zero,
            (hl.headers hr).length_eq]
        dsimp only
        rw [hfirst.level_eq, hempty]
        split
        · exact .error ⟨rfl, hfirst.first⟩
        split
        · exact .error ⟨rfl, hfirst.first⟩
        split
        · exact .error ⟨rfl, hfirst.first⟩
        refine (ih _ (by omega) (level + 1) (.cons hfirst hothers) rfl).bind fun body body' hb => ?_
        refine (ih _ (by omega) level hdrop rfl).bind fun next next' hnext => ?_
        exact .ok (.entry hl hb hnext)

/-- Related lists end in related elements. -/
lemma forall₂_getLast? {α β : Type} {R : α → β → Prop} {xs : List α} {ys : List β}
    (h : List.Forall₂ R xs ys) : Option.Rel R xs.getLast? ys.getLast? := by
  rw [List.getLast?_eq_head?_reverse, List.getLast?_eq_head?_reverse]
  have hrev : List.Forall₂ R xs.reverse ys.reverse := List.rel_reverse h
  generalize xs.reverse = xs' at hrev
  generalize ys.reverse = ys' at hrev
  cases hrev with
  | nil => exact .none
  | cons h _ => exact .some h

namespace Outline.Twins

/-- A line and its body are enclosed alike. -/
lemma enclose (hr : Twinning r) {l l' : Line} {body body' : List Token} (hl : l.Twins r l')
    (h : List.Forall₂ r body body') : List.Forall₂ r (enclose l body) (enclose l' body') := by
  have hopeners : List.Forall₂ r (l.headers.flatMap fun op => [op, op.borrow .opening "["])
      (l'.headers.flatMap fun op => [op, op.borrow .opening "["]) :=
    List.rel_flatMap (hl.headers hr) fun _ _ hop => .cons hop (.cons (hr.borrow .opening "[" hop) .nil)
  unfold Outline.enclose
  have hlast := forall₂_getLast? h
  generalize body.getLast? = last? at hlast
  generalize body'.getLast? = last?' at hlast
  cases hlast with
  | none => exact hl.tokens
  | @some last last' hlast =>
    have hclosers : List.Forall₂ r (l.headers.map fun _ => last.borrow .closing "]")
        (l'.headers.map fun _ => last'.borrow .closing "]") :=
      List.rel_map (fun _ _ _ => hr.borrow .closing "]" hlast) (hl.headers hr)
    exact List.rel_append (List.rel_append (List.rel_append (hl.stem hr) hopeners) h) hclosers

/-- Outlines of related lines have related tokens. -/
lemma tokens (hr : Twinning r) {o o' : Outline} (h : o.Twins r o') :
    List.Forall₂ r o.tokens o'.tokens := by
  induction h with
  | done => exact .nil
  | @entry l l' body body' next next' hl _ hnext ihbody ihnext =>
    have hseparator : List.Forall₂ r next.separator next'.separator := by
      cases hnext with
      | done => exact .nil
      | entry hl _ _ => exact .cons (hr.borrow .separator "\n" hl.first) .nil
    exact List.rel_append (List.rel_append (enclose hr hl ihbody) hseparator) ihnext

end Outline.Twins

/-! ## Layouts -/

namespace Layout

/-- Related lines have related deepest lines. -/
lemma twins_deepest? {lines lines' : List Line} (h : List.Forall₂ (Line.Twins r) lines lines') :
    Option.Rel (Line.Twins r) (deepest? lines) (deepest? lines') := by
  induction h with
  | nil => exact .none
  | @cons l l' rest rest' hl h ih =>
    rw [deepest?, deepest?]
    generalize deepest? rest = x at ih
    generalize deepest? rest' = y at ih
    cases ih with
    | none => exact .some hl
    | some hother =>
      dsimp only
      rw [hl.level_eq, hother.level_eq]
      split
      · exact .some hother
      · exact .some hl

end Layout

/-- Related token lists end in related tokens. -/
lemma twins_endingOf (hr : Twinning r) (h : List.Forall₂ r ts us) (hne : ts ≠ []) :
    r (endingOf ts) (endingOf us) := by
  have hnone : ts.getLast? ≠ none := mt List.getLast?_eq_none_iff.1 hne
  have hlast := forall₂_getLast? h
  unfold endingOf
  generalize ts.getLast? = last? at hlast hnone
  generalize us.getLast? = last?' at hlast
  cases hlast with
  | none => exact absurd rfl hnone
  | some hlast =>
    dsimp only
    rw [(hr.twin hlast).kind_eq]
    split
    · exact hlast
    · exact hr.borrow .ending "" hlast

/-- Related token lists are laid out alike, or refused at related tokens. -/
theorem twins_normalizeWithin (hr : Twinning r) (limit : Nat) (h : List.Forall₂ r ts us)
    (hne : ts ≠ []) : Agree (Layout.Failure.Twins r) (List.Forall₂ r) (normalizeWithin limit ts)
      (normalizeWithin limit us) := by
  have hlines : List.Forall₂ (Line.Twins r) (Line.split ts) (Line.split us) :=
    Line.twins_splitFrom hr 0 0 .nil h
  have hnest := Outline.twins_nest hr limit 0 hlines
  unfold normalizeWithin Layout.ofTokensWithin
  dsimp only
  generalize Outline.nest limit 0 (Line.split ts) = x at hnest
  generalize Outline.nest limit 0 (Line.split us) = y at hnest
  cases hnest with
  | ok houtline =>
    exact .ok (List.rel_append (houtline.tokens hr) (.cons (twins_endingOf hr h hne) .nil))
  | @error f g hfailure =>
    obtain ⟨hfault, htoken⟩ := hfailure
    dsimp only
    rw [hfault]
    split
    · refine .error ⟨rfl, ?_⟩
      have hdeepest := Layout.twins_deepest? hlines
      generalize Layout.deepest? (Line.split ts) = x at hdeepest
      generalize Layout.deepest? (Line.split us) = y at hdeepest
      cases hdeepest with
      | none => exact htoken
      | some hl => exact hl.first
    · exact .error ⟨hfault, htoken⟩

end SignLang
