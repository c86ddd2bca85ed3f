import Mathlib
import SignLang.Expr.Render
import SignLang.Tree.Export

/-!
# Malformed expressions

A form has no text of its own when the table of operators lacks its operator, or when it is applied to nothing or
lists nothing (`Expr.fault?`). Rendering visits the forms of an expression in post-order. It answers with the fault of
the first form on that way that has one, and with a text if none has (`Expr.render_eq_error_iff`).
-/

namespace SignLang

namespace RenderFault

/-- What goes wrong in a malformed form: an attribute is asked of an entry that the table lacks, or the last of no
expressions is looked up. -/
inductive Cause where
  | attribute
  | index
deriving DecidableEq, Repr

/-- The cause of a fault. -/
def cause : RenderFault → Cause
  | unknownBinary _ | unknownLeading _ => .attribute
  | noArguments | noElements => .index

end RenderFault

namespace Expr

/-- The form is that of an operator with its operands. -/
def IsOperation : Expr → Prop
  | binary .. | unary .. => True
  | _ => False

/-- Why the form is malformed, if it is: its operator, between two operands or before one, has no entry in the table
(an absolute value needs none), it applies to nothing, or it lists nothing. -/
def fault? : Expr → Option RenderFault
  | binary symbol _ _ => if Operator.binary? symbol = none then some (.unknownBinary symbol) else none
  | unary symbol leads _ =>
    if leads ∧ symbol ≠ Operator.bar ∧ Operator.leading? symbol = none then some (.unknownLeading symbol) else none
  | apply _ arguments => if arguments = [] then some .noArguments else none
  | list elements => if elements = [] then some .noElements else none
  | _ => none

mutual

/-- All forms of an expression: the parts before the form that they are parts of, and from left to right. -/
def postorder : Expr → List Expr
  | literal kind raw => [literal kind raw]
  | identifier name => [identifier name]
  | unit => [unit]
  | define target value => postorder target ++ (postorder value ++ [define target value])
  | lambda params body => postorder body ++ [lambda params body]
  | binary symbol left right => postorder left ++ (postorder right ++ [binary symbol left right])
  | unary symbol leads operand => postorder operand ++ [unary symbol leads operand]
  | range start stop => postorder start ++ (postorder stop ++ [range start stop])
  | get target key => postorder target ++ (postorder key ++ [get target key])
  | apply function arguments => postorder function ++ (postorderAll arguments ++ [apply function arguments])
  | pointFree symbol none => [pointFree symbol none]
  | pointFree symbol (some preset) => postorder preset ++ [pointFree symbol (some preset)]
  | list elements => postorderAll elements ++ [list elements]
  | emptyList => [emptyList]
  | block statements => postorderAll statements ++ [block statements]

/-- All forms of several expressions, from left to right. -/
def postorderAll : List Expr → List Expr
  | [] => []
  | e :: es => postorder e ++ postorderAll es

end

/-- The outcome of rendering is that of the forms, visited one by one: the first fault of one of them, or none. -/
def Answers {α : Type} (x : Except RenderFault α) (forms : List Expr) : Prop :=
  match x with
  | .ok _ => forms.findSome? fault? = none
  | .error fault => forms.findSome? fault? = some fault

namespace Answers

variable {α β : Type} {x : Except RenderFault α} {forms forms' : List Expr}

/-- Nothing fails where nothing is visited. -/
lemma ok (a : α) : Answers (.ok a : Except RenderFault α) [] :=
  rfl

/-- A form by itself fails with its own fault. -/
lemma form {e : Expr} (h : match x with | .ok _ => e.fault? = none | .error fault => e.fault? = some fault) :
    Answers x [e] := by
  cases x with
  | ok a => simpa [Answers] using h
  | error fault => simpa [Answers] using h

/-- What is visited first has the first word. -/
lemma bind {f : α → Except RenderFault β} (h : Answers x forms)
    (hf : ∀ a, x = .ok a → Answers (f a) forms') : Answers (x >>= f) (forms ++ forms') := by
  cases x with
  | error fault =>
    change (forms ++ forms').findSome? fault? = some fault
    rw [List.findSome?_append, show forms.findSome? fault? = some fault from h]
    rfl
  | ok a =>
    have hnone : forms.findSome? fault? = none := h
    have hrest := hf a rfl
    change Answers (f a) _
    unfold Answers at hrest ⊢
    split
    · next hfa => simpa [List.findSome?_append, hnone, hfa] using hrest
    · next hfa => simpa [List.findSome?_append, hnone, hfa] using hrest

end Answers

/-- As many fragments are rendered as there are expressions. -/
lemma length_of_fragments {es : List Expr} {fs : List Fragment} (h : fragments es = .ok fs) :
    fs.length = es.length := by
  induction es generalizing fs with
  | nil =>
    cases h
    rfl
  | cons e es ih =>
    rw [fragments] at h
    cases hf : e.fragment with
    | error fault =>
      rw [hf] at h
      cases h
    | ok f =>
      cases hfs : fragments es with
      | error fault =>
        rw [hf, hfs] at h
        cases h
      | ok fs' =>
        rw [hf, hfs] at h
        cases h
        simp [ih hfs]

/-- Of rendered expressions none is the last one only if there are none. -/
lemma getLast?_of_fragments {es : List Expr} {fs : List Fragment} (h : fragments es = .ok fs) :
    fs.getLast? = none ↔ es = [] := by
  rw [List.getLast?_eq_none_iff, ← List.length_eq_zero_iff, length_of_fragments h, List.length_eq_zero_iff]

mutual

/-- An expression is rendered form by form. -/
theorem answers_fragment : (e : Expr) → Answers e.fragment e.postorder
  | literal _ _ | identifier _ | unit | emptyList | pointFree _ none => .form rfl
  | define target value =>
    (answers_fragment target).bind fun _ _ => (answers_fragment value).bind fun _ _ => .form rfl
  | lambda _ body => (answers_fragment body).bind fun _ _ => .form rfl
  | binary symbol left right => by
    refine (answers_fragment left).bind fun _ _ => (answers_fragment right).bind fun _ _ => .form ?_
    cases hop : Operator.binary? symbol with
    | none => simp [fault?, hop]
    | some op => simp [fault?, hop, pure, Except.pure]
  | unary symbol leads operand => by
    refine (answers_fragment operand).bind fun _ _ => .form ?_
    by_cases hbar : symbol = Operator.bar
    · simp [fault?, hbar, pure, Except.pure]
    cases leads with
    | false => simp [fault?, hbar, pure, Except.pure]
    | true =>
      cases hop : Operator.leading? symbol with
      | none => simp [fault?, hbar, hop]
      | some op => simp [fault?, hbar, hop, pure, Except.pure]
  | range start stop =>
    (answers_fragment start).bind fun _ _ => (answers_fragment stop).bind fun _ _ => .form rfl
  | get target key =>
    (answers_fragment target).bind fun _ _ => (answers_fragment key).bind fun _ _ => .form rfl
  | apply function arguments => by
    refine (answers_fragment function).bind fun _ _ => (answers_fragments arguments).bind fun fs hfs => .form ?_
    have hlast := getLast?_of_fragments hfs
    cases h : fs.getLast? with
    | none => simp [fault?, hlast.1 h]
    | some last => simp [fault?, mt hlast.2 (by simp [h]), pure, Except.pure]
  | pointFree _ (some preset) => (answers_fragment preset).bind fun _ _ => .form rfl
  | list elements => by
    refine (answers_fragments elements).bind fun fs hfs => .form ?_
    have hlast := getLast?_of_fragments hfs
    cases h : fs.getLast? with
    | none => simp [fault?, hlast.1 h]
    | some last => simp [fault?, mt hlast.2 (by simp [h]), pure, Except.pure]
  | block statements => (answers_fragments statements).bind fun _ _ => .form rfl

/-- Several expressions are rendered form by form. -/
theorem answers_fragments : (es : List Expr) → Answers (fragments es) (postorderAll es)
  | [] => .ok []
  | e :: es => by
    rw [postorderAll, ← List.append_nil (postorderAll es)]
    exact (answers_fragment e).bind fun f _ => (answers_fragments es).bind fun fs _ => .ok (f :: fs)

end

/-- A fault names the label under which the form is exported, and it is caused by the operator of an operation. -/
lemma rule_of_fault? {e : Expr} {fault : RenderFault} (h : e.fault? = some fault) :
    (∃ children, e.toTree = .ofRule fault.rule children) ∧ (fault.cause = .attribute ↔ e.IsOperation) := by
  unfold fault? at h
  split at h
  case h_5 => cases h
  all_goals
    split at h
    · cases h
      exact ⟨⟨_, rfl⟩, by simp [RenderFault.cause, IsOperation]⟩
    · cases h

/-- Rendering fails exactly on malformed expressions. It answers with a fault if and only if that is the fault of the
first malformed form in post-order, whose label the fault names and which tells its cause, and with a text if and only
if no form is malformed. -/
theorem render_eq_error_iff (e : Expr) :
    (∀ fault, e.render = .error fault ↔
      ∃ before x after, e.postorder = before ++ x :: after ∧ (∀ y ∈ before, y.fault? = none) ∧
        x.fault? = some fault ∧ (∃ children, x.toTree = .ofRule fault.rule children) ∧
        (fault.cause = .attribute ↔ x.IsOperation)) ∧
      ((∃ text, e.render = .ok text) ↔ ∀ x ∈ e.postorder, x.fault? = none) := by
  have hanswers := answers_fragment e
  unfold render
  cases hf : e.fragment with
  | ok f =>
    rw [hf] at hanswers
    have hnone : ∀ x ∈ e.postorder, x.fault? = none := List.findSome?_eq_none_iff.1 hanswers
    refine ⟨fun fault => ⟨nofun, ?_⟩, ⟨fun _ => hnone, fun _ => ⟨_, rfl⟩⟩⟩
    rintro ⟨before, x, after, heq, -, hx, -⟩
    rw [hnone x (by simp [heq])] at hx
    cases hx
  | error fault =>
    rw [hf] at hanswers
    have hfirst : e.postorder.findSome? fault? = some fault := hanswers
    refine ⟨fun fault' => ⟨?_, ?_⟩, ⟨nofun, fun hnone => ?_⟩⟩
    · rintro ⟨⟩
      obtain ⟨before, x, after, heq, hx, hbefore⟩ := List.findSome?_eq_some_iff.1 hfirst
      exact ⟨before, x, after, heq, hbefore, hx, rule_of_fault? hx⟩
    · rintro ⟨before, x, after, heq, hbefore, hx, -⟩
      have hfirst' := List.findSome?_eq_some_iff.2 ⟨before, x, after, heq, hx, hbefore⟩
      rw [hfirst] at hfirst'
      cases hfirst'
      rfl
    · rw [List.findSome?_eq_none_iff.2 hnone] at hfirst
      cases hfirst

/-- A list with several malformed forms. -/
def faultyList : Expr :=
  .list [.apply (.identifier "f") [.unary "**" false (.unary Operator.bar true (.block []))],
    .binary "**" (.list []) (.unary ":" true .unit), .apply .unit []]

/-- The empty list is the first of them in post-order: it stands on the left of an operator that is in no table. -/
theorem render_faultyList : faultyList.render = .error .noElements :=
  ((render_eq_error_iff faultyList).1 .noElements).2
    ⟨faultyList.postorder.take 5, .list [], faultyList.postorder.drop 6, rfl, by decide, rfl, ⟨[], rfl⟩, by
      simp [RenderFault.cause, IsOperation]⟩

end Expr

end SignLang
