import SignLang.Proofs.Parser.Moves
import SignLang.Proofs.Parser.Words

/-!
# The roles of operators

One symbol may stand before, between or after operands. Which of them an operator after an operand does
is seen from the tokens next to it (`Site.Expects`), however deep the parser is nested where it meets the
token. The operators of a list of tokens and those of the expression it writes go together, one by one and
in the order in which they are written (`roles_of_buildWithin`).
-/

namespace SignLang

/-- What an operator does in an expression. -/
inductive Role where
  | leading
  | trailing
  | define
  | lambda
  | thunk
  | rest
  | list
  | range
  | get
  | binary
  | pointFree
deriving DecidableEq, Repr

/-- An operator of an expression: its symbol and what it does. -/
structure OperatorMark where
  symbol : String
  role : Role
deriving DecidableEq, Repr

/-- The operator of a parameter: the tilde of a rest parameter. -/
def Parameter.marks (p : Parameter) : List OperatorMark :=
  if p.isRest then [⟨"~", .rest⟩] else []

namespace Expr

mutual

/-- The operators of an expression, in the order in which they are written. -/
def marks : Expr → List OperatorMark
  | literal _ _ | identifier _ | unit | emptyList => []
  | define target value => marks target ++ ⟨":", .define⟩ :: marks value
  | lambda params body =>
    params.flatMap Parameter.marks ++ ⟨"?", if params.isEmpty then .thunk else .lambda⟩ :: marks body
  | binary symbol left right => marks left ++ ⟨symbol, .binary⟩ :: marks right
  | unary symbol leads operand =>
    if symbol = Operator.bar then marks operand
    else if leads then ⟨symbol, .leading⟩ :: marks operand
    else marks operand ++ [⟨symbol, .trailing⟩]
  | range start stop => marks start ++ ⟨"~", .range⟩ :: marks stop
  | get target key => marks target ++ ⟨"'", .get⟩ :: marks key
  | apply function arguments => marks function ++ marksAll arguments
  | pointFree symbol none => [⟨symbol, .pointFree⟩]
  | pointFree symbol (some preset) => ⟨symbol, .pointFree⟩ :: marks preset
  | list elements => marksList elements
  | block statements => marksAll statements

/-- The operators of expressions, one after the other. -/
def marksAll : List Expr → List OperatorMark
  | [] => []
  | e :: es => marks e ++ marksAll es

/-- The operators of the elements of a list, with a comma between them. -/
def marksList : List Expr → List OperatorMark
  | [] => []
  | [e] => marks e
  | e :: es => marks e ++ ⟨",", .list⟩ :: marksList es

end

/-- The operators of expressions join. -/
lemma marksAll_append (es fs : List Expr) : marksAll (es ++ fs) = marksAll es ++ marksAll fs := by
  induction es with
  | nil => rfl
  | cons e es ih => simp [marksAll, ih]

/-- A further element comes after a comma. -/
lemma marksList_concat {es : List Expr} (h : es ≠ []) (e : Expr) :
    marksList (es ++ [e]) = marksList es ++ ⟨",", .list⟩ :: marks e := by
  induction es with
  | nil => contradiction
  | cons f es ih =>
    cases es with
    | nil => simp [marksList]
    | cons g es =>
      have := ih (by simp)
      simp only [List.cons_append, marksList] at this ⊢
      rw [this, List.append_assoc]
      rfl

/-- The operators of a sequence are those of its statements. -/
lemma marks_sequenced (es : List Expr) : (Parser.sequenced es).marks = marksAll es := by
  unfold Parser.sequenced
  split
  · simp [marksAll]
  · simp [marks]

end Expr

/-! ## Sites -/

/-- A token can be the last one of an operand. -/
def Token.endsOperand (t : Token) : Bool :=
  match t.kind with
  | .identifier | .number | .string | .character | .unit | .closing => true
  | _ => false

/-- The place of an operator: the token before it, the operator itself, and whether an operand can start
after it. -/
structure Site where
  previous : Option Token
  token : Token
  nextStarts : Bool
deriving DecidableEq, Repr

namespace Site

/-- The operator stands after an operand. -/
def afterOperand (site : Site) : Bool :=
  site.previous.any Token.endsOperand

/-- The operator is written directly after a token that was not put in by the layout. -/
def isGlued (site : Site) : Bool :=
  site.previous.any fun t => t.touches site.token && !t.synthetic

/-- What an operator after an operand may do, as the tokens next to it decide. -/
def Expects (site : Site) (role : Role) : Prop :=
  if site.token.lexeme = "!" then
    role = if site.isGlued || !site.nextStarts then .trailing else .leading
  else if site.token.lexeme = "~" then
    if site.nextStarts then role = .range ∨ role = .rest else role = .trailing
  else if site.token.lexeme ∈ ["#", "@", "$"] then role = .leading
  else role ∈ [.define, .lambda, .list, .get, .binary]

/-- The operator of an expression can be the one at the site. -/
def Admits (site : Site) (mark : OperatorMark) : Prop :=
  mark.symbol = site.token.lexeme ∧ (site.afterOperand → site.Expects mark.role)

end Site

/-- The sites of the operators in a token list that follows the token `previous`. A comma before a closing
bracket only ends a group, unless it is the operator of the group. -/
def sitesOf (previous : Option Token) : List Token → List Site
  | [] => []
  | t :: rest =>
    if t.kind ≠ .operator ∨
        t.isSymbol "," ∧ rest.head?.any (·.kind = .closing) ∧ !previous.any (·.kind = .opening) then
      sitesOf (some t) rest
    else ⟨previous, t, rest.head?.any Token.startsOperand⟩ :: sitesOf (some t) rest

namespace Cursor

/-- An operand may end directly before the cursor. -/
def afterOperand (c : Cursor) : Bool :=
  c.before.head?.any Token.endsOperand

/-- The site of the operator at the cursor. -/
def site (c : Cursor) : Site :=
  ⟨c.before.head?, c.here, c.next.startsOperand⟩

/-- The operator at a site is the token at the cursor. -/
@[simp] lemma token_site (c : Cursor) : c.site.token = c.here :=
  rfl

/-- The sites of the operators ahead of a cursor. -/
def sites (c : Cursor) : List Site :=
  sitesOf c.before.head? c.ahead

/-- Between the two cursors stand the operators that the marks say. -/
def Marked (c d : Cursor) (marks : List OperatorMark) : Prop :=
  ∃ sites, c.sites = sites ++ d.sites ∧ List.Forall₂ Site.Admits sites marks

namespace Marked

variable {c m d : Cursor} {marks marks' : List OperatorMark} {mark : OperatorMark}

/-- No operator stands where nothing does. -/
lemma refl (c : Cursor) : c.Marked c [] :=
  ⟨[], rfl, .nil⟩

/-- The operators of two parts follow one another. -/
lemma trans (h : c.Marked m marks) (h' : m.Marked d marks') : c.Marked d (marks ++ marks') := by
  obtain ⟨sites, hsites, hadmits⟩ := h
  obtain ⟨sites', hsites', hadmits'⟩ := h'
  refine ⟨sites ++ sites', ?_, List.rel_append hadmits hadmits'⟩
  rw [hsites, hsites', List.append_assoc]

/-- Any other token is no operator. -/
lemma other (ends : c.Ends) (hk : c.here.kind ≠ .operator) (hne : c.here.kind ≠ .ending) :
    c.Marked c.advance [] := by
  obtain ⟨t, rest, e⟩ := ends.exists_after hne
  refine ⟨[], ?_, .nil⟩
  simp [sites, ahead, sitesOf, hk, advance_eq e, e]

/-- A comma between an operand and a closing bracket is none of the operators. -/
lemma comma (ends : c.Ends) (h : c.here.isSymbol ",") (hclose : c.advance.here.kind = .closing)
    (hopen : c.afterOpening = false) : c.Marked c.advance [] := by
  have hk := Parser.kind_of_isSymbol h
  obtain ⟨t, rest, e⟩ := ends.exists_after (by simp [hk])
  rw [advance_eq e] at hclose ⊢
  dsimp only at hclose
  refine ⟨[], ?_, .nil⟩
  rw [afterOpening] at hopen
  simp only [sites, ahead, e]
  rw [sitesOf, if_pos (.inr ⟨h, by simpa using hclose, by simp [hopen]⟩)]
  simp

/-- An operator is one of the operators. -/
lemma operator (ends : c.Ends) (hk : c.here.kind = .operator)
    (hcomma : c.here.isSymbol "," → c.advance.here.kind ≠ .closing ∨ c.afterOpening)
    (hadmits : c.site.Admits mark) : c.Marked c.advance [mark] := by
  obtain ⟨t, rest, e⟩ := ends.exists_after (by simp [hk])
  rw [advance_eq e] at hcomma ⊢
  dsimp only at hcomma
  refine ⟨[c.site], ?_, .cons hadmits .nil⟩
  simp only [sites, ahead, e]
  rw [sitesOf, if_neg]
  · simp [site, next, e]
  · rintro (hne | ⟨hsymbol, hclose, hopen⟩)
    · exact hne hk
    · rcases hcomma hsymbol with h | h
      · exact h (by simpa using hclose)
      · rw [afterOpening] at h
        simp [h] at hopen

end Marked

/-- An operator before an operand is one of the operators. -/
lemma Ends.marked_symbol {c : Cursor} {mark : OperatorMark} (ends : c.Ends) (hk : c.here.kind = .operator)
    (hstart : c.advance.here.startsOperand) (hadmits : c.site.Admits mark) : c.Marked c.advance [mark] := by
  refine .operator ends hk (fun _ => .inl fun hclose => ?_) hadmits
  simp [Token.startsOperand, hclose] at hstart

/-- The operators of a parameter list are those of its parameters. -/
lemma Ends.marked_parameters {c : Cursor} (ends : c.Ends) :
    c.Marked (c.skip (Parameter.listWidth (Parameter.listOf c.ahead)))
      ((Parameter.listOf c.ahead).flatMap Parameter.marks) := by
  refine ends.parameters_induction ?none ?rest ?name
  case none =>
    intro c _
    exact .refl c
  case rest =>
    intro c ends htilde hname
    obtain ⟨hk, hlexeme⟩ := Token.isSymbol_iff.1 htilde
    have hstart : c.advance.here.startsOperand := by simp [Token.startsOperand, hname]
    have hadmits : c.site.Admits ⟨"~", .rest⟩ := by
      rw [here_advance] at hstart
      exact ⟨hlexeme.symm, fun _ => by simp [Site.Expects, site, hlexeme, hstart]⟩
    have hmarked := (ends.marked_symbol hk hstart hadmits).trans
      (.other ends.advance (by simp [hname]) (by simp [hname]))
    simpa [Parameter.marks, Parameter.listWidth, Parameter.width, Cursor.skip] using hmarked
  case name =>
    intro c params ends hname ih
    have hmarked := (Marked.other ends (by simp [hname]) (by simp [hname])).trans ih
    simpa [Parameter.marks, Parameter.listWidth, Parameter.width, Nat.add_comm 1, Cursor.skip] using hmarked

end Cursor

namespace Parser

/-! ## What is on the left -/

/-- A further argument adds its operators. -/
lemma Left.marks_argument (left : Left) (e : Expr) :
    (left.argument e).expr.marks = left.expr.marks ++ e.marks := by
  cases left <;>
    simp [Left.argument, Left.expr, Expr.marks, Expr.marksAll, Expr.marksAll_append]

/-- An expression that names parameters has no operators. -/
lemma marks_of_paramsOf? {e : Expr} {params : List Parameter} (h : paramsOf? e = some params) :
    params.flatMap Parameter.marks = [] ∧ e.marks = [] ∧ params.isEmpty = false := by
  have plain (names : List String) :
      (names.map (⟨·, false⟩ : String → Parameter)).flatMap Parameter.marks = [] := by
    simp [Parameter.marks, List.flatMap_map]
  have named (names : List String) : Expr.marksAll (names.map .identifier) = [] := by
    induction names with
    | nil => rfl
    | cons name names ih => simpa [Expr.marksAll, Expr.marks] using ih
  unfold paramsOf? at h
  split at h
  · cases h
    simp [Parameter.marks, Expr.marks]
  · next function arguments =>
    obtain ⟨names, hnames, rfl⟩ := Option.map_eq_some_iff.1 h
    have heq := eq_map_of_mapM_nameOf? hnames
    have hmarks : Expr.marksAll (function :: arguments) = [] := heq ▸ named names
    refine ⟨plain names, by simpa [Expr.marks, Expr.marksAll] using hmarks, ?_⟩
    cases names with
    | nil => cases heq
    | cons => rfl
  · cases h

/-- A symbol between two operands makes an expression of the kind. -/
def IsJoint (symbol : String) (role : Role) : Prop :=
  if symbol = "~" then role = .range else role ∈ [.define, .lambda, .list, .get, .binary]

/-- A joined pair has the operators of its operands around the symbol. -/
lemma marks_joined (symbol : String) (left right : Expr) :
    ∃ role, IsJoint symbol role ∧
      (joined symbol left right).marks = left.marks ++ ⟨symbol, role⟩ :: right.marks := by
  unfold joined
  split
  · next h => exact ⟨.define, by simp [IsJoint, h.1], by simp [Expr.marks, h.1]⟩
  split
  · next h => exact ⟨.range, by simp [IsJoint, h], by simp [Expr.marks, h]⟩
  split
  · next h => exact ⟨.get, by simp [IsJoint, h], by simp [Expr.marks, h]⟩
  · next h _ => exact ⟨.binary, by simp [IsJoint, h], by simp [Expr.marks]⟩

/-- Joining adds the operator and those of its right operand. -/
lemma Left.marks_of_join? {left left' : Left} {symbol : String} {e : Expr} (proper : left.Proper)
    (h : left.join? symbol e = some left') :
    ∃ role, IsJoint symbol role ∧
      left'.expr.marks = left.expr.marks ++ ⟨symbol, role⟩ :: e.marks := by
  obtain ⟨rfl, rfl⟩ | ⟨rfl, params, hparams, rfl⟩ | ⟨-, -, rfl⟩ := Left.join?_cases h
  · refine ⟨.list, by simp [IsJoint], ?_⟩
    cases left with
    | listed elements => simp [Left.element, Left.expr, Expr.marks, Expr.marksList_concat proper]
    | _ => simp [Left.element, Left.expr, Expr.marks, Expr.marksList]
  · obtain ⟨hnone, hleft, hempty⟩ := marks_of_paramsOf? hparams
    refine ⟨.lambda, by simp [IsJoint], ?_⟩
    rw [hleft]
    simp [Left.expr, Expr.marks, hnone, hempty]
  · exact marks_joined symbol left.expr e

/-! ## Readings tell the roles -/

/-- The operators that a task has read before it starts. -/
def Task.marks : Task → List OperatorMark
  | .statements es => Expr.marksAll es
  | .climb _ left => left.expr.marks
  | .expr _ | .operand _ | .primary => []

/-- A task starts where the parser comes to it: statements do not follow an operand, and an operator
that starts an operand after another one can do nothing else there. -/
def Task.Enters (c : Cursor) : Task → Prop
  | .statements _ => c.afterOperand = false
  | .expr _ | .operand _ | .primary =>
    c.here.kind = .operator → c.afterOperand →
      Operator.binary? c.here.lexeme = none ∧ (c.here.lexeme = "!" → c.isTrailing = false)
  | .climb _ left => left.Proper

section Sites

variable {c : Cursor} {p : Nat}

/-- Whether a cursor stands after an operand is seen from the token it has moved over. -/
lemma afterOperand_advance (ends : c.Ends) (h : c.here.kind ≠ .ending) :
    c.advance.afterOperand = c.here.endsOperand := by
  obtain ⟨t, rest, e⟩ := ends.exists_after h
  simp [Cursor.advance_eq e, Cursor.afterOperand]

/-- No operand ends with an operator, an opening bracket or a separator. -/
lemma afterOperand_of_kind (ends : c.Ends)
    (h : c.here.kind = .operator ∨ c.here.kind = .opening ∨ c.here.kind = .separator) :
    c.advance.afterOperand = false := by
  rcases h with h | h | h <;>
    rw [afterOperand_advance ends (by simp [h]), Token.endsOperand, h]

/-- An expression can start where no operand ends. -/
lemma enters_expr (h : c.afterOperand = false) (p : Nat) : (Task.expr p).Enters c := by
  intro _ hafter
  rw [h] at hafter
  cases hafter

/-- Nothing is asked of an operator that does not follow an operand. -/
lemma admits_fresh (h : c.afterOperand = false) (role : Role) : c.site.Admits ⟨c.here.lexeme, role⟩ := by
  refine ⟨rfl, fun hafter => ?_⟩
  change c.afterOperand at hafter
  rw [h] at hafter
  cases hafter

/-- An exclamation mark after an operand is expected to do what the parser finds. -/
lemma expects_bang (h : c.here.lexeme = "!") (hafter : c.afterOperand) {role : Role} :
    c.site.Expects role ↔ role = if c.isTrailing then .trailing else .leading := by
  have hglued : c.site.isGlued = (c.previous.touches c.here && !c.previous.synthetic) := by
    unfold Cursor.afterOperand at hafter
    unfold Site.isGlued Cursor.site Cursor.previous
    cases hbefore : c.before with
    | nil => simp [hbefore] at hafter
    | cons t before => simp
  have htrailing : c.isTrailing = (c.site.isGlued || !c.next.startsOperand) := by
    rw [Cursor.isTrailing, if_neg (by simp [h]), hglued]
  rw [Site.Expects, Cursor.token_site, if_pos h, htrailing]
  rfl

/-- A tilde after an operand is expected to do what the parser finds. -/
lemma expects_tilde (h : c.here.lexeme = "~") {role : Role} :
    c.site.Expects role ↔ if c.isTrailing then role = .trailing else role = .range ∨ role = .rest := by
  have htrailing : c.isTrailing = !c.site.nextStarts := by
    rw [Cursor.isTrailing, if_pos h]
    rfl
  rw [Site.Expects, Cursor.token_site, if_neg (by simp [h]), if_pos h, htrailing]
  cases c.site.nextStarts <;> simp

/-- An operator is read after its operand only where it is expected to be. -/
lemma admits_trailing (h : trails p c) : c.site.Admits ⟨c.here.lexeme, .trailing⟩ := by
  refine ⟨rfl, fun hafter => ?_⟩
  have htrailing : c.isTrailing := (Bool.and_eq_true_iff.1 h).2
  rcases lexeme_of_trails h with hbang | htilde
  · exact (expects_bang hbang hafter).2 (by rw [htrailing]; rfl)
  · exact (expects_tilde htilde).2 (by rw [htrailing]; rfl)

/-- An operator is read before its operand only where it is expected to be. -/
lemma admits_leading {op : Operator} (enters : Task.primary.Enters c) (hk : c.here.kind = .operator)
    (hbar : c.here.lexeme ≠ Operator.bar) (hop : Operator.leading? c.here.lexeme = some op) :
    c.site.Admits ⟨c.here.lexeme, .leading⟩ := by
  refine ⟨rfl, fun hafter => ?_⟩
  obtain ⟨hbinary, hbang⟩ := enters hk hafter
  have hall : ∀ op ∈ Operator.leadingTable, op.symbol ≠ Operator.bar → Operator.binary? op.symbol = none →
      op.symbol = "!" ∨ op.symbol ≠ "~" ∧ op.symbol ∈ ["#", "@", "$"] := by
    decide
  have hsymbol : op.symbol = c.here.lexeme := by simpa using List.find?_some hop
  have hcases := hall op (List.mem_of_find?_eq_some hop)
  rw [hsymbol] at hcases
  by_cases heq : c.here.lexeme = "!"
  · exact (expects_bang heq hafter).2 (by rw [hbang heq]; rfl)
  · obtain ⟨hne, hmem⟩ := (hcases hbar hbinary).resolve_left heq
    rw [Site.Expects, Cursor.token_site, if_neg heq, if_neg hne, if_pos hmem]

/-- The symbols that only stand before or after an operand. -/
lemma ne_of_binary? {s : String} (h : (Operator.binary? s).isSome) : s ≠ "!" ∧ s ∉ ["#", "@", "$"] := by
  have hall : ∀ s ∈ ["!", "#", "@", "$"], Operator.binary? s = none := by decide
  constructor
  · rintro rfl
    rw [hall "!" (by simp)] at h
    cases h
  · intro hmem
    rw [hall s (List.mem_cons_of_mem _ hmem)] at h
    cases h

/-- An operator is read between two operands only where it is expected to be. -/
lemma admits_joint {s : String} {role : Role} (hs : c.here.lexeme = s) (hop : (Operator.binary? s).isSome)
    (hstart : c.advance.here.startsOperand) (hjoint : IsJoint s role) : c.site.Admits ⟨s, role⟩ := by
  subst hs
  refine ⟨rfl, fun _ => ?_⟩
  obtain ⟨hbang, hleading⟩ := ne_of_binary? hop
  unfold IsJoint at hjoint
  by_cases htilde : c.here.lexeme = "~"
  · rw [if_pos htilde] at hjoint
    rw [Cursor.here_advance] at hstart
    rw [expects_tilde htilde, Cursor.isTrailing, if_pos htilde, hstart]
    exact .inl hjoint
  · rw [if_neg htilde] at hjoint
    rwa [Site.Expects, Cursor.token_site, if_neg hbang, if_neg htilde, if_neg hleading]

/-- What an argument starts with, if it is an operator, can only stand before its operand. -/
lemma enters_of_argue (h : moveAt p c = .argue) (q : Nat) : (Task.expr q).Enters c := by
  intro hk _
  unfold moveAt at h
  rw [if_pos hk] at h
  split at h
  · cases h
  next htrails =>
  split at h
  · split at h <;> cases h
  next hbinary =>
  refine ⟨hbinary, fun hbang => ?_⟩
  unfold argumentMove at h
  split at h
  · next hp =>
    simp only [Bool.and_eq_true, decide_eq_true_eq] at hp
    have hsome : Operator.trailing? c.here.lexeme = some ⟨"!", .trailing, "factorial", Power.trailing, .left⟩ := by
      rw [hbang]
      decide
    have hle : p ≤ Power.trailing := hp.1.trans (by decide)
    simpa [trails, hsome, hle] using htrails
  · cases h

end Sites

/-- What is read tells what the operators do that are moved over, those read before included. -/
lemma Reads.marked {task c e d} (h : Reads task c e d) (ends : c.Ends) (enters : task.Enters c) :
    ∃ marks, e.marks = task.marks ++ marks ∧ c.Marked d marks := by
  induction h with
  | done _ => exact ⟨[], by rw [Expr.marks_sequenced, List.append_nil]; rfl, .refl _⟩
  | @last es c e d _ _ _ ih =>
    obtain ⟨marks, hmarks, hmarked⟩ := ih ends (enters_expr enters 0)
    refine ⟨marks, ?_, hmarked⟩
    rw [Expr.marks_sequenced, Expr.marksAll_append, Expr.marksAll, hmarks]
    simp [Task.marks, Expr.marksAll]
  | @more es c e d f d' _ he hsep _ ih ih' =>
    have ends' := (he.progress ends).1
    obtain ⟨marks, hmarks, hmarked⟩ := ih ends (enters_expr enters 0)
    obtain ⟨marks', hmarks', hmarked'⟩ := ih' ends'.advance (afterOperand_of_kind ends' (.inr (.inr hsep)))
    have hseparator := Cursor.Marked.other ends' (by simp [hsep]) (by simp [hsep])
    refine ⟨marks ++ marks', ?_, hmarked.trans (hseparator.trans hmarked')⟩
    rw [hmarks', Task.marks, Expr.marksAll_append, Expr.marksAll, hmarks]
    simp [Task.marks, Expr.marksAll]
  | expr hoperand _ ih ih' =>
    obtain ⟨marks, hmarks, hmarked⟩ := ih ends enters
    obtain ⟨marks', hmarks', hmarked'⟩ := ih' (hoperand.progress ends).1 trivial
    refine ⟨marks ++ marks', ?_, hmarked.trans hmarked'⟩
    rw [hmarks', Task.marks, Left.expr, hmarks, List.append_assoc]
    rfl
  | @define _ c e d _ hdef hstart _ ih =>
    obtain ⟨hid, hk, hlexeme⟩ := of_startsDefine hdef
    obtain ⟨marks, hmarks, hmarked⟩ := ih ends.advance.advance
      (enters_expr (afterOperand_of_kind ends.advance (.inl hk)) _)
    have hname := Cursor.Marked.other ends (by simp [hid]) (by simp [hid])
    have hadmits : c.advance.site.Admits ⟨":", .define⟩ :=
      admits_joint hlexeme (by decide) hstart (by simp [IsJoint])
    have hsymbol := ends.advance.marked_symbol hk hstart hadmits
    refine ⟨⟨":", .define⟩ :: marks, ?_, hname.trans (hsymbol.trans hmarked)⟩
    rw [Expr.marks, hmarks]
    rfl
  | @lambda _ c params e d _ _ hhead hstart _ ih =>
    have hempty : (Parameter.listOf c.ahead).isEmpty = false := by
      simpa [(Cursor.lambdaHead?_eq_some hhead).1] using Cursor.ne_nil_of_lambdaHead? hhead
    obtain ⟨rfl, hq⟩ := Cursor.lambdaHead?_eq_some hhead
    obtain ⟨hk, hlexeme⟩ := Token.isSymbol_iff.1 hq
    have ends' := ends.skip (Parameter.listWidth (Parameter.listOf c.ahead))
    obtain ⟨marks, hmarks, hmarked⟩ := ih ends'.advance
      (enters_expr (afterOperand_of_kind ends' (.inl hk)) _)
    have hadmits : (c.skip (Parameter.listWidth (Parameter.listOf c.ahead))).site.Admits ⟨"?", .lambda⟩ :=
      admits_joint hlexeme (by decide) hstart (by simp [IsJoint])
    have hsymbol := ends'.marked_symbol hk hstart hadmits
    refine ⟨_, ?_, ends.marked_parameters.trans (hsymbol.trans hmarked)⟩
    rw [Expr.marks, hmarks, if_neg (by simp [hempty])]
    rfl
  | primary _ _ _ ih => exact ih ends enters
  | @atom c e ha =>
    have hne := kind_ne_ending_of_atom? ha
    obtain ⟨-, -, hop⟩ := Token.words_of_atom? ha
    refine ⟨[], ?_, .other ends hop hne⟩
    unfold atom? at ha
    split at ha <;> cases ha <;> rfl
  | @thunk c e d hq hstart _ ih =>
    obtain ⟨hk, hlexeme⟩ := Token.isSymbol_iff.1 hq
    -- a question mark after an operand has a function on its left
    have hfresh : c.afterOperand = false := by
      by_contra hafter
      obtain ⟨hbinary, -⟩ := enters hk (by simpa using hafter)
      rw [hlexeme] at hbinary
      cases hbinary
    obtain ⟨marks, hmarks, hmarked⟩ := ih ends.advance
      (enters_expr (afterOperand_of_kind ends (.inl hk)) _)
    refine ⟨⟨"?", .thunk⟩ :: marks, ?_, ?_⟩
    · rw [Expr.marks, hmarks]
      rfl
    · exact (ends.marked_symbol hk hstart (hlexeme ▸ admits_fresh hfresh _)).trans hmarked
  | @leading c op e d hk _ hbar hop hstart _ ih =>
    obtain ⟨marks, hmarks, hmarked⟩ := ih ends.advance
      (enters_expr (afterOperand_of_kind ends (.inl hk)) _)
    refine ⟨⟨c.here.lexeme, .leading⟩ :: marks, ?_, ?_⟩
    · simp [Expr.marks, hbar, hmarks, Task.marks]
    · exact (ends.marked_symbol hk hstart (admits_leading enters hk hbar hop)).trans hmarked
  | @bars c e d hc _ _ hs hclosing ih =>
    have ends' := (hs.progress ends.advance).1
    obtain ⟨marks, hmarks, hmarked⟩ := ih ends.advance (afterOperand_of_kind ends (.inr (.inl hc)))
    refine ⟨marks, ?_, ?_⟩
    · simp [Expr.marks, hmarks, Task.marks, Expr.marksAll]
    · have hopener := Cursor.Marked.other ends (by simp [hc]) (by simp [hc])
      have hcloser := Cursor.Marked.other ends' (by simp [hclosing]) (by simp [hclosing])
      simpa using hopener.trans (hmarked.trans hcloser)
  | @emptyGroup c hc _ hclosing =>
    have hopener := Cursor.Marked.other ends (by simp [hc]) (by simp [hc])
    have hcloser := Cursor.Marked.other ends.advance (by simp [hclosing]) (by simp [hclosing])
    exact ⟨[], rfl, hopener.trans hcloser⟩
  | @bareSymbol c hc _ hfree hclosing =>
    have hk := Cursor.kind_of_headsPointFree hfree
    have hopen : c.advance.afterOpening := by
      rw [ends.afterOpening_advance (by simp [hc])]
      simpa using hc
    have hopener := Cursor.Marked.other ends (by simp [hc]) (by simp [hc])
    have hsymbol := Cursor.Marked.operator ends.advance hk (fun _ => .inr hopen)
      (admits_fresh (afterOperand_of_kind ends (.inr (.inl hc))) .pointFree)
    have hcloser := Cursor.Marked.other ends.advance.advance (by simp [hclosing]) (by simp [hclosing])
    exact ⟨_, by simp [Expr.marks, Task.marks], hopener.trans (hsymbol.trans hcloser)⟩
  | @preset c e d hc _ hfree hstart hs hclosing ih =>
    have hk := Cursor.kind_of_headsPointFree hfree
    have ends' := (hs.progress ends.advance.advance).1
    have hend : d.afterOpening = false := (hs.words ends.advance.advance trivial).2
    obtain ⟨marks, hmarks, hmarked⟩ := ih ends.advance.advance
      (enters_expr (afterOperand_of_kind ends.advance (.inl hk)) _)
    -- the comma that may stand before the closing bracket is none of the operators
    have hcomma : d.Marked (pastComma d) [] := by
      rcases pastComma_cases d with heq | ⟨heq, h | h⟩ <;> rw [heq] at hclosing ⊢
      · exact .refl d
      · exact .comma ends' h hclosing hend
      · exact .other ends' (by simp [h]) (by simp [h])
    have ends'' := (pastComma_progress ends').1
    have hopener := Cursor.Marked.other ends (by simp [hc]) (by simp [hc])
    have hsymbol := ends.advance.marked_symbol hk hstart
      (admits_fresh (afterOperand_of_kind ends (.inr (.inl hc))) .pointFree)
    have hcloser := Cursor.Marked.other ends'' (by simp [hclosing]) (by simp [hclosing])
    refine ⟨⟨c.advance.here.lexeme, .pointFree⟩ :: marks, ?_, ?_⟩
    · rw [Expr.marks, hmarks]
      rfl
    · simpa using hopener.trans (hsymbol.trans (hmarked.trans (hcomma.trans hcloser)))
  | group hc _ _ _ hs hclosing ih =>
    have ends' := (hs.progress ends.advance).1
    obtain ⟨marks, hmarks, hmarked⟩ := ih ends.advance (afterOperand_of_kind ends (.inr (.inl hc)))
    have hopener := Cursor.Marked.other ends (by simp [hc]) (by simp [hc])
    have hcloser := Cursor.Marked.other ends' (by simp [hclosing]) (by simp [hclosing])
    exact ⟨marks, hmarks, by simpa using hopener.trans (hmarked.trans hcloser)⟩
  | stop _ => exact ⟨[], (List.append_nil _).symm, .refl _⟩
  | @trail _ left c e d hm _ ih =>
    obtain ⟨hk, hbar, hcomma⟩ := ne_bar_of_trail hm
    obtain ⟨marks, hmarks, hmarked⟩ := ih ends.advance trivial
    have hsymbol := Cursor.Marked.operator ends hk (by simp [Token.isSymbol, hcomma])
      (admits_trailing (trails_of_trail hm))
    refine ⟨⟨c.here.lexeme, .trailing⟩ :: marks, ?_, hsymbol.trans hmarked⟩
    rw [hmarks]
    simp [Task.marks, Left.expr, Expr.marks, hbar]
  | @join _ op left left' c e d f d' hm hstart he hleft _ ih ih' =>
    have hk := kind_of_join hm
    obtain ⟨marks, hmarks, hmarked⟩ := ih ends.advance
      (enters_expr (afterOperand_of_kind ends (.inl hk)) _)
    obtain ⟨role, hjoint, hleftMarks⟩ := Left.marks_of_join? enters hleft
    obtain ⟨marks', hmarks', hmarked'⟩ := ih' (he.progress ends.advance).1
      (Left.words_of_join? enters hleft).2
    have hadmits := admits_joint rfl (Option.isSome_of_eq_some (binary?_of_join hm)) hstart hjoint
    have hsymbol := ends.marked_symbol hk hstart hadmits
    refine ⟨⟨c.here.lexeme, role⟩ :: (marks ++ marks'), ?_, hsymbol.trans (hmarked.trans hmarked')⟩
    rw [hmarks', Task.marks, hleftMarks, hmarks]
    simp [Task.marks]
  | @argue _ left c e d f d' hm he _ ih ih' =>
    obtain ⟨marks, hmarks, hmarked⟩ := ih ends (enters_of_argue hm _)
    obtain ⟨marks', hmarks', hmarked'⟩ := ih' (he.progress ends).1 (left.proper_argument e)
    refine ⟨marks ++ marks', ?_, hmarked.trans hmarked'⟩
    rw [hmarks', Task.marks, Left.marks_argument, hmarks]
    simp [Task.marks]

end Parser

/-- The end of the input adds no site. -/
lemma sitesOf_concat_ending {t : Token} (h : t.kind = .ending) (previous : Option Token) (tokens : List Token) :
    sitesOf previous (tokens ++ [t]) = sitesOf previous tokens := by
  induction tokens generalizing previous with
  | nil => simp [sitesOf, h]
  | cons s rest ih =>
    have hclosing : (rest ++ [t]).head?.any (·.kind = .closing) = rest.head?.any (·.kind = .closing) := by
      cases rest <;> simp [h]
    have hstarts : (rest ++ [t]).head?.any Token.startsOperand = rest.head?.any Token.startsOperand := by
      cases rest <;> simp [Token.startsOperand, h]
    simp only [List.cons_append, sitesOf, hclosing, hstarts, ih]

/-- The cursor before a list has the sites of the list ahead. -/
lemma sites_ofTokens (tokens : List Token) : (Cursor.ofTokens tokens).sites = sitesOf none tokens := by
  cases tokens with
  | nil => rfl
  | cons t rest =>
    simp only [Cursor.sites, Cursor.ahead, Cursor.ofTokens, List.head?_nil]
    split
    · rfl
    · rw [← List.cons_append]
      exact sitesOf_concat_ending rfl _ _

/-- The operators of a list in which the end of the input stands last only go together with those of the
expression that it writes, and each of them that stands after an operand does what the tokens next to
it say. -/
theorem roles_of_buildWithin {depth : Nat} {tokens : List Token} {e : Expr}
    (hend : ∀ t ∈ tokens.dropLast, t.kind ≠ .ending) (h : buildWithin depth tokens = .ok e) :
    List.Forall₂ Site.Admits (sitesOf none tokens) e.marks := by
  obtain ⟨-, d, hread, hd⟩ := Spells.of_buildWithin h
  have hstart : (Cursor.ofTokens tokens).afterOperand = false := by cases tokens <;> rfl
  obtain ⟨marks, hmarks, sites, hsites, hadmits⟩ := hread.marked (Cursor.ofTokens_ends tokens) hstart
  have hnil := after_eq_nil_of_ending (hread.reaches.tokens_eq ▸ kind_ne_ending_ofTokens hend) hd
  have hdone : d.sites = [] := by simp [Cursor.sites, Cursor.ahead, hnil, sitesOf, hd]
  rw [hdone, List.append_nil, sites_ofTokens] at hsites
  rw [hsites, hmarks]
  exact hadmits

/-- The tokens of `a !b - c~`, where each operator stands after an operand. -/
def mixedTokens : List Token :=
  [(.identifier, "a", 0), (.operator, "!", 2), (.identifier, "b", 3), (.operator, "-", 5), (.identifier, "c", 7),
    (.operator, "~", 8)].map fun (kind, lexeme, offset) => ⟨kind, lexeme, 1, offset + 1, offset, false⟩

/-- An operator of each kind: one before, one between and one after operands. -/
theorem roles_of_mixedTokens :
    ∃ e, build mixedTokens = .ok e ∧ e.marks = [⟨"!", .leading⟩, ⟨"-", .binary⟩, ⟨"~", .trailing⟩] ∧
      List.Forall₂ Site.Admits (sitesOf none mixedTokens) e.marks := by
  have hend : ∀ t ∈ mixedTokens.dropLast, t.kind ≠ .ending := by decide
  have h : build mixedTokens = .ok (.binary "-" (.apply (.identifier "a") [.unary "!" true (.identifier "b")])
    (.unary "~" false (.identifier "c"))) := by decide +kernel
  exact ⟨_, h, by decide, roles_of_buildWithin hend h⟩

end SignLang
