import SignLang.Proofs.Render.Regular
import SignLang.Tree.Export
import SignLang.Tree.Import

/-!
# Export and import

`Tree.Exported` says which labelled trees are of the export format: under each label the children that export
writes there, and leaves of the types that it gives them. What export writes is of that format
(`Expr.Throughout.exported`), each tree of the format is written of some expression (`Tree.Exported.isWritten`),
and what is written of an expression reads as that expression (`Expr.Throughout.readsAs`). So the two are inverse to
each other (`toTree_inverse`).
-/

namespace SignLang

/-! ## The export format -/

/-- A parameter of the export format: a leaf with its name, whose type tells whether it takes the rest. -/
def Tree.IsParameter (t : Tree) : Prop :=
  ∃ type ∈ ["NAME", "REST"], ∃ name, t = .ofRule .parameter [.leaf ⟨type, name⟩]

/-- A tree of the export format. -/
inductive Tree.Exported : Tree → Prop where
  | literal {type raw} :
    type ∈ ["NUMBER", "STRING", "CHARACTER"] →
    Exported (.ofRule .literal [.leaf ⟨type, raw⟩])
  | identifier {name} :
    Exported (.ofRule .identifier [.leaf ⟨"NAME", name⟩])
  | unit :
    Exported (.ofRule .unit [])
  | define {target value} :
    Exported target →
    Exported value →
    Exported (.ofRule .define [target, value])
  | lambda {params body} :
    (∀ p ∈ params, Tree.IsParameter p) →
    Exported body →
    Exported (.ofRule .lambda [.ofRule .parameters params, body])
  | binary {symbol left right} :
    Exported left →
    Exported right →
    Exported (.ofRule .binary [.leaf ⟨"OP", symbol⟩, left, right])
  | unary {type symbol operand} :
    type ∈ ["PREFIX", "POSTFIX"] →
    Exported operand →
    Exported (.ofRule .unary [.leaf ⟨type, symbol⟩, operand])
  | range {start stop} :
    Exported start →
    Exported stop →
    Exported (.ofRule .range [start, stop])
  | get {target key} :
    Exported target →
    Exported key →
    Exported (.ofRule .get [target, key])
  | apply {function arguments} :
    Exported function →
    (∀ t ∈ arguments, Exported t) →
    Exported (.ofRule .apply [function, .ofRule .arguments arguments])
  | bareSymbol {symbol} :
    Exported (.ofRule .pointFree [.leaf ⟨"OP", symbol⟩])
  | preset {symbol preset} :
    Exported preset →
    Exported (.ofRule .pointFree [.leaf ⟨"OP", symbol⟩, preset])
  | list {elements} :
    (∀ t ∈ elements, Exported t) →
    Exported (.ofRule .list elements)
  | emptyList :
    Exported (.ofRule .emptyList [])
  | block {statements} :
    (∀ t ∈ statements, Exported t) →
    Exported (.ofRule .block statements)

namespace Expr

/-- A literal is a number, a string or a character. -/
def HasKnownKind : Expr → Prop
  | literal kind _ => kind ∈ [.number, .string, .character]
  | _ => True

end Expr

/-! ## Literal kinds -/

namespace LiteralKind

/-- The type of a leaf is the name of the kind in capitals. -/
lemma leafType_eq (kind : LiteralKind) : kind.leafType = Text.upper kind.name := by
  cases kind with
  | other name => rfl
  | _ => decide

/-- The kind is named by the type of the leaf in small letters. -/
lemma ofLeafType_eq (type : String) : ofLeafType type = ofName (Text.lower type) := by
  unfold ofLeafType
  split_ifs with hnumber hstring hcharacter
  · rw [hnumber]
    decide
  · rw [hstring]
    decide
  · rw [hcharacter]
    decide
  · rfl

/-- The name of a known kind survives the change of case. -/
lemma ofLeafType_leafType {kind : LiteralKind} (h : kind ∈ [number, string, character]) :
    ofLeafType kind.leafType = kind := by
  rw [ofLeafType_eq, leafType_eq]
  simp only [List.mem_cons, List.not_mem_nil, or_false] at h
  rcases h with rfl | rfl | rfl <;> decide

end LiteralKind

/-! ## Reading nodes and leaves -/

namespace Tree

/-- The tree reads as the expression. -/
def ReadsAs (t : Tree) (e : Expr) : Prop :=
  ∃ part, t.read = .ok part ∧ part.toExpr? = some e

/-- A label of the export format is known by its text. -/
lemma ofLabel?_label (rule : Rule) : Rule.ofLabel? rule.label = some rule := by
  cases rule <;> decide

/-- Trees are read one by one. -/
lemma readAll_eq {ts : List Tree} {parts : List Part} (h : List.Forall₂ (fun t part => t.read = .ok part) ts parts) :
    readAll ts = .ok parts := by
  induction h with
  | nil => rfl
  | cons ht _ ih =>
    rw [readAll, ht, ih]
    rfl

/-- A node is read by its label, once its children have been read. -/
lemma read_ofRule {rule : Rule} {children : List Tree} {parts : List Part}
    (h : List.Forall₂ (fun t part => t.read = .ok part) children parts) :
    (ofRule rule children).read = Part.ofRule rule parts := by
  rw [ofRule, read, readAll_eq h]
  change Part.ofLabel rule.label parts = _
  rw [Part.ofLabel, ofLabel?_label]

/-- A leaf whose type is no label stays a leaf. -/
lemma read_leaf {type text : String} (h : Rule.ofLabel? type = none) :
    (leaf ⟨type, text⟩).read = .ok (.leaf ⟨type, text⟩) := by
  rw [read, Part.ofLeaf, h]

/-- Trees that read as expressions are read one by one. -/
lemma exists_parts {es : List Expr} (h : ∀ e ∈ es, e.toTree.ReadsAs e) :
    ∃ parts, List.Forall₂ (fun t part => t.read = .ok part) (Expr.toTrees es) parts ∧
      Part.toExprs? parts = some es := by
  induction es with
  | nil => exact ⟨[], .nil, rfl⟩
  | cons e es ih =>
    rw [List.forall_mem_cons] at h
    obtain ⟨part, hpart, he⟩ := h.1
    obtain ⟨parts, hparts, hes⟩ := ih h.2
    exact ⟨part :: parts, .cons hpart hparts, by rw [Part.toExprs?, he, hes]; rfl⟩

end Tree

namespace Parameter

/-- A parameter is read back from its tree. -/
lemma read_toTree (p : Parameter) : p.toTree.read = .ok (.parameter p) := by
  obtain ⟨name, isRest⟩ := p
  have hleaf : (Tree.leaf ⟨if isRest then "REST" else "NAME", name⟩).read = .ok (.leaf ⟨_, name⟩) :=
    Tree.read_leaf (by cases isRest <;> decide)
  rw [toTree, Tree.read_ofRule (.cons hleaf .nil)]
  cases isRest <;> rfl

/-- Parameters are read back from their tree. -/
lemma read_toTrees (params : List Parameter) :
    (Tree.ofRule .parameters (params.map toTree)).read = .ok (.several (params.map .parameter)) :=
  Tree.read_ofRule (by simp [List.forall₂_map_left_iff, List.forall₂_map_right_iff, List.forall₂_same, read_toTree])

/-- Parts that are parameters are no more than that. -/
lemma toParameters?_map (params : List Parameter) : Part.toParameters? (params.map .parameter) = some params := by
  induction params with
  | nil => rfl
  | cons p params ih => rw [List.map_cons, Part.toParameters?, ih, Option.map_some]

end Parameter

/-! ## Export, then import -/

namespace Expr

open SignLang.Tree Parameter

/-- What is written of an expression reads as that expression. -/
lemma Throughout.readsAs {e : Expr} (h : e.Throughout HasKnownKind) : e.toTree.ReadsAs e := by
  induction h with
  | @mk e hself _ ih =>
    have hop (symbol : String) : (Tree.leaf ⟨"OP", symbol⟩).read = .ok (.leaf ⟨"OP", symbol⟩) :=
      read_leaf (by decide)
    cases e with
    | literal kind raw =>
      have hleaf : (Tree.leaf ⟨kind.leafType, raw⟩).read = .ok (.leaf ⟨kind.leafType, raw⟩) := by
        refine read_leaf ?_
        simp only [HasKnownKind, List.mem_cons, List.not_mem_nil, or_false] at hself
        rcases hself with rfl | rfl | rfl <;> decide
      refine ⟨_, read_ofRule (.cons hleaf .nil), ?_⟩
      rw [Part.toExpr?, LiteralKind.ofLeafType_leafType hself]
    | identifier name => exact ⟨_, read_ofRule (.cons (read_leaf (by decide)) .nil), rfl⟩
    | unit | emptyList => exact ⟨_, read_ofRule .nil, rfl⟩
    | define target value =>
      obtain ⟨p, hp, htarget⟩ := ih (.inner, target) (by simp [parts])
      obtain ⟨q, hq, hvalue⟩ := ih (.value, value) (by simp [parts])
      exact ⟨_, read_ofRule (.cons hp (.cons hq .nil)), by simp [Part.toExpr?, htarget, hvalue]⟩
    | lambda params body =>
      obtain ⟨p, hp, hbody⟩ := ih (.body, body) (by simp [parts])
      exact ⟨_, read_ofRule (.cons (read_toTrees params) (.cons hp .nil)),
        by simp [Part.toExpr?, toParameters?_map, hbody]⟩
    | binary symbol left right =>
      obtain ⟨p, hp, hleft⟩ := ih (.inner, left) (by simp [parts])
      obtain ⟨q, hq, hright⟩ := ih (if symbol = ":" then .colon else .last, right) (by simp [parts])
      exact ⟨_, read_ofRule (.cons (hop symbol) (.cons hp (.cons hq .nil))),
        by simp [Part.toExpr?, Part.text, hleft, hright]⟩
    | unary symbol leads operand =>
      obtain ⟨p, hp, hoperand⟩ := ih (if leads then .last else .inner, operand) (by simp [parts])
      have hleaf : (Tree.leaf ⟨sideType leads, symbol⟩).read = .ok (.leaf ⟨sideType leads, symbol⟩) :=
        read_leaf (by cases leads <;> decide)
      have hside : decide (sideType leads = "PREFIX") = leads := by cases leads <;> decide
      refine ⟨_, read_ofRule (.cons hleaf (.cons hp .nil)), ?_⟩
      simp [Part.toExpr?, hoperand, hside]
    | range start stop =>
      obtain ⟨p, hp, hstart⟩ := ih (.inner, start) (by simp [parts])
      obtain ⟨q, hq, hstop⟩ := ih (.last, stop) (by simp [parts])
      exact ⟨_, read_ofRule (.cons hp (.cons hq .nil)), by simp [Part.toExpr?, hstart, hstop]⟩
    | get target key =>
      obtain ⟨p, hp, htarget⟩ := ih (.inner, target) (by simp [parts])
      obtain ⟨q, hq, hkey⟩ := ih (.last, key) (by simp [parts])
      exact ⟨_, read_ofRule (.cons hp (.cons hq .nil)), by simp [Part.toExpr?, htarget, hkey]⟩
    | apply function arguments =>
      obtain ⟨p, hp, hfunction⟩ := ih (.inner, function) (by simp [parts])
      obtain ⟨ps, hps, harguments⟩ := exists_parts
        (forall_mem_rowOf_iff.1 fun part hpart => ih part (List.mem_cons_of_mem _ hpart))
      exact ⟨_, read_ofRule (.cons hp (.cons (read_ofRule hps) .nil)),
        by simp [Part.toExpr?, hfunction, harguments]⟩
    | pointFree symbol preset =>
      cases preset with
      | none => exact ⟨_, read_ofRule (.cons (hop symbol) .nil), rfl⟩
      | some preset =>
        obtain ⟨p, hp, hpreset⟩ := ih (.last, preset) (by simp [parts])
        exact ⟨_, read_ofRule (.cons (hop symbol) (.cons hp .nil)), by simp [Part.toExpr?, Part.text, hpreset]⟩
    | list elements =>
      obtain ⟨ps, hps, helements⟩ := exists_parts (forall_mem_rowOf_iff.1 ih)
      exact ⟨_, read_ofRule hps, by simp [Part.toExpr?, helements]⟩
    | block statements =>
      obtain ⟨ps, hps, hstatements⟩ := exists_parts fun e he => ih (.statement, e) (List.mem_map_of_mem he)
      exact ⟨_, read_ofRule hps, by simp [Part.toExpr?, hstatements]⟩

/-- What export writes is of the export format. -/
lemma Throughout.exported {e : Expr} (h : e.Throughout HasKnownKind) : e.toTree.Exported := by
  induction h with
  | @mk e hself _ ih =>
    have toTrees_eq (es : List Expr) : toTrees es = es.map toTree := by
      induction es with
      | nil => rfl
      | cons e es ih => rw [toTrees, ih, List.map_cons]
    cases e with
    | literal kind raw =>
      refine .literal ?_
      simp only [HasKnownKind, List.mem_cons, List.not_mem_nil, or_false] at hself
      rcases hself with rfl | rfl | rfl <;> decide
    | identifier => exact .identifier
    | unit => exact .unit
    | emptyList => exact .emptyList
    | define target value =>
      exact .define (ih (.inner, target) (by simp [parts])) (ih (.value, value) (by simp [parts]))
    | lambda params body =>
      refine .lambda (List.forall_mem_map.2 fun p _ => ?_) (ih (.body, body) (by simp [parts]))
      exact ⟨_, by cases p.isRest <;> decide, p.name, rfl⟩
    | binary symbol left right =>
      exact .binary (ih (.inner, left) (by simp [parts]))
        (ih (if symbol = ":" then .colon else .last, right) (by simp [parts]))
    | unary symbol leads operand =>
      exact .unary (by cases leads <;> decide) (ih (if leads then .last else .inner, operand) (by simp [parts]))
    | range start stop =>
      exact .range (ih (.inner, start) (by simp [parts])) (ih (.last, stop) (by simp [parts]))
    | get target key => exact .get (ih (.inner, target) (by simp [parts])) (ih (.last, key) (by simp [parts]))
    | apply function arguments =>
      refine .apply (ih (.inner, function) (by simp [parts])) ?_
      rw [toTrees_eq]
      exact List.forall_mem_map.2
        (forall_mem_rowOf_iff.1 fun part hpart => ih part (List.mem_cons_of_mem _ hpart))
    | pointFree symbol preset =>
      cases preset with
      | none => exact .bareSymbol
      | some preset => exact .preset (ih (.last, preset) (by simp [parts]))
    | list elements =>
      refine .list ?_
      rw [toTrees_eq]
      exact List.forall_mem_map.2 (forall_mem_rowOf_iff.1 ih)
    | block statements =>
      refine .block ?_
      rw [toTrees_eq]
      exact List.forall_mem_map.2 fun e he => ih (.statement, e) (List.mem_map_of_mem he)

end Expr

/-! ## Import, then export -/

namespace Tree

open SignLang.Expr

/-- The tree is what export writes of an expression. -/
def IsWritten (t : Tree) : Prop :=
  ∃ e : Expr, e.Throughout HasKnownKind ∧ e.toTree = t

/-- Trees that are written one by one are written of a list of expressions. -/
lemma exists_toTrees {ts : List Tree} (h : ∀ t ∈ ts, t.IsWritten) :
    ∃ es : List Expr, (∀ e ∈ es, e.Throughout HasKnownKind) ∧ toTrees es = ts := by
  induction ts with
  | nil => exact ⟨[], List.forall_mem_nil _, rfl⟩
  | cons t ts ih =>
    rw [List.forall_mem_cons] at h
    obtain ⟨e, he, rfl⟩ := h.1
    obtain ⟨es, hes, rfl⟩ := ih h.2
    exact ⟨e :: es, List.forall_mem_cons.2 ⟨he, hes⟩, rfl⟩

/-- Parameters of the export format are written of parameters. -/
lemma exists_parameters {ts : List Tree} (h : ∀ t ∈ ts, t.IsParameter) :
    ∃ params : List Parameter, params.map Parameter.toTree = ts := by
  induction ts with
  | nil => exact ⟨[], rfl⟩
  | cons t ts ih =>
    rw [List.forall_mem_cons] at h
    obtain ⟨type, htype, name, rfl⟩ := h.1
    obtain ⟨params, rfl⟩ := ih h.2
    simp only [List.mem_cons, List.not_mem_nil, or_false] at htype
    rcases htype with rfl | rfl
    · exact ⟨⟨name, false⟩ :: params, rfl⟩
    · exact ⟨⟨name, true⟩ :: params, rfl⟩

/-- A tree of the export format is written of some expression. -/
lemma Exported.isWritten {t : Tree} (h : t.Exported) : t.IsWritten := by
  induction h with
  | @literal type raw htype =>
    simp only [List.mem_cons, List.not_mem_nil, or_false] at htype
    rcases htype with rfl | rfl | rfl
    · exact ⟨.literal .number raw, .mk (by simp [HasKnownKind]) (List.forall_mem_nil _), rfl⟩
    · exact ⟨.literal .string raw, .mk (by simp [HasKnownKind]) (List.forall_mem_nil _), rfl⟩
    · exact ⟨.literal .character raw, .mk (by simp [HasKnownKind]) (List.forall_mem_nil _), rfl⟩
  | @identifier name => exact ⟨.identifier name, .mk trivial (List.forall_mem_nil _), rfl⟩
  | unit => exact ⟨.unit, .mk trivial (List.forall_mem_nil _), rfl⟩
  | emptyList => exact ⟨.emptyList, .mk trivial (List.forall_mem_nil _), rfl⟩
  | define _ _ ih ih' =>
    obtain ⟨target, htarget, rfl⟩ := ih
    obtain ⟨value, hvalue, rfl⟩ := ih'
    exact ⟨.define target value, .mk trivial (by simpa [parts] using ⟨htarget, hvalue⟩), rfl⟩
  | lambda hparams _ ih =>
    obtain ⟨params, rfl⟩ := exists_parameters hparams
    obtain ⟨body, hbody, rfl⟩ := ih
    exact ⟨.lambda params body, .mk trivial (List.forall_mem_singleton.2 hbody), rfl⟩
  | @binary symbol _ _ _ _ ih ih' =>
    obtain ⟨left, hleft, rfl⟩ := ih
    obtain ⟨right, hright, rfl⟩ := ih'
    exact ⟨.binary symbol left right, .mk trivial (by simpa [parts] using ⟨hleft, hright⟩), rfl⟩
  | @unary type symbol _ htype _ ih =>
    obtain ⟨operand, hoperand, rfl⟩ := ih
    simp only [List.mem_cons, List.not_mem_nil, or_false] at htype
    rcases htype with rfl | rfl
    · exact ⟨.unary symbol true operand, .mk trivial (List.forall_mem_singleton.2 hoperand), rfl⟩
    · exact ⟨.unary symbol false operand, .mk trivial (List.forall_mem_singleton.2 hoperand), rfl⟩
  | range _ _ ih ih' =>
    obtain ⟨start, hstart, rfl⟩ := ih
    obtain ⟨stop, hstop, rfl⟩ := ih'
    exact ⟨.range start stop, .mk trivial (by simpa [parts] using ⟨hstart, hstop⟩), rfl⟩
  | get _ _ ih ih' =>
    obtain ⟨target, htarget, rfl⟩ := ih
    obtain ⟨key, hkey, rfl⟩ := ih'
    exact ⟨.get target key, .mk trivial (by simpa [parts] using ⟨htarget, hkey⟩), rfl⟩
  | apply _ _ ih ih' =>
    obtain ⟨function, hfunction, rfl⟩ := ih
    obtain ⟨arguments, harguments, rfl⟩ := exists_toTrees ih'
    exact ⟨.apply function arguments,
      .mk trivial (List.forall_mem_cons.2 ⟨hfunction, forall_mem_rowOf_iff.2 harguments⟩), rfl⟩
  | @bareSymbol symbol => exact ⟨.pointFree symbol none, .mk trivial (List.forall_mem_nil _), rfl⟩
  | @preset symbol _ _ ih =>
    obtain ⟨preset, hpreset, rfl⟩ := ih
    exact ⟨.pointFree symbol (some preset), .mk trivial (List.forall_mem_singleton.2 hpreset), rfl⟩
  | list _ ih =>
    obtain ⟨elements, helements, rfl⟩ := exists_toTrees ih
    exact ⟨.list elements, .mk trivial (forall_mem_rowOf_iff.2 helements), rfl⟩
  | block _ ih =>
    obtain ⟨statements, hstatements, rfl⟩ := exists_toTrees ih
    exact ⟨.block statements, .mk trivial (List.forall_mem_map.2 hstatements), rfl⟩

end Tree

/-- The expression that a tree reads as is imported from it. -/
lemma Tree.ReadsAs.ofTree?_eq {t : Tree} {e : Expr} (h : t.ReadsAs e) : Expr.ofTree? t = some e := by
  obtain ⟨part, hread, hpart⟩ := h
  rw [Expr.ofTree?, hread]
  exact hpart

/-- Export and import are inverse to each other. An expression whose literals are numbers, strings and characters,
of whatever shape else, is exported to a tree of the export format, and imported from it. A tree of the export format
is imported as such an expression, which is exported to that tree. -/
theorem toTree_inverse :
    (∀ e : Expr, e.Throughout Expr.HasKnownKind → e.toTree.Exported ∧ Expr.ofTree? e.toTree = some e) ∧
      ∀ t : Tree, t.Exported →
        ∃ e : Expr, e.Throughout Expr.HasKnownKind ∧ Expr.ofTree? t = some e ∧ e.toTree = t := by
  refine ⟨fun e h => ⟨h.exported, h.readsAs.ofTree?_eq⟩, fun t h => ?_⟩
  obtain ⟨e, he, rfl⟩ := h.isWritten
  exact ⟨e, he, he.readsAs.ofTree?_eq, rfl⟩

/-- A function that no text writes: a sum without arguments after a block of no statements, a rest parameter that is
not the last one, and an operator that is in no table. -/
def oddFunction : Expr :=
  .lambda [⟨"r", true⟩, ⟨"a", false⟩]
    (.binary "**" (.block []) (.apply (.pointFree "+" (some (.literal .character "("))) []))

/-- The tree of `oddFunction`. -/
def oddTree : Tree :=
  .node "anonfn" [
    .node "params" [.node "param" [.leaf ⟨"REST", "r"⟩], .node "param" [.leaf ⟨"NAME", "a"⟩]],
    .node "binop" [
      .leaf ⟨"OP", "**"⟩,
      .node "block" [],
      .node "apply" [
        .node "pointfree" [.leaf ⟨"OP", "+"⟩, .node "literal" [.leaf ⟨"CHARACTER", "("⟩]],
        .node "args" []]]]

/-- Such a function and its tree become each other. -/
theorem toTree_inverse_oddFunction :
    oddFunction.Throughout Expr.HasKnownKind ∧ oddTree.Exported ∧
      Expr.ofTree? oddFunction.toTree = some oddFunction ∧
        ∃ e, Expr.ofTree? oddTree = some e ∧ e.toTree = oddTree := by
  have hliteral : (Expr.literal .character "(").Throughout Expr.HasKnownKind :=
    .mk (by simp [Expr.HasKnownKind]) (List.forall_mem_nil _)
  have hknown : oddFunction.Throughout Expr.HasKnownKind := by
    refine .mk trivial (List.forall_mem_singleton.2 (.mk trivial ?_))
    refine List.forall_mem_cons.2 ⟨.mk trivial (List.forall_mem_nil _), List.forall_mem_singleton.2 ?_⟩
    exact .mk trivial (List.forall_mem_singleton.2 (.mk trivial (List.forall_mem_singleton.2 hliteral)))
  have hparameters : ∀ p ∈ [Tree.node "param" [.leaf ⟨"REST", "r"⟩], .node "param" [.leaf ⟨"NAME", "a"⟩]],
      p.IsParameter :=
    List.forall_mem_cons.2 ⟨⟨"REST", by decide, "r", rfl⟩,
      List.forall_mem_singleton.2 ⟨"NAME", by decide, "a", rfl⟩⟩
  have hexported : oddTree.Exported :=
    .lambda hparameters (.binary (.block (List.forall_mem_nil _))
      (.apply (.preset (.literal (by decide))) (List.forall_mem_nil _)))
  obtain ⟨e, -, hread, hwritten⟩ := toTree_inverse.2 oddTree hexported
  exact ⟨hknown, hexported, (toTree_inverse.1 oddFunction hknown).2, e, hread, hwritten⟩

end SignLang
