import SignLang.Parser.Expr
import SignLang.Proofs.Cursor

/-!
# Readings

`Reads task c e d` says that the parser, busy with `task` at the cursor `c`, reads the expression
`e` and comes to stand at `d`. It has one rule for each thing the parser can do, and neither a
limit on the nesting nor a number of turns.

* `Reads.of_parseExpr`: whatever the parser finds is a reading.
* `Reads.parses`: every reading is found, if deep enough a nesting is admitted.
* `Reads.progress`: a reading moves on, and never leaves the list.
-/

namespace SignLang.Parser

/-- The expression that a token is, if it is one alone. -/
def atom? (t : Token) : Option Expr :=
  match t.kind with
  | .identifier => some (.identifier t.lexeme)
  | .number => some (.literal .number t.payload)
  | .string => some (.literal .string t.payload)
  | .character => some (.literal .character t.payload)
  | .unit => some .unit
  | _ => none

/-- What is on the left after the operator `symbol` has joined `right` to it. -/
def Left.join? (left : Left) (symbol : String) (right : Expr) : Option Left :=
  if symbol = "," then some (left.element right)
  else if symbol = "?" then (paramsOf? left.expr).map fun params => .single (.lambda params right)
  else some (.single (joined symbol left.expr right))

/-- A further operand is one more element after a comma, the body of a function after a question mark, and
the right half of a pair after any other operator. -/
lemma Left.join?_cases {left left' : Left} {symbol : String} {r : Expr}
    (h : left.join? symbol r = some left') :
    (symbol = "," ∧ left' = left.element r) ∨
    (symbol = "?" ∧ ∃ params, paramsOf? left.expr = some params ∧ left' = .single (.lambda params r)) ∨
    (symbol ≠ "," ∧ symbol ≠ "?" ∧ left' = .single (joined symbol left.expr r)) := by
  unfold join? at h
  split at h
  · next hcomma =>
    cases h
    exact .inl ⟨hcomma, rfl⟩
  · next hcomma =>
    split at h
    · next hq =>
      obtain ⟨params, hparams, rfl⟩ := Option.map_eq_some_iff.1 h
      exact .inr (.inl ⟨hq, params, hparams, rfl⟩)
    · next hq =>
      cases h
      exact .inr (.inr ⟨hcomma, hq, rfl⟩)

/-- Expressions that all have names are identifiers. -/
lemma eq_map_of_mapM_nameOf? {es : List Expr} {names : List String} (h : es.mapM nameOf? = some names) :
    es = names.map .identifier := by
  induction es generalizing names with
  | nil =>
    simp only [List.mapM_nil, Option.pure_def, Option.some.injEq] at h
    rw [← h, List.map_nil]
  | cons e es ih =>
    simp only [List.mapM_cons, Option.pure_def, Option.bind_eq_bind, Option.bind_eq_some_iff,
      Option.some.injEq] at h
    obtain ⟨name, hname, names', hnames, rfl⟩ := h
    cases e with
    | identifier =>
      cases hname
      rw [ih hnames, List.map_cons]
    | _ => cases hname

/-- The cursor after the comma or separator that may end a group without left operand. -/
def pastComma (c : Cursor) : Cursor :=
  if c.here.isSymbol "," || c.here.kind = .separator then c.advance else c

/-- What the parser is busy with: the rest of a sequence of which `read` has been read, an
expression or an operand at a power, an operand known by its first token, or what follows the
operand `left`. -/
inductive Task where
  | statements (read : List Expr)
  | expr (power : Nat)
  | operand (power : Nat)
  | primary
  | climb (power : Nat) (left : Left)

/-- A task at a cursor, the expression that it reads, and the cursor after it. -/
inductive Reads : Task → Cursor → Expr → Cursor → Prop where
  | done {es c} :
    c.here.kind = .closing ∨ c.here.kind = .ending →
    Reads (.statements es) c (sequenced es) c
  | last {es c e d} :
    ¬(c.here.kind = .closing ∨ c.here.kind = .ending) →
    Reads (.expr 0) c e d →
    d.here.kind ≠ .separator →
    Reads (.statements es) c (sequenced (es ++ [e])) d
  | more {es c e d f d'} :
    ¬(c.here.kind = .closing ∨ c.here.kind = .ending) →
    Reads (.expr 0) c e d →
    d.here.kind = .separator →
    Reads (.statements (es ++ [e])) d.advance f d' →
    Reads (.statements es) c f d'
  | expr {p c e d f d'} :
    Reads (.operand p) c e d →
    Reads (.climb p (.single e)) d f d' →
    Reads (.expr p) c f d'
  | define {p c e d} :
    p ≤ Power.define →
    startsDefine c →
    c.advance.advance.here.startsOperand →
    Reads (.expr Power.define) c.advance.advance e d →
    Reads (.operand p) c (.define (.identifier c.here.lexeme) e) d
  | lambda {p c params e d} :
    ¬(p ≤ Power.define ∧ startsDefine c) →
    p ≤ Power.lambda →
    c.lambdaHead? = some params →
    (c.skip (Parameter.listWidth params)).advance.here.startsOperand →
    Reads (.expr Power.lambda) (c.skip (Parameter.listWidth params)).advance e d →
    Reads (.operand p) c (.lambda params e) d
  | primary {p c e d} :
    ¬(p ≤ Power.define ∧ startsDefine c) →
    ¬(p ≤ Power.lambda ∧ c.lambdaHead?.isSome) →
    Reads .primary c e d →
    Reads (.operand p) c e d
  | atom {c e} :
    atom? c.here = some e →
    Reads .primary c e c.advance
  | thunk {c e d} :
    c.here.isSymbol "?" →
    c.advance.here.startsOperand →
    Reads (.expr Power.lambda) c.advance e d →
    Reads .primary c (.lambda [] e) d
  | leading {c op e d} :
    c.here.kind = .operator →
    c.here.lexeme ≠ "?" →
    c.here.lexeme ≠ Operator.bar →
    Operator.leading? c.here.lexeme = some op →
    c.advance.here.startsOperand →
    Reads (.expr op.rightPower) c.advance e d →
    Reads .primary c (.unary c.here.lexeme true e) d
  | bars {c e d} :
    c.here.kind = .opening →
    c.here.lexeme = Operator.bar →
    c.advance.here.kind ≠ .closing →
    Reads (.statements []) c.advance e d →
    d.here.kind = .closing →
    Reads .primary c (.unary Operator.bar true e) d.advance
  | emptyGroup {c} :
    c.here.kind = .opening →
    c.here.lexeme ≠ Operator.bar →
    c.advance.here.kind = .closing →
    Reads .primary c .emptyList c.advance.advance
  | bareSymbol {c} :
    c.here.kind = .opening →
    c.here.lexeme ≠ Operator.bar →
    c.advance.headsPointFree →
    c.advance.advance.here.kind = .closing →
    Reads .primary c (.pointFree c.advance.here.lexeme none) c.advance.advance.advance
  | preset {c e d} :
    c.here.kind = .opening →
    c.here.lexeme ≠ Operator.bar →
    c.advance.headsPointFree →
    c.advance.advance.here.startsOperand →
    Reads (.expr (Power.product + 1)) c.advance.advance e d →
    (pastComma d).here.kind = .closing →
    Reads .primary c (.pointFree c.advance.here.lexeme (some e)) (pastComma d).advance
  | group {c e d} :
    c.here.kind = .opening →
    c.here.lexeme ≠ Operator.bar →
    c.advance.here.kind ≠ .closing →
    ¬c.advance.headsPointFree →
    Reads (.statements []) c.advance e d →
    d.here.kind = .closing →
    Reads .primary c e d.advance
  | stop {p left c} :
    moveAt p c = .stop →
    Reads (.climb p left) c left.expr c
  | trail {p left c e d} :
    moveAt p c = .trail →
    Reads (.climb p (.single (.unary c.here.lexeme false left.expr))) c.advance e d →
    Reads (.climb p left) c e d
  | join {p op left left' c e d f d'} :
    moveAt p c = .join op →
    c.advance.here.startsOperand →
    Reads (.expr op.rightPower) c.advance e d →
    left.join? c.here.lexeme e = some left' →
    Reads (.climb p left') d f d' →
    Reads (.climb p left) c f d'
  | argue {p left c e d f d'} :
    moveAt p c = .argue →
    Reads (.expr (Power.apply + 1)) c e d →
    Reads (.climb p (left.argument e)) d f d' →
    Reads (.climb p left) c f d'

/-! ## What the parser finds is a reading -/

/-- A computation that goes on after a first one succeeds if both do. -/
lemma bind_eq_ok {ε α β : Type} {x : Except ε α} {f : α → Except ε β} {r : β} :
    (x >>= f) = .ok r ↔ ∃ a, x = .ok a ∧ f a = .ok r := by
  cases x with
  | error e => exact ⟨nofun, nofun⟩
  | ok a => exact ⟨fun h => ⟨a, rfl, h⟩, by rintro ⟨_, ⟨⟩, h⟩; exact h⟩

/-- An operand is read on the right where one starts. -/
lemma parseRight_eq_ok {parse : Reader} {operator c : Cursor} {power : Nat} {r : Expr × Cursor} :
    parseRight parse operator power c = .ok r ↔ c.here.startsOperand ∧ parse power c = .ok r := by
  unfold parseRight
  split
  · next h => simp [h]
  · next h => simp [h, blame]

/-- A closing bracket is moved over where there is one. -/
lemma expectClosing_eq_ok {opener c d : Cursor} :
    expectClosing opener c = .ok d ↔ c.here.kind = .closing ∧ c.advance = d := by
  unfold expectClosing
  split
  · next h => simp [h]
  · next h => simp [h, fail]

/-- What is read up to a closing bracket is read with the bracket. -/
lemma closed_eq_ok (f : Expr → Expr) {x : Except Failure (Expr × Cursor)} {opener d : Cursor} {e : Expr} :
    (do
      let r ← x
      let rest ← expectClosing opener r.2
      return (f r.1, rest)) = .ok (e, d) ↔
      ∃ e' m, x = .ok (e', m) ∧ m.here.kind = .closing ∧ e = f e' ∧ d = m.advance := by
  constructor
  · intro h
    obtain ⟨⟨e', m⟩, hx, h⟩ := bind_eq_ok.1 h
    obtain ⟨rest, hclose, h⟩ := bind_eq_ok.1 h
    cases h
    obtain ⟨hclosing, rfl⟩ := expectClosing_eq_ok.1 hclose
    exact ⟨e', m, hx, hclosing, rfl, rfl⟩
  · rintro ⟨e', m, hx, hclosing, rfl, rfl⟩
    exact bind_eq_ok.2 ⟨(e', m), hx, bind_eq_ok.2 ⟨_, expectClosing_eq_ok.2 ⟨hclosing, rfl⟩, rfl⟩⟩

section Soundness

variable {parse : Reader}

/-- The reader finds readings only. -/
def Sound (parse : Reader) : Prop :=
  ∀ {p c e d}, parse p c = .ok (e, d) → Reads (.expr p) c e d

/-- Statements are read in the order of the list. -/
lemma Sound.statements (sound : Sound parse) {turns c fs d}
    (h : parseStatements parse turns c = .ok (fs, d)) (es : List Expr) :
    Reads (.statements es) c (sequenced (es ++ fs)) d := by
  induction turns generalizing c fs es with
  | nil =>
    unfold parseStatements at h
    split at h
    · next stop =>
      cases h
      have hdone : Reads (.statements es) d (sequenced es) d := .done (by simpa using stop)
      simpa using hdone
    · next go =>
      obtain ⟨⟨e, c'⟩, he, h⟩ := bind_eq_ok.1 h
      dsimp only at h
      split at h
      · simp [fail] at h
      · next hsep =>
        cases h
        exact .last (by simpa using go) (sound he) hsep
  | cons t turns ih =>
    unfold parseStatements at h
    split at h
    · next stop =>
      cases h
      have hdone : Reads (.statements es) d (sequenced es) d := .done (by simpa using stop)
      simpa using hdone
    · next go =>
      obtain ⟨⟨e, c'⟩, he, h⟩ := bind_eq_ok.1 h
      dsimp only at h
      split at h
      · next hsep =>
        obtain ⟨⟨gs, c''⟩, hs, h⟩ := bind_eq_ok.1 h
        cases h
        have rest := ih hs (es ++ [e])
        rw [List.append_assoc, List.singleton_append] at rest
        exact .more (by simpa using go) (sound he) hsep rest
      · next hsep =>
        cases h
        exact .last (by simpa using go) (sound he) hsep

/-- A sequence is a reading of statements. -/
lemma Sound.sequence (sound : Sound parse) {c e d} (h : parseSequence parse c = .ok (e, d)) :
    Reads (.statements []) c e d := by
  obtain ⟨⟨es, c'⟩, hs, h⟩ := bind_eq_ok.1 h
  cases h
  exact sound.statements hs []

/-- A group is a reading, whatever its inside is. -/
lemma Sound.group (sound : Sound parse) {c e d} (hc : c.here.kind = .opening)
    (h : parseGroup parse c = .ok (e, d)) : Reads .primary c e d := by
  unfold parseGroup at h
  dsimp only at h
  split at h
  · next hbar =>
    split at h
    · simp [blame] at h
    · next hne =>
      obtain ⟨e', d', hs, hclosing, rfl, rfl⟩ := (closed_eq_ok (.unary Operator.bar true)).1 h
      exact .bars hc hbar hne (sound.sequence hs) hclosing
  · next hbar =>
    split at h
    · next hempty =>
      cases h
      exact .emptyGroup hc hbar hempty
    · next hne =>
      split at h
      · next hfree =>
        obtain ⟨e', d', hs, hclosing, rfl, rfl⟩ := (closed_eq_ok fun e => e).1 h
        unfold parsePointFree at hs
        dsimp only at hs
        split at hs
        · next hbare =>
          cases hs
          exact .bareSymbol hc hbar hfree hbare
        · obtain ⟨⟨preset, d''⟩, hright, hs⟩ := bind_eq_ok.1 hs
          cases hs
          obtain ⟨hstart, hright⟩ := parseRight_eq_ok.1 hright
          exact .preset hc hbar hfree hstart (sound hright) hclosing
      · next hfree =>
        obtain ⟨e', d', hs, hclosing, rfl, rfl⟩ := (closed_eq_ok fun e => e).1 h
        exact .group hc hbar hne hfree (sound.sequence hs) hclosing

/-- An operand known by its first token is a reading. -/
lemma Sound.primary (sound : Sound parse) {c e d} (h : parsePrimary parse c = .ok (e, d)) :
    Reads .primary c e d := by
  unfold parsePrimary at h
  split at h
  case h_1 hk => cases h; exact .atom (by simp [atom?, hk])
  case h_2 hk => cases h; exact .atom (by simp [atom?, hk])
  case h_3 hk => cases h; exact .atom (by simp [atom?, hk])
  case h_4 hk => cases h; exact .atom (by simp [atom?, hk])
  case h_5 hk => cases h; exact .atom (by simp [atom?, hk])
  case h_6 hk => exact sound.group hk h
  case h_7 hk =>
    split at h
    · next hq =>
      obtain ⟨⟨body, d'⟩, hright, h⟩ := bind_eq_ok.1 h
      cases h
      obtain ⟨hstart, hright⟩ := parseRight_eq_ok.1 hright
      exact .thunk (by simp [Token.isSymbol, hk, hq]) hstart (sound hright)
    · next hq =>
      split at h
      · next op hop =>
        split at hop
        · cases hop
        · next hbar =>
          obtain ⟨⟨operand, d'⟩, hright, h⟩ := bind_eq_ok.1 h
          cases h
          obtain ⟨hstart, hright⟩ := parseRight_eq_ok.1 hright
          exact .leading hk hq hbar hop hstart (sound hright)
      · simp [fail] at h
  case h_8 => simp [fail] at h

/-- An operand is a reading. -/
lemma Sound.operand (sound : Sound parse) {p c e d} (h : parseOperand parse p c = .ok (e, d)) :
    Reads (.operand p) c e d := by
  unfold parseOperand at h
  split at h
  · next hdef =>
    rw [Bool.and_eq_true, decide_eq_true_eq] at hdef
    obtain ⟨⟨value, d'⟩, hright, h⟩ := bind_eq_ok.1 h
    cases h
    obtain ⟨hstart, hright⟩ := parseRight_eq_ok.1 hright
    exact .define hdef.1 hdef.2 hstart (sound hright)
  · next hdef =>
    rw [Bool.and_eq_true, decide_eq_true_eq] at hdef
    split at h
    · next params hhead =>
      split at hhead
      · next hp =>
        obtain ⟨⟨body, d'⟩, hright, h⟩ := bind_eq_ok.1 h
        cases h
        obtain ⟨hstart, hright⟩ := parseRight_eq_ok.1 hright
        exact .lambda hdef hp hhead hstart (sound hright)
      · cases hhead
    · next hhead =>
      refine .primary hdef ?_ (sound.primary h)
      rintro ⟨hp, hsome⟩
      rw [if_pos hp] at hhead
      simp [hhead] at hsome

/-- Joining an operator's right operand to the left is a reading of that operand. -/
lemma Sound.join (sound : Sound parse) {op left left' c d}
    (h : parseJoin parse op left c = .ok (left', d)) :
    ∃ e, c.advance.here.startsOperand ∧ Reads (.expr op.rightPower) c.advance e d ∧
      left.join? c.here.lexeme e = some left' := by
  unfold parseJoin at h
  split at h
  · next hcomma =>
    obtain ⟨⟨e, d'⟩, hright, h⟩ := bind_eq_ok.1 h
    cases h
    obtain ⟨hstart, hright⟩ := parseRight_eq_ok.1 hright
    exact ⟨e, hstart, sound hright, by simp [Left.join?, hcomma]⟩
  · next hcomma =>
    split at h
    · next hq =>
      split at h
      · simp [blame] at h
      · next params hparams =>
        obtain ⟨⟨e, d'⟩, hright, h⟩ := bind_eq_ok.1 h
        cases h
        obtain ⟨hstart, hright⟩ := parseRight_eq_ok.1 hright
        exact ⟨e, hstart, sound hright, by simp [Left.join?, hq, hparams]⟩
    · next hq =>
      obtain ⟨⟨e, d'⟩, hright, h⟩ := bind_eq_ok.1 h
      cases h
      obtain ⟨hstart, hright⟩ := parseRight_eq_ok.1 hright
      exact ⟨e, hstart, sound hright, by simp [Left.join?, hcomma, hq]⟩

/-- Climbing is a reading. -/
lemma Sound.climb (sound : Sound parse) {p turns left c e d}
    (h : climb parse p turns left c = .ok (e, d)) : Reads (.climb p left) c e d := by
  induction turns generalizing left c with
  | nil =>
    unfold Parser.climb at h
    split at h
    case h_1 hm => cases h; exact .stop hm
    case h_2 => simp [fail] at h
    all_goals contradiction
  | cons t turns ih =>
    unfold Parser.climb at h
    split at h
    case h_1 hm => cases h; exact .stop hm
    case h_2 => contradiction
    case h_3 hm heq =>
      cases heq
      exact .trail hm (ih h)
    case h_4 hm heq =>
      cases heq
      obtain ⟨⟨left', c'⟩, hjoin, h⟩ := bind_eq_ok.1 h
      obtain ⟨e', hstart, hright, hleft⟩ := sound.join hjoin
      exact .join hm hstart hright hleft (ih h)
    case h_5 hm heq =>
      cases heq
      obtain ⟨⟨e', c'⟩, harg, h⟩ := bind_eq_ok.1 h
      exact .argue hm (sound harg) (ih h)

end Soundness

/-- Whatever the parser finds, at any nesting, is a reading. -/
theorem Reads.of_parseExpr (depth : Nat) : Sound (parseExpr depth) := by
  induction depth with
  | zero =>
    intro p c e d h
    simp [parseExpr, fail] at h
  | succ depth ih =>
    intro p c e d h
    obtain ⟨⟨e', c'⟩, hoperand, h⟩ := bind_eq_ok.1 h
    exact .expr (ih.operand hoperand) (ih.climb h)

/-! ## Readings move on -/

/-- How many tokens a task reads at least. -/
def Task.gain : Task → Nat
  | .statements _ | .climb .. => 0
  | .expr _ | .operand _ | .primary => 1

/-- A token that is an expression alone is not the end of the input. -/
lemma kind_ne_ending_of_atom? {t : Token} {e : Expr} (h : atom? t = some e) :
    t.kind ≠ .ending := by
  intro hk
  simp [atom?, hk] at h

/-- A token that starts an operand is not the end of the input. -/
lemma kind_ne_ending_of_startsOperand {t : Token} (h : t.startsOperand) : t.kind ≠ .ending := by
  intro hk
  simp [Token.startsOperand, hk] at h

/-- A symbol is an operator. -/
lemma kind_of_isSymbol {t : Token} {symbol : String} (h : t.isSymbol symbol) :
    t.kind = .operator :=
  (Token.isSymbol_iff.mp h).1

/-- A symbol is written as such. -/
lemma lexeme_of_isSymbol {t : Token} {symbol : String} (h : t.isSymbol symbol) :
    t.lexeme = symbol :=
  (Token.isSymbol_iff.mp h).2

/-- A definition starts with a name, and a colon follows it. -/
lemma of_startsDefine {c : Cursor} (h : startsDefine c) :
    c.here.kind = .identifier ∧ c.advance.here.kind = .operator ∧ c.advance.here.lexeme = ":" := by
  rw [Cursor.here_advance, ← Token.isSymbol_iff]
  exact startsDefine_iff.1 h

/-- At the end of the input nothing follows an operand. -/
lemma moveAt_ending {p : Nat} {c : Cursor} (h : c.here.kind = .ending) : moveAt p c = .stop := by
  simp [moveAt, argumentMove, Token.startsOperand, h]

/-- The end of a group is looked for at the cursor, or after a comma or a separator there. -/
lemma pastComma_cases (c : Cursor) :
    pastComma c = c ∨ pastComma c = c.advance ∧ (c.here.isSymbol "," ∨ c.here.kind = .separator) := by
  unfold pastComma
  split
  · next h => exact .inr ⟨rfl, by simpa using h⟩
  · exact .inl rfl

/-- Where statements end there is no comma to move over. -/
lemma pastComma_of_stop {c : Cursor} (h : c.here.kind = .closing ∨ c.here.kind = .ending) :
    pastComma c = c := by
  rcases h with h | h <;> simp [pastComma, Token.isSymbol, h]

/-- The comma or separator that may end a group is moved over within the list. -/
lemma pastComma_progress {c : Cursor} (ends : c.Ends) :
    (pastComma c).Ends ∧ (pastComma c).after.length ≤ c.after.length := by
  rcases pastComma_cases c with heq | ⟨heq, -⟩ <;> rw [heq]
  · exact ⟨ends, le_rfl⟩
  · exact ⟨ends.advance, c.length_advance_le⟩

/-- A reading never leaves the list, and one of an operand takes at least a token. -/
lemma Reads.progress {task c e d} (h : Reads task c e d) (ends : c.Ends) :
    d.Ends ∧ d.after.length + task.gain ≤ c.after.length := by
  induction h with
  | done _ => exact ⟨ends, le_rfl⟩
  | last _ _ _ ih =>
    obtain ⟨ends', hlen⟩ := ih ends
    exact ⟨ends', by simp only [Task.gain] at *; omega⟩
  | @more _ _ _ d _ _ _ _ _ _ ih ih' =>
    obtain ⟨ends', hlen⟩ := ih ends
    obtain ⟨ends'', hlen'⟩ := ih' ends'.advance
    have := d.length_advance_le
    exact ⟨ends'', by simp only [Task.gain] at *; omega⟩
  | expr _ _ ih ih' =>
    obtain ⟨ends', hlen⟩ := ih ends
    obtain ⟨ends'', hlen'⟩ := ih' ends'
    exact ⟨ends'', by simp only [Task.gain] at *; omega⟩
  | @define _ c _ _ _ _ _ _ ih =>
    obtain ⟨ends', hlen⟩ := ih ends.advance.advance
    have := c.length_advance_le
    have := c.advance.length_advance_le
    exact ⟨ends', by simp only [Task.gain] at *; omega⟩
  | @lambda _ c params _ _ _ _ _ _ _ ih =>
    obtain ⟨ends', hlen⟩ := ih (ends.skip _).advance
    have := c.length_skip_le (Parameter.listWidth params)
    have := (c.skip (Parameter.listWidth params)).length_advance_le
    exact ⟨ends', by simp only [Task.gain] at *; omega⟩
  | primary _ _ _ ih => exact ih ends
  | atom ha =>
    have := ends.length_advance (kind_ne_ending_of_atom? ha)
    exact ⟨ends.advance, by simp only [Task.gain]; omega⟩
  | @thunk c _ _ _ _ _ ih | @leading c _ _ _ _ _ _ _ _ _ ih =>
    obtain ⟨ends', hlen⟩ := ih ends.advance
    have := c.length_advance_le
    exact ⟨ends', by simp only [Task.gain] at *; omega⟩
  | @bars c _ d hc _ _ _ _ ih | @group c _ d hc _ _ _ _ _ ih =>
    obtain ⟨ends', hlen⟩ := ih ends.advance
    have := ends.length_advance (by simp [hc])
    have := d.length_advance_le
    exact ⟨ends'.advance, by simp only [Task.gain] at *; omega⟩
  | @emptyGroup c hc _ _ =>
    have := ends.length_advance (by simp [hc])
    have := c.advance.length_advance_le
    exact ⟨ends.advance.advance, by simp only [Task.gain]; omega⟩
  | @bareSymbol c hc _ _ _ =>
    have := ends.length_advance (by simp [hc])
    have := c.advance.length_advance_le
    have := c.advance.advance.length_advance_le
    exact ⟨ends.advance.advance.advance, by simp only [Task.gain]; omega⟩
  | @preset c _ d hc _ _ _ _ _ ih =>
    obtain ⟨ends', hlen⟩ := ih ends.advance.advance
    obtain ⟨ends'', hlen'⟩ := pastComma_progress ends'
    have := c.length_advance_le
    have := c.advance.length_advance_le
    have := (pastComma d).length_advance_le
    exact ⟨ends''.advance, by simp only [Task.gain] at *; omega⟩
  | stop _ => exact ⟨ends, le_rfl⟩
  | @trail _ _ c _ _ _ _ ih =>
    obtain ⟨ends', hlen⟩ := ih ends.advance
    have := c.length_advance_le
    exact ⟨ends', by simp only [Task.gain] at *; omega⟩
  | @join _ _ _ _ c _ _ _ _ _ _ _ _ _ ih ih' =>
    obtain ⟨ends', hlen⟩ := ih ends.advance
    obtain ⟨ends'', hlen'⟩ := ih' ends'
    have := c.length_advance_le
    exact ⟨ends'', by simp only [Task.gain] at *; omega⟩
  | argue _ _ _ ih ih' =>
    obtain ⟨ends', hlen⟩ := ih ends
    obtain ⟨ends'', hlen'⟩ := ih' ends'
    exact ⟨ends'', by simp only [Task.gain] at *; omega⟩

/-- A reading only moves on. -/
lemma Reads.reaches {task c e d} (h : Reads task c e d) : c.Reaches d := by
  induction h with
  | done _ | stop _ => exact .refl _
  | last _ _ _ ih | primary _ _ _ ih => exact ih
  | more _ _ _ _ ih ih' => exact (ih.trans (.advance _)).trans ih'
  | expr _ _ ih ih' => exact ih.trans ih'
  | define _ _ _ _ ih => exact ((Cursor.Reaches.advance _).trans (.advance _)).trans ih
  | lambda _ _ _ _ _ ih => exact (Cursor.Reaches.trans ⟨_, rfl⟩ (.advance _)).trans ih
  | atom _ => exact .advance _
  | thunk _ _ _ ih | leading _ _ _ _ _ _ ih | trail _ _ ih => exact (Cursor.Reaches.advance _).trans ih
  | bars _ _ _ _ _ ih | group _ _ _ _ _ _ ih =>
    exact ((Cursor.Reaches.advance _).trans ih).trans (.advance _)
  | emptyGroup _ _ _ => exact (Cursor.Reaches.advance _).trans (.advance _)
  | bareSymbol _ _ _ _ =>
    exact ((Cursor.Reaches.advance _).trans (.advance _)).trans (.advance _)
  | @preset _ _ d _ _ _ _ _ _ ih =>
    have comma : d.Reaches (pastComma d) := by
      rcases pastComma_cases d with heq | ⟨heq, -⟩ <;> rw [heq]
      · exact .refl _
      · exact .advance _
    exact ((((Cursor.Reaches.advance _).trans (.advance _)).trans ih).trans comma).trans (.advance _)
  | join _ _ _ _ _ ih ih' => exact ((Cursor.Reaches.advance _).trans ih).trans ih'
  | argue _ _ _ ih ih' => exact ih.trans ih'

/-! ## Every reading is found -/

/-- The parser, with at most `depth` expressions nested in one another, finds `e` when it is busy
with a task at `c`, and stops at `d`. -/
def Task.Finds (depth : Nat) (c : Cursor) (e : Expr) (d : Cursor) : Task → Prop
  | .statements es =>
    ∀ turns : List Token, c.after.length ≤ turns.length →
      ∃ fs, e = sequenced (es ++ fs) ∧ parseStatements (parseExpr depth) turns c = .ok (fs, d)
  | .expr p => parseExpr depth p c = .ok (e, d)
  | .operand p => parseOperand (parseExpr depth) p c = .ok (e, d)
  | .primary => parsePrimary (parseExpr depth) c = .ok (e, d)
  | .climb p left =>
    ∀ turns : List Token, c.after.length ≤ turns.length →
      Parser.climb (parseExpr depth) p turns left c = .ok (e, d)

/-- A list at least as long as one that is not empty has a first element. -/
lemma exists_cons_of_lt_length {α : Type} {n : Nat} {l : List α} (h : n < l.length) :
    ∃ a l', l = a :: l' ∧ n ≤ l'.length := by
  cases l with
  | nil => simp at h
  | cons a l' => exact ⟨a, l', rfl, by simpa [Nat.lt_succ_iff] using h⟩

/-- An operator with its right operand joins what the relation says it does. -/
lemma parseJoin_eq_ok {parse : Reader} {op left left' c e d}
    (hstart : c.advance.here.startsOperand)
    (hright : parse (Operator.rightPower op) c.advance = .ok (e, d))
    (hleft : Left.join? left c.here.lexeme e = some left') :
    parseJoin parse op left c = .ok (left', d) := by
  have hparse {operator : Cursor} :
      parseRight parse operator op.rightPower c.advance = .ok (e, d) :=
    parseRight_eq_ok.2 ⟨hstart, hright⟩
  unfold parseJoin
  obtain ⟨hcomma, rfl⟩ | ⟨hq, params, hparams, rfl⟩ | ⟨hcomma, hq, rfl⟩ := Left.join?_cases hleft
  · rw [if_pos hcomma, hparse]
    rfl
  · rw [if_neg (by simp [hq]), if_pos hq, hparams, hparse]
    rfl
  · rw [if_neg hcomma, if_neg hq, hparse]
    rfl

/-- Every reading is found as soon as deep enough a nesting is admitted. -/
theorem Reads.parses {task c e d} (h : Reads task c e d) (ends : c.Ends) :
    ∃ depth₀, ∀ depth, depth₀ ≤ depth → task.Finds depth c e d := by
  induction h with
  | done hc =>
    refine ⟨0, fun depth _ turns _ => ⟨[], by simp, ?_⟩⟩
    unfold parseStatements
    rw [if_pos (by simpa using hc)]
  | last hc he hsep ih =>
    obtain ⟨n, ih⟩ := ih ends
    refine ⟨n, fun depth hd turns _ => ⟨[_], rfl, ?_⟩⟩
    unfold parseStatements
    rw [if_neg (by simpa using hc), show parseExpr depth 0 _ = _ from ih depth hd]
    exact if_neg hsep
  | @more es c e d f d' hc he hsep hrest ih ih' =>
    obtain ⟨ends', hlen⟩ := he.progress ends
    obtain ⟨n, ih⟩ := ih ends
    obtain ⟨n', ih'⟩ := ih' ends'.advance
    refine ⟨max n n', fun depth hd turns hturns => ?_⟩
    have := d.length_advance_le
    obtain ⟨t, turns, rfl, hmore⟩ := exists_cons_of_lt_length
      (show d.advance.after.length < turns.length by simp only [Task.gain] at hlen; omega)
    obtain ⟨fs, hf, hfs⟩ := ih' depth (le_of_max_le_right hd) turns hmore
    refine ⟨e :: fs, by simpa using hf, ?_⟩
    unfold parseStatements
    rw [if_neg (by simpa using hc),
      show parseExpr depth 0 _ = _ from ih depth (le_of_max_le_left hd)]
    refine (if_pos hsep).trans ?_
    dsimp only
    rw [hfs]
    rfl
  | @expr p c e d f d' hoperand _ ih ih' =>
    obtain ⟨ends', -⟩ := hoperand.progress ends
    obtain ⟨n, ih⟩ := ih ends
    obtain ⟨n', ih'⟩ := ih' ends'
    refine ⟨max n n' + 1, fun depth hd => ?_⟩
    obtain ⟨depth, rfl⟩ : ∃ k, depth = k + 1 := ⟨depth - 1, by omega⟩
    simp only [Task.Finds, parseExpr] at ih ih' ⊢
    rw [ih depth (by omega)]
    exact ih' depth (by omega) _ le_rfl
  | define hp hdef hstart _ ih =>
    obtain ⟨n, ih⟩ := ih ends.advance.advance
    refine ⟨n, fun depth hd => ?_⟩
    simp only [Task.Finds, parseOperand, parseDefine] at ih ⊢
    rw [if_pos (by simp [hp, hdef]), parseRight_eq_ok.2 ⟨hstart, ih depth hd⟩]
    rfl
  | lambda hdef hp hhead hstart _ ih =>
    obtain ⟨n, ih⟩ := ih (ends.skip _).advance
    refine ⟨n, fun depth hd => ?_⟩
    simp only [Task.Finds, parseOperand, parseLambda] at ih ⊢
    rw [if_neg (by simpa using hdef), if_pos hp, hhead]
    dsimp only
    rw [parseRight_eq_ok.2 ⟨hstart, ih depth hd⟩]
    rfl
  | @primary p c _ _ hdef hlam _ ih =>
    obtain ⟨n, ih⟩ := ih ends
    refine ⟨n, fun depth hd => ?_⟩
    have hnone : (if p ≤ Power.lambda then c.lambdaHead? else none) = none := by
      split
      · next hp => simpa [hp] using hlam
      · rfl
    simp only [Task.Finds, parseOperand] at ih ⊢
    rw [if_neg (by simpa using hdef), hnone]
    exact ih depth hd
  | @atom c e ha =>
    refine ⟨0, fun depth _ => ?_⟩
    unfold atom? at ha
    simp only [Task.Finds, parsePrimary]
    split at ha <;> cases ha
    all_goals simp_all
  | @thunk c e d hq hstart _ ih =>
    obtain ⟨n, ih⟩ := ih ends.advance
    refine ⟨n, fun depth hd => ?_⟩
    obtain ⟨hk, hlexeme⟩ := Token.isSymbol_iff.1 hq
    simp only [Task.Finds, parsePrimary, hk, hlexeme, if_true, parseLambda] at ih ⊢
    rw [show c.skip (Parameter.listWidth []) = c from rfl,
      parseRight_eq_ok.2 ⟨hstart, ih depth hd⟩]
    rfl
  | @leading c op e d hk hq hbar hop hstart _ ih =>
    obtain ⟨n, ih⟩ := ih ends.advance
    refine ⟨n, fun depth hd => ?_⟩
    simp only [Task.Finds, parsePrimary, hk] at ih ⊢
    rw [if_neg hq, if_neg hbar, hop]
    dsimp only
    rw [parseRight_eq_ok.2 ⟨hstart, ih depth hd⟩]
    rfl
  | @bars c e d hc hbar hne _ hclosing ih =>
    obtain ⟨n, ih⟩ := ih ends.advance
    refine ⟨n, fun depth hd => ?_⟩
    obtain ⟨fs, rfl, hfs⟩ := ih depth hd _ le_rfl
    simp only [Task.Finds, parsePrimary, hc, parseGroup, parseSequence]
    rw [if_pos hbar, if_neg hne, hfs]
    exact (closed_eq_ok (.unary Operator.bar true)).2 ⟨_, d, rfl, hclosing, rfl, rfl⟩
  | emptyGroup hc hbar hclosing =>
    refine ⟨0, fun depth _ => ?_⟩
    simp only [Task.Finds, parsePrimary, hc, parseGroup]
    rw [if_neg hbar, if_pos hclosing]
  | @bareSymbol c hc hbar hfree hclosing =>
    refine ⟨0, fun depth _ => ?_⟩
    have hne : c.advance.here.kind ≠ .closing := by
      intro h
      simp [Cursor.headsPointFree, h] at hfree
    simp only [Task.Finds, parsePrimary, hc, parseGroup, parsePointFree]
    rw [if_neg hbar, if_neg hne, if_pos hfree, if_pos hclosing]
    exact (closed_eq_ok fun e => e).2 ⟨_, c.advance.advance, rfl, hclosing, rfl, rfl⟩
  | @preset c e d hc hbar hfree hstart _ hclosing ih =>
    obtain ⟨n, ih⟩ := ih ends.advance.advance
    refine ⟨n, fun depth hd => ?_⟩
    have hne : c.advance.here.kind ≠ .closing := by
      intro h
      simp [Cursor.headsPointFree, h] at hfree
    have hne' : c.advance.advance.here.kind ≠ .closing := by
      intro h
      simp [Token.startsOperand, h] at hstart
    simp only [Task.Finds, parsePrimary, hc, parseGroup, parsePointFree] at ih ⊢
    rw [if_neg hbar, if_neg hne, if_pos hfree, if_neg hne',
      parseRight_eq_ok.2 ⟨hstart, ih depth hd⟩]
    exact (closed_eq_ok fun e => e).2 ⟨_, pastComma d, rfl, hclosing, rfl, rfl⟩
  | @group c e d hc hbar hne hfree _ hclosing ih =>
    obtain ⟨n, ih⟩ := ih ends.advance
    refine ⟨n, fun depth hd => ?_⟩
    obtain ⟨fs, rfl, hfs⟩ := ih depth hd _ le_rfl
    simp only [Task.Finds, parsePrimary, hc, parseGroup, parseSequence]
    rw [if_neg hbar, if_neg hne, if_neg hfree, hfs]
    exact (closed_eq_ok fun e => e).2 ⟨_, d, rfl, hclosing, rfl, rfl⟩
  | stop hm =>
    refine ⟨0, fun depth _ turns _ => ?_⟩
    unfold Parser.climb
    rw [hm]
  | @trail p left c e d hm _ ih =>
    obtain ⟨n, ih⟩ := ih ends.advance
    refine ⟨n, fun depth hd turns hturns => ?_⟩
    have := ends.length_advance (fun h => by simp [moveAt_ending h] at hm)
    obtain ⟨t, turns, rfl, hmore⟩ := exists_cons_of_lt_length
      (show c.advance.after.length < turns.length by omega)
    unfold Parser.climb
    rw [hm]
    exact ih depth hd turns hmore
  | @join p op left left' c e d f d' hm hstart he hleft _ ih ih' =>
    obtain ⟨ends', hlen⟩ := he.progress ends.advance
    obtain ⟨n, ih⟩ := ih ends.advance
    obtain ⟨n', ih'⟩ := ih' ends'
    refine ⟨max n n', fun depth hd turns hturns => ?_⟩
    have := c.length_advance_le
    obtain ⟨t, turns, rfl, hmore⟩ := exists_cons_of_lt_length
      (show d.after.length < turns.length by simp only [Task.gain] at hlen; omega)
    unfold Parser.climb
    rw [hm]
    dsimp only
    rw [parseJoin_eq_ok hstart (ih depth (le_of_max_le_left hd)) hleft]
    exact ih' depth (le_of_max_le_right hd) turns hmore
  | @argue p left c e d f d' hm he _ ih ih' =>
    obtain ⟨ends', hlen⟩ := he.progress ends
    obtain ⟨n, ih⟩ := ih ends
    obtain ⟨n', ih'⟩ := ih' ends'
    refine ⟨max n n', fun depth hd turns hturns => ?_⟩
    obtain ⟨t, turns, rfl, hmore⟩ := exists_cons_of_lt_length
      (show d.after.length < turns.length by simp only [Task.gain] at hlen; omega)
    unfold Parser.climb
    rw [hm]
    dsimp only
    rw [show parseExpr depth _ _ = _ from ih depth (le_of_max_le_left hd)]
    exact ih' depth (le_of_max_le_right hd) turns hmore

end SignLang.Parser

namespace SignLang

open SignLang.Parser

/-- A list of tokens writes `e`: its brackets match, and it is read to its end as `e`. -/
def Spells (tokens : List Token) (e : Expr) : Prop :=
  bracketFault? (Cursor.ofTokens tokens).tokens = none ∧
    ∃ d, Reads (.statements []) (Cursor.ofTokens tokens) e d ∧ d.here.kind = .ending

/-- The parser accepts what is spelled. -/
lemma Spells.of_buildWithin {depth : Nat} {tokens : List Token} {e : Expr}
    (h : buildWithin depth tokens = .ok e) : Spells tokens e := by
  unfold buildWithin parseAll at h
  generalize hc : Cursor.ofTokens tokens = c at h
  cases hb : bracketFault? c.tokens with
  | some found => simp [checkBrackets, hb, blame, bind, Except.bind, Except.map] at h
  | none =>
    rw [show checkBrackets c = .ok () by simp [checkBrackets, hb]] at h
    cases hs : parseSequence (parseExpr depth) c with
    | error failure =>
      rw [hs] at h
      cases h
    | ok r =>
      obtain ⟨e', d⟩ := r
      rw [hs] at h
      change Except.map _ (if d.here.kind = .ending then _ else _) = _ at h
      split at h
      · next hd =>
        cases h
        refine ⟨hc ▸ hb, d, ?_, hd⟩
        rw [hc]
        exact Sound.sequence (Reads.of_parseExpr depth) hs
      · cases h

/-- What is spelled is accepted, if deep enough a nesting is admitted. -/
lemma Spells.buildWithin {tokens : List Token} {e : Expr} (h : Spells tokens e) :
    ∃ depth₀, ∀ depth, depth₀ ≤ depth → buildWithin depth tokens = .ok e := by
  obtain ⟨hb, d, hread, hd⟩ := h
  obtain ⟨depth₀, hfinds⟩ := hread.parses (Cursor.ofTokens_ends tokens)
  refine ⟨depth₀, fun depth hdepth => ?_⟩
  obtain ⟨fs, rfl, hfs⟩ := hfinds depth hdepth _ le_rfl
  unfold SignLang.buildWithin parseAll parseSequence
  rw [show checkBrackets _ = .ok () by simp [checkBrackets, hb], hfs]
  change Except.map _ (if d.here.kind = .ending then _ else _) = _
  rw [if_pos hd]
  rfl

end SignLang
