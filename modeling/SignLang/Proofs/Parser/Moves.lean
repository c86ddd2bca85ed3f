import SignLang.Proofs.Parser.Reads

/-!
# What follows an operand

After an operand the parser looks at the next token and its power (`moveAt`), and before one it looks
ahead for the head of a function (`Cursor.lambdaHead?`). Both are decided here by the tokens ahead:
a higher power stops wherever a lower one does (`moveAt_mono`), and there is no head of a function
where names and a rest parameter do not lead to a question mark (`continuesHead`).
-/

namespace SignLang

/-- No operand and no operator follows where the token stands. -/
def Token.isEnd (t : Token) : Bool :=
  t.kind = .closing || t.kind = .separator || t.kind = .ending

namespace Token

variable {t : Token}

lemma isEnd_iff : t.isEnd ↔ t.kind = .closing ∨ t.kind = .separator ∨ t.kind = .ending := by
  simp [isEnd, or_assoc]

/-- Where statements end, an expression does. -/
lemma isEnd_of_stop (h : t.kind = .closing ∨ t.kind = .ending) : t.isEnd :=
  isEnd_iff.2 (h.imp_right .inr)

/-- The end of an expression is neither a name nor an operator. -/
lemma kind_of_isEnd (h : t.isEnd) : t.kind ≠ .identifier ∧ t.kind ≠ .operator := by
  rcases isEnd_iff.1 h with h | h | h <;> simp [h]

/-- No operand starts at the end of an expression. -/
lemma startsOperand_of_isEnd (h : t.isEnd) : t.startsOperand = false := by
  rcases isEnd_iff.1 h with h | h | h <;> simp [startsOperand, h]

end Token

namespace Parser

/-! ## Powers -/

/-- A block operator stands before no operand. -/
lemma not_block_of_leading? {s : String} {op : Operator} (h : Operator.leading? s = some op) :
    s ∉ Operator.blockSymbols := by
  intro hmem
  have hall : ∀ s ∈ Operator.blockSymbols, Operator.leading? s = none := by decide
  rw [hall s hmem] at h
  cases h

/-- The operators after an operand have one power. -/
lemma power_of_trailing? {s : String} {op : Operator} (h : Operator.trailing? s = some op) :
    op.power = Power.trailing ∧ (s = "!" ∨ s = "~") := by
  have hall : ∀ op ∈ Operator.trailingTable,
      op.power = Power.trailing ∧ (op.symbol = "!" ∨ op.symbol = "~") := by
    decide
  have hsymbol : op.symbol = s := by simpa using List.find?_some h
  rw [← hsymbol]
  exact hall op (List.mem_of_find?_eq_some h)

/-- No operator between two operands binds tighter than a member access. -/
lemma power_of_binary?_le {s : String} {op : Operator} (h : Operator.binary? s = some op) :
    op.power ≤ Power.get := by
  have hall : ∀ op ∈ Operator.binaryTable, op.power ≤ Power.get := by decide
  exact hall op (List.mem_of_find?_eq_some h)

/-- Other operators do not stand after their operand. -/
lemma trails_eq_false {p : Nat} {c : Cursor} (h : c.here.lexeme ≠ "!" ∧ c.here.lexeme ≠ "~") :
    trails p c = false := by
  unfold trails
  cases ht : Operator.trailing? c.here.lexeme with
  | none => rfl
  | some op => exact absurd (power_of_trailing? ht).2 (by simp [h])

/-- Only two operators stand after their operand. -/
lemma lexeme_of_trails {p : Nat} {c : Cursor} (h : trails p c) : c.here.lexeme = "!" ∨ c.here.lexeme = "~" := by
  by_contra hne
  rw [not_or] at hne
  rw [trails_eq_false hne] at h
  cases h

/-- What does not stand after its operand at one power does not do so at a higher one. -/
lemma trails_mono {p q : Nat} {c : Cursor} (hpq : p ≤ q) (h : trails p c = false) :
    trails q c = false := by
  unfold trails at h ⊢
  cases ht : Operator.trailing? c.here.lexeme with
  | none => rfl
  | some op =>
    rw [ht] at h
    by_contra hq
    simp only [Option.any_some, Bool.not_eq_false, Bool.and_eq_true, decide_eq_true_eq] at hq
    simp [hq.2, hpq.trans hq.1] at h

/-- An argument that one power does not admit is admitted by no higher one. -/
lemma argumentMove_mono {p q : Nat} {t : Token} (hpq : p ≤ q) (h : argumentMove p t = .stop) :
    argumentMove q t = .stop := by
  unfold argumentMove at h ⊢
  split
  · next hq =>
    simp only [Bool.and_eq_true, decide_eq_true_eq] at hq
    rw [if_pos (by simp [hq.2, hpq.trans hq.1])] at h
    cases h
  · rfl

/-- Where nothing binds at some power, nothing binds at a higher one. -/
lemma moveAt_mono {p q : Nat} {c : Cursor} (hpq : p ≤ q) (h : moveAt p c = .stop) :
    moveAt q c = .stop := by
  unfold moveAt at h ⊢
  by_cases hk : c.here.kind = .operator
  · rw [if_pos hk] at h ⊢
    cases ht : trails p c with
    | true =>
      rw [ht] at h
      cases h
    | false =>
      rw [ht] at h
      rw [trails_mono hpq ht]
      simp only [Bool.false_eq_true, if_false] at h ⊢
      cases hb : Operator.binary? c.here.lexeme with
      | none =>
        rw [hb] at h
        exact argumentMove_mono hpq h
      | some op =>
        rw [hb] at h
        dsimp only at h ⊢
        split at h
        · next hlt => rw [if_pos (hlt.trans_le hpq)]
        · cases h
  · rw [if_neg hk] at h ⊢
    exact argumentMove_mono hpq h

/-- Nothing binds tighter than a member access. -/
lemma moveAt_above {p : Nat} (hp : Power.get < p) (c : Cursor) : moveAt p c = .stop := by
  have harg (t : Token) : argumentMove p t = .stop := by
    have : ¬p ≤ Power.apply := by simp only [Power.get, Power.apply] at hp ⊢; omega
    simp [argumentMove, this]
  have htrails : trails p c = false := by
    unfold trails
    cases ht : Operator.trailing? c.here.lexeme with
    | none => rfl
    | some op =>
      have : ¬p ≤ op.power := by
        rw [(power_of_trailing? ht).1]
        simp only [Power.get, Power.trailing] at hp ⊢
        omega
      simp [this]
  unfold moveAt
  rw [htrails]
  simp only [Bool.false_eq_true, if_false]
  split
  · cases hb : Operator.binary? c.here.lexeme with
    | none => exact harg _
    | some op => exact if_pos ((power_of_binary?_le hb).trans_lt hp)
  · exact harg _

/-- Nothing binds at the end of an expression. -/
lemma moveAt_of_isEnd {c : Cursor} (h : c.here.isEnd) (p : Nat) : moveAt p c = .stop := by
  simp [moveAt, argumentMove, (Token.kind_of_isEnd h).2, Token.startsOperand_of_isEnd h]

/-- An operator between two operands joins them if it binds tightly enough. -/
lemma moveAt_binary {p : Nat} {c : Cursor} {op : Operator} (hk : c.here.kind = .operator)
    (hop : Operator.binary? c.here.lexeme = some op) (htrails : trails p c = false) :
    moveAt p c = if op.power < p then .stop else .join op := by
  unfold moveAt
  rw [if_pos hk, htrails, if_neg Bool.false_ne_true, hop]

/-- An operator that joins two operands stands between two operands. -/
lemma binary?_of_join {p : Nat} {c : Cursor} {op : Operator} (h : moveAt p c = .join op) :
    Operator.binary? c.here.lexeme = some op := by
  unfold moveAt at h
  have hargument (t : Token) : argumentMove p t ≠ .join op := by
    unfold argumentMove
    split <;> nofun
  split at h
  · split at h
    · cases h
    · split at h
      · next hop =>
        split at h
        · cases h
        · cases h
          exact hop
      · exact absurd h (hargument _)
  · exact absurd h (hargument _)

/-- An operator after an operand trails it. -/
lemma trails_of_trail {p : Nat} {c : Cursor} (h : moveAt p c = .trail) : trails p c := by
  unfold moveAt at h
  have hargument (t : Token) : argumentMove p t ≠ .trail := by
    unfold argumentMove
    split <;> nofun
  split at h
  · split at h
    · next htrails => exact htrails
    · split at h
      · split at h <;> cases h
      · exact absurd h (hargument _)
  · exact absurd h (hargument _)

/-- An operator that stands after no operand joins two at its power and below. -/
lemma moveAt_symbol {c : Cursor} (op : Operator) (hop : Operator.binary? op.symbol = some op)
    (hne : op.symbol ≠ "!" ∧ op.symbol ≠ "~") (h : c.here.isSymbol op.symbol) (p : Nat) :
    moveAt p c = if op.power < p then .stop else .join op := by
  have hlexeme := lexeme_of_isSymbol h
  exact moveAt_binary (kind_of_isSymbol h) (by rwa [hlexeme]) (trails_eq_false (by rwa [hlexeme]))

/-- The entry of the comma. -/
def comma : Operator :=
  ⟨",", .binary, "product", Power.product, .left⟩

/-- The entry of the colon. -/
def colon : Operator :=
  ⟨":", .binary, "define", Power.define, .right⟩

/-- The entry of the question mark. -/
def question : Operator :=
  ⟨"?", .binary, "lambda", Power.lambda, .right⟩

/-- A comma joins at its power. -/
lemma moveAt_comma {c : Cursor} (h : c.here.isSymbol ",") (p : Nat) :
    moveAt p c = if Power.product < p then .stop else .join comma :=
  moveAt_symbol comma (by decide) (by decide) h p

/-- A colon joins at its power. -/
lemma moveAt_colon {c : Cursor} (h : c.here.isSymbol ":") (p : Nat) :
    moveAt p c = if Power.define < p then .stop else .join colon :=
  moveAt_symbol colon (by decide) (by decide) h p

/-- A question mark joins at its power. -/
lemma moveAt_question {c : Cursor} (h : c.here.isSymbol "?") (p : Nat) :
    moveAt p c = if Power.lambda < p then .stop else .join question :=
  moveAt_symbol question (by decide) (by decide) h p

/-- An operand starts at the cursor, with no operator that would stand after the one before. -/
def StartsArgument (c : Cursor) : Prop :=
  c.here.startsOperand ∧
    (c.here.kind = .operator → Operator.binary? c.here.lexeme = none ∧ ∀ p, trails p c = false)

/-- An operand after another is its argument, if the power admits one. -/
lemma moveAt_argument {c : Cursor} (h : StartsArgument c) (p : Nat) :
    moveAt p c = if p ≤ Power.apply then .argue else .stop := by
  obtain ⟨hstart, hop⟩ := h
  have hargument : argumentMove p c.here = if p ≤ Power.apply then .argue else .stop := by
    simp [argumentMove, hstart]
  unfold moveAt
  split
  · next hk =>
    obtain ⟨hbinary, htrails⟩ := hop hk
    simp [htrails, hbinary, hargument]
  · exact hargument

/-- An argument starts with no colon. -/
lemma StartsArgument.isSymbol_colon {c : Cursor} (h : StartsArgument c) :
    c.here.isSymbol ":" = false := by
  by_contra hcolon
  simp only [Token.isSymbol, Bool.not_eq_false, Bool.and_eq_true, decide_eq_true_eq] at hcolon
  have hnone := (h.2 hcolon.1).1
  rw [hcolon.2] at hnone
  exact absurd hnone (by decide)

/-- Where nothing binds at the power of a definition, no colon stands. -/
lemma isSymbol_colon_of_stop {p : Nat} {c : Cursor} (hp : p ≤ Power.define)
    (h : moveAt p c = .stop) : c.here.isSymbol ":" = false := by
  by_contra hcolon
  rw [Bool.not_eq_false] at hcolon
  rw [moveAt_colon hcolon, if_neg (Nat.not_lt.2 hp)] at h
  cases h

/-! ## Heads of functions -/

/-- The tokens go on to a question mark as the parameters of a function do: with names, and perhaps a
rest parameter after them. -/
def continuesHead : List Token → Bool
  | [] => false
  | t :: rest =>
    if t.kind = .identifier then continuesHead rest
    else t.isSymbol "?" || t.isSymbol "~" &&
      (rest.head?.any (·.kind = .identifier) && rest.tail.head?.any (·.isSymbol "?"))

/-- A name does not tell whether a head goes on. -/
lemma continuesHead_name {t : Token} (h : t.kind = .identifier) (rest : List Token) :
    continuesHead (t :: rest) = continuesHead rest := by
  rw [continuesHead, if_pos h]

/-- A token that is neither a name, nor a tilde, nor a question mark ends the parameters. -/
lemma continuesHead_other {t : Token} (h : t.kind ≠ .identifier) (hq : t.isSymbol "?" = false)
    (ht : t.isSymbol "~" = false) (rest : List Token) : continuesHead (t :: rest) = false := by
  rw [continuesHead, if_neg h, hq, ht]
  rfl

/-- A token that is neither a name nor an operator ends the parameters. -/
lemma continuesHead_of_kind {t : Token} (h : t.kind ≠ .identifier) (hop : t.kind ≠ .operator)
    (rest : List Token) : continuesHead (t :: rest) = false :=
  continuesHead_other h (Token.isSymbol_of_kind hop _) (Token.isSymbol_of_kind hop _) rest

/-- So does any other token that is not a name, by what it is written as. -/
lemma continuesHead_of_lexeme {t : Token} (h : t.kind ≠ .identifier) (hq : t.lexeme ≠ "?")
    (ht : t.lexeme ≠ "~") (rest : List Token) : continuesHead (t :: rest) = false :=
  continuesHead_other h (Token.isSymbol_of_lexeme hq) (Token.isSymbol_of_lexeme ht) rest

/-- A token that is not a name is taken as a parameter only if it is the tilde of a rest parameter. -/
lemma continuesHead_of_skip {c : Cursor} (hk : c.here.kind ≠ .identifier)
    (hq : (c.skip (Parameter.listWidth (Parameter.listOf c.ahead))).here.isSymbol "?") :
    continuesHead c.ahead := by
  rw [Cursor.ahead, Parameter.listOf_other hk, ← Cursor.ahead] at hq
  rw [Cursor.ahead, continuesHead, if_neg hk]
  cases hafter : c.after with
  | nil =>
    rw [Cursor.ahead, hafter] at hq
    rw [show c.here.isSymbol "?" from hq]
    rfl
  | cons t rest =>
    rw [Cursor.ahead, hafter, Parameter.restOf] at hq
    split at hq
    · next hrest =>
      simp only [Bool.and_eq_true, decide_eq_true_eq] at hrest
      cases rest with
      | nil =>
        have hq' : t.isSymbol "?" := by
          simpa [Parameter.listWidth, Parameter.width, Cursor.skip, Cursor.advance, hafter] using hq
        rw [Token.isSymbol_of_kind (by simp [hrest.2])] at hq'
        cases hq'
      | cons u rest =>
        have hq' : u.isSymbol "?" := by
          simpa [Parameter.listWidth, Parameter.width, Cursor.skip, Cursor.advance, hafter] using hq
        simp [hrest.1, hrest.2, hq']
    · rw [show c.here.isSymbol "?" from hq]
      rfl

/-- Where the parameters ahead lead to a question mark, the head of a function goes on. -/
lemma continuesHead_of_isSymbol {c : Cursor}
    (hq : (c.skip (Parameter.listWidth (Parameter.listOf c.ahead))).here.isSymbol "?") :
    continuesHead c.ahead := by
  generalize hrest : c.after = rest
  induction rest generalizing c with
  | nil =>
    by_cases hk : c.here.kind = .identifier
    · -- The cursor cannot leave the name, which is no question mark.
      have hskip (n : Nat) : c.skip n = c := by
        induction n with
        | zero => rfl
        | succ n ih => rw [Cursor.skip, show c.advance = c by simp [Cursor.advance, hrest], ih]
      rw [hskip, Token.isSymbol_of_kind (by simp [hk])] at hq
      cases hq
    · exact continuesHead_of_skip hk hq
  | cons t rest ih =>
    by_cases hk : c.here.kind = .identifier
    · have hahead : c.ahead = c.here :: c.advance.ahead := Cursor.ahead_eq_cons (by simp [hrest])
      have hwidth : Parameter.listWidth (Parameter.listOf c.ahead) =
          Parameter.listWidth (Parameter.listOf c.advance.ahead) + 1 := by
        rw [hahead, Parameter.listOf_name hk]
        simp [Parameter.listWidth, Parameter.width, Nat.add_comm]
      rw [hwidth] at hq
      rw [hahead, continuesHead_name hk]
      exact ih hq (by rw [Cursor.advance_eq hrest])
    · exact continuesHead_of_skip hk hq

/-- No function starts where names and a rest parameter lead to no question mark. -/
lemma lambdaHead?_eq_none {c : Cursor} (h : continuesHead c.ahead = false) : c.lambdaHead? = none := by
  unfold Cursor.lambdaHead?
  dsimp only
  split
  · rfl
  · split
    · next hq =>
      rw [continuesHead_of_isSymbol hq] at h
      cases h
    · rfl

/-- No function starts where a definition does. -/
lemma lambdaHead?_of_startsDefine {c : Cursor} (h : startsDefine c) : c.lambdaHead? = none := by
  obtain ⟨hk, hk', hcolon⟩ := of_startsDefine h
  have hafter : c.after ≠ [] := by
    intro hnil
    simp [Cursor.advance, hnil, hk] at hk'
  refine lambdaHead?_eq_none ?_
  rw [Cursor.ahead_eq_cons hafter, continuesHead_name hk]
  exact continuesHead_of_lexeme (by simp [hk']) (by simp [hcolon]) (by simp [hcolon]) _

/-- No function starts at a token that is neither a name nor a tilde. -/
lemma lambdaHead?_other {c : Cursor} (hk : c.here.kind ≠ .identifier)
    (htilde : c.here.isSymbol "~" = false) : c.lambdaHead? = none := by
  simp [Cursor.lambdaHead?, Parameter.listOf_eq_nil hk htilde]

/-- A bracket starts neither a definition nor a function. -/
lemma starts_of_opening {c : Cursor} (h : c.here.kind = .opening) :
    startsDefine c = false ∧ c.lambdaHead? = none :=
  ⟨by simp [startsDefine, h], lambdaHead?_other (by simp [h]) (Token.isSymbol_of_kind (by simp [h]) _)⟩

/-! ## Reading on -/

/-- From `c` on, the parser takes in `left` at the power `p` and comes to stand at `d`: whatever
`left` grows into there is what it reads at `c`. -/
def Takes (p : Nat) (c : Cursor) (left : Left) (d : Cursor) : Prop :=
  ∀ f d', Reads (.climb p left) d f d' → Reads (.expr p) c f d'

namespace Takes

variable {p : Nat} {c d : Cursor} {left : Left}

/-- An operand is taken in first. -/
lemma operand {e : Expr} (h : Reads (.operand p) c e d) : Takes p c (.single e) d :=
  fun _ _ hclimb => .expr h hclimb

/-- An operand that is known by its first token is taken in where no definition and no function
starts. -/
lemma primary {e : Expr} (h : Reads .primary c e d)
    (hdefine : p ≤ Power.define → startsDefine c = false)
    (hlambda : p ≤ Power.lambda → c.lambdaHead? = none) : Takes p c (.single e) d := by
  refine .operand (.primary ?_ ?_ h)
  · rintro ⟨hp, hstarts⟩
    rw [hdefine hp] at hstarts
    cases hstarts
  · rintro ⟨hp, hsome⟩
    rw [hlambda hp] at hsome
    cases hsome

/-- An operator after the operand is taken in. -/
lemma trail (h : Takes p c left d) (hmove : moveAt p d = .trail) :
    Takes p c (.single (.unary d.here.lexeme false left.expr)) d.advance :=
  fun _ _ hclimb => h _ _ (.trail hmove hclimb)

/-- An operator and the operand on its right are taken in. -/
lemma join (h : Takes p c left d) {op : Operator} {left' : Left} {e : Expr} {d' : Cursor}
    (hmove : moveAt p d = .join op) (hstart : d.advance.here.startsOperand)
    (hread : Reads (.expr op.rightPower) d.advance e d')
    (hjoin : left.join? d.here.lexeme e = some left') : Takes p c left' d' :=
  fun _ _ hclimb => h _ _ (.join hmove hstart hread hjoin hclimb)

/-- An argument is taken in. -/
lemma argue (h : Takes p c left d) {e : Expr} {d' : Cursor} (hmove : moveAt p d = .argue)
    (hread : Reads (.expr (Power.apply + 1)) d e d') : Takes p c (left.argument e) d' :=
  fun _ _ hclimb => h _ _ (.argue hmove hread hclimb)

/-- What is taken in is read where nothing binds at the power. -/
lemma stop (h : Takes p c left d) (hmove : moveAt p d = .stop) : Reads (.expr p) c left.expr d :=
  h _ _ (.stop hmove)

end Takes

/-- The elements that are on the left. -/
def Left.elements : Left → List Expr
  | .listed es => es
  | left => [left.expr]

/-- One more element comes after those on the left. -/
lemma Left.element_eq (left : Left) (e : Expr) : left.element e = .listed (left.elements ++ [e]) := by
  cases left <;> rfl

end Parser

end SignLang
