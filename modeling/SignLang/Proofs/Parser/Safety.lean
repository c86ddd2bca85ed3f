import SignLang.Proofs.Parser.Positions

/-!
# Building is safe

The parser comes to an end on all token lists, also on those that no text is scanned to. The parser that keeps
positions comes to what the parser with cursors comes to (`Tracks`): it never looks up a token outside of the list,
and none of its loops takes more turns than there are tokens. A limit on nesting that is not below the number of
tokens is never in the way, as every expression inside of another one starts at a later token.

Main statement:

* `safe_build`: what building comes to, at whatever position and with whatever limit.
-/

namespace SignLang

open Cursor SignLang.Parser

namespace Positions

/-! ## Outcomes at cursors and at positions -/

/-- The outcome at positions is the one at cursors, all of which stand in the list. -/
inductive Tracks {α : Type} (tokens : List Token) : Except Failure (α × Cursor) → Outcome (α × Nat) → Prop where
  | ok {a d} :
    d.Within tokens tokens.length →
    Tracks tokens (.ok (a, d)) (.ok (a, d.index))
  | error {f} :
    f.culprit.tokens = tokens →
    f.stopped.tokens = tokens →
    Tracks tokens (.error f) (.error (.ofFailure f))

namespace Tracks

variable {α β : Type} {tokens : List Token} {c d : Cursor}

/-- What goes on after an outcome at positions goes on after the one at cursors. -/
lemma bind {x : Except Failure (α × Cursor)} {y : Outcome (α × Nat)} {f : α × Cursor → Except Failure (β × Cursor)}
    {g : α × Nat → Outcome (β × Nat)} (h : Tracks tokens x y)
    (hfg : ∀ a d, x = .ok (a, d) → d.Within tokens tokens.length → Tracks tokens (f (a, d)) (g (a, d.index))) :
    Tracks tokens (x >>= f) (y >>= g) := by
  cases h with
  | ok hd => exact hfg _ _ rfl hd
  | error hculprit hstopped => exact .error hculprit hstopped

/-- Both outcomes are chosen by one condition. -/
lemma ite {p : Prop} [Decidable p] {x x' : Except Failure (α × Cursor)} {y y' : Outcome (α × Nat)}
    (h : p → Tracks tokens x y) (h' : ¬p → Tracks tokens x' y') :
    Tracks tokens (if p then x else x') (if p then y else y') := by
  split
  · next hp => exact h hp
  · next hp => exact h' hp

/-- A failure that a cursor of the list is to blame for. -/
lemma blame (hc : c.tokens = tokens) (hd : d.tokens = tokens) (fault : Fault) :
    Tracks tokens (Parser.blame fault c d : Except Failure (α × Cursor)) (refuse tokens fault c.index d.index) := by
  rw [refuse_index hc]
  exact .error hc hd

/-- A failure where the parser stands. -/
lemma fail (hc : c.tokens = tokens) (fault : Fault) :
    Tracks tokens (Parser.fail fault c : Except Failure (α × Cursor)) (refuse tokens fault c.index c.index) :=
  blame hc hc fault

/-- A group whose inside has been read is closed within the list. -/
lemma expectClosing (hc : c.tokens = tokens) (hd : d.Within tokens tokens.length)
    {f : Cursor → Except Failure (α × Cursor)} {g : Nat → Outcome (α × Nat)}
    (hfg : Tracks tokens (f d.advance) (g d.advance.index)) :
    Tracks tokens (Parser.expectClosing c d >>= f) (Positions.expectClosing tokens c.index d.index >>= g) := by
  rw [Positions.expectClosing, tokenAt_index hd.tokens_eq, ok_bind, advance_index hd.tokens_eq, tokenAt_index hc,
    ok_bind, refuse_index hd.tokens_eq, Parser.expectClosing]
  split
  · exact hfg
  · exact .error hd.tokens_eq hd.tokens_eq

end Tracks

/-- The reader at positions tracks the reader at cursors, which finds readings only. -/
structure Follows (tokens : List Token) (parse : Parser.Reader) (parse' : Reader) : Prop where
  tracks : ∀ (p : Nat) (c : Cursor), c.Within tokens tokens.length → Tracks tokens (parse p c) (parse' p c.index)
  sound : Sound parse

section Readers

variable {tokens : List Token} {parse : Parser.Reader} {parse' : Reader} {c : Cursor}
  (h : Follows tokens parse parse') (hc : c.Within tokens tokens.length)
include h hc

/-- A right operand is read within the list. -/
lemma Follows.parseRight {operator : Cursor} (hop : operator.tokens = tokens) (p : Nat) :
    Tracks tokens (Parser.parseRight parse operator p c) (parseRight tokens parse' operator.index p c.index) := by
  rw [Positions.parseRight, tokenAt_index hc.tokens_eq, ok_bind, tokenAt_index hop, ok_bind]
  exact .ite (fun _ => h.tracks p c hc) fun _ => .blame hop hc.tokens_eq _

/-- Statements are read within the list, in no more turns than there are tokens ahead. -/
lemma Follows.parseStatements {turns : List Token} {turns' : Nat} (hturns : c.after.length ≤ turns.length)
    (hturns' : c.after.length < turns') :
    Tracks tokens (Parser.parseStatements parse turns c) (parseStatements tokens parse' turns' c.index) := by
  induction turns' generalizing turns c with
  | zero => exact absurd hturns' (Nat.not_lt_zero _)
  | succ turns' ih =>
    rw [Positions.parseStatements, tokenAt_index hc.tokens_eq, ok_bind]
    unfold Parser.parseStatements
    refine .ite (fun _ => .ok hc) fun _ => .bind (h.tracks 0 c hc) fun e d he hd => ?_
    have hlt : d.after.length + 1 ≤ c.after.length := ((h.sound he).progress hc.ends).2
    obtain ⟨t, turns, rfl, hle⟩ := exists_cons_of_lt_length (hlt.trans hturns)
    have hle' := d.length_advance_le
    dsimp only
    rw [tokenAt_index hd.tokens_eq, ok_bind, advance_index hd.tokens_eq, ok_bind]
    exact .ite (fun _ => .bind (ih hd.advance (by omega) (by omega)) fun _ _ _ hm => .ok hm) fun _ => .ok hd

/-- A sequence is read within the list. -/
lemma Follows.parseSequence : Tracks tokens (Parser.parseSequence parse c) (parseSequence tokens parse' c.index) :=
  .bind (h.parseStatements hc le_rfl hc.length_lt) fun _ _ _ hd => .ok hd

/-- The inside of a group without left operand is read within the list. -/
lemma Follows.parsePointFree : Tracks tokens (Parser.parsePointFree parse c) (parsePointFree tokens parse' c.index) := by
  have hinner := hc.advance
  rw [Positions.parsePointFree, tokenAt_index hc.tokens_eq, ok_bind, advance_index hc.tokens_eq, ok_bind,
    tokenAt_index hinner.tokens_eq, ok_bind]
  refine .ite (fun _ => .ok hinner) fun _ => .bind (h.parseRight hinner hc.tokens_eq _) fun e d _ hd => ?_
  dsimp only
  rw [pastComma_index hd.tokens_eq]
  refine .ok ?_
  change (Parser.pastComma d).Within _ _
  rcases Parser.pastComma_cases d with heq | ⟨heq, -⟩ <;> rw [heq]
  · exact hd
  · exact hd.advance

/-- A group is read within the list. -/
lemma Follows.parseGroup : Tracks tokens (Parser.parseGroup parse c) (parseGroup tokens parse' c.index) := by
  have hinner := hc.advance
  rw [Positions.parseGroup, tokenAt_index hc.tokens_eq, ok_bind, advance_index hc.tokens_eq, ok_bind,
    tokenAt_index hinner.tokens_eq, ok_bind]
  unfold Parser.parseGroup
  refine .ite (fun _ => .ite (fun _ => .blame hc.tokens_eq hinner.tokens_eq _) fun _ => ?_)
    fun _ => .ite (fun hclosing => ?_) fun _ => ?_
  · exact .bind (h.parseSequence hinner) fun _ _ _ hd => .expectClosing hc.tokens_eq hd (.ok hd.advance)
  · rw [Positions.expectClosing, tokenAt_index hinner.tokens_eq, ok_bind, if_pos hclosing,
      advance_index hinner.tokens_eq]
    exact .ok hinner.advance
  · rw [parseInside, headsPointFree_index hinner.tokens_eq, ok_bind]
    split
    · exact .bind (h.parsePointFree hinner) fun _ _ _ hd => .expectClosing hc.tokens_eq hd (.ok hd.advance)
    · exact .bind (h.parseSequence hinner) fun _ _ _ hd => .expectClosing hc.tokens_eq hd (.ok hd.advance)

/-- A definition is read within the list. -/
lemma Follows.parseDefine : Tracks tokens (Parser.parseDefine parse c) (parseDefine tokens parse' c.index) := by
  rw [Positions.parseDefine, tokenAt_index hc.tokens_eq, ok_bind, advance_index hc.tokens_eq, ok_bind,
    advance_index hc.advance.tokens_eq, ok_bind]
  exact .bind (h.parseRight hc.advance.advance hc.advance.tokens_eq _) fun _ _ _ hd => .ok hd

/-- A function is read within the list. -/
lemma Follows.parseLambda {params : List Parameter} (hhead : c.lambdaHead? = some params) :
    Tracks tokens (Parser.parseLambda parse params c) (parseLambda tokens parse' c.index) := by
  have hquestion := hc.skip (Parameter.listWidth params)
  rw [Positions.parseLambda, readParameters_index hc.tokens_eq hc.ends hhead, ok_bind]
  dsimp only
  rw [advance_index hquestion.tokens_eq, ok_bind]
  exact .bind (h.parseRight hquestion.advance hquestion.tokens_eq _) fun _ _ _ hd => .ok hd

/-- An operand is read by its first token within the list. -/
lemma Follows.parsePrimary : Tracks tokens (Parser.parsePrimary parse c) (parsePrimary tokens parse' c.index) := by
  rw [Positions.parsePrimary, tokenAt_index hc.tokens_eq, ok_bind, advance_index hc.tokens_eq]
  unfold Parser.parsePrimary
  cases c.here.kind with
  | identifier | number | string | character | unit => exact .ok hc.advance
  | opening => exact h.parseGroup hc
  | operator =>
    refine .ite (fun _ => ?_) fun _ => ?_
    · exact .bind (h.parseRight hc.advance hc.tokens_eq _) fun _ _ _ hd => .ok hd
    cases if c.here.lexeme = Operator.bar then none else Operator.leading? c.here.lexeme with
    | some op => exact .bind (h.parseRight hc.advance hc.tokens_eq _) fun _ _ _ hd => .ok hd
    | none => exact .fail hc.tokens_eq _
  | closing | separator | indent | newline | ending => exact .fail hc.tokens_eq _

/-- An operand is read within the list. -/
lemma Follows.parseOperand (p : Nat) :
    Tracks tokens (Parser.parseOperand parse p c) (parseOperand tokens parse' p c.index) := by
  rw [Positions.parseOperand, definesAt_index hc.tokens_eq, ok_bind, headWidth_index hc.tokens_eq hc.ends, ok_bind]
  unfold Parser.parseOperand
  refine .ite (fun _ => h.parseDefine hc) fun _ => ?_
  cases hhead : (if p ≤ Power.lambda then c.lambdaHead? else none) with
  | none => exact h.parsePrimary hc
  | some params =>
    split_ifs at hhead
    rw [Option.elim_some, if_neg (mt listWidth_eq_zero.1 (ne_nil_of_lambdaHead? hhead))]
    exact h.parseLambda hc hhead

/-- An operator takes its right operand within the list. -/
lemma Follows.parseJoin (op : Operator) (left : Left) :
    Tracks tokens (Parser.parseJoin parse op left c) (parseJoin tokens parse' op left c.index) := by
  have hright := h.parseRight hc.advance hc.tokens_eq op.rightPower
  rw [Positions.parseJoin, tokenAt_index hc.tokens_eq, ok_bind, advance_index hc.tokens_eq, ok_bind]
  unfold Parser.parseJoin
  refine .ite (fun _ => .bind hright fun _ _ _ hd => .ok hd) fun _ => .ite (fun _ => ?_)
    fun _ => .bind hright fun _ _ _ hd => .ok hd
  cases paramsOf? left.expr with
  | none => exact .blame hc.tokens_eq hc.advance.tokens_eq _
  | some params => exact .bind hright fun _ _ _ hd => .ok hd

/-- What follows an operand is read within the list, in no more turns than there are tokens ahead. -/
lemma Follows.climb (p : Nat) {turns : List Token} {turns' : Nat} (left : Left)
    (hturns : c.after.length ≤ turns.length) (hturns' : c.after.length < turns') :
    Tracks tokens (Parser.climb parse p turns left c) (climb tokens parse' p turns' left c.index) := by
  induction turns' generalizing turns left c with
  | zero => exact absurd hturns' (Nat.not_lt_zero _)
  | succ turns' ih =>
    rw [Positions.climb, tokenAt_index hc.tokens_eq, ok_bind, moveAt_index hc.tokens_eq, ok_bind]
    by_cases hstop : Parser.moveAt p c = .stop
    · unfold Parser.climb
      rw [hstop]
      exact .ok hc
    -- each further step takes a token, so there is a turn for it on both sides
    have hlt := hc.ends.length_advance (mt moveAt_ending hstop)
    obtain ⟨t, turns, rfl, hle⟩ := exists_cons_of_lt_length (hlt.le.trans hturns)
    unfold Parser.climb
    cases hmove : Parser.moveAt p c with
    | stop => exact absurd hmove hstop
    | trail =>
      dsimp only
      rw [advance_index hc.tokens_eq, ok_bind]
      exact ih hc.advance _ hle (by omega)
    | join op =>
      refine .bind (h.parseJoin hc op left) fun left' d hjoin hd => ?_
      obtain ⟨e, -, hread, -⟩ := Sound.join h.sound hjoin
      have hlt' : d.after.length + 1 ≤ c.advance.after.length := (hread.progress hc.advance.ends).2
      exact ih hd _ (by omega) (by omega)
    | argue =>
      refine .bind (h.tracks _ c hc) fun e d he hd => ?_
      have hlt' : d.after.length + 1 ≤ c.after.length := ((h.sound he).progress hc.ends).2
      exact ih hd _ (by omega) (by omega)

end Readers

/-- The parser at positions tracks the parser. -/
lemma Follows.parseExpr (tokens : List Token) (depth : Nat) :
    Follows tokens (Parser.parseExpr depth) (parseExpr tokens depth) := by
  induction depth with
  | zero => exact ⟨fun p c hc => .fail hc.tokens_eq _, Reads.of_parseExpr 0⟩
  | succ depth ih =>
    exact ⟨fun p c hc => .bind (ih.parseOperand hc p) fun e d _ hd => ih.climb hd p _ le_rfl hd.length_lt,
      Reads.of_parseExpr _⟩

/-! ## Whole lists -/

/-- A cursor can be moved to every position of the list. -/
lemma moveTo_eq (c : Cursor) {i : Nat} (hi : i < c.tokens.length) :
    (c.moveTo i).tokens = c.tokens ∧ (c.moveTo i).index = i := by
  refine ⟨c.tokens_moveTo i, ?_⟩
  have htake : (c.tokens.take i).length = i := List.length_take_of_le hi.le
  unfold Cursor.moveTo
  cases hdrop : c.tokens.drop i with
  | nil => exact absurd (List.drop_eq_nil_iff.1 hdrop) (not_le.2 hi)
  | cons t rest => simpa [Cursor.index] using htake

/-- A fault at a bracket blames its position. -/
lemma position_of_trackBracket {opened : OpenBrackets} {entry : Token × Nat} {found : Fault × Nat}
    (h : trackBracket opened entry = .error found) : found.2 = entry.2 := by
  unfold trackBracket at h
  split at h
  case h_1 | h_3 => cases h
  case h_2 =>
    split at h
    · cases h
      rfl
    · split at h <;> cases h
      rfl

/-- A fault in the brackets of a list blames a token of the list. -/
lemma lt_length_of_bracketFault? {tokens : List Token} {found : Fault × Nat} (h : bracketFault? tokens = some found) :
    found.2 < tokens.length := by
  have hlt {entry : Token × Nat} (hmem : entry ∈ tokens.zipIdx) : entry.2 < tokens.length := by
    simpa using List.snd_lt_of_mem_zipIdx hmem
  unfold bracketFault? at h
  split at h
  · next htrack =>
    cases h
    obtain ⟨before, entry, after, kept, hentries, -, hentry⟩ := exists_of_trackBrackets_error htrack
    rw [position_of_trackBracket hentry]
    exact hlt (hentries ▸ by simp)
  · cases h
  · next opener outer htrack =>
    cases h
    have hperm := opened_of_trackBrackets htrack
    have hmem := hperm.subset (List.mem_append_right _ List.mem_cons_self)
    rw [List.append_nil] at hmem
    exact hlt (List.mem_of_mem_filter hmem)

/-- A cursor is in its list, and all the tokens after it are. -/
lemma within_self {c : Cursor} (ends : c.Ends) : c.Within c.tokens c.tokens.length :=
  ⟨rfl, ends, by
    rw [length_tokens]
    omega⟩

/-- All of a list is read at positions as it is with cursors. -/
lemma tracks_parseAll (depth : Nat) (tokens : List Token) :
    Tracks (Cursor.ofTokens tokens).tokens (Parser.parseAll depth (Cursor.ofTokens tokens))
      (parseAll (Cursor.ofTokens tokens).tokens depth) := by
  have hfirst : (Cursor.ofTokens tokens).index = 0 := by cases tokens <;> rfl
  have hc := within_self (Cursor.ofTokens_ends tokens)
  generalize Cursor.ofTokens tokens = c at hfirst hc
  unfold Parser.parseAll Positions.parseAll checkBrackets
  cases hfault : bracketFault? c.tokens with
  | some found =>
    obtain ⟨htokens, hindex⟩ := moveTo_eq c (lt_length_of_bracketFault? hfault)
    have hblame : Tracks c.tokens (Parser.blame found.1 (c.moveTo found.2) c : Except Failure (Expr × Cursor)) _ :=
      .blame htokens rfl found.1
    rw [hindex, hfirst] at hblame
    exact hblame
  | none =>
    have hsequence := (Follows.parseExpr c.tokens depth).parseSequence hc
    rw [hfirst] at hsequence
    refine .bind hsequence fun e d _ hd => ?_
    dsimp only
    rw [tokenAt_index hd.tokens_eq, ok_bind]
    exact .ite (fun _ => .ok hd) fun _ => .fail hd.tokens_eq _

namespace Tracks

variable {α : Type} {tokens : List Token} {x : Except Failure (α × Cursor)} {y : Outcome (α × Nat)}

/-- The outcome at positions is the one at cursors, with their positions. -/
lemma eq (h : Tracks tokens x y) : y = (x.map fun r => (r.1, r.2.index)).mapError .ofFailure := by
  cases h <;> rfl

/-- What is read at positions is what is read with cursors. -/
lemma map_fst (h : Tracks tokens x y) : y.map (·.1) = (x.map (·.1)).mapError .ofFailure := by
  cases h <;> rfl

/-- What is refused is refused at cursors of the list. -/
lemma of_error (h : Tracks tokens x y) {f : Failure} (hf : x = .error f) :
    f.culprit.tokens = tokens ∧ f.stopped.tokens = tokens := by
  cases h with
  | ok => cases hf
  | error hculprit hstopped =>
    cases hf
    exact ⟨hculprit, hstopped⟩

/-- What is refused is refused at cursors of the list, also where no one asks how far it was read. -/
lemma of_map_error (h : Tracks tokens x y) {f : Failure} (hf : x.map (·.1) = .error f) :
    f.culprit.tokens = tokens ∧ f.stopped.tokens = tokens := by
  cases h with
  | ok => cases hf
  | error hculprit hstopped =>
    cases hf
    exact ⟨hculprit, hstopped⟩

end Tracks

/-- A list that is refused is refused at tokens of the list. -/
lemma tokens_of_buildWithin_error {depth : Nat} {tokens : List Token} {f : Failure}
    (h : buildWithin depth tokens = .error f) :
    f.culprit.tokens = (Cursor.ofTokens tokens).tokens ∧ f.stopped.tokens = (Cursor.ofTokens tokens).tokens :=
  (tracks_parseAll depth tokens).of_map_error h

/-- All that the parser does from a cursor on stays in the list, and comes to an end. -/
structure Safe (c : Cursor) : Prop where
  /-- What is looked up at a distance is there. -/
  peeks : ∀ distance, peek c.tokens c.index distance = .ok (c.peek distance)
  /-- The position that is moved on to is there. -/
  advances : advance c.tokens c.index = .ok c.advance.index ∧ c.advance.index < c.tokens.length
  /-- The head of a function is measured. -/
  measures : headLength c.tokens c.index = .ok (c.lambdaHead?.elim 0 Parameter.listWidth)
  /-- The parameters of a function are as many tokens as have been measured, up to the question mark. -/
  takes : ∀ params, c.lambdaHead? = some params → ∃ question,
    readParameters c.tokens c.tokens.length c.index = .ok (params, c.index + Parameter.listWidth params) ∧
      tokenAt c.tokens (c.index + Parameter.listWidth params) = .ok question ∧ question.isSymbol "?"
  /-- An expression is read at positions as it is with cursors. -/
  reads : ∀ depth p, parseExpr c.tokens depth p c.index =
    ((Parser.parseExpr depth p c).map fun r => (r.1, r.2.index)).mapError .ofFailure
  /-- An expression that is read ends at a later position of the list. -/
  forward : ∀ depth p e d, Parser.parseExpr depth p c = .ok (e, d) → d.tokens = c.tokens ∧ c.index < d.index
  /-- What is refused is refused at tokens of the list, and not as nested too deeply where as many expressions may
  be nested as there are tokens left. -/
  refuses : ∀ depth p f, Parser.parseExpr depth p c = .error f →
    f.culprit.tokens = c.tokens ∧ f.stopped.tokens = c.tokens ∧ (c.after.length < depth → f.fault ≠ .tooDeep)

/-- The parser is safe wherever the list ends with the end of the input. -/
lemma safe_of_ends {c : Cursor} (ends : c.Ends) : Safe c where
  peeks := peek_index rfl
  advances := by
    refine ⟨advance_index rfl, ?_⟩
    rw [← c.tokens_advance, length_tokens]
    omega
  measures := headLength_index rfl ends
  takes params hhead := by
    have hindex := index_skip_of_lambdaHead? ends hhead
    refine ⟨(c.skip (Parameter.listWidth params)).here, ?_, ?_, (lambdaHead?_eq_some hhead).2⟩
    · rw [readParameters_index rfl ends hhead, hindex]
    · rw [← hindex]
      exact tokenAt_index (Reaches.tokens_eq ⟨_, rfl⟩)
  reads depth p := ((Follows.parseExpr c.tokens depth).tracks p c (within_self ends)).eq
  forward depth p e d hread := by
    have hreads := Reads.of_parseExpr depth hread
    have htokens := hreads.reaches.tokens_eq
    have hlength := congrArg List.length htokens
    have hlt : d.after.length + 1 ≤ c.after.length := (hreads.progress ends).2
    rw [length_tokens, length_tokens] at hlength
    exact ⟨htokens, by omega⟩
  refuses depth p f hf := by
    have hlist := ((Follows.parseExpr c.tokens depth).tracks p c (within_self ends)).of_error hf
    refine ⟨hlist.1, hlist.2, fun hdepth => ?_⟩
    have haccords : Accords c.tokens (c.after.length + 1) depth (c.after.length + 1) := .of_le hdepth le_rfl
    exact (haccords.same p c ⟨rfl, ends, Nat.lt_succ_self _⟩).2 f hf

end Positions

/-- Building is safe on all token lists. Within any limit on nesting it ends with an expression or with a refusal
at tokens of the list, and looks up no token outside of it; a limit that is above the number of tokens is not in the
way. Wherever in the list the parser stands, what it looks up is there, and what it reads takes it further on. -/
theorem safe_build (tokens : List Token) :
    (∀ depth, Positions.build depth tokens = (buildWithin depth tokens).mapError .ofFailure ∧
      ∀ f, buildWithin depth tokens = .error f →
        f.culprit.tokens = (Cursor.ofTokens tokens).tokens ∧ f.stopped.tokens = (Cursor.ofTokens tokens).tokens ∧
          (tokens.length < depth → f.fault ≠ .tooDeep)) ∧
    ∀ c : Cursor, c.tokens = (Cursor.ofTokens tokens).tokens → Positions.Safe c := by
  refine ⟨fun depth => ?_, fun c hc => Positions.safe_of_ends (ends_of_tokens_eq hc (Cursor.ofTokens_ends tokens))⟩
  have htracks := Positions.tracks_parseAll depth tokens
  refine ⟨htracks.map_fst, fun f hf => ?_⟩
  have hall : Parser.parseAll depth (Cursor.ofTokens tokens) = .error f := by
    unfold buildWithin at hf
    cases hall : Parser.parseAll depth (Cursor.ofTokens tokens) with
    | ok r =>
      rw [hall] at hf
      cases hf
    | error f' =>
      rw [hall] at hf
      cases hf
      rfl
  have hlist := htracks.of_error hall
  exact ⟨hlist.1, hlist.2, fun hdepth => (settled_buildGenerally hdepth (Nat.lt_succ_self _)).2 f hf⟩

/-- The tokens of `a ~`, without the end of the input. -/
def tildeTokens : List Token :=
  [Token.emptyEnding.borrow .identifier "a", Token.emptyEnding.borrow .operator "~"]

/-- The name after a tilde is looked for where the list ends, and the end of the input is found there. -/
theorem safe_build_tildeTokens :
    Positions.build 2 tildeTokens = .ok (.unary "~" false (.identifier "a")) ∧
      Positions.Safe (Cursor.ofTokens tildeTokens).advance := by
  have hbuild : (buildWithin 2 tildeTokens).mapError Positions.Stop.ofFailure =
      .ok (.unary "~" false (.identifier "a")) := by
    decide +kernel
  exact ⟨((safe_build tildeTokens).1 2).1.trans hbuild,
    (safe_build tildeTokens).2 _ (Cursor.ofTokens tildeTokens).tokens_advance⟩

end SignLang
