import SignLang.Proofs.Parser.Reads

/-!
# The words of an expression

The words of a list of tokens are what is left of it without brackets, separators and the end of the
input, and without a comma that only ends a group. The words of an expression are those of its parts,
in the order in which they are written. The parser loses, doubles and moves no word
(`words_of_buildWithin`).
-/

namespace SignLang

/-- What a token says, apart from its place: its kind and its payload. The unit has one payload. -/
structure Word where
  kind : Kind
  text : String
deriving DecidableEq, Repr

/-- The word of an operator. -/
def Word.symbol (symbol : String) : Word :=
  ⟨.operator, symbol⟩

/-- The word of a token. -/
def Token.word (t : Token) : Word :=
  ⟨t.kind, if t.kind = .unit then "_" else t.payload⟩

/-- A token only structures the others: a bracket, a separator or the end of the input. -/
def Token.isStructure (t : Token) : Bool :=
  t.kind = .opening || t.kind = .closing || t.kind = .separator || t.kind = .ending

/-- The words of a token list. `afterOpening` says that an opening bracket stands before it: a comma
between a bracket and a closing one is the operator of a group, while any other comma before a
closing bracket says nothing. -/
def wordsOf (afterOpening : Bool) : List Token → List Word
  | [] => []
  | t :: rest =>
    if t.isStructure then wordsOf (t.kind = .opening) rest
    else if t.isSymbol "," && rest.head?.any (·.kind = .closing) && !afterOpening then
      wordsOf false rest
    else t.word :: wordsOf false rest

/-- The words of a parameter. -/
def Parameter.words (p : Parameter) : List Word :=
  if p.isRest then [.symbol "~", ⟨.identifier, p.name⟩] else [⟨.identifier, p.name⟩]

/-- The words of a literal. A kind that no token has gives none. -/
def LiteralKind.words (raw : String) : LiteralKind → List Word
  | number => [⟨.number, raw⟩]
  | string => [⟨.string, raw⟩]
  | character => [⟨.character, raw⟩]
  | other _ => []

namespace Expr

mutual

/-- The words of an expression. -/
def words : Expr → List Word
  | literal kind raw => kind.words raw
  | identifier name => [⟨.identifier, name⟩]
  | unit => [⟨.unit, "_"⟩]
  | define target value => words target ++ .symbol ":" :: words value
  | lambda params body => params.flatMap Parameter.words ++ .symbol "?" :: words body
  | binary symbol left right => words left ++ .symbol symbol :: words right
  | unary symbol leads operand =>
    if symbol = Operator.bar then words operand
    else if leads then .symbol symbol :: words operand
    else words operand ++ [.symbol symbol]
  | range start stop => words start ++ .symbol "~" :: words stop
  | get target key => words target ++ .symbol "'" :: words key
  | apply function arguments => words function ++ wordsAll arguments
  | pointFree symbol none => [.symbol symbol]
  | pointFree symbol (some preset) => .symbol symbol :: words preset
  | list elements => wordsList elements
  | emptyList => []
  | block statements => wordsAll statements

/-- The words of expressions, one after the other. -/
def wordsAll : List Expr → List Word
  | [] => []
  | e :: es => words e ++ wordsAll es

/-- The words of expressions, with a comma between them. -/
def wordsList : List Expr → List Word
  | [] => []
  | [e] => words e
  | e :: es => words e ++ .symbol "," :: wordsList es

end

/-- The words of expressions join. -/
lemma wordsAll_append (es fs : List Expr) : wordsAll (es ++ fs) = wordsAll es ++ wordsAll fs := by
  induction es with
  | nil => rfl
  | cons e es ih => simp [wordsAll, ih]

/-- A further element comes after a comma. -/
lemma wordsList_concat {es : List Expr} (h : es ≠ []) (e : Expr) :
    wordsList (es ++ [e]) = wordsList es ++ .symbol "," :: words e := by
  induction es with
  | nil => contradiction
  | cons f es ih =>
    cases es with
    | nil => simp [wordsList]
    | cons g es =>
      have := ih (by simp)
      simp only [List.cons_append, wordsList] at this ⊢
      rw [this, List.append_assoc]
      rfl

/-- The words of a sequence are those of its statements. -/
lemma words_sequenced (es : List Expr) : (Parser.sequenced es).words = wordsAll es := by
  unfold Parser.sequenced
  split
  · simp [wordsAll]
  · simp [words]

end Expr

/-! ## Tokens -/

/-- The word of an operator is its symbol. -/
lemma Token.word_of_operator {t : Token} (h : t.kind = .operator) : t.word = .symbol t.lexeme := by
  simp [Token.word, Token.payload, Word.symbol, h]

/-- The word of a symbol. -/
lemma Token.word_of_isSymbol {t : Token} {symbol : String} (h : t.isSymbol symbol) :
    t.word = .symbol symbol := by
  obtain ⟨hk, hlexeme⟩ := Token.isSymbol_iff.1 h
  rw [Token.word_of_operator hk, hlexeme]

/-- The word of a token that is an expression alone is that of the expression. -/
lemma Token.words_of_atom? {t : Token} {e : Expr} (h : Parser.atom? t = some e) :
    e.words = [t.word] ∧ !t.isStructure ∧ t.kind ≠ .operator := by
  unfold Parser.atom? at h
  split at h <;> cases h
  all_goals
    next hk =>
      simp [Expr.words, LiteralKind.words, Token.word, Token.payload, Token.isStructure, hk]

namespace Cursor

/-- An opening bracket stands directly before the cursor. -/
def afterOpening (c : Cursor) : Bool :=
  c.before.head?.any (·.kind = .opening)

/-- The words ahead of a cursor. -/
def words (c : Cursor) : List Word :=
  wordsOf c.afterOpening c.ahead

/-- Whether a cursor stands after an opening bracket is seen from the token it has moved over. -/
lemma Ends.afterOpening_advance {c : Cursor} (ends : c.Ends) (h : c.here.kind ≠ .ending) :
    c.advance.afterOpening = decide (c.here.kind = .opening) := by
  obtain ⟨t, rest, e⟩ := ends.exists_after h
  simp [advance_eq e, afterOpening]

/-- A bracket or separator says nothing. -/
lemma Ends.words_of_isStructure {c : Cursor} (ends : c.Ends) (hs : c.here.isStructure)
    (h : c.here.kind ≠ .ending) : c.words = c.advance.words := by
  obtain ⟨t, rest, e⟩ := ends.exists_after h
  simp [words, ahead, wordsOf, hs, advance_eq e, afterOpening, e]

/-- Any token other than a comma before a closing bracket says its word. -/
lemma Ends.words_of_word {c : Cursor} (ends : c.Ends) (hs : !c.here.isStructure)
    (h : c.here.isSymbol "," → c.advance.here.kind ≠ .closing ∨ c.afterOpening) :
    c.words = c.here.word :: c.advance.words := by
  have hne : c.here.kind ≠ .ending := by
    intro hk
    simp [Token.isStructure, hk] at hs
  have hopen : c.here.kind ≠ .opening := by
    intro hk
    simp [Token.isStructure, hk] at hs
  obtain ⟨t, rest, e⟩ := ends.exists_after hne
  rw [advance_eq e] at h ⊢
  dsimp only at h
  simp only [Bool.not_eq_true'] at hs
  have hcomma : ¬(c.here.isSymbol "," && c.after.head?.any (·.kind = .closing) &&
      !c.afterOpening) := by
    by_cases hc : c.here.isSymbol ","
    · rcases h hc with h | h
      · simp [e, h]
      · simp [h]
    · simp [hc]
  rw [words, ahead, wordsOf, if_neg (by simp [hs]), if_neg hcomma]
  simp [words, ahead, afterOpening, hopen, e]

/-- A comma between an operand and a closing bracket says nothing. -/
lemma Ends.words_of_comma {c : Cursor} (ends : c.Ends) (h : c.here.isSymbol ",")
    (hclose : c.advance.here.kind = .closing) (hopen : c.afterOpening = false) :
    c.words = c.advance.words := by
  have hk := Parser.kind_of_isSymbol h
  obtain ⟨t, rest, e⟩ := ends.exists_after (by simp [hk])
  rw [advance_eq e] at hclose ⊢
  dsimp only at hclose
  rw [words, ahead, wordsOf, if_neg (by simp [Token.isStructure, hk]),
    if_pos (by simp [h, e, hclose, hopen])]
  simp [words, ahead, afterOpening, hk, e]

/-- A name and what follows it have one word more than what follows. -/
lemma Ends.words_of_identifier {c : Cursor} (ends : c.Ends) (h : c.here.kind = .identifier) :
    c.words = ⟨.identifier, c.here.lexeme⟩ :: c.advance.words := by
  rw [ends.words_of_word (by simp [Token.isStructure, h]) (by simp [Token.isSymbol, h])]
  simp [Token.word, Token.payload, h]

/-- The words of a parameter list are those of its parameters. -/
lemma Ends.words_of_parameters {c : Cursor} (ends : c.Ends) :
    c.words = (Parameter.listOf c.ahead).flatMap Parameter.words ++
      (c.skip (Parameter.listWidth (Parameter.listOf c.ahead))).words := by
  refine ends.parameters_induction ?none ?rest ?name
  case none =>
    intro c _
    simp [Parameter.listWidth, Cursor.skip]
  case rest =>
    intro c ends htilde hname
    have hk := Parser.kind_of_isSymbol htilde
    rw [ends.words_of_word (by simp [Token.isStructure, hk]) (by simp [hname]),
      ends.advance.words_of_identifier hname, Token.word_of_isSymbol htilde]
    simp [Parameter.words, Parameter.listWidth, Parameter.width, Cursor.skip]
  case name =>
    intro c params ends hname ih
    rw [ends.words_of_identifier hname, ih]
    simp [Parameter.words, Parameter.listWidth, Parameter.width, Nat.add_comm 1, Cursor.skip]

end Cursor

/-! ## What is on the left -/

namespace Parser

/-- A list on the left has an element. -/
def Left.Proper : Left → Prop
  | .listed elements => elements ≠ []
  | _ => True

/-- A further argument adds its words. -/
lemma Left.words_argument (left : Left) (e : Expr) :
    (left.argument e).expr.words = left.expr.words ++ e.words := by
  cases left <;>
    simp [Left.argument, Left.expr, Expr.words, Expr.wordsAll, Expr.wordsAll_append]

/-- What takes an argument becomes an application. -/
lemma Left.proper_argument (left : Left) (e : Expr) : (left.argument e).Proper := by
  cases left <;> trivial

/-- The words of the parameters that an expression names are its own. -/
lemma words_of_paramsOf? {e : Expr} {params : List Parameter} (h : paramsOf? e = some params) :
    params.flatMap Parameter.words = e.words := by
  have named (names : List String) : (names.map (⟨·, false⟩ : String → Parameter)).flatMap Parameter.words =
      Expr.wordsAll (names.map .identifier) := by
    induction names with
    | nil => rfl
    | cons name names ih => simp [Parameter.words, Expr.wordsAll, Expr.words, ← ih]
  unfold paramsOf? at h
  split at h
  · cases h
    simp [Parameter.words, Expr.words]
  · next function arguments =>
    obtain ⟨names, hnames, rfl⟩ := Option.map_eq_some_iff.1 h
    rw [named, ← eq_map_of_mapM_nameOf? hnames]
    simp [Expr.words, Expr.wordsAll]
  · cases h

/-- The words of a joined pair are those of its operands around the symbol. -/
lemma words_joined (symbol : String) (left right : Expr) :
    (joined symbol left right).words = left.words ++ .symbol symbol :: right.words := by
  unfold joined
  split
  · next h => simp [Expr.words, h.1]
  split
  · next h => simp [Expr.words, h]
  split
  · next h => simp [Expr.words, h]
  · simp [Expr.words]

/-- Joining adds the words of the operator and of its right operand. -/
lemma Left.words_of_join? {left left' : Left} {symbol : String} {e : Expr} (proper : left.Proper)
    (h : left.join? symbol e = some left') :
    left'.expr.words = left.expr.words ++ .symbol symbol :: e.words ∧ left'.Proper := by
  obtain ⟨rfl, rfl⟩ | ⟨rfl, params, hparams, rfl⟩ | ⟨-, -, rfl⟩ := Left.join?_cases h
  · cases left with
    | listed elements =>
      refine ⟨?_, by simp [Left.element, Left.Proper]⟩
      simp [Left.element, Left.expr, Expr.words, Expr.wordsList_concat proper]
    | _ => exact ⟨by simp [Left.element, Left.expr, Expr.words, Expr.wordsList],
        by simp [Left.element, Left.Proper]⟩
  · refine ⟨?_, trivial⟩
    simp [Left.expr, Expr.words, words_of_paramsOf? hparams]
  · exact ⟨words_joined symbol left.expr e, trivial⟩

/-! ## Readings keep the words -/

/-- The words that a task has read before it starts. -/
def Task.words : Task → List Word
  | .statements es => Expr.wordsAll es
  | .climb _ left => left.expr.words
  | .expr _ | .operand _ | .primary => []

/-- A task is one that the parser comes to: what follows an operand does not start at an opening
bracket. -/
def Task.Proper (c : Cursor) : Task → Prop
  | .climb _ left => left.Proper ∧ c.afterOpening = false
  | _ => True

/-- The task stops after an operand. -/
def Task.EndsOperand (d : Cursor) : Task → Prop
  | .statements _ => True
  | _ => d.afterOpening = false

/-- A token that moves the parser on after an operand, if it is an operator that stands after its
operand, is no bar. -/
lemma ne_bar_of_trail {p : Nat} {c : Cursor} (h : moveAt p c = .trail) :
    c.here.kind = .operator ∧ c.here.lexeme ≠ Operator.bar ∧ c.here.lexeme ≠ "," := by
  unfold moveAt at h
  split at h
  · next hk =>
    refine ⟨hk, ?_⟩
    split at h
    · next ht =>
      simp only [trails, Bool.and_eq_true] at ht
      constructor <;> intro hlex <;> rw [hlex] at ht
      · exact absurd ht.1 (by simp [show Operator.trailing? Operator.bar = none by decide])
      · exact absurd ht.1 (by simp [show Operator.trailing? "," = none by decide])
    · split at h
      · split at h <;> cases h
      · unfold argumentMove at h
        split at h <;> cases h
  · unfold argumentMove at h
    split at h <;> cases h

/-- An operator that joins two operands is an operator. -/
lemma kind_of_join {p : Nat} {c : Cursor} {op : Operator} (h : moveAt p c = .join op) :
    c.here.kind = .operator := by
  unfold moveAt at h
  split at h
  · next hk => exact hk
  · unfold argumentMove at h
    split at h <;> cases h

/-- The operator before an operand says its word, whatever it is. -/
lemma words_of_symbol {c : Cursor} (ends : c.Ends) (hk : c.here.kind = .operator)
    (hstart : c.advance.here.startsOperand) :
    c.words = .symbol c.here.lexeme :: c.advance.words := by
  rw [ends.words_of_word (by simp [Token.isStructure, hk]), Token.word_of_operator hk]
  intro _
  left
  intro hclose
  simp [Token.startsOperand, hclose] at hstart

/-- A cursor that has moved over anything but an opening bracket does not stand after one. -/
lemma afterOpening_of_kind {c : Cursor} (ends : c.Ends) {kind : Kind} (h : c.here.kind = kind)
    (hne : kind ≠ .ending) (hopen : kind ≠ .opening) : c.advance.afterOpening = false := by
  rw [ends.afterOpening_advance (h ▸ hne), h]
  simpa using hopen

/-- A bracket and a separator say nothing. -/
lemma words_of_bracket {c : Cursor} (ends : c.Ends)
    (h : c.here.kind = .opening ∨ c.here.kind = .closing ∨ c.here.kind = .separator) :
    c.words = c.advance.words := by
  rcases h with h | h | h <;>
    exact ends.words_of_isStructure (by simp [Token.isStructure, h]) (by simp [h])

/-- The words of a group are those of its inside. -/
lemma words_of_group {c d : Cursor} (ends : c.Ends) (ends' : d.Ends) (hc : c.here.kind = .opening)
    (hd : d.here.kind = .closing) {ws : List Word} (h : c.advance.words = ws ++ d.words) :
    c.words = ws ++ d.advance.words := by
  rw [words_of_bracket ends (.inl hc), h, words_of_bracket ends' (.inr (.inl hd))]

/-- What is read has the words that are moved over, those read before included. -/
lemma Reads.words {task c e d} (h : Reads task c e d) (ends : c.Ends) (proper : task.Proper c) :
    task.words ++ c.words = e.words ++ d.words ∧ task.EndsOperand d := by
  induction h with
  | done _ => exact ⟨by rw [Expr.words_sequenced]; rfl, trivial⟩
  | @last es _ _ _ _ _ _ ih =>
    obtain ⟨hwords, -⟩ := ih ends trivial
    refine ⟨?_, trivial⟩
    simp only [Task.words, List.nil_append] at hwords ⊢
    rw [hwords, Expr.words_sequenced, Expr.wordsAll_append]
    simp [Expr.wordsAll]
  | @more es _ e d _ _ _ he hsep _ ih ih' =>
    have ends' := (he.progress ends).1
    obtain ⟨hwords, -⟩ := ih ends trivial
    obtain ⟨hrest, -⟩ := ih' ends'.advance trivial
    refine ⟨?_, trivial⟩
    simp only [Task.words, List.nil_append] at hwords hrest ⊢
    rw [hwords, words_of_bracket ends' (.inr (.inr hsep)), ← hrest, Expr.wordsAll_append]
    simp [Expr.wordsAll]
  | expr hoperand _ ih ih' =>
    obtain ⟨hwords, hend⟩ := ih ends trivial
    obtain ⟨hrest, hend'⟩ := ih' (hoperand.progress ends).1 ⟨trivial, hend⟩
    exact ⟨hwords.trans hrest, hend'⟩
  | @define _ c e d _ hdef hstart _ ih =>
    obtain ⟨hid, hk, hlexeme⟩ := of_startsDefine hdef
    obtain ⟨hwords, hend⟩ := ih ends.advance.advance trivial
    refine ⟨?_, hend⟩
    simp only [Task.words, List.nil_append] at hwords ⊢
    rw [ends.words_of_identifier hid, words_of_symbol ends.advance hk hstart, hwords, hlexeme]
    simp [Expr.words]
  | @lambda _ c params e d _ _ hhead hstart _ ih =>
    obtain ⟨rfl, hq⟩ := Cursor.lambdaHead?_eq_some hhead
    obtain ⟨hk, hlexeme⟩ := Token.isSymbol_iff.1 hq
    have ends' := ends.skip (Parameter.listWidth (Parameter.listOf c.ahead))
    obtain ⟨hwords, hend⟩ := ih ends'.advance trivial
    refine ⟨?_, hend⟩
    simp only [Task.words, List.nil_append] at hwords ⊢
    rw [ends.words_of_parameters, words_of_symbol ends' hk hstart, hwords, hlexeme]
    simp [Expr.words]
  | primary _ _ _ ih => exact ih ends trivial
  | @atom c e ha =>
    obtain ⟨hword, hs, hop⟩ := Token.words_of_atom? ha
    have hne := kind_ne_ending_of_atom? ha
    refine ⟨?_, ?_⟩
    · rw [ends.words_of_word hs (fun h => absurd (kind_of_isSymbol h) hop), hword]
      rfl
    · refine (ends.afterOpening_advance hne).trans (decide_eq_false fun hk => ?_)
      simp [Token.isStructure, hk] at hs
  | @thunk c e d hq hstart _ ih =>
    obtain ⟨hwords, hend⟩ := ih ends.advance trivial
    refine ⟨?_, hend⟩
    obtain ⟨hk, hlexeme⟩ := Token.isSymbol_iff.1 hq
    simp only [Task.words, List.nil_append] at hwords ⊢
    rw [words_of_symbol ends hk hstart, hwords, hlexeme]
    simp [Expr.words]
  | @leading c op e d hk _ hbar _ hstart _ ih =>
    obtain ⟨hwords, hend⟩ := ih ends.advance trivial
    refine ⟨?_, hend⟩
    simp only [Task.words, List.nil_append] at hwords ⊢
    rw [words_of_symbol ends hk hstart, hwords]
    simp [Expr.words, hbar]
  | @bars c e d hc _ _ hs hclosing ih =>
    have ends' := (hs.progress ends.advance).1
    obtain ⟨hwords, -⟩ := ih ends.advance trivial
    refine ⟨?_, afterOpening_of_kind ends' hclosing (by decide) (by decide)⟩
    simp only [Task.words, Expr.wordsAll, List.nil_append] at hwords ⊢
    rw [words_of_group ends ends' hc hclosing hwords]
    simp [Expr.words]
  | emptyGroup hc _ hclosing =>
    refine ⟨?_, afterOpening_of_kind ends.advance hclosing (by decide) (by decide)⟩
    exact words_of_group ends ends.advance hc hclosing rfl
  | @bareSymbol c hc _ hfree hclosing =>
    have hk := Cursor.kind_of_headsPointFree hfree
    refine ⟨?_, afterOpening_of_kind ends.advance.advance hclosing (by decide) (by decide)⟩
    have hopen : c.advance.afterOpening := by
      rw [ends.afterOpening_advance (by simp [hc])]
      simpa using hc
    rw [words_of_bracket ends (.inl hc),
      ends.advance.words_of_word (by simp [Token.isStructure, hk]) (fun _ => .inr hopen),
      words_of_bracket ends.advance.advance (.inr (.inl hclosing)), Token.word_of_operator hk]
    simp [Task.words, Expr.words]
  | @preset c e d hc _ hfree hstart hs hclosing ih =>
    have ends' := (hs.progress ends.advance.advance).1
    obtain ⟨hwords, hend⟩ := ih ends.advance.advance trivial
    -- the comma that may stand before the closing bracket says nothing
    have hcomma : d.words = (pastComma d).words := by
      rcases pastComma_cases d with heq | ⟨heq, h | h⟩ <;> rw [heq] at hclosing ⊢
      · exact ends'.words_of_comma h hclosing hend
      · exact words_of_bracket ends' (.inr (.inr h))
    have ends'' := (pastComma_progress ends').1
    refine ⟨?_, afterOpening_of_kind ends'' hclosing (by decide) (by decide)⟩
    simp only [Task.words, List.nil_append] at hwords ⊢
    rw [words_of_bracket ends (.inl hc), words_of_symbol ends.advance (Cursor.kind_of_headsPointFree hfree) hstart, hwords,
      hcomma, words_of_bracket ends'' (.inr (.inl hclosing))]
    simp [Expr.words]
  | group hc _ _ _ hs hclosing ih =>
    have ends' := (hs.progress ends.advance).1
    obtain ⟨hwords, -⟩ := ih ends.advance trivial
    refine ⟨?_, afterOpening_of_kind ends' hclosing (by decide) (by decide)⟩
    exact words_of_group ends ends' hc hclosing hwords
  | stop _ => exact ⟨rfl, proper.2⟩
  | @trail _ left c e d hm _ ih =>
    obtain ⟨hk, hbar, hcomma⟩ := ne_bar_of_trail hm
    obtain ⟨hwords, hend⟩ := ih ends.advance
      ⟨trivial, afterOpening_of_kind ends hk (by decide) (by decide)⟩
    refine ⟨?_, hend⟩
    rw [ends.words_of_word (by simp [Token.isStructure, hk]) (by simp [Token.isSymbol, hcomma]),
      Token.word_of_operator hk, ← hwords]
    simp [Task.words, Left.expr, Expr.words, hbar]
  | @join _ op left left' c e d f d' hm hstart he hleft _ ih ih' =>
    obtain ⟨hwords, hend⟩ := ih ends.advance trivial
    obtain ⟨hleftWords, hproper⟩ := Left.words_of_join? proper.1 hleft
    obtain ⟨hrest, hend'⟩ := ih' (he.progress ends.advance).1 ⟨hproper, hend⟩
    refine ⟨?_, hend'⟩
    simp only [Task.words, List.nil_append] at hwords hrest ⊢
    rw [words_of_symbol ends (kind_of_join hm) hstart, hwords, ← hrest, hleftWords]
    simp
  | @argue _ left c e d f d' hm he _ ih ih' =>
    obtain ⟨hwords, hend⟩ := ih ends trivial
    obtain ⟨hrest, hend'⟩ := ih' (he.progress ends).1 ⟨left.proper_argument e, hend⟩
    refine ⟨?_, hend'⟩
    simp only [Task.words, List.nil_append] at hwords hrest ⊢
    rw [hwords, ← hrest, left.words_argument e]
    simp

end Parser

/-! ## The parser keeps the words -/

/-- The end of the input adds no word. -/
lemma wordsOf_concat_ending {t : Token} (h : t.kind = .ending) (afterOpening : Bool)
    (tokens : List Token) : wordsOf afterOpening (tokens ++ [t]) = wordsOf afterOpening tokens := by
  induction tokens generalizing afterOpening with
  | nil => simp [wordsOf, Token.isStructure, h]
  | cons s rest ih =>
    have hhead : (rest ++ [t]).head?.any (·.kind = .closing) =
        rest.head?.any (·.kind = .closing) := by
      cases rest <;> simp [h]
    simp only [List.cons_append, wordsOf, hhead, ih]

/-- The cursor before a list has the words of the list ahead. -/
lemma words_ofTokens (tokens : List Token) :
    (Cursor.ofTokens tokens).words = wordsOf false tokens := by
  cases tokens with
  | nil => rfl
  | cons t rest =>
    simp only [Cursor.words, Cursor.ahead, Cursor.ofTokens, Cursor.afterOpening]
    split
    · rfl
    · rw [← List.cons_append]
      exact wordsOf_concat_ending rfl _ _

/-- If the end of the input stands last only, it does so in the list that the parser is given. -/
lemma kind_ne_ending_ofTokens {tokens : List Token} (h : ∀ t ∈ tokens.dropLast, t.kind ≠ .ending) :
    ∀ t ∈ (Cursor.ofTokens tokens).tokens.dropLast, t.kind ≠ .ending := by
  cases tokens with
  | nil => simp [Cursor.ofTokens, Cursor.tokens]
  | cons t rest =>
    simp only [Cursor.ofTokens, Cursor.tokens, List.reverse_nil, List.nil_append]
    split
    · exact h
    · next hlast =>
      rw [← List.cons_append, List.dropLast_concat]
      intro s hs
      rw [← List.dropLast_append_getLast (List.cons_ne_nil t rest)] at hs
      rcases List.mem_append.1 hs with hs | hs
      · exact h s hs
      · rw [List.mem_singleton.1 hs]
        simpa [List.getLast_eq_getLastD] using hlast

/-- In a list where the end of the input stands last only, a cursor at the end of the input is at
the end of the list. -/
lemma after_eq_nil_of_ending {c : Cursor} (h : ∀ t ∈ c.tokens.dropLast, t.kind ≠ .ending)
    (hc : c.here.kind = .ending) : c.after = [] := by
  by_contra hne
  refine h c.here ?_ hc
  simp only [Cursor.tokens]
  rw [List.dropLast_append_of_ne_nil (by simp), List.dropLast_cons_of_ne_nil hne]
  simp

/-- The parser loses, doubles and moves no word: if a list in which the end of the input stands last
only is read as `e`, its words are those of `e`. -/
theorem words_of_buildWithin {depth : Nat} {tokens : List Token} {e : Expr}
    (hend : ∀ t ∈ tokens.dropLast, t.kind ≠ .ending) (h : buildWithin depth tokens = .ok e) :
    wordsOf false tokens = e.words := by
  obtain ⟨-, d, hread, hd⟩ := Spells.of_buildWithin h
  obtain ⟨hwords, -⟩ := hread.words (Cursor.ofTokens_ends tokens) trivial
  have hnil := after_eq_nil_of_ending (hread.reaches.tokens_eq ▸ kind_ne_ending_ofTokens hend) hd
  have : d.words = [] := by
    simp [Cursor.words, Cursor.ahead, hnil, wordsOf, Token.isStructure, hd]
  rw [this, words_ofTokens] at hwords
  simpa [Parser.Task.words, Expr.wordsAll] using hwords

/-- The tokens of `[* 2,] x`, where the comma only ends the group. -/
def presetTokens : List Token :=
  [(.opening, "["), (.operator, "*"), (.number, "2"), (.operator, ","), (.closing, "]"),
    (.identifier, "x"), (.ending, "")].map fun (kind, lexeme) =>
      Token.emptyEnding.borrow kind lexeme

/-- The expression that `presetTokens` writes. -/
def presetExpr : Expr :=
  .apply (.pointFree "*" (some (.literal .number "2"))) [.identifier "x"]

/-- The words of a group, with the comma that ends it, and of its argument. -/
theorem words_of_presetTokens :
    (∀ t ∈ presetTokens.dropLast, t.kind ≠ .ending) ∧ build presetTokens = .ok presetExpr ∧
      wordsOf false presetTokens = presetExpr.words := by
  have hend : ∀ t ∈ presetTokens.dropLast, t.kind ≠ .ending := by decide
  have h : build presetTokens = .ok presetExpr := rfl
  exact ⟨hend, h, words_of_buildWithin hend h⟩

end SignLang
