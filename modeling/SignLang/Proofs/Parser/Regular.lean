import SignLang.Proofs.Parser.WellFormed

/-!
# The parser makes regular expressions

Words go into an expression as the scanner has found them, and what is read on the right of an operator binds at
least as tightly as it asks for, unless it starts with an operator that takes all that it can. Both hold of every
part of what the parser reads, as long as separators are housed: only a group that follows a block operator may
bring lines with it that bind less tightly (`Reads.regular`).
-/

namespace SignLang

open Item Lexeme

/-- A word that may stand alone as an operand has the form of its kind. -/
def Token.Worded (t : Token) : Prop :=
  t.kind ∈ [.identifier, .number, .string, .character] → t.kind.Admits t.lexeme.toList

namespace Parameter

variable {ts : List Token}

/-- Parameters are named by names. -/
lemma exists_of_mem_listOf {p : Parameter} (h : p ∈ listOf ts) :
    ∃ t ∈ ts, t.kind = .identifier ∧ p.name = t.lexeme := by
  rw [listOf, List.mem_append, List.mem_map] at h
  rcases h with ⟨t, ht, rfl⟩ | h
  · have hk := List.mem_takeWhile_imp ht
    exact ⟨t, (List.takeWhile_prefix _).subset ht, by simpa using hk, rfl⟩
  · rcases restOf_cases (ts.dropWhile (·.kind = .identifier)) with hnil | ⟨t, ht, hk, hsome⟩
    · rw [hnil] at h
      cases h
    · rw [hsome, List.mem_singleton] at h
      exact ⟨t, (List.dropWhile_suffix _).subset ht, hk, by rw [h]⟩

end Parameter

namespace Parser

open Cursor SignLang.Expr

variable {c d m : Cursor} {e : Expr} {left left' : Left} {p : Nat}

/-! ## Words -/

/-- A word that stands alone is regular. -/
lemma regular_of_atom? {t : Token} (ht : t.Worded) (h : atom? t = some e) :
    e.Throughout Regular ∧ e.Blockless := by
  unfold atom? at h
  split at h
  case h_1 hk =>
    cases h
    have hadmits : IsName t.lexeme.toList := by simpa [hk, Kind.Admits] using ht (by simp [hk])
    exact ⟨.mk hadmits (List.forall_mem_nil _), .mk rfl (List.forall_mem_nil _)⟩
  case h_2 hk =>
    cases h
    have hadmits : IsNumber t.payload.toList := by
      simpa [hk, Kind.Admits, Token.payload] using ht (by simp [hk])
    exact ⟨.mk hadmits (List.forall_mem_nil _), .mk rfl (List.forall_mem_nil _)⟩
  case h_3 hk =>
    cases h
    obtain ⟨body, hbody, hall⟩ : IsString t.lexeme.toList := by simpa [hk, Kind.Admits] using ht (by simp [hk])
    have hpayload : t.payload.toList = body := by simp [Token.payload, hk, hbody]
    exact ⟨.mk (by rwa [← hpayload] at hall) (List.forall_mem_nil _), .mk rfl (List.forall_mem_nil _)⟩
  case h_4 hk =>
    cases h
    obtain ⟨ch, hch⟩ : IsCharacter t.lexeme.toList := by simpa [hk, Kind.Admits] using ht (by simp [hk])
    have hlength : t.payload.toList.length = 1 := by simp [Token.payload, hk, hch]
    exact ⟨.mk hlength (List.forall_mem_nil _), .mk rfl (List.forall_mem_nil _)⟩
  case h_5 =>
    cases h
    exact ⟨.mk trivial (List.forall_mem_nil _), .mk rfl (List.forall_mem_nil _)⟩
  case h_6 => cases h

/-- A name in a regular expression. -/
lemma isName_of_nameOf? {name : String} (he : e.Throughout Regular) (h : nameOf? e = some name) :
    e = .identifier name ∧ IsName name.toList := by
  cases e with
  | identifier =>
    cases h
    exact ⟨rfl, he.self⟩
  | _ => cases h

/-- The parameters that a regular expression names. -/
lemma regular_of_paramsOf? {params : List Parameter} (he : e.Throughout Regular) (h : paramsOf? e = some params) :
    ∀ q ∈ params, IsName q.name.toList := by
  unfold paramsOf? at h
  split at h
  · cases h
    exact List.forall_mem_singleton.2 he.self
  · next function arguments =>
    obtain ⟨names, hnames, rfl⟩ := Option.map_eq_some_iff.1 h
    have hall : ∀ a ∈ function :: arguments, a.Throughout Regular := by
      have hparts := List.forall_mem_cons.1 he.part
      exact List.forall_mem_cons.2 ⟨hparts.1, forall_mem_rowOf_iff.1 hparts.2⟩
    rw [eq_map_of_mapM_nameOf? hnames, List.forall_mem_map] at hall
    exact List.forall_mem_map.2 fun name hname => (hall name hname).self
  · cases h

/-! ## Operators -/

/-- An operator joins where it binds at least as tightly as asked for. -/
lemma power_le_of_join {op : Operator} (h : moveAt p c = .join op) : p ≤ op.power := by
  unfold moveAt at h
  have hargument : argumentMove p c.here ≠ .join op := by
    unfold argumentMove
    split <;> simp
  split at h
  · split at h
    · cases h
    · split at h
      · split at h
        · cases h
        · next hle =>
          cases h
          exact Nat.le_of_not_lt hle
      · exact absurd h hargument
  · exact absurd h hargument

/-- An argument is taken where one is admitted. An operator that starts it does not stand between operands. -/
lemma of_argue (h : moveAt p c = .argue) :
    p ≤ Power.apply ∧ (c.here.kind = .operator → Operator.binary? c.here.lexeme = none) := by
  have hargument (h : argumentMove p c.here = .argue) : p ≤ Power.apply := by
    unfold argumentMove at h
    split at h
    · next hp =>
      rw [Bool.and_eq_true, decide_eq_true_eq] at hp
      exact hp.1
    · cases h
  unfold moveAt at h
  split at h
  · split at h
    · cases h
    · split at h
      · split at h <;> cases h
      · next hnone => exact ⟨hargument h, fun _ => hnone⟩
  · next hk => exact ⟨hargument h, fun hk' => absurd hk' hk⟩

/-- The expression starts at the cursor with an operator that takes all that it can of what follows. -/
def Heads (c : Cursor) (e : Expr) : Prop :=
  (c.here.isSymbol "?" ∧ ∃ body, e = .lambda [] body) ∨
    (c.here.kind = .operator ∧ c.here.lexeme ≠ Operator.bar ∧ ∃ operand, e = .unary c.here.lexeme true operand)

/-- What starts with such an operator is read at any power. -/
lemma Heads.isPrefixed (h : Heads c e) : e.isPrefixed := by
  obtain ⟨-, _, rfl⟩ | ⟨-, hbar, _, rfl⟩ := h
  · rfl
  · simpa [Expr.isPrefixed] using hbar

/-- What starts with such an operator is an argument if it is read as one. -/
lemma Heads.isLedArgument (h : Heads c e) (hmove : moveAt p c = .argue) : e.isLedArgument := by
  have hbinary := (of_argue hmove).2
  obtain ⟨hq, _, rfl⟩ | ⟨hk, hbar, _, rfl⟩ := h
  · obtain ⟨hk, hlexeme⟩ := Token.isSymbol_iff.1 hq
    have hnone := hbinary hk
    rw [hlexeme] at hnone
    exact absurd hnone (by decide)
  · simpa [Expr.isLedArgument, hbinary hk] using hbar

/-- What an expression read at a power may have indented below it: it binds tightly enough, or starts with an
operator that takes all that it can. -/
def Bears (p : Nat) (c : Cursor) (e : Expr) : Prop :=
  e.phrase.tail → p ≤ e.phrase.power ∨ Heads c e

/-- What is read where no block is held stands last. -/
lemma outer_of_bears (he : e.Regular) (hseated : Expr.Seated .last e) (h : Bears p c e) : e.Outer p :=
  ⟨he.isBlock_eq.trans (hseated.isBlock_eq_false rfl), fun ht => (h ht).imp_right Heads.isPrefixed⟩

/-- What is read as an argument stands as the last one. -/
lemma argues_of_bears (he : e.Regular) (hseated : Expr.Seated .last e) (h : Bears (Power.apply + 1) c e)
    (hmove : moveAt p c = .argue) : e.Argues :=
  ⟨he.isBlock_eq.trans (hseated.isBlock_eq_false rfl), fun ht => (h ht).imp_right (·.isLedArgument hmove)⟩

/-- A list with one more element is regular, and has the power of the comma. -/
lemma regular_list {es : List Expr} (hes : ∀ e ∈ es, e.Throughout Regular) (hne : es ≠ [])
    (he : e.Throughout Regular) (houter : e.Outer (Power.product + 1)) :
    (Expr.list (es ++ [e])).Throughout Regular ∧ (Expr.list (es ++ [e])).phrase.power = Power.product := by
  obtain ⟨first, middle, rfl⟩ := List.exists_cons_of_ne_nil hne
  refine ⟨.mk ⟨by simp, by rw [List.getLast?_concat]; simpa using houter⟩ (parts_of_list hes he), ?_⟩
  rw [List.cons_append, phrase_list]
  exact Phrase.power_join _ _ _

/-- A function with one more argument is regular, and has the power of juxtaposition. -/
lemma Left.regular_argument (hleft : left.expr.Throughout Regular) (he : e.Throughout Regular) (hargues : e.Argues) :
    (left.argument e).expr.Throughout Regular ∧ (left.argument e).expr.phrase.power = Power.apply := by
  obtain ⟨f, args, heq, hparts⟩ := Left.parts_of_argument hleft he
  rw [heq]
  refine ⟨.mk ⟨by simp, by simpa using hargues⟩ hparts, ?_⟩
  rw [phrase_apply]
  exact Phrase.power_join _ _ _

/-- An operator that is no comma and no question mark makes a regular form with its power. -/
lemma regular_joined {symbol : String} {op : Operator} {l r : Expr} (hop : Operator.binary? symbol = some op)
    (hl : l.Throughout Regular) (hr : r.Throughout Regular)
    (houter : symbol ∉ Operator.blockSymbols → r.Outer op.rightPower) (hcomma : symbol ≠ ",")
    (hq : symbol ≠ "?") :
    (joined symbol l r).Throughout Regular ∧ (joined symbol l r).phrase.power = op.power := by
  suffices h : Regular (joined symbol l r) ∧ (joined symbol l r).phrase.power = op.power from
    ⟨.mk h.1 (parts_of_joined hl hr), h.2⟩
  have hentry {s : String} (op' : Operator) (h : Operator.binary? s = some op') (hs : symbol = s) : op = op' := by
    rw [hs, h] at hop
    exact (Option.some.inj hop).symm
  unfold joined
  split
  · next h =>
    obtain ⟨name, hname⟩ := Option.isSome_iff_exists.1 h.2
    obtain ⟨rfl, -⟩ := isName_of_nameOf? hl hname
    refine ⟨⟨name, rfl⟩, ?_⟩
    rw [hentry ⟨":", .binary, "define", Power.define, .right⟩ (by decide) h.1]
    exact Phrase.power_join _ _ _
  split
  · next h =>
    have heq := hentry ⟨"~", .binary, "range", Power.range, .left⟩ (by decide) h
    have houter := houter (by simp [h, Operator.blockSymbols])
    rw [heq] at houter ⊢
    exact ⟨houter, Phrase.power_join _ _ _⟩
  split
  · next h =>
    have heq := hentry ⟨"'", .binary, "get", Power.get, .left⟩ (by decide) h
    have houter := houter (by simp [h, Operator.blockSymbols])
    rw [heq] at houter ⊢
    exact ⟨houter, rfl⟩
  · next hname htilde hget =>
    refine ⟨⟨by simp [*], fun hcolon => ?_, op, hop, fun hcolon => ?_⟩, ?_⟩
    · simpa [hcolon] using hname
    · exact houter (by simp [Operator.blockSymbols, hcolon, hq])
    · rw [phrase_binary hop]
      exact Phrase.power_join _ _ _

/-- A further operand makes a regular form with the power of the operator before it. -/
lemma Left.regular_of_join? {symbol : String} {op : Operator} {r : Expr} (hop : Operator.binary? symbol = some op)
    (hleft : left.expr.Throughout Regular) (hr : r.Throughout Regular)
    (houter : symbol ∉ Operator.blockSymbols → r.Outer op.rightPower) (h : left.join? symbol r = some left') :
    left'.expr.Throughout Regular ∧ left'.expr.phrase.power = op.power := by
  obtain ⟨rfl, rfl⟩ | ⟨rfl, params, hparams, rfl⟩ | ⟨hcomma, hq, rfl⟩ := Left.join?_cases h
  · have houter := houter (by simp [Operator.blockSymbols])
    rw [show Operator.binary? "," = some comma by decide] at hop
    cases hop
    have hne : left.elements ≠ [] := left.elements_ne_nil fun h => absurd (h ▸ hleft.self : Regular (.list [])).1
      (by decide)
    rw [Left.element_eq]
    exact regular_list (left.throughout_elements hleft) hne hr houter
  · have hrest := isRest_of_paramsOf? hparams
    rw [show Operator.binary? "?" = some ⟨"?", .binary, "lambda", Power.lambda, .right⟩ by decide] at hop
    cases hop
    refine ⟨.mk ⟨regular_of_paramsOf? hleft hparams, fun q hq => hrest q (List.mem_of_mem_dropLast hq)⟩ ?_,
      Phrase.power_join _ _ _⟩
    exact List.forall_mem_singleton.2 hr
  · exact regular_joined hop hleft hr houter hcomma hq

/-! ## Readings -/

/-- What a task reads is regular. Lines below it bind less tightly than the task asks for only after a block
operator, or where it starts with an operator that takes all that it can. -/
def Task.Shapes (c : Cursor) (e : Expr) : Task → Prop
  | .statements es => ∃ fs, e = sequenced (es ++ fs) ∧ ∀ f ∈ fs, f.Throughout Regular
  | .expr p | .operand p => e.Throughout Regular ∧ (c.afterHeader = false → Bears p c e)
  | .primary => e.Throughout Regular ∧ (c.afterHeader = false → e.phrase.tail → Heads c e)
  | .climb p left =>
    left.expr.Throughout Regular →
      e.Throughout Regular ∧ (left.expr.Blockless → e.phrase.tail → p ≤ e.phrase.power)

/-- A sequence of regular statements is regular. -/
lemma regular_sequenced {fs : List Expr} (h : ∀ f ∈ fs, f.Throughout Regular) :
    (sequenced fs).Throughout Regular := by
  unfold sequenced
  split
  · exact h _ List.mem_cons_self
  · exact .mk trivial (List.forall_mem_map.2 h)

/-- Nothing is indented below what has no block. -/
lemma not_tail_of_blockless (h : e.Blockless) (he : e.Throughout Regular) : ¬e.phrase.tail := by
  rw [(h.inner he).1]
  exact Bool.false_ne_true

/-- A group has a block only after a block operator, and none if it is one of bars. -/
lemma blockless_of_group (ends : c.Ends) (housed : Housed c.tokens) (hc : c.here.kind = .opening)
    (hne : c.advance.here.kind ≠ .closing) (hs : Reads (.statements []) c.advance e d)
    (hclosing : d.here.kind = .closing) (h : c.afterHeader = false ∨ c.here.lexeme = Operator.bar) :
    e.Blockless := by
  have hstart := afterHeader_advance_other ends (by simp [hc]) (by simp [hc])
  have ends' := (hs.progress ends.advance).1
  obtain ⟨fs, rfl, hnil, -, hdivides⟩ := hs.seats ends.advance (c.tokens_advance.symm ▸ housed) hstart
  rcases hdivides with ⟨hlength, hall⟩ | hdivides
  · cases fs with
    | nil =>
      rw [hnil rfl] at hclosing
      exact absurd hclosing hne
    | cons f fs =>
      obtain rfl : fs = [] := by simpa using hlength
      exact hall f List.mem_cons_self
  · obtain ⟨hheader, hbar, -⟩ := hdivides.housed (hs.levels ends.advance) housed ends ends' hc hclosing
    rcases h with h | h
    · rw [hheader] at h
      cases h
    · exact absurd h hbar

/-- The operand on the right of an operator that takes no block stands last. -/
lemma outer_of_right (ends : c.Ends) (housed : Housed c.tokens) (hk : c.here.kind = .operator)
    (hsymbol : c.here.lexeme ∉ Operator.blockSymbols) (he : Reads (.expr p) c.advance e d)
    (h : (Task.expr p).Shapes c.advance e) : e.Outer p := by
  have hplace := place_advance ends hk
  rw [if_neg hsymbol] at hplace
  have hafter : c.advance.afterHeader = false := by
    by_contra hne
    rw [Cursor.place, if_pos (by simpa using hne)] at hplace
    cases hplace
  obtain ⟨hseated, -, -⟩ := he.seats ends.advance (c.tokens_advance.symm ▸ housed) trivial
  rw [hplace] at hseated
  exact outer_of_bears h.1.self hseated (h.2 hafter)

/-- What is read from words of their kinds, with all separators housed, is regular. -/
theorem Reads.regular {task c e d} (h : Reads task c e d) (ends : c.Ends) (housed : Housed c.tokens)
    (worded : ∀ t ∈ c.tokens, t.Worded) (awaits : task.Awaits c) : task.Shapes c e := by
  generalize hlist : c.tokens = ts at housed worded
  induction h with
  | done _ => exact ⟨[], by simp, List.forall_mem_nil _⟩
  | @last es c e d _ _ _ ih =>
    exact ⟨[e], rfl, List.forall_mem_singleton.2 (ih ends trivial hlist).1⟩
  | @more es c e d f d' _ he hsep _ ih ih' =>
    have ends' := (he.progress ends).1
    have hstart : d.advance.afterHeader = false := afterHeader_advance_other ends' (by simp [hsep]) (by simp [hsep])
    obtain ⟨fs, rfl, hfs⟩ := ih' ends'.advance hstart (d.tokens_advance.trans (he.reaches.tokens_eq.trans hlist))
    exact ⟨e :: fs, by simp, List.forall_mem_cons.2 ⟨(ih ends trivial hlist).1, hfs⟩⟩
  | @expr p c e d f d' hoperand hclimb ih ih' =>
    have ends' := (hoperand.progress ends).1
    have hlist' := hoperand.reaches.tokens_eq.trans hlist
    obtain ⟨-, hclean, hafter⟩ := hoperand.seats ends (hlist ▸ housed) trivial
    have awaits' : (Task.climb p (.single e)).Awaits d := ⟨hafter, hclean.imp_right And.left⟩
    obtain ⟨he, hbears⟩ := ih ends trivial hlist
    obtain ⟨hf, hpower⟩ := ih' ends' awaits' hlist' he
    refine ⟨hf, fun hstart => ?_⟩
    by_cases hblockless : e.Blockless
    · exact fun ht => .inl (hpower hblockless ht)
    · obtain ⟨-, hstop, -⟩ := hclimb.seats ends' (hlist' ▸ housed) awaits'
      rw [(hstop hblockless).1]
      exact hbears hstart
  | @define p c e d hp hdef _ _ ih =>
    have hid := (startsDefine_iff.1 hdef).1
    obtain ⟨he, -⟩ := ih ends.advance.advance trivial
      (c.advance.tokens_advance.trans (c.tokens_advance.trans hlist))
    have hname : Regular (.identifier c.here.lexeme) := by
      have hadmits := worded c.here (hlist ▸ c.here_mem_tokens) (by simp [hid])
      rwa [hid] at hadmits
    have hparts : (Expr.identifier c.here.lexeme).Throughout Regular := .mk hname (List.forall_mem_nil _)
    refine ⟨.mk ⟨_, rfl⟩ (by simpa [Expr.parts] using ⟨hparts, he⟩), fun _ _ => .inl ?_⟩
    rw [Expr.phrase, Phrase.power_join]
    exact hp
  | @lambda p c params e d _ hp hhead _ _ ih =>
    obtain ⟨rfl, -⟩ := lambdaHead?_eq_some hhead
    have htokens : (c.skip (Parameter.listWidth (Parameter.listOf c.ahead))).tokens = c.tokens :=
      Cursor.Reaches.tokens_eq ⟨_, rfl⟩
    obtain ⟨he, -⟩ := ih (ends.skip _).advance trivial ((Cursor.tokens_advance _).trans (htokens.trans hlist))
    have hnames : ∀ q ∈ Parameter.listOf c.ahead, IsName q.name.toList := by
      intro q hq
      obtain ⟨t, ht, hk, hname⟩ := Parameter.exists_of_mem_listOf hq
      have hadmits := worded t (hlist ▸ List.mem_append_right _ ht) (by simp [hk])
      rw [hk] at hadmits
      rwa [hname]
    refine ⟨.mk ⟨hnames, Parameter.isRest_of_mem_dropLast _⟩ (List.forall_mem_singleton.2 he), fun _ _ => .inl ?_⟩
    rw [Expr.phrase, Phrase.power_join]
    exact hp
  | primary _ _ _ ih =>
    obtain ⟨he, hheads⟩ := ih ends trivial hlist
    exact ⟨he, fun hstart ht => .inr (hheads hstart ht)⟩
  | @atom c e ha =>
    obtain ⟨he, hblockless⟩ := regular_of_atom? (worded _ (hlist ▸ c.here_mem_tokens)) ha
    exact ⟨he, fun _ ht => absurd ht (not_tail_of_blockless hblockless he)⟩
  | @thunk c e d hq _ _ ih =>
    obtain ⟨he, -⟩ := ih ends.advance trivial (c.tokens_advance.trans hlist)
    have hparams : Regular (.lambda [] e) := ⟨List.forall_mem_nil _, List.forall_mem_nil _⟩
    exact ⟨.mk hparams (List.forall_mem_singleton.2 he), fun _ _ => .inl ⟨hq, e, rfl⟩⟩
  | @leading c op e d hk hq hbar hop _ he ih =>
    have hshape := ih ends.advance trivial (c.tokens_advance.trans hlist)
    have houter := outer_of_right ends (hlist ▸ housed) hk (not_block_of_leading? hop) he hshape
    rw [(Operator.rightPower_of_leading? hop hbar).1] at houter
    have hregular : Regular (.unary c.here.lexeme true e) := by
      rw [Regular, if_neg hbar, if_pos rfl]
      exact ⟨op, hop, houter⟩
    exact ⟨.mk hregular (List.forall_mem_singleton.2 hshape.1), fun _ _ => .inr ⟨hk, hbar, e, rfl⟩⟩
  | @bars c e d hc hbar hne hs hclosing ih =>
    have hstart := afterHeader_advance_other ends (by simp [hc]) (by simp [hc])
    obtain ⟨fs, heq, hfs⟩ := ih ends.advance hstart (c.tokens_advance.trans hlist)
    have he : e.Throughout Regular := heq ▸ regular_sequenced hfs
    have hblockless := blockless_of_group ends (hlist ▸ housed) hc hne hs hclosing (.inr hbar)
    have hregular : Regular (.unary Operator.bar true e) := by
      rw [Regular, if_pos rfl]
      exact ⟨rfl, hblockless.inner he⟩
    exact ⟨.mk hregular (List.forall_mem_singleton.2 he), fun _ ht => by cases ht⟩
  | emptyGroup => exact ⟨.mk trivial (List.forall_mem_nil _), fun _ ht => by cases ht⟩
  | @bareSymbol c _ _ hfree _ =>
    simp only [headsPointFree, Bool.and_eq_true] at hfree
    exact ⟨.mk hfree.1.2 (List.forall_mem_nil _), fun _ ht => by cases ht⟩
  | @preset c e d _ _ hfree _ _ _ ih =>
    obtain ⟨he, -⟩ := ih ends.advance.advance trivial
      (c.advance.tokens_advance.trans (c.tokens_advance.trans hlist))
    simp only [headsPointFree, Bool.and_eq_true] at hfree
    exact ⟨.mk hfree.1.2 (List.forall_mem_singleton.2 he), fun _ ht => by cases ht⟩
  | @group c e d hc _ hne _ hs hclosing ih =>
    have hstart := afterHeader_advance_other ends (by simp [hc]) (by simp [hc])
    obtain ⟨fs, heq, hfs⟩ := ih ends.advance hstart (c.tokens_advance.trans hlist)
    have he : e.Throughout Regular := heq ▸ regular_sequenced hfs
    refine ⟨he, fun hafter ht => absurd ht (not_tail_of_blockless ?_ he)⟩
    exact blockless_of_group ends (hlist ▸ housed) hc hne hs hclosing (.inl hafter)
  | stop _ => exact fun hleft => ⟨hleft, fun hblockless ht => absurd ht (not_tail_of_blockless hblockless hleft)⟩
  | @trail p left c e d hm _ ih =>
    intro hleft
    have hblockless := blockless_of_move awaits.2 hm (by simp)
    have htrails := lexeme_of_trails (trails_of_trail hm)
    have hform : (Expr.unary c.here.lexeme false left.expr).Blockless :=
      .mk rfl (List.forall_mem_singleton.2 hblockless)
    have hregular : Regular (.unary c.here.lexeme false left.expr) := by
      have hbar : c.here.lexeme ≠ Operator.bar := by rcases htrails with h | h <;> simp [h, Operator.bar]
      rw [Regular, if_neg hbar, if_neg Bool.false_ne_true]
      exact htrails
    obtain ⟨he, hpower⟩ := ih ends.advance ⟨afterHeader_of_trail ends hm, .inl hform⟩ (c.tokens_advance.trans hlist)
      (.mk hregular (List.forall_mem_singleton.2 hleft))
    exact ⟨he, fun _ => hpower hform⟩
  | @join p op left left' c e d f d' hm _ he hjoin hclimb ih ih' =>
    intro hleft
    have hblockless := blockless_of_move awaits.2 hm (by simp)
    have hk := kind_of_moveAt hm (by simp) (by simp)
    have ends' := (he.progress ends.advance).1
    have hlist' := he.reaches.tokens_eq.trans (c.tokens_advance.trans hlist)
    have hshape := ih ends.advance trivial (c.tokens_advance.trans hlist)
    obtain ⟨hseated, hclean, hafter⟩ := he.seats ends.advance (c.tokens_advance.symm ▸ hlist ▸ housed) trivial
    rw [place_advance ends hk] at hseated
    have hblockless' := (Left.seated_of_join? hblockless hseated hjoin).2
    obtain ⟨hleft', hop⟩ := Left.regular_of_join? (binary?_of_join hm) hleft hshape.1
      (fun hsymbol => outer_of_right ends (hlist ▸ housed) hk hsymbol he hshape) hjoin
    have awaits' : (Task.climb p left').Awaits d := ⟨hafter, hclean.imp hblockless' And.left⟩
    obtain ⟨hf, hpower⟩ := ih' ends' awaits' hlist' hleft'
    refine ⟨hf, fun _ ht => ?_⟩
    by_cases hform : left'.expr.Blockless
    · exact hpower hform ht
    · obtain ⟨-, hstop, -⟩ := hclimb.seats ends' (hlist' ▸ housed) awaits'
      rw [(hstop hform).1, hop]
      exact power_le_of_join hm
  | @argue p left c e d f d' hm he hclimb ih ih' =>
    intro hleft
    have hblockless := blockless_of_move awaits.2 hm (by simp)
    have ends' := (he.progress ends).1
    have hlist' := he.reaches.tokens_eq.trans hlist
    obtain ⟨hregular, hbears⟩ := ih ends trivial hlist
    obtain ⟨hseated, hclean, hafter⟩ := he.seats ends (hlist ▸ housed) trivial
    rw [Cursor.place, awaits.1] at hseated
    have hblockless' := (Left.seated_argument hblockless hseated).2
    obtain ⟨hleft', happly⟩ := Left.regular_argument hleft hregular
      (argues_of_bears hregular.self hseated (hbears awaits.1) hm)
    have awaits' : (Task.climb p (left.argument e)).Awaits d := ⟨hafter, hclean.imp hblockless' And.left⟩
    obtain ⟨hf, hpower⟩ := ih' ends' awaits' hlist' hleft'
    refine ⟨hf, fun _ ht => ?_⟩
    by_cases hform : (left.argument e).expr.Blockless
    · exact hpower hform ht
    · obtain ⟨-, hstop, -⟩ := hclimb.seats ends' (hlist' ▸ housed) awaits'
      rw [(hstop hform).1, happly]
      exact (of_argue hm).1

end Parser

end SignLang
