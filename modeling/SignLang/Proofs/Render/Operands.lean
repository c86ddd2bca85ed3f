import SignLang.Proofs.Render.Reading

/-!
# Operands are read back

The forms that the parser knows by their first token: single words, groups, operators before or after
their operand, definitions and functions. If the tokens of the parts of such a form are read as those
parts, its own tokens are read as the form.
-/

namespace SignLang

open Item SignLang.Parser

/-- A right-hand side does not change the power that its head gives. -/
@[simp] lemma Phrase.power_join (head : List Item) (p : Phrase) (power : Nat) :
    (join head p power).power = power := by
  unfold join
  split <;> rfl

/-- What follows a head ends as its right-hand side does. -/
lemma Phrase.join_ends (head : List Item) {p : Phrase} (hb : p.isBlock = false) (power : Nat) :
    (join head p power).tail = p.tail ∧ (join head p power).loose = p.loose := by
  simp [join, hb, tail]

/-- The last token of a legible line is written and ends where the line does. -/
lemma Legible.getLast?_tokens {line : List Item} (h : Legible line) {offset : Int}
    {us : List Token} (hus : Spelled offset line us) :
    ∃ init u, us = init ++ [u] ∧ u.stop = offset + (textOf line).length ∧ u.synthetic = false := by
  obtain ⟨a, kind, lexeme, rfl, -⟩ := h.exists_last_word
  obtain ⟨us, u, rfl, hu⟩ := hus.getLast?
  refine ⟨us, u, rfl, ?_, hu.written⟩
  simp [Token.stop, hu.offset_eq, hu.lexeme_eq, Item.text, String.length_toList, Int.add_assoc]

/-- The tokens of a parameter list are its parameters, and a question mark after them. -/
lemma Parameter.spelled_head {params : List Parameter} (hrest : ∀ p ∈ params.dropLast, p.isRest = false)
    {offset : Int} {hs : List Token} (h : Spelled offset (head params) hs) :
    ∃ ps q, hs = ps ++ [q] ∧ q.isSymbol "?" ∧ ps.length = listWidth params ∧
      (∀ t ∈ ps, t.kind = .identifier ∨ t.isSymbol "~") ∧ ps.getLast?.all (·.kind = .identifier) ∧
      ∀ rest, listOf (ps ++ q :: rest) = params := by
  induction params generalizing offset hs with
  | nil =>
    obtain ⟨q, _, rfl, hq, rfl⟩ := h
    exact ⟨[], q, rfl, hq.isSymbol, rfl, nofun, rfl, fun rest => listOf_eq_nil (by simp [hq.kind_eq])
      (Token.isSymbol_of_lexeme (by simp [hq.lexeme_eq])) rest⟩
  | cons p params ih =>
    have heq : head (p :: params) = p.items ++ gap :: head params := by simp [head]
    rw [heq, items] at h
    obtain ⟨name, isRest⟩ := p
    cases isRest with
    | false =>
      obtain ⟨t, hs, rfl, ht, h⟩ := h
      obtain ⟨ps, q, rfl, hq, hlength, hall, hlast, hlist⟩ := ih (fun p hp => by
        cases params with
        | nil => cases hp
        | cons p' params => exact hrest p (List.mem_cons_of_mem _ hp)) h
      refine ⟨t :: ps, q, rfl, hq, ?_, ?_, ?_, fun rest => ?_⟩
      · simp only [List.length_cons, hlength]
        simp [listWidth, width, Nat.add_comm]
      · rw [List.forall_mem_cons]
        exact ⟨.inl ht.kind_eq, hall⟩
      · cases ps with
        | nil => simp [ht.kind_eq]
        | cons u ps => rwa [List.getLast?_cons_cons]
      · rw [List.cons_append, listOf_name ht.kind_eq, hlist, ht.lexeme_eq]
    | true =>
      cases params with
      | cons p' params => exact absurd (hrest _ List.mem_cons_self) (by simp)
      | nil =>
        obtain ⟨t, _, rfl, ht, u, _, rfl, hu, q, _, rfl, hq, rfl⟩ := h
        refine ⟨[t, u], q, rfl, hq.isSymbol, rfl, ?_, ?_, ?_⟩
        · simp [ht.isSymbol, hu.kind_eq]
        · simp [hu.kind_eq]
        · intro rest
          rw [List.cons_append, listOf_other (by simp [ht.kind_eq])]
          simp [restOf, ht.isSymbol, hu.kind_eq, hu.lexeme_eq]

namespace Operator

/-- The powers of the operators between two operands. -/
lemma rightPower_of_binary? {s : String} {op : Operator} (h : binary? s = some op) :
    Power.define ≤ op.power ∧ op.power ≤ op.rightPower ∧ op.rightPower < Power.atom := by
  have hall : ∀ op ∈ binaryTable,
      Power.define ≤ op.power ∧ op.power ≤ op.rightPower ∧ op.rightPower < Power.atom := by
    decide
  exact hall op (List.mem_of_find?_eq_some h)

/-- The powers of the operators before an operand, but for the bar. -/
lemma rightPower_of_leading? {s : String} {op : Operator} (h : leading? s = some op)
    (hs : s ≠ bar) :
    op.rightPower = op.power ∧ (op.power = Power.define ∨ op.power = Power.leading) := by
  have hall : ∀ op ∈ leadingTable, op.symbol ≠ bar →
      op.rightPower = op.power ∧ (op.power = Power.define ∨ op.power = Power.leading) := by
    decide
  exact hall op (List.mem_of_find?_eq_some h) (symbol_of_leading? h ▸ hs)

/-- The operators between two operands, but for four that make other forms, bind less tightly than
an operator before its operand. -/
lemma power_lt_leading {s : String} {op : Operator}
    (hop : binary? s = some op) (hs : s ∉ ["?", ",", "~", "'"]) :
    op.rightPower < Power.leading := by
  have hall : ∀ op ∈ binaryTable, op.symbol ∉ ["?", ",", "~", "'"] →
      op.rightPower < Power.leading := by
    decide
  exact hall op (List.mem_of_find?_eq_some hop) (symbol_of_binary? hop ▸ hs)

end Operator

namespace Expr

/-- An expression that is no block binds at least as tightly as a definition, and reads its last
operand at its own power or a higher one. -/
lemma Printable.power_le {e : Expr} (h : e.Printable) (hb : e.phrase.isBlock = false) :
    Power.define ≤ e.phrase.power ∧ e.phrase.power ≤ e.reach := by
  cases e with
  | literal | identifier | unit | emptyList | define | lambda =>
    simp [phrase, reach, Phrase.atom, Power.define, Power.lambda, Power.atom]
  | pointFree s preset =>
    cases preset <;> simp [phrase, reach, Phrase.pointFree, Power.define, Power.atom]
  | block => cases hb
  | range | get =>
    simp [phrase, reach, Phrase.range, Phrase.get, Power.define, Power.range, Power.get]
  | apply =>
    obtain ⟨-, -, init, last, rfl, -⟩ := h.of_apply
    rw [phrase_apply]
    simp [reach, Phrase.apply, Power.define, Power.apply]
  | list =>
    obtain ⟨first, middle, last, rfl, -⟩ := h.of_list
    rw [phrase_list]
    simp [reach, Phrase.list, Power.define, Power.product]
  | binary s =>
    obtain ⟨-, -, -, -, -, op, hop, -⟩ := h
    have := Operator.rightPower_of_binary? hop
    simp [phrase, reach, hop, Phrase.binary, this]
  | unary s leads operand =>
    obtain ⟨-, h⟩ := h
    by_cases hbar : s = Operator.bar
    · simp [phrase, reach, hbar, Phrase.bars, Power.define, Power.atom]
    rw [if_neg hbar] at h
    cases leads with
    | false => simp [phrase, reach, hbar, Phrase.trailing, Power.define, Power.trailing, Power.atom]
    | true =>
      obtain ⟨op, hop, -⟩ := h
      obtain ⟨hright, hpower⟩ := Operator.rightPower_of_leading? hop hbar
      have hdefine : Power.define ≤ op.power := by
        rcases hpower with h | h
        · exact h.ge
        · rw [h]
          decide
      simpa [phrase, reach, hbar, hop, Phrase.leading, hright] using hdefine

/-- An expression in place of another at its end ends where that one does. -/
lemma Ends.right {e r : Expr} {p q : Nat} {d : Cursor} (h : e.Ends p d) (hq : e.reach = q)
    (hr : r.phrase.power ≤ r.reach) (htail : e.phrase.tail = r.phrase.tail)
    (hloose : e.phrase.loose = r.phrase.loose) (hbare : q ≤ r.phrase.power ∨ r.phrase.tail) :
    r.Ends q d := by
  have hedge : e.edge ≤ q := by
    unfold edge
    split
    · exact Nat.zero_le _
    · exact hq.le
  refine ⟨moveAt_mono ?_ h.stop, hloose ▸ h.loose, h.clear, fun hp _ => ?_⟩
  · unfold edge
    rw [htail]
    split
    · exact le_rfl
    · next ht => exact hq.le.trans ((hbare.resolve_right ht).trans hr)
  · exact isSymbol_colon_of_stop (hedge.trans hp) h.stop

/-- Nothing binds after an expression at the power at which its last operand is read. -/
lemma Ends.stop_reach {e : Expr} {p : Nat} {d : Cursor} (h : e.Ends p d) :
    moveAt e.reach d = .stop := by
  refine moveAt_mono ?_ h.stop
  unfold edge
  split
  · exact Nat.zero_le _
  · exact le_rfl

/-- The operand at the end of an expression is read. -/
lemma Ends.reads {e r : Expr} {p : Nat} {c d : Cursor} {ts : List Token} {bare : Prop}
    (h : e.Ends p d) (hr : r.Printable) (abs : r.Absorbed) (hplaced : r.Placed bare ts)
    (hbare : r.phrase.isBlock = false → bare → e.phrase.tail = r.phrase.tail ∧
      e.phrase.loose = r.phrase.loose ∧ (e.reach ≤ r.phrase.power ∨ r.phrase.tail ∧ r.isPrefixed))
    (hpass : c.Passes d ts) : c.here.startsOperand ∧ Reads (.expr e.reach) c r d := by
  have readable := readable_of_printable hr
  refine ⟨hplaced.first readable hpass,
    hplaced.reads abs readable hpass (fun hb hbare' => ?_) h.stop_reach⟩
  obtain ⟨htail, hloose, hpower⟩ := hbare hb hbare'
  refine ⟨h.right rfl (hr.power_le hb).2 htail hloose (hpower.imp_right And.left), ?_⟩
  exact hpower.imp_right And.right

/-! ## Single words and groups -/

/-- An expression that is read as an operand from its opening bracket on. -/
lemma Absorbed.of_opening {e : Expr} (hhang : ¬e.Hangs) (hleft : e.leftOf = .single e)
    (hopen : ∀ {ts}, e.phrase.Streams ts → ∃ t rest, ts = t :: rest ∧ t.kind = .opening)
    (hread : ∀ {ts c d}, e.phrase.Streams ts → c.Passes d ts → Reads .primary c e d) :
    e.Absorbed := by
  refine ⟨fun _ hs hpass _ _ => ?_, fun _ hs _ _ => ?_, fun hang => absurd hang hhang⟩
  · obtain ⟨t, rest, rfl, ht⟩ := hopen hs
    obtain ⟨hdefine, hlambda⟩ := starts_of_opening (hpass.1.symm ▸ ht)
    rw [hleft]
    exact .primary (hread hs hpass) (fun _ => hdefine) fun _ => hlambda
  · obtain ⟨t, rest, rfl, ht⟩ := hopen hs
    exact continuesHead_of_kind (by simp [ht]) (by simp [ht]) _

/-- A word alone is read as the expression that it is. -/
lemma Absorbed.of_word {e : Expr} {kind : Kind} {lexeme : String} {power : Nat}
    (hphrase : e.phrase = ⟨[word kind lexeme], .done, power, false, false⟩)
    (hhang : ¬e.Hangs) (hleft : e.leftOf = .single e) (hname : kind = .identifier → (nameOf? e).isSome)
    (hatom : ∀ {t offset}, t.Spells kind lexeme offset → atom? t = some e) : e.Absorbed := by
  have htoken {ts : List Token} (hs : e.phrase.Streams ts) :
      ∃ t offset, ts = [t] ∧ t.Spells kind lexeme offset := by
    rw [hphrase] at hs
    obtain ⟨offset, us, outline, ⟨t, rest, rfl, ht, rfl⟩, hout, rfl⟩ := hs
    cases hout
    exact ⟨t, offset, rfl, ht⟩
  have hclear {t : Token} {offset : Int} (ht : t.Spells kind lexeme offset) {rest : List Token}
      (hrest : continuesHead rest = false) : continuesHead (t :: rest) = false := by
    by_cases hk : t.kind = .identifier
    · rw [continuesHead_name hk, hrest]
    · have hne : t.kind ≠ .operator := by
        intro hop
        have := hatom ht
        simp [atom?, hop] at this
      exact continuesHead_of_kind hk hne _
  refine ⟨fun _ hs hpass hends _ => ?_, fun _ hs _ hrest => ?_, fun hang => absurd hang hhang⟩
  · obtain ⟨t, offset, rfl, ht⟩ := htoken hs
    have hahead := hpass.ahead_eq
    obtain ⟨rfl, -, rfl⟩ := hpass
    rw [hleft]
    refine .primary (.atom (hatom ht)) (fun hp => ?_) fun _ => lambdaHead?_eq_none ?_
    · by_contra hstarts
      rw [Bool.not_eq_false, startsDefine_iff] at hstarts
      have hcolon := hends.name hp (hname (ht.kind_eq ▸ hstarts.1))
      rw [Cursor.here_advance, hstarts.2] at hcolon
      cases hcolon
    · rw [hahead]
      exact hclear ht hends.clear
  · obtain ⟨t, offset, rfl, ht⟩ := htoken hs
    exact hclear ht hrest

/-- The tokens of a phrase with nothing below it are those of its line. -/
lemma spelled_of_streams {line : List Item} {power : Nat} {isBlock loose : Bool} {ts : List Token}
    (h : Phrase.Streams ⟨line, .done, power, isBlock, loose⟩ ts) : ∃ offset, Spelled offset line ts := by
  obtain ⟨offset, us, outline, hus, hout, rfl⟩ := h
  cases hout
  exact ⟨offset, hus⟩

/-- An expression that stands somewhere before a closing bracket is read as the sequence before it. -/
lemma Placed.sequence {bare : Prop} {e : Expr} {ts : List Token} {c d : Cursor} (h : e.Placed bare ts)
    (abs : e.Absorbed) (readable : e.Readable) (hpass : c.Passes d ts) (hd : d.here.kind = .closing) :
    Reads (.statements []) c e d := by
  have hend : d.here.isEnd := by simp [Token.isEnd, hd]
  have hstart := h.first readable hpass
  have hread : Reads (.expr 0) c e d := h.reads abs readable hpass
    (fun _ _ => ⟨.of_isEnd hend 0 e, .inl (Nat.zero_le _)⟩) (moveAt_of_isEnd hend 0)
  refine @Reads.last [] c e d ?_ hread (by simp [hd])
  rintro (hc | hc) <;> simp [Token.startsOperand, hc] at hstart

/-- The empty list is read back. -/
lemma absorbed_emptyList : emptyList.Absorbed := by
  have htokens {ts : List Token} (h : emptyList.phrase.Streams ts) :
      ∃ t t', ts = [t, t'] ∧ t.kind = .opening ∧ t.lexeme = "[" ∧ t'.kind = .closing := by
    obtain ⟨offset, hs⟩ := spelled_of_streams h
    obtain ⟨t, us, t', _, _, rfl, ht, rfl, ht'⟩ := spelled_enclosed (a := []) hs
    exact ⟨t, t', rfl, ht.kind_eq, ht.lexeme_eq, ht'.kind_eq⟩
  refine .of_opening (by rintro ⟨⟩) rfl (fun hs => ?_) fun hs hpass => ?_
  · obtain ⟨t, t', rfl, ht, -⟩ := htokens hs
    exact ⟨t, [t'], rfl, ht⟩
  · obtain ⟨t, t', rfl, ht, hlexeme, ht'⟩ := htokens hs
    obtain ⟨rfl, -, rfl, -, rfl⟩ := hpass
    exact .emptyGroup ht (by rw [hlexeme]; decide) ht'

/-- An absolute value is read back. -/
lemma absorbed_bars {operand : Expr} (hoperand : operand.Printable) (abs : operand.Absorbed)
    (inner : operand.Inner) : (unary Operator.bar true operand).Absorbed := by
  have readable := readable_of_printable hoperand
  have htokens {ts : List Token} (h : (unary Operator.bar true operand).phrase.Streams ts) :
      ∃ t us t', ts = t :: us ++ [t'] ∧ t.kind = .opening ∧ t.lexeme = "|" ∧ t'.kind = .closing ∧
        operand.Placed True us := by
    obtain ⟨offset, hs⟩ := spelled_of_streams h
    obtain ⟨t, us, t', offset', _, rfl, ht, hus, ht'⟩ := spelled_enclosed hs
    refine ⟨t, us, t', rfl, ht.kind_eq, ht.lexeme_eq, ht'.kind_eq, ?_⟩
    split at hus
    · exact .of_bracketed inner.1 inner.2 ⟨offset', us, .done, hus, .done, rfl⟩
    · refine .bare trivial inner.2 ⟨offset', us, .done, hus, ?_, rfl⟩
      rw [Phrase.body_eq_done inner.1 inner.2]
      exact .done
  refine .of_opening (by rintro ⟨⟩) rfl (fun hs => ?_) fun {ts c d} hs hpass => ?_
  · obtain ⟨t, us, t', rfl, ht, -⟩ := htokens hs
    exact ⟨t, us ++ [t'], rfl, ht⟩
  · obtain ⟨t, us, t', rfl, ht, hlexeme, ht', hplaced⟩ := htokens hs
    rw [List.cons_append] at hpass
    obtain ⟨rfl, -, hpass⟩ := hpass
    obtain ⟨m, hinside, rfl, -, rfl⟩ := Cursor.passes_append.1 hpass
    have hstart := hplaced.first readable hinside
    refine .bars ht hlexeme ?_ (hplaced.sequence abs readable hinside ht') ht'
    intro hc
    simp [Token.startsOperand, hc] at hstart

/-- An operator without operands is read back. -/
lemma absorbed_bareSymbol {s : String} (hs : Operator.isPointFree s) :
    (pointFree s none).Absorbed := by
  have htokens {ts : List Token} (h : (pointFree s none).phrase.Streams ts) :
      ∃ t u t', ts = [t, u, t'] ∧ t.kind = .opening ∧ t.lexeme = "[" ∧ u.kind = .operator ∧
        u.lexeme = s ∧ t'.kind = .closing := by
    obtain ⟨offset, hs⟩ := spelled_of_streams h
    obtain ⟨t, us, t', _, _, rfl, ht, ⟨u, us, rfl, hu, rfl⟩, ht'⟩ :=
      spelled_enclosed (a := [symbol s]) hs
    exact ⟨t, u, t', rfl, ht.kind_eq, ht.lexeme_eq, hu.kind_eq, hu.lexeme_eq, ht'.kind_eq⟩
  refine .of_opening (by rintro ⟨⟩) rfl (fun hs => ?_) fun hs' hpass => ?_
  · obtain ⟨t, u, t', rfl, ht, -⟩ := htokens hs
    exact ⟨t, [u, t'], rfl, ht⟩
  · obtain ⟨t, u, t', rfl, ht, hlexeme, hu, rfl, ht'⟩ := htokens hs'
    obtain ⟨rfl, -, rfl, -, rfl, -, rfl⟩ := hpass
    refine .bareSymbol ht (by rw [hlexeme]; decide) ?_ ht'
    rw [Cursor.here_advance] at ht'
    simp [Cursor.headsPointFree, hu, hs, Token.startsOperand, ht']

/-- An operator with a right operand only is read back. -/
lemma absorbed_preset {s : String} {preset : Expr} (hs : Operator.isPointFree s)
    (hpreset : preset.Printable) (abs : preset.Absorbed) (inner : preset.Inner) :
    (pointFree s (some preset)).Absorbed := by
  have readable := readable_of_printable hpreset
  have htokens {ts : List Token} (h : (pointFree s (some preset)).phrase.Streams ts) :
      ∃ t u us t' offset, ts = t :: (u :: us) ++ [t'] ∧ t.kind = .opening ∧ t.lexeme = "[" ∧
        u.Spells .operator s offset ∧ t'.kind = .closing ∧
        us.head?.all (u.stop + 1 = ·.offset) ∧
        preset.Placed (Power.product + 1 ≤ preset.phrase.power ∨ preset.phrase.tail) us := by
    obtain ⟨offset, hs⟩ := spelled_of_streams h
    obtain ⟨t, us, t', offset', _, rfl, ht, ⟨u, us, rfl, hu, hus⟩, ht'⟩ :=
      spelled_enclosed (a := symbol s :: gap :: _) hs
    refine ⟨t, u, us, t', offset', rfl, ht.kind_eq, ht.lexeme_eq, hu, ht'.kind_eq, ?_, ?_⟩
    · have hleads := ((readable.inner inner).wrap (Power.product + 1)).first
      obtain ⟨_, _, _, v, us, -, rfl, hv, -⟩ := hleads.exists_token hus
      simp [Token.stop, hu.offset_eq, hu.lexeme_eq, hv.offset_eq]
    · refine .of_wrap inner.2 ⟨_, us, .done, hus, ?_, rfl⟩
      rw [Phrase.body_eq_done (Phrase.tail_wrap inner.1 _) (Phrase.isBlock_wrap inner.2 _)]
      exact .done
  refine .of_opening (by rintro ⟨⟩) rfl (fun hs => ?_) fun {ts c d} hs' hpass => ?_
  · obtain ⟨t, u, us, t', _, rfl, ht, -⟩ := htokens hs
    exact ⟨t, u :: us ++ [t'], rfl, ht⟩
  · obtain ⟨t, u, us, t', offset, rfl, ht, hlexeme, hu, ht', hoffset, hplaced⟩ := htokens hs'
    rw [List.cons_append, List.cons_append] at hpass
    obtain ⟨rfl, -, rfl, -, hpass⟩ := hpass
    obtain ⟨m, hinside, rfl, -, rfl⟩ := Cursor.passes_append.1 hpass
    have hstart := hplaced.first readable hinside
    have hend : m.here.isEnd := by simp [Token.isEnd, ht']
    have hread : Reads (.expr (Power.product + 1)) c.advance.advance preset m :=
      hplaced.reads abs readable hinside (fun _ hp => ⟨.of_isEnd hend _ _, .inl (by simpa [inner.1] using hp)⟩)
        (moveAt_of_isEnd hend _)
    have hcomma := pastComma_of_stop (.inl ht')
    have hlast := @Reads.preset c preset m ht (by rw [hlexeme]; decide) ?_ hstart hread
      (by rw [hcomma]; exact ht')
    · rwa [hcomma, hu.lexeme_eq] at hlast
    · have htouches : c.advance.here.touches c.advance.next = false := by
        rw [← Cursor.here_advance]
        cases us with
        | nil =>
          obtain rfl : c.advance.advance = m := hinside
          simp [Token.startsOperand, ht'] at hstart
        | cons v us =>
          obtain ⟨rfl, -⟩ := hinside
          simp only [List.head?_cons, Option.all_some, decide_eq_true_eq] at hoffset
          simp [Token.touches, ← hoffset]
      simp [Cursor.headsPointFree, hu.kind_eq, hu.lexeme_eq, hs, htouches]

/-! ## Operators before and after an operand -/

/-- An expression that takes all that follows starts with an operator. -/
lemma Printable.line_of_isPrefixed {e : Expr} (h : e.Printable) (hpre : e.isPrefixed) :
    ∃ s rest, e.phrase.line = symbol s :: rest := by
  cases e with
  | lambda params body =>
    cases params with
    | nil =>
      rw [phrase, Phrase.join]
      split
      · exact ⟨"?", [], rfl⟩
      · exact ⟨"?", _, rfl⟩
    | cons => cases hpre
  | unary s leads operand =>
    simp only [isPrefixed, Bool.and_eq_true, decide_eq_true_eq] at hpre
    obtain ⟨rfl, hbar⟩ := hpre
    obtain ⟨-, h⟩ := h
    rw [if_neg hbar] at h
    obtain ⟨op, hop, -⟩ := h
    simp only [phrase, if_neg hbar, hop]
    exact ⟨op.symbol, _, rfl⟩
  | _ => cases hpre

/-- The tokens are a name and a question mark, as after the tilde of a rest parameter. -/
def continuesRest (ts : List Token) : Bool :=
  ts.head?.any (·.kind = .identifier) && ts.tail.head?.any (·.isSymbol "?")

/-- A name and a question mark continue the head of a function. -/
lemma continuesRest_eq_false {ts : List Token} (h : continuesHead ts = false) :
    continuesRest ts = false := by
  by_contra hrest
  simp only [continuesRest, Bool.not_eq_false, Bool.and_eq_true] at hrest
  match ts, hrest, h with
  | t :: u :: rest, hrest, h =>
    have ht : t.kind = .identifier := by simpa using hrest.1
    have hu : u.isSymbol "?" := by simpa using hrest.2
    have hk : u.kind ≠ .identifier := by
      intro hk
      simp [Token.isSymbol, hk] at hu
    rw [continuesHead_name ht, continuesHead, if_neg hk, hu] at h
    cases h

/-- An operand after a tilde makes no rest parameter. -/
lemma Placed.continuesRest {bare : Prop} {e : Expr} {ts rest : List Token} (h : e.Placed bare ts)
    (he : e.Printable) (abs : e.Absorbed) (hbare : bare → Power.lambda < e.phrase.power ∨ e.isPrefixed)
    (hrest : continuesHead rest = false) : continuesRest (ts ++ rest) = false := by
  by_cases hpre : e.isPrefixed
  · cases h with
    | bare hb hblock hs =>
      obtain ⟨s, line, hline⟩ := he.line_of_isPrefixed hpre
      obtain ⟨offset, us, outline, hus, -, rfl⟩ := hs
      rw [hline] at hus
      obtain ⟨t, us, rfl, ht, -⟩ := hus
      obtain ⟨more, hmore⟩ := streamOf_cons t us outline.tokens
      simp [Expr.continuesRest, hmore, ht.kind_eq]
    | grouped hang hs hts =>
      obtain ⟨opener, closer, hopen, -, -, rfl⟩ := hts
      simp [Expr.continuesRest, hopen]
  · refine continuesRest_eq_false (h.clear abs (fun hb => ?_) hrest)
    exact .inl ((hbare hb).resolve_right hpre)

/-- A tilde leads to the question mark of a function only before a rest parameter. -/
lemma continuesHead_tilde {t : Token} (ht : t.isSymbol "~") {rest : List Token}
    (h : continuesRest rest = false) : continuesHead (t :: rest) = false := by
  obtain ⟨hk, hlexeme⟩ := Token.isSymbol_iff.1 ht
  rw [continuesHead, if_neg (by simp [hk]), ht, Token.isSymbol_of_lexeme (by simp [hlexeme])]
  simpa [continuesRest] using h

/-- An operand with an operator before it is read back. -/
lemma absorbed_leading {s : String} {op : Operator} {operand : Expr} (hs : s ≠ Operator.bar)
    (hop : Operator.leading? s = some op) (hoperand : operand.Printable) (abs : operand.Absorbed)
    (glues : operand.Glues op.power) : (unary s true operand).Absorbed := by
  have hphrase : (unary s true operand).phrase = .leading op operand.phrase := by
    simp [phrase, hs, hop]
  have hreach : (unary s true operand).reach = op.rightPower := by
    simp [reach, hs, hop]
  obtain ⟨hright, hpower⟩ := Operator.rightPower_of_leading? hop hs
  have hmem : s ∈ ["#", "@", "-", "!", "~", "$"] :=
    Operator.mem_of_leadsOperand (by simp [Operator.leadsOperand, hs, hop])
  have hquestion : s ≠ "?" := by
    rintro rfl
    exact absurd hmem (by decide)
  have hbare (hp : op.power ≤ operand.phrase.power ∨ operand.phrase.tail) :
      op.power ≤ operand.phrase.power ∨ operand.phrase.tail ∧ operand.isPrefixed := by
    by_cases hle : op.power ≤ operand.phrase.power
    · exact .inl hle
    · have ht := hp.resolve_left hle
      exact .inr ⟨ht, (glues.1.2 ht).resolve_left hle⟩
  have htokens {ts : List Token} (h : (unary s true operand).phrase.Streams ts) :
      ∃ t rest, ts = t :: rest ∧ t.kind = .operator ∧ t.lexeme = s ∧ operand.Placed
        (operand.phrase.glued op.power = operand.phrase ∧
          (op.power ≤ operand.phrase.power ∨ operand.phrase.tail)) rest := by
    rw [hphrase] at h
    obtain ⟨offset, us, outline, ⟨t, us, rfl, ht, hus⟩, hout, rfl⟩ := h
    rw [Operator.symbol_of_leading? hop] at ht
    have hheader : t.isHeader = false := by
      have hall : ∀ s ∈ ["#", "@", "-", "!", "~", "$"], (symbol s).isHeader = false := by decide
      rw [ht.isHeader_eq]
      exact hall s hmem
    refine ⟨t, streamOf us outline.tokens, ?_, ht.kind_eq, ht.lexeme_eq, .of_glued glues ?_⟩
    · exact @streamOf_append _ [t] us (by simpa using hheader)
    · exact ⟨_, us, outline, hus, hout, rfl⟩
  have hclear {t : Token} {us rest : List Token} (ht : t.kind = .operator) (hlexeme : t.lexeme = s)
      (hplaced : operand.Placed (operand.phrase.glued op.power = operand.phrase ∧
          (op.power ≤ operand.phrase.power ∨ operand.phrase.tail)) us)
      (hrest : continuesHead rest = false) : continuesHead (t :: us ++ rest) = false := by
    rw [List.cons_append]
    by_cases htilde : s = "~"
    · subst htilde
      refine continuesHead_tilde (by simp [Token.isSymbol, ht, hlexeme]) ?_
      refine hplaced.continuesRest hoperand abs (fun hb => ?_) hrest
      have hleading : op.power = Power.leading := by
        have : some op = Operator.leading? "~" := hop.symm
        rw [show Operator.leading? "~" = some ⟨"~", .leading, "rest", Power.leading, .left⟩ by decide] at this
        cases this
        rfl
      refine (hbare hb.2).imp (fun hle => ?_) And.right
      rw [hleading] at hle
      exact lt_of_lt_of_le (by decide) hle
    · exact continuesHead_of_lexeme (by simp [ht]) (by rwa [hlexeme]) (by rwa [hlexeme]) _
  refine ⟨fun {ts c d p} _ hstream hpass hends _ => ?_, fun _ hstream _ hrest => ?_, by rintro _ _ _ ⟨⟩⟩
  · obtain ⟨t, us, rfl, ht, hlexeme, hplaced⟩ := htokens hstream
    have hahead := hpass.ahead_eq
    obtain ⟨rfl, -, hpass⟩ := hpass
    have hends' (hglued : operand.phrase.glued op.power = operand.phrase) :
        (unary s true operand).phrase.tail = operand.phrase.tail ∧
          (unary s true operand).phrase.loose = operand.phrase.loose := by
      simp [hphrase, Phrase.leading, Phrase.tail, hglued, glues.1.1]
    obtain ⟨hstart, hread⟩ := hends.reads hoperand abs hplaced (fun _ hb =>
      ⟨(hends' hb.1).1, (hends' hb.1).2, by rw [hreach, hright]; exact hbare hb.2⟩) hpass
    rw [hreach] at hread
    have hprimary := @Reads.leading c op operand d ht (hlexeme ▸ hquestion) (hlexeme ▸ hs)
      (hlexeme ▸ hop) hstart hread
    rw [hlexeme] at hprimary
    refine .primary hprimary (fun _ => by simp [startsDefine, ht]) fun _ => lambdaHead?_eq_none ?_
    rw [hahead]
    exact hclear ht hlexeme hplaced hends.clear
  · obtain ⟨t, us, rfl, ht, hlexeme, hplaced⟩ := htokens hstream
    exact hclear ht hlexeme hplaced hrest

/-- What binds as tightly as an operator after its operand reads no operand last, or a key. -/
lemma Printable.lt_reach {e : Expr} (h : e.Printable) (hb : e.phrase.isBlock = false)
    (hp : Power.trailing ≤ e.phrase.power) : Power.get < e.reach := by
  cases e with
  | literal | identifier | unit | emptyList | pointFree | get =>
    simp [reach, Power.get, Power.atom]
  | define | lambda => simp [phrase, Power.trailing, Power.define, Power.lambda] at hp
  | range => simp [phrase, Phrase.range, Power.trailing, Power.range] at hp
  | block => cases hb
  | apply =>
    obtain ⟨-, -, init, last, rfl, -⟩ := h.of_apply
    rw [phrase_apply] at hp
    simp [Phrase.apply, Power.trailing, Power.apply] at hp
  | list =>
    obtain ⟨first, middle, last, rfl, -⟩ := h.of_list
    rw [phrase_list] at hp
    simp [Phrase.list, Power.trailing, Power.product] at hp
  | binary s =>
    obtain ⟨-, -, -, hs, -, op, hop, -⟩ := h
    have hlt := Operator.power_lt_leading hop hs
    have hle := (Operator.rightPower_of_binary? hop).2.1
    simp only [phrase, hop, Phrase.binary, Phrase.power_join] at hp
    simp only [Power.leading, Power.trailing] at hlt hp
    omega
  | unary s leads operand =>
    by_cases hpre : leads && s ≠ Operator.bar
    · simp only [Bool.and_eq_true, decide_eq_true_eq] at hpre
      obtain ⟨rfl, hbar⟩ := hpre
      obtain ⟨-, h⟩ := h
      rw [if_neg hbar] at h
      obtain ⟨op, hop, -⟩ := h
      obtain ⟨-, hpower⟩ := Operator.rightPower_of_leading? hop hbar
      simp only [phrase, if_neg hbar, hop, Phrase.leading] at hp
      rcases hpower with h | h <;>
        simp [h, Power.trailing, Power.define, Power.leading] at hp
    · rw [reach, if_neg hpre]
      decide

/-- An operand with an operator after it is read back. -/
lemma absorbed_trailing {s : String} {operand : Expr} (hs : s = "!" ∨ s = "~")
    (hoperand : operand.Printable) (abs : operand.Absorbed) (inner : operand.Inner) :
    (unary s false operand).Absorbed := by
  have readable := readable_of_printable hoperand
  have hbar : s ≠ Operator.bar := by rcases hs with rfl | rfl <;> decide
  have hphrase : (unary s false operand).phrase = .trailing s operand.phrase := by
    simp [phrase, hbar]
  have htokens {ts : List Token} (h : (unary s false operand).phrase.Streams ts) :
      ∃ us u t, ts = us ++ [u] ++ [t] ∧ t.isSymbol s ∧ u.touches t ∧ u.synthetic = false ∧
        operand.Placed (Power.trailing ≤ operand.phrase.power ∧ operand.phrase.loose = false)
          (us ++ [u]) := by
    rw [hphrase] at h
    obtain ⟨offset, hline⟩ := spelled_of_streams h
    obtain ⟨vs, _, rfl, hvs, t, _, rfl, ht, rfl⟩ := spelled_append.1 hline
    obtain ⟨us, u, rfl, hstop, hwritten⟩ :=
      ((readable.inner inner).followed Power.trailing).legible.getLast?_tokens hvs
    exact ⟨us, u, t, rfl, ht.isSymbol, by simp [Token.touches, hstop, ht.offset_eq], hwritten,
      .of_followed inner hvs⟩
  have hclear {t : Token} {rest : List Token} (ht : t.isSymbol s) (hrest : continuesHead rest = false) :
      continuesHead (t :: rest) = false := by
    rcases hs with rfl | rfl
    · obtain ⟨hk, hlexeme⟩ := Token.isSymbol_iff.1 ht
      exact continuesHead_of_lexeme (by simp [hk]) (by simp [hlexeme]) (by simp [hlexeme]) _
    · exact continuesHead_tilde ht (continuesRest_eq_false hrest)
  refine ⟨fun {ts c d p} _ hstream hpass hends hpower => ?_, fun _ hstream _ hrest => ?_, by rintro _ _ _ ⟨⟩⟩
  · obtain ⟨us, u, t, rfl, ht, htouches, hwritten, hplaced⟩ := htokens hstream
    obtain ⟨m, hpass', rfl, hafter, rfl⟩ := Cursor.passes_append.1 hpass
    obtain ⟨hkind, hlexeme⟩ := Token.isSymbol_iff.1 ht
    have hp : p ≤ Power.trailing := by
      simpa [hphrase, Phrase.trailing, isPrefixed] using hpower
    have hends' (hb : operand.phrase.isBlock = false) (hbare : Power.trailing ≤ operand.phrase.power ∧
        operand.phrase.loose = false) : operand.Ends p m := by
      refine ⟨?_, by simp [hbare.2], ?_, fun _ _ => ?_⟩
      · rw [edge, inner.1]
        exact moveAt_above (hoperand.lt_reach hb hbare.1) m
      · rw [Cursor.ahead_eq_cons hafter]
        exact hclear ht hends.clear
      · rcases hs with rfl | rfl <;> simp [Token.isSymbol, hlexeme]
    obtain ⟨left, rfl, -, htakes⟩ := hplaced.takes abs readable hpass' fun hb hbare =>
      ⟨hends' hb hbare, .inl (hp.trans hbare.1)⟩
    have htrails : trails p m = true := by
      have hprevious := hpass'.previous_eq
      rcases hs with rfl | rfl
      · have hop : Operator.trailing? "!" =
            some ⟨"!", .trailing, "factorial", Power.trailing, .left⟩ := by decide
        simp [trails, hlexeme, hop, hp, Cursor.isTrailing, hprevious, htouches, hwritten]
      · have hop : Operator.trailing? "~" =
            some ⟨"~", .trailing, "spread", Power.trailing, .left⟩ := by decide
        have hnext := hends.loose (by rw [hphrase]; rfl)
        rw [Cursor.here_advance] at hnext
        simp [trails, hlexeme, hop, hp, Cursor.isTrailing, hnext]
    have hmove : moveAt p m = .trail := by
      rw [moveAt, if_pos hkind, if_pos htrails]
    have := htakes.trail hmove
    rwa [hlexeme] at this
  · obtain ⟨us, u, t, rfl, ht, -, -, hplaced⟩ := htokens hstream
    rw [List.append_assoc]
    exact hplaced.clear abs (fun hb => .inl (lt_of_lt_of_le (by decide) hb.1)) (hclear ht hrest)

/-! ## Heads and right-hand sides -/

/-- A power admits an expression that stands last on its line, or that has a tail and takes all that
follows. -/
lemma Outer.bare {e : Expr} {q : Nat} (h : e.Hangs ∨ e.Outer q) (hb : e.phrase.isBlock = false)
    (hbare : q ≤ e.phrase.power ∨ e.phrase.tail) :
    q ≤ e.phrase.power ∨ e.phrase.tail ∧ e.isPrefixed := by
  by_cases hle : q ≤ e.phrase.power
  · exact .inl hle
  · have ht := hbare.resolve_left hle
    rcases h with h | h
    · have := h.spec.1
      rw [hb] at this
      cases this
    · exact .inr ⟨ht, (h.2 ht).resolve_left hle⟩

/-- The right-hand side after a head is read. -/
lemma Ends.reads_join {e r : Expr} {p q power : Nat} {head : List Item} {c d : Cursor}
    {ts : List Token} (h : e.Ends p d) (hphrase : e.phrase = .join head (r.phrase.wrap q) power)
    (hreach : e.reach = q) (hr : r.Printable) (abs : r.Absorbed)
    (hplaced : r.Placed (q ≤ r.phrase.power ∨ r.phrase.tail) ts)
    (hbare : r.phrase.isBlock = false → q ≤ r.phrase.power ∨ r.phrase.tail →
      q ≤ r.phrase.power ∨ r.phrase.tail ∧ r.isPrefixed)
    (hpass : c.Passes d ts) : c.here.startsOperand ∧ Reads (.expr q) c r d := by
  rw [← hreach]
  refine h.reads hr abs hplaced (fun hb hbare' => ?_) hpass
  have hwrap : r.phrase.wrap q = r.phrase := by
    rw [Phrase.wrap, if_pos (by simpa [hb] using hbare')]
  obtain ⟨htail, hloose⟩ := Phrase.join_ends head hb power
  rw [hphrase, hwrap, hreach]
  exact ⟨htail, hloose, hbare hb hbare'⟩

/-- A value is not wrapped. -/
lemma Printable.wrap_define {e : Expr} (h : e.Printable) : e.phrase.wrap Power.define = e.phrase := by
  unfold Phrase.wrap
  cases hb : e.phrase.isBlock with
  | true => simp
  | false => simp [(h.power_le hb).1]

/-- A definition is read back. -/
lemma absorbed_define {name : String} {value : Expr} (hvalue : value.Printable)
    (abs : value.Absorbed) (hang : value.Hangs ∨ value.phrase.isBlock = false) :
    (define (identifier name) value).Absorbed := by
  have hphrase : (define (identifier name) value).phrase =
      .join [word .identifier name, gap, symbol ":"] (value.phrase.wrap Power.define)
        Power.define := by
    rw [hvalue.wrap_define]
    rfl
  have hhead {offset : Int} {hs : List Token}
      (h : Spelled offset [word .identifier name, gap, symbol ":"] hs) :
      ∃ t u, hs = [t, u] ∧ t.kind = .identifier ∧ t.lexeme = name ∧ u.isSymbol ":" := by
    obtain ⟨t, _, rfl, ht, u, _, rfl, hu, rfl⟩ := h
    exact ⟨t, u, rfl, ht.kind_eq, ht.lexeme_eq, hu.isSymbol⟩
  have hheader {u : Token} (hu : u.isSymbol ":") : u.isHeader :=
    Token.isOperator_blockSymbols_iff.2 ((Token.isSymbol_iff.1 hu).imp_right .inl)
  have htokens {ts : List Token} (h : (define (identifier name) value).phrase.Streams ts) :
      ∃ t u rest, ts = [t, u] ++ rest ∧ t.kind = .identifier ∧ t.lexeme = name ∧ u.isSymbol ":" ∧
        value.Placed (Power.define ≤ value.phrase.power ∨ value.phrase.tail) rest := by
    rw [hphrase] at h
    obtain ⟨offset, hs, rest, rfl, hhs, hplaced⟩ := Placed.of_join hang (fun h => by
      obtain ⟨t, u, rfl, ht, -⟩ := hhead h
      exact .inr ⟨[t], u, rfl, by simp [Token.isHeader, Token.isOperator, ht]⟩) (fun _ _ _ h => by
      obtain ⟨t, u, rfl, -, -, hu⟩ := hhead h
      exact hheader hu) h
    obtain ⟨t, u, rfl, ht, hname, hu⟩ := hhead hhs
    exact ⟨t, u, rest, rfl, ht, hname, hu, hplaced⟩
  refine ⟨fun {ts c d p} _ hstream hpass hends hpower => ?_, fun _ _ hpower _ => ?_, by rintro _ _ _ ⟨⟩⟩
  · obtain ⟨t, u, rest, rfl, ht, rfl, hu, hplaced⟩ := htokens hstream
    obtain ⟨rfl, -, rfl, -, hpass⟩ := hpass
    have hp : p ≤ Power.define := by simpa [hphrase, isPrefixed] using hpower
    have hbare (hb : value.phrase.isBlock = false) : Power.define ≤ value.phrase.power :=
      (hvalue.power_le hb).1
    obtain ⟨hstart, hread⟩ := hends.reads_join hphrase rfl hvalue abs hplaced
      (fun hb _ => .inl (hbare hb)) hpass
    refine .operand (.define hp ?_ hstart hread)
    rw [Cursor.here_advance] at hu
    simp [startsDefine, ht, hu]
  · rcases hpower with hpower | hpower
    · simp [hphrase, Power.lambda, Power.define] at hpower
    · cases hpower

/-- A function is read back. -/
lemma absorbed_lambda {params : List Parameter} {body : Expr}
    (hrest : ∀ p ∈ params.dropLast, p.isRest = false) (hbody : body.Printable) (abs : body.Absorbed)
    (hang : body.Hangs ∨ body.Outer Power.lambda) : (lambda params body).Absorbed := by
  have hphrase : (lambda params body).phrase =
      .join (Parameter.head params) (body.phrase.wrap Power.lambda) Power.lambda := rfl
  have htokens {ts : List Token} (h : (lambda params body).phrase.Streams ts) :
      ∃ ps q rest, ts = ps ++ q :: rest ∧ q.isSymbol "?" ∧ ps.length = Parameter.listWidth params ∧
        (∀ t ∈ ps, t.kind = .identifier ∨ t.isSymbol "~") ∧
        (∀ more, Parameter.listOf (ps ++ q :: more) = params) ∧
        body.Placed (Power.lambda ≤ body.phrase.power ∨ body.phrase.tail) rest := by
    rw [hphrase] at h
    obtain ⟨offset, hs, rest, rfl, hhs, hplaced⟩ := Placed.of_join (hang.imp_right And.left) (fun h => by
      obtain ⟨ps, q, rfl, -, -, -, hlast, -⟩ := Parameter.spelled_head hrest h
      refine .inr ⟨ps, q, rfl, ?_⟩
      cases hps : ps.getLast? with
      | none => rfl
      | some t =>
        have : t.kind = .identifier := by simpa [hps] using hlast
        simp [Token.isHeader, Token.isOperator, this]) (fun _ _ _ h => by
      obtain ⟨ps, q, rfl, hq, -⟩ := Parameter.spelled_head hrest h
      have hheader : q.isHeader :=
        Token.isOperator_blockSymbols_iff.2 ((Token.isSymbol_iff.1 hq).imp_right .inr)
      simp [hheader]) h
    obtain ⟨ps, q, rfl, hq, hlength, hall, -, hlist⟩ := Parameter.spelled_head hrest hhs
    exact ⟨ps, q, rest, by simp, hq, hlength, hall, hlist, hplaced⟩
  refine ⟨fun {ts c d p} _ hstream hpass hends hpower => ?_, fun _ _ hpower _ => ?_, by rintro _ _ _ ⟨⟩⟩
  · obtain ⟨ps, q, rest, rfl, hq, hlength, hall, hlist, hplaced⟩ := htokens hstream
    obtain ⟨m, hps, rfl, hafter, hpass⟩ := Cursor.passes_append.1 hpass
    obtain ⟨hstart, hread⟩ := hends.reads_join hphrase rfl hbody abs hplaced
      (fun hb hbare => Outer.bare hang hb hbare) hpass
    have hlist' : Parameter.listOf (c.here :: c.after) = params := by
      have := hps.ahead_eq
      rw [Cursor.ahead, Cursor.ahead] at this
      rw [this]
      exact hlist m.after
    have hskip : c.skip (Parameter.listWidth params) = m := by
      rw [← hlength]
      exact hps.skip_eq
    cases params with
    | nil =>
      obtain rfl := List.eq_nil_of_length_eq_zero hlength
      obtain rfl : c = m := hps
      have hk := kind_of_isSymbol hq
      refine .primary (.thunk hq hstart hread) (fun _ => by simp [startsDefine, hk]) fun _ => ?_
      simp [Cursor.lambdaHead?, hlist']
    | cons param params =>
      have hp : p ≤ Power.lambda := by simpa [hphrase, isPrefixed] using hpower
      have hhead : c.lambdaHead? = some (param :: params) := by
        simp [Cursor.lambdaHead?, hlist', hskip, hq]
      rw [← hskip] at hstart hread
      refine .operand (.lambda ?_ hp hhead hstart hread)
      rintro ⟨-, hdefine⟩
      rw [lambdaHead?_of_startsDefine hdefine] at hhead
      cases hhead
  · rcases hpower with hpower | hpower
    · simp [hphrase, Power.lambda] at hpower
    · cases hpower

end Expr

end SignLang
