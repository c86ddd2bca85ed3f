import SignLang.Proofs.Render.Operands

/-!
# Operators between two operands are read back

A binary operation, a range and a member access are read alike: the left operand is taken in, the
operator binds tightly enough, and the right operand is read at the power that it asks for. `Infix`
is what the three have in common.
-/

namespace SignLang

open Item SignLang.Parser

namespace Expr

/-- The form that an operator between two operands makes. The left operand stands bare if it binds at
least at `lower`, and then nothing that the operator is read by binds into it. -/
structure Infix (e l r : Expr) (s : String) (op : Operator) (lower : Nat) (bare : Prop) : Prop where
  entry : Operator.binary? s = some op
  symbol_ne : s ≠ "?"
  tokens : ∀ {ts}, e.phrase.Streams ts → ∃ ls t rs, ts = ls ++ t :: rs ∧ t.isSymbol s ∧
    l.Placed (lower ≤ l.phrase.power ∧ l.phrase.loose = false) ls ∧ r.Placed bare rs
  power : e.phrase.power = op.power
  reach : e.reach = op.rightPower
  single : e.leftOf = .single e
  not_prefixed : e.isPrefixed = false
  not_led : e.isLedArgument = false
  not_hangs : ¬e.Hangs
  lower_le : op.power ≤ lower
  left_reach : lower ≤ l.phrase.power → op.power < l.reach
  left_name : s = ":" → nameOf? l = none
  right_bare : r.phrase.isBlock = false → bare → e.phrase.tail = r.phrase.tail ∧
    e.phrase.loose = r.phrase.loose ∧ (e.reach ≤ r.phrase.power ∨ r.phrase.tail ∧ r.isPrefixed)
  joins : ∀ {left : Left}, left.expr = l → left.join? s r = some (.single e)

/-- The tilde is the operator of ranges between two operands. -/
lemma rightPower_of_tilde {op : Operator} (h : Operator.binary? "~" = some op) :
    op.rightPower = Power.range + 1 := by
  have heq : Operator.binary? "~" = some ⟨"~", .binary, "range", Power.range, .left⟩ := by decide
  rw [heq] at h
  cases h
  rfl

/-- An operator between two operands is read back with them. -/
lemma Infix.absorbed {e l r : Expr} {s : String} {op : Operator} {lower : Nat} {bare : Prop}
    (h : Infix e l r s op lower bare) (hl : l.Printable) (absl : l.Absorbed) (inner : l.Inner)
    (hr : r.Printable) (absr : r.Absorbed) : e.Absorbed := by
  have hclear {t : Token} {rs rest : List Token} (ht : t.isSymbol s) (hplaced : r.Placed bare rs)
      (hrest : continuesHead rest = false) : continuesHead (t :: rs ++ rest) = false := by
    rw [List.cons_append]
    by_cases htilde : s = "~"
    · obtain rfl := htilde
      refine continuesHead_tilde ht ?_
      by_cases hb : r.phrase.isBlock = false
      · refine hplaced.continuesRest hr absr (fun hbare => ?_) hrest
        refine (h.right_bare hb hbare).2.2.imp (fun hle => ?_) And.right
        rw [h.reach, rightPower_of_tilde h.entry] at hle
        exact lt_of_lt_of_le (by decide) hle
      · cases hplaced with
        | bare _ hb' => exact absurd hb' hb
        | grouped hang hs hts =>
          obtain ⟨opener, closer, hopen, -, -, rfl⟩ := hts
          simp [continuesRest, hopen]
    · obtain ⟨hk, hlexeme⟩ := Token.isSymbol_iff.1 ht
      exact continuesHead_of_lexeme (by simp [hk]) (by simp [hlexeme, h.symbol_ne]) (by rwa [hlexeme]) _
  have readable := readable_of_printable hl
  refine ⟨fun {ts c d p} _ hstream hpass hends hpower => ?_, fun _ hstream hpower hrest => ?_,
    fun hang => absurd hang h.not_hangs⟩
  · obtain ⟨ls, t, rs, rfl, ht, hleft, hright⟩ := h.tokens hstream
    obtain ⟨m, hls, rfl, hafter, hrs⟩ := Cursor.passes_append.1 hpass
    obtain ⟨hstart, hread⟩ := hends.reads hr absr hright h.right_bare hrs
    have hp : p ≤ op.power := by simpa [h.power, h.not_prefixed] using hpower
    obtain ⟨hkind, hlexeme⟩ := Token.isSymbol_iff.1 ht
    have htrails (q : Nat) : trails q m = false := by
      have hbang : s ≠ "!" := by
        rintro rfl
        have hentry := h.entry
        rw [show Operator.binary? "!" = none by decide] at hentry
        cases hentry
      by_cases htilde : s = "~"
      · rw [Cursor.here_advance] at hstart
        simp [trails, Cursor.isTrailing, hlexeme, htilde, hstart]
      · exact trails_eq_false (by simp [hlexeme, hbang, htilde])
    have hmove (q : Nat) : moveAt q m = if op.power < q then .stop else .join op :=
      moveAt_binary hkind (hlexeme ▸ h.entry) (htrails q)
    obtain ⟨left, hexpr, -, htakes⟩ := hleft.takes (p := p) absl readable hls fun hb hbare => by
      refine ⟨⟨?_, by simp [hbare.2], ?_, fun _ hsome => ?_⟩, .inl (hp.trans (h.lower_le.trans hbare.1))⟩
      · rw [edge, inner.1, hmove]
        exact if_pos (h.left_reach hbare.1)
      · rw [Cursor.ahead_eq_cons hafter, hrs.ahead_eq]
        exact hclear ht hright hends.clear
      · by_contra hcolon
        simp only [Token.isSymbol, Bool.not_eq_false, Bool.and_eq_true, decide_eq_true_eq] at hcolon
        rw [h.left_name (hlexeme.symm.trans hcolon.2)] at hsome
        cases hsome
    rw [h.single]
    rw [h.reach] at hread
    refine htakes.join ?_ hstart hread (hlexeme.symm ▸ h.joins hexpr)
    rw [hmove, if_neg (by omega)]
  · obtain ⟨ls, t, rs, rfl, ht, hleft, hright⟩ := h.tokens hstream
    rw [List.append_assoc]
    refine hleft.clear absl (fun hbare => .inl ?_) (hclear ht hright hrest)
    have hlt : Power.lambda < op.power := by simpa [h.power, h.not_led] using hpower
    exact hlt.trans_le (h.lower_le.trans hbare.1)

/-- The tokens of two operands with a spaced operator between them. -/
lemma infix_tokens {l r : Expr} {s : String} {lower q power : Nat} {ts : List Token}
    (hl : l.Printable) (inner : l.Inner) (hang : r.Hangs ∨ r.phrase.isBlock = false)
    (hheader : r.phrase.isBlock → (symbol s).isHeader)
    (h : (Phrase.join ((l.phrase.followed lower).line ++ [gap, symbol s]) (r.phrase.wrap q)
      power).Streams ts) :
    ∃ ls t rs, ts = ls ++ t :: rs ∧ t.isSymbol s ∧
      l.Placed (lower ≤ l.phrase.power ∧ l.phrase.loose = false) ls ∧
      r.Placed (q ≤ r.phrase.power ∨ r.phrase.tail) rs := by
  have hsound := ((readable_of_printable hl).inner inner).followed lower
  have hhead {offset : Int} {hs : List Token}
      (h : Spelled offset ((l.phrase.followed lower).line ++ [gap, symbol s]) hs) :
      ∃ ls t offset', hs = ls ++ [t] ∧ Spelled offset (l.phrase.followed lower).line ls ∧
        t.Spells .operator s offset' := by
    obtain ⟨ls, _, rfl, hls, t, _, rfl, ht, rfl⟩ := spelled_append.1 h
    exact ⟨ls, t, _, rfl, hls, ht⟩
  obtain ⟨offset, hs, rest, rfl, hhs, hplaced⟩ := Placed.of_join hang (fun h => by
    obtain ⟨ls, t, _, rfl, hls, -⟩ := hhead h
    refine .inr ⟨ls, t, rfl, ?_⟩
    rw [hsound.legible.isHeader_getLast? hls, hsound.header, inner.body_followed]
    rfl) (fun hb _ _ h => by
    obtain ⟨ls, t, _, rfl, -, ht⟩ := hhead h
    rw [List.getLast?_concat, Option.any_some, ht.isHeader_eq]
    exact hheader hb) h
  obtain ⟨ls, t, _, rfl, hls, ht⟩ := hhead hhs
  exact ⟨ls, t, rest, by simp, ht.isSymbol, .of_followed inner hls, hplaced⟩

/-- The least power of a left operand that stands bare. -/
def lowerOf (op : Operator) : Nat :=
  match op.assoc with
  | .left => op.power
  | .right => op.power + 1

/-- A binary operation is a head and a right-hand side. -/
lemma phrase_binary {s : String} {op : Operator} (hop : Operator.binary? s = some op) (l r : Expr) :
    (binary s l r).phrase = .join ((l.phrase.followed (lowerOf op)).line ++ [gap, symbol s])
      (r.phrase.wrap op.rightPower) op.power := by
  have hall : ∀ op ∈ Operator.binaryTable, op.fixity = .binary := by decide
  have hfixity := hall op (List.mem_of_find?_eq_some hop)
  have hsymbol := Operator.symbol_of_binary? hop
  simp only [phrase, hop, Phrase.binary, hsymbol]
  cases hassoc : op.assoc <;> simp [lowerOf, Operator.rightPower, hassoc, hfixity]

/-- A left operand that stands bare reads its last operand above the power of the operator. -/
lemma Printable.left_reach {e : Expr} (h : e.Printable) (hb : e.phrase.isBlock = false) {s : String}
    {op : Operator} (hop : Operator.binary? s = some op) (hle : lowerOf op ≤ e.phrase.power) :
    op.power < e.reach := by
  have hpower := (h.power_le hb).2
  unfold lowerOf at hle
  split at hle
  · next hassoc =>
    -- Only another operator of the same power could bind no tighter, and it groups to the left too.
    have hall : ∀ op ∈ Operator.binaryTable, op.assoc = .left →
        Power.lambda < op.power ∧ op.power < Power.atom ∧ op.power ≠ Power.leading ∧
          ∀ op' ∈ Operator.binaryTable, op.power ≤ op'.power → op.power < op'.rightPower := by
      decide
    obtain ⟨hlambda, hatom, hleading, hsame⟩ := hall op (List.mem_of_find?_eq_some hop) hassoc
    simp only [Power.lambda, Power.atom, Power.leading] at hlambda hatom hleading
    cases e with
    | literal | identifier | unit | emptyList | pointFree =>
      simp only [reach, Power.atom]
      omega
    | block => cases hb
    | define | lambda =>
      simp only [phrase, Phrase.power_join, Power.define, Power.lambda] at hle
      omega
    | range | get =>
      simp only [phrase, Phrase.range, Phrase.get, Phrase.power_join] at hle
      exact Nat.lt_succ_of_le hle
    | apply =>
      obtain ⟨-, -, init, last, rfl, -⟩ := h.of_apply
      rw [phrase_apply, Phrase.apply, Phrase.power_join] at hle
      exact Nat.lt_succ_of_le hle
    | list =>
      obtain ⟨first, middle, last, rfl, -⟩ := h.of_list
      rw [phrase_list, Phrase.list, Phrase.power_join] at hle
      exact Nat.lt_succ_of_le hle
    | binary s' =>
      obtain ⟨-, -, -, -, -, op', hop', -⟩ := h
      simp only [phrase, hop', Phrase.binary, Phrase.power_join] at hle
      simp only [reach, hop', Option.map_some, Option.getD_some]
      exact hsame op' (List.mem_of_find?_eq_some hop') hle
    | unary s' leads operand =>
      by_cases hpre : leads && s' ≠ Operator.bar
      · simp only [Bool.and_eq_true, decide_eq_true_eq] at hpre
        obtain ⟨rfl, hbar⟩ := hpre
        obtain ⟨-, h⟩ := h
        rw [if_neg hbar] at h
        obtain ⟨op', hop', -⟩ := h
        obtain ⟨-, hcases⟩ := Operator.rightPower_of_leading? hop' hbar
        simp only [phrase, if_neg hbar, hop', Phrase.leading] at hle hpower
        simp only [Power.define, Power.leading] at hcases
        simp at hle hpower
        omega
      · rw [reach, if_neg hpre, Power.atom]
        exact hatom
  · omega

/-- A binary operation is read back. -/
lemma absorbed_binary {s : String} {op : Operator} {l r : Expr} (hop : Operator.binary? s = some op)
    (hs : s ∉ ["?", ",", "~", "'"]) (hname : s = ":" → nameOf? l = none) (hl : l.Printable)
    (absl : l.Absorbed) (inner : l.Inner) (hr : r.Printable) (absr : r.Absorbed)
    (hang : s = ":" ∧ r.Hangs ∨ r.Outer op.rightPower) : (binary s l r).Absorbed := by
  simp only [List.mem_cons, List.not_mem_nil, or_false, not_or] at hs
  have hphrase := phrase_binary hop l r
  have hang' : r.Hangs ∨ r.Outer op.rightPower := hang.imp_left And.right
  have hinfix : Infix (binary s l r) l r s op (lowerOf op)
      (op.rightPower ≤ r.phrase.power ∨ r.phrase.tail) := by
    refine ⟨hop, hs.1, fun h => ?_, ?_, ?_, rfl, rfl, rfl, nofun, ?_, ?_, hname, fun hb hbare => ?_,
      fun hleft => ?_⟩
    · rw [hphrase] at h
      refine infix_tokens hl inner (hang'.imp_right And.left) (fun hb => ?_) h
      rcases hang with ⟨rfl, -⟩ | hang
      · decide
      · rw [hang.1] at hb
        cases hb
    · rw [hphrase, Phrase.power_join]
    · simp [reach, hop]
    · unfold lowerOf
      split <;> omega
    · exact hl.left_reach inner.2 hop
    · have hwrap : r.phrase.wrap op.rightPower = r.phrase := by
        rw [Phrase.wrap, if_pos (by simpa [hb] using hbare)]
      have hends := Phrase.join_ends ((l.phrase.followed (lowerOf op)).line ++ [gap, symbol s]) hb op.power
      rw [hphrase, hwrap, show (binary s l r).reach = op.rightPower by simp [reach, hop]]
      exact ⟨hends.1, hends.2, Outer.bare hang' hb hbare⟩
    · have hjoined : joined s l r = binary s l r := by
        rw [joined, if_neg, if_neg hs.2.2.1, if_neg hs.2.2.2]
        rintro ⟨hcolon, hsome⟩
        rw [hname hcolon] at hsome
        cases hsome
      simp [Left.join?, hs.1, hs.2.1, hleft, hjoined]
  exact hinfix.absorbed hl absl inner hr absr

/-- A range is read back. -/
lemma absorbed_range {start stop : Expr} (hstart : start.Printable) (abs : start.Absorbed)
    (inner : start.Inner) (hstop : stop.Printable) (abs' : stop.Absorbed)
    (outer : stop.Outer (Power.range + 1)) : (range start stop).Absorbed := by
  let op : Operator := ⟨"~", .binary, "range", Power.range, .left⟩
  have hop : Operator.binary? "~" = some op := by decide
  have hinfix : Infix (range start stop) start stop "~" op Power.range
      (Power.range + 1 ≤ stop.phrase.power ∨ stop.phrase.tail) := by
    refine ⟨hop, by decide, fun h => ?_, ?_, rfl, rfl, rfl, rfl, nofun, le_rfl, ?_,
      fun h => absurd h (by decide), fun hb hbare => ?_, fun hleft => ?_⟩
    · refine infix_tokens hstart inner (.inr outer.1) (fun hb => ?_) h
      rw [outer.1] at hb
      cases hb
    · exact Phrase.power_join _ _ _
    · exact hstart.left_reach inner.2 hop
    · have hwrap : stop.phrase.wrap (Power.range + 1) = stop.phrase := by
        rw [Phrase.wrap, if_pos (by simpa [hb] using hbare)]
      have hends := Phrase.join_ends ((start.phrase.followed Power.range).line ++ [gap, symbol "~"])
        hb Power.range
      rw [phrase, Phrase.range, hwrap]
      exact ⟨hends.1, hends.2, Outer.bare (.inr outer) hb hbare⟩
    · simp [Left.join?, joined, hleft]
  exact hinfix.absorbed hstart abs inner hstop abs'

/-- A member access is read back. -/
lemma absorbed_get {target key : Expr} (htarget : target.Printable) (abs : target.Absorbed)
    (inner : target.Inner) (hkey : key.Printable) (abs' : key.Absorbed)
    (glues : key.Glues (Power.get + 1)) : (get target key).Absorbed := by
  let op : Operator := ⟨"'", .binary, "get", Power.get, .left⟩
  have hop : Operator.binary? "'" = some op := by decide
  have hinfix : Infix (get target key) target key "'" op Power.get
      (key.phrase.glued (Power.get + 1) = key.phrase ∧
        (Power.get + 1 ≤ key.phrase.power ∨ key.phrase.tail)) := by
    refine ⟨hop, by decide, fun h => ?_, rfl, rfl, rfl, rfl, rfl, nofun, le_rfl, ?_,
      fun h => absurd h (by decide), fun hb hbare => ?_, fun hleft => ?_⟩
    · obtain ⟨offset, us, outline, hus, hout, rfl⟩ := h
      obtain ⟨ls, _, rfl, hls, t, rs, rfl, ht, hrs⟩ := spelled_append.1 hus
      refine ⟨ls, t, streamOf rs outline.tokens, ?_, ht.isSymbol, .of_followed inner hls, .of_glued glues ?_⟩
      · have hheader : (ls ++ [t]).getLast?.all (!·.isHeader) := by
          simp [ht.isHeader_eq, isHeader, Operator.blockSymbols]
        have := @streamOf_append outline.tokens (ls ++ [t]) rs hheader
        simpa using this
      · exact ⟨_, rs, outline, hrs, hout, rfl⟩
    · exact htarget.left_reach inner.2 hop
    · refine ⟨?_, ?_, Outer.bare (.inr glues.1) hb hbare.2⟩
      · simp [phrase, Phrase.get, Phrase.tail, hbare.1, hb]
      · simp [phrase, Phrase.get, hbare.1]
    · simp [Left.join?, joined, hleft]
  exact hinfix.absorbed htarget abs inner hkey abs'

end Expr

end SignLang
