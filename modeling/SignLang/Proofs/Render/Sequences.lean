import SignLang.Proofs.Render.Infix

/-!
# Lists, applications and blocks are read back

The forms of any number of parts. The parser takes in the parts of a list or of an application one
after the other, and reads the statements of a block line by line. With them every printable
expression is read back (`Expr.absorbed_of_printable`).
-/

namespace SignLang

open Item SignLang.Parser

namespace Expr

/-! ## Lists -/

/-- The tokens are expressions with a comma before each. -/
def Listed : List Expr → List Token → Prop
  | [], ts => ts = []
  | e :: es, ts => ∃ t us rest, ts = t :: us ++ rest ∧ t.isSymbol "," ∧
      e.Placed (Power.product + 1 ≤ e.phrase.power ∧ e.phrase.loose = false) us ∧ Listed es rest

/-- Elements of a list are placed with a comma before each. -/
lemma listed_of_spelled {es : List Expr} (hinner : ∀ e ∈ es, e.Inner) {offset : Int} {ts : List Token}
    (h : Spelled offset ((es.map phrase).flatMap fun p =>
      symbol "," :: gap :: (p.followed (Power.product + 1)).line) ts) : Listed es ts := by
  induction es generalizing offset ts with
  | nil => exact h
  | cons e es ih =>
    rw [List.forall_mem_cons] at hinner
    rw [List.map_cons, List.flatMap_cons] at h
    obtain ⟨_, rest, rfl, ⟨t, us, rfl, ht, hus⟩, hrest⟩ := spelled_append.1 h
    exact ⟨t, us, rest, rfl, ht.isSymbol, .of_followed hinner.1 hus, ih hinner.2 hrest⟩

/-- A comma leads to no head of a function. -/
lemma continuesHead_comma {t : Token} (h : t.isSymbol ",") (rest : List Token) :
    continuesHead (t :: rest) = false := by
  obtain ⟨hk, hlexeme⟩ := Token.isSymbol_iff.1 h
  exact continuesHead_of_lexeme (by simp [hk]) (by simp [hlexeme]) (by simp [hlexeme]) rest

/-- A comma ends what binds tighter. -/
lemma Printable.ends_comma {e : Expr} (h : e.Printable) (inner : e.Inner) {m : Cursor}
    (hm : m.here.isSymbol ",") (hbare : Power.product + 1 ≤ e.phrase.power ∧ e.phrase.loose = false)
    (p : Nat) : e.Ends p m := by
  have hstop : moveAt e.edge m = .stop := by
    rw [edge, inner.1, moveAt_comma hm]
    exact if_pos (hbare.1.trans (h.power_le inner.2).2)
  exact ⟨hstop, by simp [hbare.2], continuesHead_comma hm _,
    fun _ _ => Token.isSymbol_of_lexeme (by simp [lexeme_of_isSymbol hm])⟩

/-- One more element is taken in after a comma. -/
lemma takes_element {p : Nat} {c m d : Cursor} {left : Left} {e : Expr} (h : Takes p c left m)
    (hp : p ≤ Power.product) (hm : m.here.isSymbol ",") (hstart : m.advance.here.startsOperand)
    (hread : Reads (.expr (Power.product + 1)) m.advance e d) :
    Takes p c (.listed (left.elements ++ [e])) d := by
  have hmove : moveAt p m = .join comma := by rw [moveAt_comma hm, if_neg (by omega)]
  refine h.join hmove hstart hread ?_
  rw [← Left.element_eq]
  simp [Left.join?, lexeme_of_isSymbol hm]

/-- The elements after the first are taken in one after the other. -/
lemma takes_listed {p : Nat} {c m d : Cursor} {left : Left} {es : List Expr} {ts : List Token}
    (h : Takes p c left m) (hp : p ≤ Power.product)
    (hes : ∀ e ∈ es, e.Printable ∧ e.Inner ∧ e.Absorbed) (hts : Listed es ts) (hpass : m.Passes d ts)
    (hd : d.here.isSymbol ",") :
    ∃ left' : Left, left'.elements = left.elements ++ es ∧ Takes p c left' d := by
  induction es generalizing left m ts with
  | nil =>
    obtain rfl : ts = [] := hts
    obtain rfl : m = d := hpass
    exact ⟨left, by simp, h⟩
  | cons e es ih =>
    rw [List.forall_mem_cons] at hes
    obtain ⟨⟨he, inner, abs⟩, hes⟩ := hes
    obtain ⟨t, us, rest, rfl, ht, hplaced, hrest⟩ := hts
    rw [List.cons_append] at hpass
    obtain ⟨rfl, -, hpass⟩ := hpass
    obtain ⟨k, hus, hpass'⟩ := Cursor.passes_append.1 hpass
    have readable := readable_of_printable he
    have hk : k.here.isSymbol "," := by
      cases es with
      | nil =>
        obtain rfl : rest = [] := hrest
        obtain rfl : k = d := hpass'
        exact hd
      | cons e' es =>
        obtain ⟨t', us', rest', rfl, ht', -⟩ := hrest
        rw [List.cons_append] at hpass'
        rw [hpass'.1]
        exact ht'
    have hends (hbare : Power.product + 1 ≤ e.phrase.power ∧ e.phrase.loose = false) :
        e.Ends (Power.product + 1) k := he.ends_comma inner hk hbare _
    have hstop : moveAt (Power.product + 1) k = .stop := by
      rw [moveAt_comma hk, if_pos (Nat.lt_succ_self _)]
    have hread : Reads (.expr (Power.product + 1)) m.advance e k := hplaced.reads abs readable hus
      (fun _ hbare => ⟨hends hbare, .inl hbare.1⟩) hstop
    have hnext := takes_element h hp ht (hplaced.first readable hus) hread
    obtain ⟨left', heq, hleft⟩ := ih hnext hes hrest hpass'
    exact ⟨left', by simpa [Left.elements] using heq, hleft⟩

/-- What binds tighter than the comma is no list. -/
lemma Printable.elements_leftOf {e : Expr} (h : e.Printable) (hbare : Power.product + 1 ≤ e.phrase.power) :
    e.leftOf.elements = [e] := by
  cases e with
  | list elements =>
    obtain ⟨first, middle, last, rfl, -⟩ := h.of_list
    rw [phrase_list, Phrase.list, Phrase.power_join] at hbare
    exact absurd hbare (Nat.not_succ_le_self _)
  | _ => rfl

/-- A list is read back. -/
lemma absorbed_list {first last : Expr} {middle : List Expr}
    (hinit : ∀ e ∈ first :: middle, e.Printable ∧ e.Inner ∧ e.Absorbed) (hlast : last.Printable)
    (abs : last.Absorbed) (outer : last.Outer (Power.product + 1)) :
    (list (first :: (middle ++ [last]))).Absorbed := by
  rw [List.forall_mem_cons] at hinit
  obtain ⟨⟨hfirst, inner, absf⟩, hmiddle⟩ := hinit
  have readable := readable_of_printable hfirst
  have hphrase := phrase_list first last middle
  rw [Phrase.list] at hphrase
  have htokens {ts : List Token} (h : (list (first :: (middle ++ [last]))).phrase.Streams ts) :
      ∃ fs ms t rest, ts = fs ++ (ms ++ t :: rest) ∧
        first.Placed (Power.product + 1 ≤ first.phrase.power ∧ first.phrase.loose = false) fs ∧
        Listed middle ms ∧ t.isSymbol "," ∧
        last.Placed (Power.product + 1 ≤ last.phrase.power ∨ last.phrase.tail) rest := by
    rw [hphrase] at h
    obtain ⟨offset, hs, rest, rfl, hhs, hplaced⟩ := Placed.of_join (.inr outer.1) (fun h => by
      obtain ⟨hs, t, rfl, ht⟩ := h.getLast?
      exact .inl (by simp [ht.isHeader_eq, isHeader, Operator.blockSymbols])) (fun hb => by
      rw [outer.1] at hb
      cases hb) h
    obtain ⟨us, _, rfl, hus, t, _, rfl, ht, rfl⟩ := spelled_append.1 hhs
    obtain ⟨fs, ms, rfl, hfs, hms⟩ := spelled_append.1 hus
    exact ⟨fs, ms, t, rest, by simp, .of_followed inner hfs,
      listed_of_spelled (fun e he => (hmiddle e he).2.1) hms, ht.isSymbol, hplaced⟩
  -- A comma comes first after the first element, that of another element or the last one.
  have hcomma (rest : List Token) {ms : List Token} {t : Token} (hms : Listed middle ms) (ht : t.isSymbol ",") :
      ∃ u more, ms ++ t :: rest = u :: more ∧ u.isSymbol "," := by
    cases middle with
    | nil =>
      obtain rfl : ms = [] := hms
      exact ⟨t, rest, rfl, ht⟩
    | cons e es =>
      obtain ⟨u, us, more, rfl, hu, -⟩ := hms
      exact ⟨u, _, rfl, hu⟩
  refine ⟨fun {ts c d p} _ hstream hpass hends hpower => ?_, fun _ hstream _ hrest => ?_, by rintro _ _ _ ⟨⟩⟩
  · obtain ⟨fs, ms, t, rest, rfl, hfs, hms, ht, hplaced⟩ := htokens hstream
    obtain ⟨m, hpassf, hpass⟩ := Cursor.passes_append.1 hpass
    have hm : m.here.isSymbol "," := by
      obtain ⟨u, more, heq, hu⟩ := hcomma rest hms ht
      rw [heq] at hpass
      rw [hpass.1]
      exact hu
    obtain ⟨k, hpassm, rfl, -, hpass⟩ := Cursor.passes_append.1 hpass
    have hp : p ≤ Power.product := by simpa [hphrase, isPrefixed] using hpower
    obtain ⟨left, hexpr, hleft, htakes⟩ := hfs.takes absf readable hpassf fun _ hbare =>
      ⟨hfirst.ends_comma inner hm hbare p, .inl (hp.trans (Nat.le_of_succ_le hbare.1))⟩
    have helements : left.elements = [first] := by
      rcases hleft with ⟨hbare, rfl⟩ | rfl
      · exact hfirst.elements_leftOf hbare.1
      · rfl
    obtain ⟨left', helements', htakes'⟩ := takes_listed htakes hp
      (fun e he => hmiddle e he) hms hpassm ht
    obtain ⟨hstart, hread⟩ := hends.reads_join hphrase rfl hlast abs hplaced
      (fun hb hbare => Outer.bare (.inr outer) hb hbare) hpass
    have hresult := takes_element htakes' hp ht hstart hread
    rw [helements', helements] at hresult
    simpa [leftOf] using hresult
  · obtain ⟨fs, ms, t, rest, rfl, hfs, hms, ht, -⟩ := htokens hstream
    obtain ⟨u, more, heq, hu⟩ := hcomma rest hms ht
    rw [List.append_assoc, heq]
    refine hfs.clear absf (fun hbare => .inl (lt_of_lt_of_le (by decide) hbare.1)) ?_
    exact continuesHead_comma hu _

/-! ## Applications -/

/-- What binds tighter than an operator before its operand starts with no operator. -/
theorem Printable.head_kind {e : Expr} (h : e.Printable) (hb : e.phrase.isBlock = false)
    (hp : Power.leading < e.phrase.power) :
    ∃ kind lexeme rest, e.phrase.line = word kind lexeme :: rest ∧ kind ≠ .operator := by
  have hfollowed {q : Nat} (hq : Power.leading < q) {l : Expr} (inner : l.Inner)
      (hl : Power.leading < l.phrase.power →
        ∃ kind lexeme rest, l.phrase.line = word kind lexeme :: rest ∧ kind ≠ .operator) :
      ∃ kind lexeme rest, (l.phrase.followed q).line = word kind lexeme :: rest ∧ kind ≠ .operator := by
    rcases l.phrase.followed_cases inner.1 inner.2 q with ⟨heq, hle, -⟩ | heq
    · rw [heq]
      exact hl (hq.trans_le hle)
    · rw [heq]
      exact ⟨.opening, "[", _, rfl, by decide⟩
  match e with
  | literal kind raw =>
    cases kind with
    | number => exact ⟨.number, _, _, rfl, by decide⟩
    | string => exact ⟨.string, _, _, rfl, by decide⟩
    | character => exact ⟨.character, _, _, rfl, by decide⟩
    | other name => exact h.elim
  | identifier name => exact ⟨.identifier, _, _, rfl, by decide⟩
  | unit => exact ⟨.unit, _, _, rfl, by decide⟩
  | emptyList | pointFree s none | pointFree s (some preset) =>
    exact ⟨.opening, "[", _, rfl, by decide⟩
  | block statements => cases hb
  | define target value | lambda params body =>
    simp [phrase, Power.leading, Power.define, Power.lambda] at hp
  | range start stop => simp [phrase, Phrase.range, Power.leading, Power.range] at hp
  | list elements =>
    obtain ⟨first, middle, last, rfl, -⟩ := h.of_list
    rw [phrase_list, Phrase.list, Phrase.power_join] at hp
    exact absurd hp (by decide)
  | binary s left right =>
    obtain ⟨-, -, -, hs, -, op, hop, -⟩ := h
    rw [phrase_binary hop, Phrase.power_join] at hp
    have hlt := Operator.power_lt_leading hop hs
    have hle := (Operator.rightPower_of_binary? hop).2.1
    omega
  | apply function arguments =>
    obtain ⟨hfunction, inner, init, last, rfl, -⟩ := h.of_apply
    obtain ⟨kind, lexeme, rest, hline, hk⟩ := hfollowed (q := Power.apply + 1) (by decide) inner
      (hfunction.head_kind inner.2)
    rw [phrase_apply, Phrase.apply, Phrase.join, hline]
    split
    · exact ⟨kind, lexeme, _, rfl, hk⟩
    · exact ⟨kind, lexeme, _, rfl, hk⟩
  | get target key =>
    obtain ⟨htarget, inner, -⟩ := h
    obtain ⟨kind, lexeme, rest, hline, hk⟩ := hfollowed (q := Power.get) (by decide) inner
      (htarget.head_kind inner.2)
    rw [phrase, Phrase.get, hline]
    exact ⟨kind, lexeme, _, rfl, hk⟩
  | unary s leads operand =>
    obtain ⟨hoperand, h⟩ := h
    by_cases hbar : s = Operator.bar
    · rw [phrase, if_pos hbar]
      exact ⟨.opening, "|", _, rfl, by decide⟩
    rw [if_neg hbar] at h
    cases leads with
    | false =>
      obtain ⟨kind, lexeme, rest, hline, hk⟩ := hfollowed (q := Power.trailing) (by decide) h.2
        (hoperand.head_kind h.2.2)
      simp only [phrase, if_neg hbar, Phrase.trailing, hline]
      exact ⟨kind, lexeme, _, rfl, hk⟩
    | true =>
      obtain ⟨op, hop, -⟩ := h
      obtain ⟨-, hpower⟩ := Operator.rightPower_of_leading? hop hbar
      simp only [phrase, if_neg hbar, hop, Phrase.leading] at hp
      rcases hpower with hpower | hpower <;> simp [hpower, Power.define, Power.leading] at hp

/-- The function with the arguments that are on the left. -/
def leftApplied (function : Expr) : List Expr → Left
  | [] => .single function
  | arguments => .applied function arguments

/-- One more argument comes after those on the left. -/
lemma argument_leftApplied (function : Expr) (arguments : List Expr) (e : Expr) :
    (leftApplied function arguments).argument e = leftApplied function (arguments ++ [e]) := by
  cases arguments <;> rfl

/-- The tokens are expressions one after the other. -/
def Argued : List Expr → List Token → Prop
  | [], ts => ts = []
  | e :: es, ts => ∃ us rest, ts = us ++ rest ∧
      e.Placed (Power.apply + 1 ≤ e.phrase.power ∧ e.phrase.loose = false) us ∧ Argued es rest

/-- Arguments are placed one after the other. -/
lemma argued_of_spelled {es : List Expr} (hinner : ∀ e ∈ es, e.Inner) {offset : Int} {ts : List Token}
    (h : Spelled offset ((es.map phrase).flatMap fun p =>
      gap :: (p.followed (Power.apply + 1)).line) ts) : Argued es ts := by
  induction es generalizing offset ts with
  | nil => exact h
  | cons e es ih =>
    rw [List.forall_mem_cons] at hinner
    rw [List.map_cons, List.flatMap_cons] at h
    obtain ⟨us, rest, rfl, hus, hrest⟩ := spelled_append.1 h
    exact ⟨us, rest, rfl, .of_followed hinner.1 hus, ih hinner.2 hrest⟩

/-- An argument that starts with an operator starts with one that stands between no two operands. -/
lemma Printable.line_of_isLedArgument {e : Expr} (h : e.Printable) (hled : e.isLedArgument) :
    ∃ s, Operator.binary? s = none ∧ ∃ rest, e.phrase.line = symbol s :: rest := by
  cases e with
  | unary s leads operand =>
    simp only [isLedArgument, Bool.and_eq_true, decide_eq_true_eq, Option.isNone_iff_eq_none] at hled
    obtain ⟨⟨rfl, hbar⟩, hnone⟩ := hled
    obtain ⟨-, h⟩ := h
    rw [if_neg hbar] at h
    obtain ⟨op, hop, -⟩ := h
    simp only [phrase, if_neg hbar, hop, Phrase.leading, Operator.symbol_of_leading? hop]
    exact ⟨s, hnone, _, rfl⟩
  | _ => cases hled

/-- An expression where an argument may stand starts as an argument does. -/
lemma Placed.startsArgument {bare : Prop} {e : Expr} {ts : List Token} {c d : Cursor}
    (h : e.Placed bare ts) (he : e.Printable)
    (hbare : bare → Power.apply + 1 ≤ e.phrase.power ∨
      e.isLedArgument ∧ c.previous.touches c.here = false)
    (hpass : c.Passes d ts) : StartsArgument c := by
  refine ⟨h.first (readable_of_printable he) hpass, fun hk => ?_⟩
  cases h with
  | grouped hang hs hts =>
    obtain ⟨opener, closer, hopen, -, -, rfl⟩ := hts
    rw [List.cons_append] at hpass
    rw [hpass.1, hopen] at hk
    cases hk
  | bare hb hblock hs =>
    obtain ⟨offset, us, outline, hus, -, rfl⟩ := hs
    rcases hbare hb with hle | ⟨hled, happart⟩
    · obtain ⟨kind, lexeme, rest, hline, hne⟩ := he.head_kind hblock (lt_of_lt_of_le (by decide) hle)
      rw [hline] at hus
      obtain ⟨t, us, rfl, ht, -⟩ := hus
      obtain ⟨more, hmore⟩ := streamOf_cons t us outline.tokens
      rw [hmore] at hpass
      rw [hpass.1, ht.kind_eq] at hk
      exact absurd hk hne
    · obtain ⟨s, hs, rest, hline⟩ := he.line_of_isLedArgument hled
      have hleads := ((readable_of_printable he).1 hblock).first
      rw [hline] at hus hleads
      obtain ⟨kind, lexeme, _, ⟨⟩, hhere, hstart⟩ := hleads.here hus hpass
      have hquestion : s ≠ "?" := by
        rintro rfl
        exact absurd hs (by decide)
      obtain ⟨-, -, hnext⟩ := hleads.next hquestion hus hpass
      refine ⟨hhere.lexeme_eq ▸ hs, fun p => ?_⟩
      have htilde : s ≠ "~" := by
        rintro rfl
        exact absurd hs (by decide)
      simp [trails, Cursor.isTrailing, hhere.lexeme_eq, htilde, happart, hnext]

/-- Arguments lead to no question mark of a function. -/
lemma Argued.clear {es : List Expr} {ts rest : List Token} (h : Argued es ts)
    (hes : ∀ e ∈ es, e.Absorbed) (hrest : continuesHead rest = false) :
    continuesHead (ts ++ rest) = false := by
  induction es generalizing ts with
  | nil =>
    obtain rfl : ts = [] := h
    exact hrest
  | cons e es ih =>
    rw [List.forall_mem_cons] at hes
    obtain ⟨us, vs, rfl, hplaced, hvs⟩ := h
    rw [List.append_assoc]
    exact hplaced.clear hes.1 (fun hb => .inl (lt_of_lt_of_le (by decide) hb.1)) (ih hvs hes.2)

/-- Arguments start as arguments do. -/
lemma Argued.starts {es : List Expr} {ts : List Token} {m d : Cursor} (h : Argued es ts)
    (hes : ∀ e ∈ es, e.Printable) (hpass : m.Passes d ts) (hd : StartsArgument d) :
    StartsArgument m := by
  cases es with
  | nil =>
    obtain rfl : ts = [] := h
    obtain rfl : m = d := hpass
    exact hd
  | cons e es =>
    obtain ⟨us, rest, rfl, hplaced, -⟩ := h
    obtain ⟨k, hus, -⟩ := Cursor.passes_append.1 hpass
    exact hplaced.startsArgument (hes e List.mem_cons_self) (fun hb => .inl hb.1) hus

/-- An argument ends what binds tighter than juxtaposition. -/
lemma Printable.ends_argument {e : Expr} (h : e.Printable) (inner : e.Inner) {m : Cursor}
    (hm : StartsArgument m) (hclear : continuesHead m.ahead = false)
    (hbare : Power.apply + 1 ≤ e.phrase.power ∧ e.phrase.loose = false) (p : Nat) : e.Ends p m := by
  refine ⟨?_, by simp [hbare.2], hclear, fun _ _ => hm.isSymbol_colon⟩
  have hreach := (h.power_le inner.2).2
  rw [edge, inner.1, moveAt_argument hm]
  exact if_neg (Nat.not_le_of_lt (hbare.1.trans hreach))

/-- The arguments before the last are taken in one after the other. -/
lemma takes_argued {p : Nat} {c m d : Cursor} {function : Expr} {done es : List Expr}
    {ts : List Token} (h : Takes p c (leftApplied function done) m) (hp : p ≤ Power.apply)
    (hes : ∀ e ∈ es, e.Printable ∧ e.Inner ∧ e.Absorbed) (hts : Argued es ts) (hpass : m.Passes d ts)
    (hd : StartsArgument d) (hclear : continuesHead d.ahead = false) :
    Takes p c (leftApplied function (done ++ es)) d := by
  induction es generalizing done m ts with
  | nil =>
    obtain rfl : ts = [] := hts
    obtain rfl : m = d := hpass
    rwa [List.append_nil]
  | cons e es ih =>
    have hm := hts.starts (fun e he => (hes e he).1) hpass hd
    rw [List.forall_mem_cons] at hes
    obtain ⟨⟨he, inner, abs⟩, hes⟩ := hes
    obtain ⟨us, rest, rfl, hplaced, hrest⟩ := hts
    obtain ⟨k, hus, hpass'⟩ := Cursor.passes_append.1 hpass
    have hk := hrest.starts (fun e he => (hes e he).1) hpass' hd
    have hclear' : continuesHead k.ahead = false := by
      rw [hpass'.ahead_eq]
      exact hrest.clear (fun e he => (hes e he).2.2) hclear
    have hmove : moveAt p m = .argue := by rw [moveAt_argument hm, if_pos hp]
    have hstop : moveAt (Power.apply + 1) k = .stop := by
      rw [moveAt_argument hk, if_neg (Nat.not_succ_le_self _)]
    have hread : Reads (.expr (Power.apply + 1)) m e k := hplaced.reads abs (readable_of_printable he)
      hus (fun _ hbare => ⟨he.ends_argument inner hk hclear' hbare _, .inl hbare.1⟩) hstop
    have hnext := h.argue hmove hread
    rw [argument_leftApplied] at hnext
    have := ih hnext hes hrest hpass'
    rwa [List.append_assoc] at this

/-- A part that is the last argument stands bare if it binds tightly enough, or if it starts with an
operator that makes it an argument. -/
lemma Argues.bare {e : Expr} (h : e.Argues)
    (hbare : Power.apply + 1 ≤ e.phrase.power ∨ e.phrase.tail) :
    Power.apply + 1 ≤ e.phrase.power ∨ e.phrase.tail ∧ e.isLedArgument := by
  by_cases hle : Power.apply + 1 ≤ e.phrase.power
  · exact .inl hle
  · have ht := hbare.resolve_left hle
    exact .inr ⟨ht, (h.2 ht).resolve_left hle⟩

/-- An argument that starts with an operator takes all that follows. -/
lemma isPrefixed_of_isLedArgument {e : Expr} (h : e.isLedArgument) : e.isPrefixed := by
  cases e with
  | unary s leads operand =>
    simp only [isLedArgument, Bool.and_eq_true] at h
    simpa [isPrefixed] using h.1
  | _ => cases h

/-- Phrases with nothing below them end in no block operator. -/
lemma getLast?_spaced {line : List Item} (hline : line.getLast?.any isHeader = false)
    {ps : List Phrase} (h : ∀ p ∈ ps, p.Sound ∧ p.body = .done) :
    (line ++ ps.flatMap fun p => gap :: p.line).getLast?.any isHeader = false := by
  induction ps generalizing line with
  | nil => simpa using hline
  | cons p ps ih =>
    rw [List.forall_mem_cons] at h
    rw [List.flatMap_cons, ← List.append_assoc]
    refine ih ?_ h.2
    rw [getLast?_append_cons_of_ne_nil _ _ h.1.1.legible.ne_nil, h.1.1.header, h.1.2]
    rfl

/-- What binds tighter than juxtaposition is neither an application nor a list. -/
lemma Printable.leftOf_eq_single {e : Expr} (h : e.Printable) (hbare : Power.apply + 1 ≤ e.phrase.power) :
    e.leftOf = .single e := by
  cases e with
  | apply function arguments =>
    obtain ⟨-, -, init, last, rfl, -⟩ := h.of_apply
    rw [phrase_apply, Phrase.apply, Phrase.power_join] at hbare
    exact absurd hbare (Nat.not_succ_le_self _)
  | list elements =>
    obtain ⟨first, middle, last, rfl, -⟩ := h.of_list
    rw [phrase_list, Phrase.list, Phrase.power_join] at hbare
    exact absurd hbare (by decide)
  | _ => rfl

/-- The tokens of an application are those of the function and those of the arguments, the last of which
stands apart from what is before it. -/
lemma apply_tokens {function last : Expr} {init : List Expr} {ts : List Token}
    (hfunction : function.Printable) (inner : function.Inner)
    (hinit : ∀ e ∈ init, e.Printable ∧ e.Inner ∧ e.Absorbed) (hlast : last.Printable)
    (argues : last.Argues) (h : (apply function (init ++ [last])).phrase.Streams ts) :
    ∃ fs as rest, ts = fs ++ as ++ rest ∧
      function.Placed (Power.apply + 1 ≤ function.phrase.power ∧ function.phrase.loose = false) fs ∧
      Argued init as ∧
      last.Placed (Power.apply + 1 ≤ last.phrase.power ∨ last.phrase.tail) rest ∧
      ∃ us u v more, fs ++ as = us ++ [u] ∧ rest = v :: more ∧ u.touches v = false := by
  have hsound := ((readable_of_printable hfunction).inner inner).followed (Power.apply + 1)
  have hargs : ∀ p ∈ (init.map phrase).map (·.followed (Power.apply + 1)), p.Sound ∧ p.body = .done := by
    simp only [List.forall_mem_map]
    intro e he
    obtain ⟨hprint, inner, -⟩ := hinit e he
    exact ⟨((readable_of_printable hprint).inner inner).followed _, inner.body_followed _⟩
  have hlegible := Phrase.Sound.spaced hsound.legible fun p hp => (hargs p hp).1
  have hheader := getLast?_spaced (hsound.header.trans (by rw [inner.body_followed]; rfl)) hargs
  rw [List.flatMap_map] at hlegible hheader
  have hlead := ((readable_of_printable hlast).1 argues.1).wrap (Power.apply + 1)
  rw [phrase_apply, Phrase.apply] at h
  obtain ⟨offset, us, outline, hus, hout, rfl⟩ := h
  simp only [Phrase.join, Phrase.isBlock_wrap argues.1, Bool.false_eq_true, if_false] at hus hout
  obtain ⟨hs, rs, rfl, hhs, hrs⟩ := spelled_append.1 hus
  obtain ⟨us, u, heq, hstop, -⟩ := hlegible.getLast?_tokens hhs
  have hlast' := hlegible.isHeader_getLast? hhs
  rw [hheader, Bool.not_false] at hlast'
  have hstream := @streamOf_append outline.tokens hs rs hlast'
  obtain ⟨fs, as, rfl, hfs, has⟩ := spelled_append.1 hhs
  obtain ⟨_, _, _, v, vs, -, rfl, hv, -⟩ := hlead.first.exists_token hrs
  obtain ⟨more, hmore⟩ := streamOf_cons v vs outline.tokens
  exact ⟨fs, as, streamOf (v :: vs) outline.tokens, hstream, .of_followed inner hfs,
    argued_of_spelled (fun e he => (hinit e he).2.1) has,
    .of_wrap argues.1 ⟨_, _, outline, hrs, hout, rfl⟩, us, u, v, more, heq, hmore,
    by simp [Token.touches, hstop, hv.offset_eq]⟩

/-- An application is read back. -/
lemma absorbed_apply {function last : Expr} {init : List Expr} (hfunction : function.Printable)
    (inner : function.Inner) (absf : function.Absorbed)
    (hinit : ∀ e ∈ init, e.Printable ∧ e.Inner ∧ e.Absorbed) (hlast : last.Printable)
    (abs : last.Absorbed) (argues : last.Argues) : (apply function (init ++ [last])).Absorbed := by
  have readable := readable_of_printable hfunction
  have hphrase := phrase_apply function last init
  rw [Phrase.apply] at hphrase
  refine ⟨fun {ts c d p} _ hstream hpass hends hpower => ?_, fun _ hstream _ hrest => ?_, by rintro _ _ _ ⟨⟩⟩
  · obtain ⟨fs, as, rest, rfl, hfs, has, hplaced, us, u, v, more, heq, rfl, happart⟩ :=
      apply_tokens hfunction inner hinit hlast argues hstream
    have hp : p ≤ Power.apply := by simpa [hphrase, isPrefixed] using hpower
    obtain ⟨k, hpassk, hpass⟩ := Cursor.passes_append.1 hpass
    obtain ⟨m, hpassf, hpassa⟩ := Cursor.passes_append.1 hpassk
    have hprevious : k.previous = u := by
      rw [heq] at hpassk
      exact hpassk.previous_eq
    have hk : StartsArgument k := hplaced.startsArgument hlast (fun hbare =>
      (argues.bare hbare).imp_right fun hled => ⟨hled.2, by rw [hprevious, hpass.1, happart]⟩) hpass
    have hclear' : continuesHead k.ahead = false := by
      rw [hpass.ahead_eq]
      exact hplaced.clear abs (fun hbare => (argues.bare hbare).imp
        (fun hle => lt_of_lt_of_le (by decide) hle) And.right) hends.clear
    have hm := has.starts (fun e he => (hinit e he).1) hpassa hk
    have hclearm : continuesHead m.ahead = false := by
      rw [hpassa.ahead_eq]
      exact has.clear (fun e he => (hinit e he).2.2) hclear'
    obtain ⟨left, -, hleft, htakes⟩ := hfs.takes (p := p) absf readable hpassf fun _ hbare =>
      ⟨hfunction.ends_argument inner hm hclearm hbare p, .inl (hp.trans (Nat.le_of_succ_le hbare.1))⟩
    have hsingle : left = leftApplied function [] := by
      rcases hleft with ⟨hbare, rfl⟩ | rfl
      · exact hfunction.leftOf_eq_single hbare.1
      · rfl
    rw [hsingle] at htakes
    have htakes' := takes_argued htakes hp hinit has hpassa hk hclear'
    obtain ⟨-, hread⟩ := hends.reads_join hphrase rfl hlast abs hplaced
      (fun _ hbare => (argues.bare hbare).imp_right fun h => ⟨h.1, isPrefixed_of_isLedArgument h.2⟩) hpass
    have hresult := htakes'.argue (by rw [moveAt_argument hk, if_pos hp]) hread
    rw [argument_leftApplied, List.nil_append] at hresult
    cases init <;> exact hresult
  · obtain ⟨fs, as, rest, rfl, hfs, has, hplaced, -⟩ :=
      apply_tokens hfunction inner hinit hlast argues hstream
    rw [List.append_assoc, List.append_assoc]
    refine hfs.clear absf (fun hbare => .inl (lt_of_lt_of_le (by decide) hbare.1)) ?_
    refine has.clear (fun e he => (hinit e he).2.2) ?_
    exact hplaced.clear abs (fun hbare => (argues.bare hbare).imp
      (fun hle => lt_of_lt_of_le (by decide) hle) And.right) hrest

/-! ## Blocks -/

/-- A statement stands on its line, in brackets if a tick would start a comment. -/
lemma Placed.of_statement {e : Expr} {ts : List Token} (stands : e.Stands)
    (h : e.phrase.statement.Streams ts) : e.Placed True ts := by
  unfold Phrase.statement at h
  split at h
  · next htick =>
    simp only [Bool.and_eq_true, Bool.not_eq_true'] at htick
    exact .of_bracketed htick.2 stands.1 h
  · exact .bare trivial stands.1 h

/-- What starts an operand somewhere heads no group that lacks its left operand. -/
lemma Placed.headsPointFree {bare : Prop} {e : Expr} {ts : List Token} {c d : Cursor}
    (h : e.Placed bare ts) (readable : e.Readable) (hpass : c.Passes d ts) :
    c.headsPointFree = false := by
  cases h with
  | bare _ hb hs => exact (hs.first (readable.1 hb) hpass).2
  | grouped hang hs hts =>
    obtain ⟨opener, closer, hopen, -, -, rfl⟩ := hts
    rw [List.cons_append] at hpass
    simp [Cursor.headsPointFree, hpass.1, hopen]

/-- The statements of a page are read one after the other. -/
lemma reads_page {es : List Expr} (hes : ∀ e ∈ es, e.Printable ∧ e.Stands ∧ e.Absorbed)
    {outline : Outline} (hout : (Phrase.page (phrases es)).Outlined outline) {c d : Cursor}
    (hpass : c.Passes d outline.tokens) (hd : d.here.kind = .closing ∨ d.here.kind = .ending)
    (read : List Expr) : Reads (.statements read) c (sequenced (read ++ es)) d := by
  have hend : d.here.isEnd := by
    rcases hd with h | h <;> simp [Token.isEnd, h]
  induction es generalizing outline c read with
  | nil =>
    cases hout
    obtain rfl : c = d := hpass
    rw [List.append_nil]
    exact .done hd
  | cons e es ih =>
    rw [List.forall_mem_cons] at hes
    obtain ⟨⟨he, stands, abs⟩, hes⟩ := hes
    have readable := readable_of_printable he
    cases hout with
    | @entry _ _ _ line body next offset hline hbody hnext =>
      rw [Outline.tokens, Outline.enclose_eq_streamOf, List.append_assoc] at hpass
      obtain ⟨m, hpassl, hpass⟩ := Cursor.passes_append.1 hpass
      have hplaced : e.Placed True (streamOf line.tokens body.tokens) :=
        .of_statement stands ⟨offset, line.tokens, body, hline, hbody, rfl⟩
      have hstart := hplaced.first readable hpassl
      have hnot : ¬(c.here.kind = .closing ∨ c.here.kind = .ending) := by
        rintro (hc | hc) <;> simp [Token.startsOperand, hc] at hstart
      have hread (hm : m.here.isEnd) : Reads (.expr 0) c e m :=
        hplaced.reads abs readable hpassl (fun _ _ => ⟨.of_isEnd hm 0 e, .inl (Nat.zero_le _)⟩)
          (moveAt_of_isEnd hm 0)
      cases es with
      | nil =>
        cases hnext
        obtain rfl : m = d := hpass
        exact .last hnot (hread hend) (by rcases hd with h | h <;> simp [h])
      | cons e' es =>
        cases hnext with
        | @entry _ _ _ line' body' next' offset' hline' hbody' hnext' =>
          obtain ⟨hsep, -, hpass⟩ := hpass
          have hk : m.here.kind = .separator := by
            rw [hsep]
            rfl
          have hrest := ih hes (.entry hline' hbody' hnext') hpass (read ++ [e])
          rw [List.append_assoc] at hrest
          exact .more hnot (hread (by simp [Token.isEnd, hk])) hk hrest

/-- A block below a header is read back. -/
lemma absorbed_block {statements : List Expr}
    (h : ∀ e ∈ statements, e.Printable ∧ e.Stands ∧ e.Absorbed) : (block statements).Absorbed := by
  refine ⟨by rintro _ _ _ _ ⟨⟩, by rintro _ _ ⟨⟩, fun {ts c d} hang hs hpass hd => ?_⟩
  obtain ⟨offset, us, outline, rfl, hout, rfl⟩ := hs
  rw [streamOf_nil_left] at hpass
  have hread := reads_page h hout hpass (.inl hd) []
  have hlen := hang.1
  match statements, hlen, hread, hout, h with
  | e :: e' :: es, _, hread, hout, h =>
    refine ⟨hread, ?_⟩
    obtain ⟨he, stands, -⟩ := h e List.mem_cons_self
    have readable := readable_of_printable he
    cases hout with
    | @entry _ _ _ line body next offset hline hbody hnext =>
      rw [Outline.tokens, Outline.enclose_eq_streamOf, List.append_assoc] at hpass
      obtain ⟨m, hpassl, -⟩ := Cursor.passes_append.1 hpass
      have hplaced : e.Placed True (streamOf line.tokens body.tokens) :=
        .of_statement stands ⟨offset, line.tokens, body, hline, hbody, rfl⟩
      exact ⟨hplaced.first readable hpassl, hplaced.headsPointFree readable hpassl⟩

/-! ## All forms -/

mutual

/-- The tokens of a printable expression are read as the expression. -/
theorem absorbed_of_printable {e : Expr} (h : e.Printable) : e.Absorbed := by
  match e with
  | literal kind raw =>
    cases kind with
    | number =>
      exact .of_word rfl nofun rfl nofun fun ht => by
        simp [atom?, ht.kind_eq, Token.payload, ht.lexeme_eq]
    | string =>
      exact .of_word rfl nofun rfl nofun fun ht => by
        simp [atom?, ht.kind_eq, Token.payload, ht.lexeme_eq]
    | character =>
      exact .of_word rfl nofun rfl nofun fun ht => by
        simp [atom?, ht.kind_eq, Token.payload, ht.lexeme_eq]
    | other name => exact h.elim
  | identifier name =>
    exact .of_word rfl nofun rfl (fun _ => rfl) fun ht => by
      simp [atom?, ht.kind_eq, ht.lexeme_eq]
  | unit => exact .of_word rfl nofun rfl nofun fun ht => by simp [atom?, ht.kind_eq]
  | emptyList => exact absorbed_emptyList
  | define target value =>
    obtain ⟨⟨name, rfl, -⟩, hvalue, hang⟩ := h
    exact absorbed_define hvalue (absorbed_of_printable hvalue) hang
  | lambda params body =>
    obtain ⟨-, hrest, hbody, hang⟩ := h
    exact absorbed_lambda hrest hbody (absorbed_of_printable hbody) hang
  | binary s left right =>
    obtain ⟨hleft, inner, hright, hs, hname, op, hop, hang⟩ := h
    exact absorbed_binary hop hs hname hleft (absorbed_of_printable hleft) inner hright
      (absorbed_of_printable hright) hang
  | unary s leads operand =>
    obtain ⟨hoperand, h⟩ := h
    have abs := absorbed_of_printable hoperand
    by_cases hbar : s = Operator.bar
    · rw [if_pos hbar] at h
      obtain ⟨hleads, inner, -⟩ := h
      rw [hbar, show leads = true from hleads]
      exact absorbed_bars hoperand abs inner
    rw [if_neg hbar] at h
    cases leads with
    | false => exact absorbed_trailing h.1 hoperand abs h.2
    | true =>
      obtain ⟨op, hop, glues⟩ := h
      exact absorbed_leading hbar hop hoperand abs glues
  | range start stop =>
    obtain ⟨hstart, inner, hstop, outer⟩ := h
    exact absorbed_range hstart (absorbed_of_printable hstart) inner hstop
      (absorbed_of_printable hstop) outer
  | get target key =>
    obtain ⟨htarget, inner, hkey, glues⟩ := h
    exact absorbed_get htarget (absorbed_of_printable htarget) inner hkey
      (absorbed_of_printable hkey) glues
  | apply function arguments =>
    have hall : ∀ e ∈ arguments, e.Absorbed := absorbed_of_printableAll h.2.2.1
    obtain ⟨hfunction, inner, init, last, rfl, hinit, hlast, argues⟩ := h.of_apply
    exact absorbed_apply hfunction inner (absorbed_of_printable hfunction)
      (fun e he => ⟨(hinit e he).1, (hinit e he).2, hall e (by simp [he])⟩) hlast
      (hall last (by simp)) argues
  | pointFree s none => exact absorbed_bareSymbol h
  | pointFree s (some preset) =>
    obtain ⟨hs, hpreset, inner⟩ := h
    exact absorbed_preset hs hpreset (absorbed_of_printable hpreset) inner
  | list elements =>
    have hall : ∀ e ∈ elements, e.Absorbed := absorbed_of_printableAll h.1
    obtain ⟨first, middle, last, rfl, hinit, hlast, outer⟩ := h.of_list
    exact absorbed_list (fun e he => ⟨(hinit e he).1, (hinit e he).2, hall e (by
      rw [← List.cons_append]
      exact List.mem_append_left _ he)⟩) hlast (hall last (by simp)) outer
  | block statements =>
    have hall : ∀ e ∈ statements, e.Absorbed := absorbed_of_printableAll h.1
    exact absorbed_block fun e he => ⟨printableAll_iff.1 h.1 e he, h.2 e he, hall e he⟩

/-- The tokens of printable expressions are read as the expressions. -/
theorem absorbed_of_printableAll {es : List Expr} (h : PrintableAll es) : ∀ e ∈ es, e.Absorbed := by
  match es with
  | [] => nofun
  | e :: es =>
    rw [List.forall_mem_cons]
    exact ⟨absorbed_of_printable h.1, absorbed_of_printableAll h.2⟩

end

end Expr

end SignLang
