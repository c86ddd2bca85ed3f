import SignLang.Proofs.Render.Printable

/-!
# Legible lines

`Legible line` says that the words of a line can be told apart when they are written: words have
spaces between them, or touch in one of the few ways in which no word runs into the next and every
bar keeps its role. The lines of a printable expression are legible (`Expr.readable_of_printable`), and so are
those of the pages below them (`Page.Formed`).
-/

namespace SignLang

open Item Lexeme

namespace Item

/-- The word can be the first one of an operand. -/
def startsOperand : Item → Bool
  | gap => false
  | word kind lexeme =>
    match kind with
    | .identifier | .number | .string | .character | .unit | .opening => true
    | .operator => lexeme = "?" || Operator.leadsOperand lexeme
    | _ => false

/-- The word is an operator that may end a line above indented lines. -/
def isHeader : Item → Bool
  | gap => false
  | word kind lexeme => kind = .operator && Operator.blockSymbols.contains lexeme

/-- The item is a word that is no bracket, and has the form of its kind. -/
def Written : Item → Prop
  | gap => False
  | word kind lexeme => kind ≠ .opening ∧ kind ≠ .closing ∧ kind ≠ .indent ∧ kind ≠ .newline ∧
      kind.Admits lexeme.toList

/-- The operator between two alternatives, which is written like the bracket of an absolute value. -/
def alternative : Item :=
  symbol Operator.bar

end Item

/-- The words of the line can be told apart. -/
inductive Legible : List Item → Prop where
  | single {i : Item} : i.Written → Legible [i]
  | spaced {a b : List Item} : Legible a → Legible b → Legible (a ++ gap :: b)
  | emptyGroup : Legible [openGroup, closeGroup]
  | group {a : List Item} : Legible a → Legible (openGroup :: a ++ [closeGroup])
  | bars {a : List Item} :
    Legible a →
    a.head? ≠ some alternative →
    a.getLast? ≠ some alternative →
    (textOf a).getLast?.all (!isGap ·) →
    Expr.EndsClear a →
    Legible (word .opening "|" :: a ++ [word .closing "|"])
  | lead {s : String} {b : List Item} :
    (symbol s).Written →
    symbol s ≠ alternative →
    Legible b →
    b.head?.any startsOperand →
    b.head? ≠ some (word .opening "|") →
    Legible (symbol s :: b)
  | trail {s : String} {a : List Item} :
    Legible a →
    a.getLast? ≠ some alternative →
    s ∈ ["!", "~", "'", ","] →
    Legible (a ++ [symbol s])
  | access {a b : List Item} :
    Legible a →
    a.getLast? ≠ some alternative →
    Legible b →
    b.head?.any startsOperand →
    b.head? ≠ some (word .opening "|") →
    Legible (a ++ symbol "'" :: b)

/-- A legible line has a word. -/
lemma Legible.ne_nil {line : List Item} (h : Legible line) : line ≠ [] := by
  cases h <;> simp

/-- The last item of a line is that of its end. -/
lemma getLast?_append_cons {α : Type} (a b : List α) (x : α) :
    (a ++ x :: b).getLast? = (x :: b).getLast? := by
  rw [List.getLast?_append]
  cases h : (x :: b).getLast? with
  | none => simp at h
  | some y => rfl

/-- The last item after another one is that of the rest, if there is a rest. -/
lemma getLast?_append_cons_of_ne_nil {α : Type} (a : List α) (x : α) {b : List α} (h : b ≠ []) :
    (a ++ x :: b).getLast? = b.getLast? := by
  rw [getLast?_append_cons, List.getLast?_cons_of_ne_nil h]

/-- The first item of a line is that of its front. -/
lemma head?_append_of_any {α : Type} {p : α → Bool} {a : List α} (h : a.head?.any p) (b : List α) :
    (a ++ b).head? = a.head? := by
  cases a with
  | nil => cases h
  | cons x a => rfl

/-- The line starts with an operand. An operator that leads it, other than the one of a function,
touches what it stands before. -/
def Leads (line : List Item) : Prop :=
  line.head?.any startsOperand ∧
    ∀ s rest, line = symbol s :: rest → s = "?" ∨ rest.head?.any startsOperand

/-- What starts with an operand does so whatever follows. -/
lemma Leads.append {a : List Item} (h : Leads a) (b : List Item) : Leads (a ++ b) := by
  obtain ⟨hfirst, hrest⟩ := h
  refine ⟨by rwa [head?_append_of_any hfirst], ?_⟩
  cases a with
  | nil => cases hfirst
  | cons i a =>
    intro s rest heq
    rw [List.cons_append] at heq
    obtain ⟨rfl, rfl⟩ := List.cons.inj heq
    refine (hrest s a rfl).imp_right fun h => ?_
    rwa [head?_append_of_any h]

/-! ## Operators as words -/

namespace Operator

/-- An entry between two operands is one of its symbol. -/
lemma symbol_of_binary? {s : String} {op : Operator} (h : binary? s = some op) : op.symbol = s := by
  simpa using List.find?_some h

/-- An entry before an operand is one of its symbol. -/
lemma symbol_of_leading? {s : String} {op : Operator} (h : leading? s = some op) : op.symbol = s := by
  simpa using List.find?_some h

/-- What may stand without its left operand stands between two operands. -/
lemma binary?_of_isPointFree {s : String} (h : isPointFree s) : ∃ op, binary? s = some op := by
  simp only [isPointFree, Bool.and_eq_true] at h
  exact Option.isSome_iff_exists.1 h.1

/-- An operator that reads as one is a word. -/
lemma written_symbol {s : String}
    (h : s = bar ∨ readOperator s.toList = .ok s.toList) : (Item.symbol s).Written := by
  refine ⟨by simp, by simp, by simp, by simp, ?_⟩
  rcases h with rfl | h
  · exact .inl rfl
  · exact isSymbol_of_readOperator h

/-- The operators between two operands are words. -/
lemma written_of_binary? {s : String} {op : Operator} (h : binary? s = some op) :
    (Item.symbol s).Written := by
  have hall : ∀ op ∈ binaryTable,
      op.symbol = bar ∨ readOperator op.symbol.toList = .ok op.symbol.toList := by
    decide +kernel
  rw [← symbol_of_binary? h]
  exact written_symbol (hall op (List.mem_of_find?_eq_some h))

/-- The operators before an operand are words. -/
lemma written_of_leading? {s : String} {op : Operator} (h : leading? s = some op) :
    (Item.symbol s).Written := by
  have hall : ∀ op ∈ leadingTable,
      op.symbol = bar ∨ readOperator op.symbol.toList = .ok op.symbol.toList := by
    decide +kernel
  rw [← symbol_of_leading? h]
  exact written_symbol (hall op (List.mem_of_find?_eq_some h))

end Operator

/-- An operand does not start with the operator between alternatives. -/
lemma head?_ne_alternative {line : List Item} (h : line.head?.any startsOperand) :
    line.head? ≠ some alternative := by
  intro heq
  rw [heq] at h
  exact absurd h (by decide)

/-! ## Pages and phrases -/

/-- The lines of a page are legible and start with no tick, and lines are indented only below an
operator that takes them. -/
def Page.Formed : Page → Prop
  | done => True
  | entry line body next =>
    Legible line ∧ (textOf line).head? ≠ some tick ∧
      (body.isSome → line.getLast?.any isHeader) ∧ body.Formed ∧ next.Formed

/-- A phrase that can be read: its line starts an operand and is legible, and the page below it is
formed. -/
structure Phrase.Sound (p : Phrase) : Prop where
  legible : Legible p.line
  first : Leads p.line
  last : p.line.getLast? ≠ some alternative
  header : p.line.getLast?.any isHeader = p.body.isSome
  formed : p.body.Formed

namespace Phrase.Sound

variable {p q : Phrase} {power : Nat}

/-- A word that is an operand is sound. -/
lemma single {kind : Kind} {lexeme : String} (h : (word kind lexeme).Written)
    (hfirst : (word kind lexeme).startsOperand) (hne : kind ≠ .operator) :
    Sound ⟨[word kind lexeme], .done, power, false, false⟩ := by
  refine ⟨.single h, ⟨by simpa using hfirst, ?_⟩, ?_, ?_, trivial⟩
  · rintro s rest ⟨⟩
    exact absurd rfl hne
  · simp [alternative, symbol, hne]
  · simp [isHeader, hne, Page.isSome]

/-- A legible group is sound. -/
lemma group {a : List Item} (h : Legible (openGroup :: a ++ [closeGroup])) :
    Sound ⟨openGroup :: a ++ [closeGroup], .done, power, false, false⟩ := by
  refine ⟨h, ⟨rfl, by rintro _ _ ⟨⟩⟩, ?_, ?_, trivial⟩
  · rw [getLast?_append_cons]
    decide
  · rw [getLast?_append_cons]
    rfl

/-- A sound phrase in brackets is sound. -/
lemma bracketed (h : p.Sound) : p.bracketed.Sound :=
  group (.group h.legible)

/-- A sound phrase is sound when it is wrapped. -/
lemma wrap (h : p.Sound) (power : Nat) : (p.wrap power).Sound := by
  unfold Phrase.wrap
  split
  · exact h
  · exact h.bracketed

/-- A sound phrase is sound when more text follows. -/
lemma followed (h : p.Sound) (power : Nat) : (p.followed power).Sound := by
  unfold Phrase.followed
  split
  · exact (h.wrap power).bracketed
  · exact h.wrap power

/-- A sound phrase is sound when it is glued to a symbol. -/
lemma glued (h : p.Sound) (power : Nat) : (p.glued power).Sound := by
  unfold Phrase.glued
  split
  · exact (h.wrap power).bracketed
  · exact h.wrap power

/-- A glued phrase does not start with a bar. -/
lemma head?_glued (hb : p.isBlock = false) (power : Nat) :
    (p.glued power).line.head? ≠ some (word .opening "|") := by
  unfold Phrase.glued
  split
  · simp [Phrase.bracketed, openGroup]
  · next hbar =>
    intro hhead
    refine hbar ?_
    obtain ⟨line, hline⟩ : ∃ line, (p.wrap power).line = word .opening "|" :: line := by
      cases hl : (p.wrap power).line with
      | nil => simp [hl] at hhead
      | cons i line =>
        rw [hl] at hhead
        exact ⟨line, by rw [Option.some.inj hhead]⟩
    simp [startsWith, Phrase.text, isBlock_wrap hb, hline, Item.text]

/-- A right-hand side after its head, or a block below it. -/
lemma join {head : List Item} (hhead : Legible head) (hfirst : Leads head)
    (hline : p.isBlock = false → p.Sound)
    (hblock : p.isBlock → head.getLast?.any isHeader ∧ p.body.isSome ∧ p.body.Formed) :
    (Phrase.join head p power).Sound := by
  unfold Phrase.join
  split
  · next hb =>
    obtain ⟨hlast, hsome, hformed⟩ := hblock hb
    refine ⟨hhead, hfirst, ?_, hlast.trans hsome.symm, hformed⟩
    intro heq
    rw [heq] at hlast
    exact absurd hlast (by decide)
  · next hb =>
    have h := hline (by simpa using hb)
    have hne := h.legible.ne_nil
    refine ⟨.spaced hhead h.legible, ?_, ?_, ?_, h.formed⟩
    · exact hfirst.append _
    · rw [getLast?_append_cons_of_ne_nil _ _ hne]
      exact h.last
    · rw [getLast?_append_cons_of_ne_nil _ _ hne]
      exact h.header

/-- An operator after a sound phrase. -/
lemma operator (h : p.Sound) {s : String} (hs : (symbol s).Written) :
    Legible (p.line ++ [gap, symbol s]) ∧ Leads (p.line ++ [gap, symbol s]) :=
  ⟨.spaced h.legible (.single hs), h.first.append _⟩

/-- Sound phrases after a legible line, with spaces between them. -/
lemma spaced {line : List Item} (hline : Legible line) {ps : List Phrase} (h : ∀ p ∈ ps, p.Sound) :
    Legible (line ++ ps.flatMap fun p => gap :: p.line) := by
  induction ps generalizing line with
  | nil => simpa using hline
  | cons p ps ih =>
    rw [List.forall_mem_cons] at h
    rw [List.flatMap_cons, ← List.append_assoc]
    exact ih (.spaced hline h.1.legible) h.2

/-- Sound phrases after a legible line, with commas before each and at the end. -/
lemma listed {line : List Item} (hline : Legible line) (hlast : line.getLast? ≠ some alternative)
    {ps : List Phrase} (h : ∀ p ∈ ps, p.Sound) :
    Legible (line ++ ps.flatMap (fun p => symbol "," :: gap :: p.line) ++ [symbol ","]) := by
  induction ps generalizing line with
  | nil =>
    rw [List.flatMap_nil, List.append_nil]
    exact .trail hline hlast (by simp)
  | cons p ps ih =>
    rw [List.forall_mem_cons] at h
    have hnext : Legible (line ++ symbol "," :: gap :: p.line) := by
      have := Legible.spaced (.trail (s := ",") hline hlast (by simp)) h.1.legible
      rwa [List.append_assoc] at this
    rw [List.flatMap_cons, ← List.append_assoc]
    refine ih hnext ?_ h.2
    rw [getLast?_append_cons, List.getLast?_cons_cons,
      List.getLast?_cons_of_ne_nil h.1.legible.ne_nil]
    exact h.1.last

/-- A sound operand with an operator after it is sound. -/
lemma trailing (h : p.Sound) {s : String} (hs : s = "!" ∨ s = "~") :
    (Phrase.trailing s p).Sound := by
  have hp := h.followed Power.trailing
  refine ⟨.trail hp.legible hp.last ?_, hp.first.append _, ?_, ?_, trivial⟩
  · rcases hs with rfl | rfl <;> simp
  · rw [Phrase.trailing, getLast?_append_cons]
    rcases hs with rfl | rfl <;> decide
  · rw [Phrase.trailing, getLast?_append_cons]
    rcases hs with rfl | rfl <;> rfl

/-- A sound operand with an operator before it is sound. -/
lemma leading (h : p.Sound) (hb : p.isBlock = false) {s : String} {op : Operator}
    (hop : Operator.leading? s = some op) (hs : s ≠ Operator.bar) :
    (Phrase.leading op p).Sound := by
  have hp := h.glued op.power
  have hne := hp.legible.ne_nil
  have hsymbol := Operator.symbol_of_leading? hop
  refine ⟨.lead ?_ ?_ hp.legible hp.first.1 (head?_glued hb op.power), ⟨?_, ?_⟩, ?_, ?_, hp.formed⟩
  · rw [hsymbol]
    exact Operator.written_of_leading? hop
  · rw [hsymbol]
    simpa [alternative, symbol] using hs
  · simp [Phrase.leading, hsymbol, startsOperand, symbol, Operator.leadsOperand, hs, hop]
  · rintro s rest ⟨⟩
    exact .inr hp.first.1
  · rw [Phrase.leading, List.getLast?_cons_of_ne_nil hne]
    exact hp.last
  · rw [Phrase.leading, List.getLast?_cons_of_ne_nil hne]
    exact hp.header

/-- A sound target with a sound key is sound. -/
lemma get (h : p.Sound) (hq : q.Sound) (hb : q.isBlock = false) : (Phrase.get p q).Sound := by
  have hp := h.followed Power.get
  have hk := hq.glued (Power.get + 1)
  have hne := hk.legible.ne_nil
  refine ⟨.access hp.legible hp.last hk.legible hk.first.1 (head?_glued hb _), ?_, ?_, ?_, hk.formed⟩
  · exact hp.first.append _
  · rw [Phrase.get, getLast?_append_cons_of_ne_nil _ _ hne]
    exact hk.last
  · rw [Phrase.get, getLast?_append_cons_of_ne_nil _ _ hne]
    exact hk.header

/-- A sound operand between bars is sound. -/
lemma bars (h : p.Sound) (ht : p.tail = false) (hb : p.isBlock = false)
    (hclear : Expr.EndsClear p.line) : (Phrase.bars p).Sound := by
  have hlegible : Legible (Phrase.bars p).line := by
    unfold Phrase.bars
    dsimp only
    split
    · refine .bars h.bracketed.legible (head?_ne_alternative h.bracketed.first.1) h.bracketed.last ?_ ?_
      · simp [Phrase.bracketed, closeGroup, Item.text, isGap, isSpace, isTerminator]
      · intro c _
        rw [Phrase.bracketed, getLast?_append_cons]
        simp [closeGroup]
    · next hblank =>
      refine .bars h.legible (head?_ne_alternative h.first.1) h.last ?_ hclear
      rw [text_eq_line ht hb] at hblank
      cases hlast : (textOf p.line).getLast? with
      | none => rfl
      | some c =>
        rw [hlast] at hblank
        rw [Option.all_some, Bool.not_eq_true']
        by_contra hgap
        rw [Bool.not_eq_false, isGap, isSpace, isTerminator] at hgap
        simp only [Bool.or_eq_true, decide_eq_true_eq] at hgap
        rcases hgap with (rfl | rfl) | (rfl | rfl) <;> exact hblank (by decide)
  refine ⟨hlegible, ⟨rfl, by rintro _ _ ⟨⟩⟩, ?_, ?_, trivial⟩
  · rw [Phrase.bars, getLast?_append_cons]
    decide
  · rw [Phrase.bars, getLast?_append_cons]
    rfl

/-- A sound statement starts with no tick. -/
lemma statement (h : p.Sound) (hb : p.isBlock = false) (ht : p.tail → p.startsWith tick = false) :
    p.statement.Sound ∧ (textOf p.statement.line).head? ≠ some tick := by
  unfold Phrase.statement
  split
  · exact ⟨h.bracketed, by simp [Phrase.bracketed, openGroup, Item.text, tick]⟩
  · next hnot =>
    refine ⟨h, fun hhead => ?_⟩
    have hstarts : p.startsWith tick := by
      simp [startsWith, Phrase.text, hb, List.head?_append, hhead]
    have htail : p.tail = false := by
      by_contra htail
      rw [Bool.not_eq_false] at htail
      rw [ht htail] at hstarts
      cases hstarts
    exact hnot (by rw [htail]; exact (Bool.and_true _).trans hstarts)

end Phrase.Sound

/-- What follows a head is no block. -/
lemma Phrase.isBlock_join (head : List Item) (p : Phrase) (power : Nat) :
    (join head p power).isBlock = false := by
  unfold join
  split <;> rfl

/-- Any power is at least zero. -/
lemma Phrase.wrap_zero (p : Phrase) : p.wrap 0 = p := by
  simp [wrap]

/-! ## Printable expressions -/

/-- Rest parameters and names are legible. -/
lemma Parameter.legible_items {p : Parameter} (h : IsName p.name.toList) :
    Legible p.items ∧ Leads p.items := by
  have hname : (word .identifier p.name).Written := ⟨by simp, by simp, by simp, by simp, h⟩
  unfold items
  split
  · refine ⟨.lead (Operator.written_symbol (.inr (by decide +kernel))) (by decide) (.single hname) rfl
      (by simp), show (symbol "~").startsOperand by decide, ?_⟩
    rintro s rest ⟨⟩
    exact .inr rfl
  · exact ⟨.single hname, rfl, nofun⟩

/-- A parameter list and its question mark are legible. -/
lemma Parameter.legible_head {params : List Parameter} (h : ∀ p ∈ params, IsName p.name.toList) :
    Legible (head params) ∧ Leads (head params) := by
  induction params with
  | nil =>
    refine ⟨.single (Operator.written_symbol (.inr (by decide +kernel))), by decide, ?_⟩
    rintro s rest ⟨⟩
    exact .inl rfl
  | cons p params ih =>
    rw [List.forall_mem_cons] at h
    obtain ⟨hitems, hfirst⟩ := legible_items h.1
    have heq : head (p :: params) = p.items ++ gap :: head params := by
      simp [head]
    rw [heq]
    exact ⟨.spaced hitems (ih h.2).1, hfirst.append _⟩

/-- A parameter list ends with a question mark. -/
lemma Parameter.getLast?_head (params : List Parameter) :
    (head params).getLast? = some (symbol "?") := by
  rw [head, getLast?_append_cons]
  rfl

namespace Expr

/-- A phrase is sound if it is no block, and has a formed page if it is one. -/
def Readable (e : Expr) : Prop :=
  (e.phrase.isBlock = false → e.phrase.Sound) ∧ (e.phrase.isBlock → e.phrase.body.Formed)

/-- A part that more text follows is sound. -/
lemma Readable.inner {e : Expr} (h : e.Readable) (inner : e.Inner) : e.phrase.Sound :=
  h.1 inner.2

/-- A right-hand side after a head that may have a block below it. -/
lemma Readable.join {e : Expr} (h : e.Readable) {head : List Item} {p q : Nat}
    (hhead : Legible head) (hfirst : Leads head)
    (hlast : e.phrase.isBlock → head.getLast?.any isHeader ∧ e.Hangs) :
    (Phrase.join head (e.phrase.wrap p) q).Sound := by
  cases hb : e.phrase.isBlock with
  | false =>
    refine .join hhead hfirst (fun _ => (h.1 hb).wrap p) fun hb' => ?_
    rw [Phrase.isBlock_wrap hb] at hb'
    cases hb'
  | true =>
    have hwrap : e.phrase.wrap p = e.phrase := by simp [Phrase.wrap, hb]
    rw [hwrap]
    obtain ⟨hheader, hang⟩ := hlast hb
    refine .join hhead hfirst (fun hb' => ?_) fun _ => ⟨hheader, hang.spec.2.2, h.2 hb⟩
    rw [hb] at hb'
    cases hb'

/-- A page of statements that can stand on lines of their own is formed. -/
lemma formed_page {es : List Expr} (h : ∀ e ∈ es, e.Readable) (hs : ∀ e ∈ es, e.Stands) :
    (Phrase.page (phrases es)).Formed := by
  induction es with
  | nil => trivial
  | cons e es ih =>
    rw [List.forall_mem_cons] at h hs
    obtain ⟨hblock, htail⟩ := hs.1
    obtain ⟨hsound, hhead⟩ := (h.1.1 hblock).statement hblock htail
    exact ⟨hsound.legible, hhead, hsound.header.trans, hsound.formed, ih h.2 hs.2⟩

mutual

/-- The lines of a printable expression are legible. -/
theorem readable_of_printable {e : Expr} (h : e.Printable) : e.Readable := by
  match e with
  | literal kind raw =>
    refine ⟨fun _ => ?_, nofun⟩
    cases kind with
    | number => exact .single ⟨by simp, by simp, by simp, by simp, h⟩ rfl (by simp)
    | string =>
      exact .single ⟨by simp, by simp, by simp, by simp, raw.toList, by simp [tick], h⟩ rfl (by simp)
    | character =>
      obtain ⟨c, hc⟩ := List.length_eq_one_iff.1 h
      exact .single ⟨by simp, by simp, by simp, by simp, c, by simp [hc]⟩ rfl (by simp)
    | other name => exact h.elim
  | identifier name =>
    exact ⟨fun _ => .single ⟨by simp, by simp, by simp, by simp, h⟩ rfl (by simp), nofun⟩
  | unit =>
    exact ⟨fun _ => .single ⟨by simp, by simp, by simp, by simp, rfl⟩ rfl (by simp), nofun⟩
  | emptyList => exact ⟨fun _ => .group (a := []) .emptyGroup, nofun⟩
  | define target value =>
    obtain ⟨⟨name, rfl, hname⟩, hvalue, hang⟩ := h
    have hsound : (identifier name).phrase.Sound :=
      .single ⟨by simp, by simp, by simp, by simp, hname⟩ rfl (by simp)
    obtain ⟨hhead, hfirst⟩ := hsound.operator
      (Operator.written_symbol (s := ":") (.inr (by decide +kernel)))
    have hjoin := (readable_of_printable hvalue).join (p := 0) (q := Power.define) hhead hfirst
      fun hb => ⟨rfl, hang.resolve_right (by simp [hb])⟩
    rw [Phrase.wrap_zero] at hjoin
    exact ⟨fun _ => hjoin, fun hb => absurd hb (by simp [phrase, Phrase.isBlock_join])⟩
  | lambda params body =>
    obtain ⟨hparams, -, hbody, hang⟩ := h
    obtain ⟨hhead, hfirst⟩ := Parameter.legible_head hparams
    refine ⟨fun _ => (readable_of_printable hbody).join hhead hfirst fun hb => ⟨?_, ?_⟩,
      fun hb => absurd hb (by simp [phrase, Phrase.isBlock_join])⟩
    · rw [Parameter.getLast?_head]
      rfl
    · exact hang.resolve_right fun h => by simp [h.1] at hb
  | binary s left right =>
    obtain ⟨hleft, inner, hright, -, -, op, hop, hang⟩ := h
    have hsymbol := Operator.symbol_of_binary? hop
    have hsound := (readable_of_printable hleft).inner inner
    have hhead (power : Nat) := (hsound.followed power).operator (Operator.written_of_binary? hop)
    have hlast (power : Nat) (hb : right.phrase.isBlock) :
        ((left.phrase.followed power).line ++ [gap, symbol s]).getLast?.any isHeader ∧
          right.Hangs := by
      rcases hang with ⟨rfl, hang⟩ | hang
      · exact ⟨by simp [symbol, isHeader, Operator.blockSymbols], hang⟩
      · rw [hang.1] at hb
        cases hb
    have hbinary : (Phrase.binary op left.phrase right.phrase).Sound := by
      unfold Phrase.binary
      rw [hsymbol]
      cases op.assoc
      all_goals exact (readable_of_printable hright).join (hhead _).1 (hhead _).2 (hlast _)
    simp only [Readable, phrase, hop]
    exact ⟨fun _ => hbinary, fun hb => absurd hb (by simp [Phrase.binary, Phrase.isBlock_join])⟩
  | unary s leads operand =>
    obtain ⟨hoperand, h⟩ := h
    have hread := readable_of_printable hoperand
    unfold Readable phrase
    by_cases hbar : s = Operator.bar
    · rw [if_pos hbar] at h ⊢
      obtain ⟨-, inner, hclear⟩ := h
      exact ⟨fun _ => (hread.inner inner).bars inner.1 inner.2 hclear, nofun⟩
    rw [if_neg hbar] at h ⊢
    cases leads with
    | false => exact ⟨fun _ => (hread.inner h.2).trailing h.1, nofun⟩
    | true =>
      obtain ⟨op, hop, ⟨hb, -⟩, -⟩ := h
      simp only [hop]
      exact ⟨fun _ => (hread.1 hb).leading hb hop hbar, nofun⟩
  | range start stop =>
    obtain ⟨hstart, inner, hstop, hb, -⟩ := h
    have hsound := ((readable_of_printable hstart).inner inner).followed Power.range
    obtain ⟨hhead, hfirst⟩ := hsound.operator
      (Operator.written_symbol (s := "~") (.inr (by decide +kernel)))
    refine ⟨fun _ => (readable_of_printable hstop).join hhead hfirst fun hb' => ?_,
      fun hb => absurd hb (by simp [phrase, Phrase.range, Phrase.isBlock_join])⟩
    rw [hb] at hb'
    cases hb'
  | get target key =>
    obtain ⟨htarget, inner, hkey, ⟨hb, -⟩, -⟩ := h
    exact ⟨fun _ => ((readable_of_printable htarget).inner inner).get
      ((readable_of_printable hkey).1 hb) hb, nofun⟩
  | apply function arguments =>
    have hall : ∀ e ∈ arguments, e.Readable := readable_of_printableAll h.2.2.1
    obtain ⟨hfunction, inner, init, last, rfl, hinit, -, hlast⟩ := h.of_apply
    have hsound := ((readable_of_printable hfunction).inner inner).followed (Power.apply + 1)
    have hargs : ∀ p ∈ (init.map phrase).map (·.followed (Power.apply + 1)), p.Sound := by
      simp only [List.forall_mem_map]
      exact fun e he => ((hall e (by simp [he])).inner (hinit e he).2).followed _
    have hhead := Phrase.Sound.spaced hsound.legible hargs
    rw [List.flatMap_map] at hhead
    unfold Readable
    rw [phrase_apply]
    refine ⟨fun _ => (hall last (by simp)).join hhead ?_ fun hb => ?_,
      fun hb => absurd hb (by simp [Phrase.apply, Phrase.isBlock_join])⟩
    · exact hsound.first.append _
    · rw [hlast.1] at hb
      cases hb
  | pointFree s none =>
    obtain ⟨op, hop⟩ := Operator.binary?_of_isPointFree h
    exact ⟨fun _ => .group (a := [symbol s]) (.group (.single (Operator.written_of_binary? hop))),
      nofun⟩
  | pointFree s (some preset) =>
    obtain ⟨hs, hpreset, inner⟩ := h
    obtain ⟨op, hop⟩ := Operator.binary?_of_isPointFree hs
    have hsound := ((readable_of_printable hpreset).inner inner).wrap (Power.product + 1)
    exact ⟨fun _ => .group (a := symbol s :: gap :: _)
      (.group (.spaced (.single (Operator.written_of_binary? hop)) hsound.legible)), nofun⟩
  | list elements =>
    have hall : ∀ e ∈ elements, e.Readable := readable_of_printableAll h.1
    obtain ⟨first, middle, last, rfl, hinit, -, hlast⟩ := h.of_list
    rw [List.forall_mem_cons] at hinit
    have hsound := ((hall first (by simp)).inner hinit.1.2).followed (Power.product + 1)
    have helements : ∀ p ∈ (middle.map phrase).map (·.followed (Power.product + 1)), p.Sound := by
      simp only [List.forall_mem_map]
      exact fun e he => ((hall e (by simp [he])).inner (hinit.2 e he).2).followed _
    have hhead := Phrase.Sound.listed hsound.legible hsound.last helements
    rw [List.flatMap_map] at hhead
    unfold Readable
    rw [phrase_list]
    refine ⟨fun _ => (hall last (by simp)).join hhead ?_ fun hb => ?_,
      fun hb => absurd hb (by simp [Phrase.list, Phrase.isBlock_join])⟩
    · rw [List.append_assoc]
      exact hsound.first.append _
    · rw [hlast.1] at hb
      cases hb
  | block statements =>
    exact ⟨nofun, fun _ => formed_page (readable_of_printableAll h.1) h.2⟩

/-- The lines of printable expressions are legible. -/
theorem readable_of_printableAll {es : List Expr} (h : PrintableAll es) : ∀ e ∈ es, e.Readable := by
  match es with
  | [] => nofun
  | e :: es =>
    rw [List.forall_mem_cons]
    exact ⟨readable_of_printable h.1, readable_of_printableAll h.2⟩

end

end Expr

end SignLang
