import SignLang.Proofs.Render.RoundTrip

/-!
# Structured programs

The programs that a person builds by hand: expressions without blocks, and statements whose last
part is a block of further statements. Each of them is rendered as a text that is read back as the
same program.

* `Expr.Simple`: expressions without blocks whose words the language can write.
* `Expr.Structured`: simple expressions, definitions and functions with a block as body.
* `Expr.Structured.sound`: what is structured is printable, and its lines are plain.
-/

namespace SignLang

open Lexeme Item

/-- The text is scanned as one token of the kind, which is all of it. -/
def ScansAs (kind : Kind) (text : String) : Prop :=
  ∃ t ending, scan text = .ok [t, ending] ∧ t.kind = kind ∧ t.lexeme = text

/-- A text that is scanned as one token has the form of its kind. -/
lemma ScansAs.admits {kind : Kind} {text : String} (h : ScansAs kind text) :
    kind.Admits text.toList := by
  obtain ⟨t, ending, hscan, rfl, rfl⟩ := h
  obtain ⟨body, ending', heq, hbody, -⟩ := scan_eq_concat hscan
  have hlength : [t].length = body.length := by
    have := congrArg List.length heq
    simp at this
    simp [← this]
  obtain ⟨rfl, -⟩ := List.append_inj heq hlength
  exact (hbody t List.mem_cons_self).2

namespace Expr

/-- A literal without line ends: a number, a string without ticks, or a character that is no opening
bracket. -/
def IsLiteral (raw : String) : LiteralKind → Prop
  | .number => ScansAs .number raw
  | .string => tick ∉ raw.toList ∧ ∀ c ∈ raw.toList, Text.isLineEnd c = false
  | .character => ∃ c, raw = String.ofList [c] ∧ isOpener c = false ∧ Text.isLineEnd c = false
  | .other _ => False

/-- A parameter list: names, of which only the last may be that of a rest parameter. -/
def AreParameters (params : List Parameter) : Prop :=
  (∀ p ∈ params, ScansAs .identifier p.name) ∧ ∀ p ∈ params.dropLast, p.isRest = false

mutual

/-- An expression without blocks whose parts have the form that the language gives them. -/
def Simple : Expr → Prop
  | literal kind raw => IsLiteral raw kind
  | identifier name => ScansAs .identifier name
  | unit | emptyList => True
  | define target value => (∃ name, target = identifier name) ∧ Simple target ∧ Simple value
  | lambda params body => AreParameters params ∧ Simple body
  | binary s left right =>
    (Operator.binary? s).isSome ∧ s ∉ ["?", ",", "~", "'"] ∧
      (s = ":" → ∀ name, left ≠ identifier name) ∧ Simple left ∧ Simple right
  | unary s true operand => (Operator.leading? s).isSome ∧ Simple operand
  | unary s false operand => (s = "!" ∨ s = "~") ∧ Simple operand
  | range start stop => Simple start ∧ Simple stop
  | get target key => Simple target ∧ Simple key
  | apply function arguments => Simple function ∧ 1 ≤ arguments.length ∧ AllSimple arguments
  | pointFree s none => (Operator.binary? s).isSome ∧ s ≠ ":" ∧ s ≠ "?"
  | pointFree s (some preset) => (Operator.binary? s).isSome ∧ s ≠ ":" ∧ s ≠ "?" ∧ Simple preset
  | list elements => 2 ≤ elements.length ∧ AllSimple elements
  | block _ => False

/-- All expressions of a list are simple. -/
def AllSimple : List Expr → Prop
  | [] => True
  | e :: es => Simple e ∧ AllSimple es

end

/-- A statement: a simple expression, or a definition, a function, or a definition of a function
whose body is a block of two or more statements. -/
inductive Structured : Expr → Prop
  | simple {e : Expr} : e.Simple → Structured e
  | define {name : String} {body : List Expr} : ScansAs .identifier name → 2 ≤ body.length →
      (∀ e ∈ body, Structured e) → Structured (define (identifier name) (block body))
  | function {name : String} {params : List Parameter} {body : List Expr} :
      ScansAs .identifier name → AreParameters params → 2 ≤ body.length →
      (∀ e ∈ body, Structured e) →
      Structured (Expr.define (identifier name) (lambda params (block body)))
  | lambda {params : List Parameter} {body : List Expr} : AreParameters params → 2 ≤ body.length →
      (∀ e ∈ body, Structured e) → Structured (lambda params (block body))

/-- A program: a statement, or a block of statements that are not just one. -/
inductive StructuredProgram : Expr → Prop
  | statement {e : Expr} : e.Structured → StructuredProgram e
  | empty : StructuredProgram (block [])
  | block {body : List Expr} : 2 ≤ body.length → (∀ e ∈ body, e.Structured) →
      StructuredProgram (block body)

end Expr

/-! ## Simple expressions are written on one line -/

/-- The item ends no line, and does not look like an opening bracket to a bar after it. -/
def Item.Clean (i : Item) : Prop :=
  i.text.all (!Text.isLineEnd ·) ∧ ∀ c : Char, isOpener c → i ≠ word .character (String.ofList ['\\', c])

namespace Item

/-- A word that is no character is clean if no line ends in it. -/
lemma Clean.of_kind {kind : Kind} {lexeme : String} (hk : kind ≠ .character)
    (h : lexeme.toList.all (!Text.isLineEnd ·)) : (word kind lexeme).Clean := by
  refine ⟨h, fun c _ heq => ?_⟩
  cases heq
  exact hk rfl

/-- A space is clean. -/
lemma clean_gap : gap.Clean :=
  ⟨by decide, nofun⟩

/-- The brackets of a group are clean. -/
lemma clean_group : openGroup.Clean ∧ closeGroup.Clean :=
  ⟨.of_kind (by decide) (by decide), .of_kind (by decide) (by decide)⟩

/-- The operators of the table are clean. -/
lemma clean_symbol {s : String}
    (h : ∃ op ∈ Operator.binaryTable ++ Operator.leadingTable, op.symbol = s) : (symbol s).Clean := by
  have hall : ∀ op ∈ Operator.binaryTable ++ Operator.leadingTable,
      op.symbol.toList.all (!Text.isLineEnd ·) := by
    decide +kernel
  obtain ⟨op, hop, rfl⟩ := h
  exact .of_kind (by decide) (hall op hop)

/-- The name of an identifier is clean. -/
lemma clean_identifier {name : String} (h : IsName name.toList) : (word .identifier name).Clean := by
  refine .of_kind (by decide) (List.all_eq_true.2 fun c hc => ?_)
  rw [Text.isLineEnd_eq_false (.inl (List.all_eq_true.1 h.2.1 c hc)), Bool.not_false]

end Item

namespace Phrase

/-- A phrase of one line, all of whose items are clean. -/
structure Flat (p : Phrase) : Prop where
  body_eq : p.body = .done
  isBlock_eq : p.isBlock = false
  clean : ∀ i ∈ p.line, i.Clean

namespace Flat

variable {p : Phrase}

/-- Nothing is indented below a flat phrase. -/
lemma tail_eq (h : p.Flat) : p.tail = false := by
  simp [tail, h.body_eq, Page.isSome]

/-- Brackets around a flat phrase. -/
lemma bracketed (h : p.Flat) : p.bracketed.Flat := by
  refine ⟨rfl, rfl, ?_⟩
  simp only [Phrase.bracketed, List.mem_append, List.mem_cons, List.not_mem_nil, or_false]
  rintro i ((rfl | hi) | rfl)
  · exact clean_group.1
  · exact h.clean i hi
  · exact clean_group.2

/-- A flat phrase in brackets if it needs them. -/
lemma wrap (h : p.Flat) (power : Nat) : (p.wrap power).Flat := by
  unfold Phrase.wrap
  split
  · exact h
  · exact h.bracketed

/-- A flat phrase that more text follows. -/
lemma followed (h : p.Flat) (power : Nat) : (p.followed power).Flat := by
  unfold Phrase.followed
  split
  · exact (h.wrap power).bracketed
  · exact h.wrap power

/-- A flat phrase after a symbol. -/
lemma glued (h : p.Flat) (power : Nat) : (p.glued power).Flat := by
  unfold Phrase.glued
  split
  · exact (h.wrap power).bracketed
  · exact h.wrap power

/-- A flat phrase after a clean head. -/
lemma join (h : p.Flat) {head : List Item} (hhead : ∀ i ∈ head, i.Clean) (power : Nat) :
    (Phrase.join head p power).Flat := by
  rw [Phrase.join, h.isBlock_eq, if_neg Bool.false_ne_true]
  refine ⟨h.body_eq, rfl, ?_⟩
  simp only [List.mem_append, List.mem_cons]
  rintro i (hi | rfl | hi)
  · exact hhead i hi
  · exact clean_gap
  · exact h.clean i hi

/-- An operand in bars. -/
lemma bars (h : p.Flat) : p.bars.Flat := by
  have hbar : (word .opening "|").Clean ∧ (word .closing "|").Clean :=
    ⟨.of_kind (by decide) (by decide), .of_kind (by decide) (by decide)⟩
  have hinner : ∀ i ∈ (if p.text.getLast?.any Text.isBlank then p.bracketed else p).line, i.Clean := by
    split
    · exact h.bracketed.clean
    · exact h.clean
  refine ⟨rfl, rfl, ?_⟩
  simp only [Phrase.bars, List.mem_append, List.mem_cons, List.not_mem_nil, or_false]
  rintro i ((rfl | hi) | rfl)
  · exact hbar.1
  · exact hinner i hi
  · exact hbar.2

end Flat

end Phrase

namespace Expr

/-- The head of a function is clean. -/
lemma AreParameters.clean {params : List Parameter} (h : AreParameters params) :
    ∀ i ∈ Parameter.head params, i.Clean := by
  have hq : (symbol "?").Clean := clean_symbol (by decide)
  have hrest : (symbol "~").Clean := clean_symbol (by decide)
  intro i hi
  rw [Parameter.head, List.mem_append, List.mem_flatMap] at hi
  rcases hi with ⟨p, hp, hi⟩ | hi
  · have hname := clean_identifier (h.1 p hp).admits
    rw [List.mem_append] at hi
    rcases hi with hi | hi
    · unfold Parameter.items at hi
      split at hi
      · simp only [List.mem_cons, List.not_mem_nil, or_false] at hi
        rcases hi with rfl | rfl
        · exact hrest
        · exact hname
      · rw [List.mem_singleton] at hi
        exact hi ▸ hname
    · rw [List.mem_singleton] at hi
      exact hi ▸ clean_gap
  · rw [List.mem_singleton] at hi
    exact hi ▸ hq

/-- A simple literal is one clean word that can be written. -/
lemma IsLiteral.sound {kind : LiteralKind} {raw : String} (h : IsLiteral raw kind) :
    (literal kind raw).phrase.Flat ∧ (literal kind raw).Printable := by
  have hflat (hclean : (kind.word raw).Clean) : (literal kind raw).phrase.Flat :=
    ⟨rfl, rfl, by simpa [phrase] using hclean⟩
  cases kind with
  | number =>
    have hnumber : IsNumber raw.toList := ScansAs.admits h
    refine ⟨hflat (.of_kind (by decide) (List.all_eq_true.2 fun c hc => ?_)), hnumber⟩
    rw [Text.isLineEnd_eq_false (hnumber.forall_mem c hc), Bool.not_false]
  | string =>
    obtain ⟨htick, hends⟩ := h
    refine ⟨hflat (.of_kind (by decide) ?_), ?_⟩
    · have htick : "\x60".toList.all (!Text.isLineEnd ·) := by decide
      simpa only [String.toList_append, List.all_append, htick, Bool.true_and, Bool.and_true,
        List.all_eq_true, Bool.not_eq_true'] using hends
    · change raw.toList.all isStringChar
      rw [List.all_eq_true]
      intro c hc
      have hne : c ≠ tick := fun heq => htick (heq ▸ hc)
      have hend : isTerminator c = false := by
        by_contra hend
        have := hends c hc
        obtain rfl | rfl := isTerminator_iff.1 (by simpa using hend) <;> exact absurd this (by decide)
      simp [isStringChar, hne, hend]
  | character =>
    obtain ⟨c, rfl, hopen, hend⟩ := h
    refine ⟨hflat ⟨?_, ?_⟩, by simp [Printable]⟩
    · simp only [LiteralKind.word, Item.text, String.toList_append, String.toList_ofList,
        List.all_append, List.all_cons, List.all_nil, hend, Bool.not_false, Bool.and_true]
      decide
    · intro d hd heq
      simp only [LiteralKind.word, Item.word.injEq, true_and] at heq
      have := congrArg String.toList heq
      simp at this
      rw [this, hd] at hopen
      cases hopen
  | other name => exact h.elim

section Flat

variable {e : Expr} (h : e.phrase.Flat)
include h

/-- More text may follow a flat part on its line. -/
lemma inner_of_flat : e.Inner :=
  ⟨h.tail_eq, h.isBlock_eq⟩

/-- A flat part may stand last on a line. -/
lemma outer_of_flat (power : Nat) : e.Outer power :=
  ⟨h.isBlock_eq, by simp [h.tail_eq]⟩

/-- A flat part may stand after a symbol. -/
lemma glues_of_flat (power : Nat) : e.Glues power :=
  ⟨outer_of_flat h power, by simp [h.tail_eq]⟩

/-- A flat part may be the last argument. -/
lemma argues_of_flat : e.Argues :=
  ⟨h.isBlock_eq, by simp [h.tail_eq]⟩

/-- No opening bracket seems to end a flat part. -/
lemma endsClear_of_flat : EndsClear e.phrase.line :=
  fun c hc hlast => (h.clean _ (List.mem_of_getLast? hlast)).2 c hc rfl

end Flat

/-- A clean line and the operator after it. -/
lemma clean_concat {line : List Item} (h : ∀ i ∈ line, i.Clean) {s : String}
    (hs : (symbol s).Clean) : ∀ i ∈ line ++ [gap, symbol s], i.Clean := by
  simp only [List.mem_append, List.mem_cons, List.not_mem_nil, or_false]
  rintro i (hi | rfl | rfl)
  · exact h i hi
  · exact clean_gap
  · exact hs

/-- An operator between two operands that takes no block may stand without its left operand. -/
lemma isPointFree_of {s : String} (h : (Operator.binary? s).isSome) (hdefine : s ≠ ":")
    (hlambda : s ≠ "?") : Operator.isPointFree s ∧ (symbol s).Clean := by
  obtain ⟨op, hop⟩ := Option.isSome_iff_exists.1 h
  refine ⟨by simp [Operator.isPointFree, h, Operator.blockSymbols, hdefine, hlambda], ?_⟩
  exact clean_symbol ⟨op, List.mem_append_left _ (List.mem_of_find?_eq_some hop),
    Operator.symbol_of_binary? hop⟩

mutual

/-- A simple expression is printable on one clean line. -/
theorem Simple.sound {e : Expr} (h : e.Simple) : e.phrase.Flat ∧ e.Printable := by
  match e with
  | literal kind raw => exact IsLiteral.sound h
  | identifier name =>
    have hname : IsName name.toList := ScansAs.admits h
    exact ⟨⟨rfl, rfl, by simpa [phrase, Phrase.atom] using clean_identifier hname⟩, hname⟩
  | unit =>
    have hword : (word .unit "_").Clean := .of_kind (by decide) (by decide)
    exact ⟨⟨rfl, rfl, by simpa [phrase, Phrase.atom] using hword⟩, trivial⟩
  | emptyList => exact ⟨⟨rfl, rfl, by simpa [phrase] using clean_group⟩, trivial⟩
  | define target value =>
    obtain ⟨⟨name, rfl⟩, htarget, hvalue⟩ := h
    obtain ⟨hflat, hprint⟩ := hvalue.sound
    exact ⟨hflat.join (clean_concat htarget.sound.1.clean (clean_symbol (by decide))) _,
      ⟨name, rfl, htarget.sound.2⟩, hprint, .inr hflat.isBlock_eq⟩
  | lambda params body =>
    obtain ⟨hparams, hbody⟩ := h
    obtain ⟨hflat, hprint⟩ := hbody.sound
    exact ⟨(hflat.wrap _).join hparams.clean _, fun p hp => (hparams.1 p hp).admits, hparams.2,
      hprint, .inr (outer_of_flat hflat _)⟩
  | binary s left right =>
    obtain ⟨hs, hnot, hname, hleft, hright⟩ := h
    obtain ⟨op, hop⟩ := Option.isSome_iff_exists.1 hs
    obtain ⟨hflat, hprint⟩ := hleft.sound
    obtain ⟨hflat', hprint'⟩ := hright.sound
    have hsymbol : (symbol s).Clean := clean_symbol ⟨op,
      List.mem_append_left _ (List.mem_of_find?_eq_some hop), Operator.symbol_of_binary? hop⟩
    refine ⟨?_, hprint, inner_of_flat hflat, hprint', hnot, fun heq => ?_, op, hop,
      .inr (outer_of_flat hflat' _)⟩
    · rw [phrase_binary hop]
      exact (hflat'.wrap _).join (clean_concat (hflat.followed _).clean hsymbol) _
    · cases left with
      | identifier name => exact absurd rfl (hname heq name)
      | _ => rfl
  | unary s true operand =>
    obtain ⟨hs, hoperand⟩ := h
    obtain ⟨hflat, hprint⟩ := hoperand.sound
    by_cases hbar : s = Operator.bar
    · rw [phrase, Printable, if_pos hbar, if_pos hbar]
      exact ⟨hflat.bars, hprint, rfl, inner_of_flat hflat, endsClear_of_flat hflat⟩
    obtain ⟨op, hop⟩ := Option.isSome_iff_exists.1 hs
    have hsymbol : (symbol op.symbol).Clean := clean_symbol ⟨op,
      List.mem_append_right _ (List.mem_of_find?_eq_some hop), rfl⟩
    rw [phrase, Printable, if_neg hbar, if_neg hbar]
    simp only [hop]
    exact ⟨⟨(hflat.glued _).body_eq, rfl, List.forall_mem_cons.2 ⟨hsymbol, (hflat.glued _).clean⟩⟩,
      hprint, op, rfl, glues_of_flat hflat _⟩
  | unary s false operand =>
    obtain ⟨hs, hoperand⟩ := h
    obtain ⟨hflat, hprint⟩ := hoperand.sound
    have hbar : s ≠ Operator.bar := by rcases hs with rfl | rfl <;> decide
    have hsymbol : (symbol s).Clean := by
      rcases hs with rfl | rfl <;> exact clean_symbol (by decide)
    rw [phrase, Printable, if_neg hbar, if_neg hbar]
    exact ⟨⟨rfl, rfl, List.forall_mem_append.2 ⟨(hflat.followed _).clean, by simpa using hsymbol⟩⟩,
      hprint, hs, inner_of_flat hflat⟩
  | range start stop =>
    obtain ⟨hstart, hstop⟩ := h
    obtain ⟨hflat, hprint⟩ := hstart.sound
    obtain ⟨hflat', hprint'⟩ := hstop.sound
    exact ⟨(hflat'.wrap _).join (clean_concat (hflat.followed _).clean (clean_symbol (by decide))) _,
      hprint, inner_of_flat hflat, hprint', outer_of_flat hflat' _⟩
  | get target key =>
    obtain ⟨htarget, hkey⟩ := h
    obtain ⟨hflat, hprint⟩ := htarget.sound
    obtain ⟨hflat', hprint'⟩ := hkey.sound
    have hline : ∀ i ∈ (get target key).phrase.line, i.Clean := List.forall_mem_append.2
      ⟨(hflat.followed _).clean, List.forall_mem_cons.2 ⟨clean_symbol (by decide), (hflat'.glued _).clean⟩⟩
    exact ⟨⟨(hflat'.glued _).body_eq, rfl, hline⟩, hprint, inner_of_flat hflat, hprint',
      glues_of_flat hflat' _⟩
  | apply function arguments =>
    obtain ⟨hfunction, hlen, harguments⟩ := h
    obtain ⟨hflat, hprint⟩ := hfunction.sound
    have hall := harguments.sound
    have hne : arguments ≠ [] := List.ne_nil_of_length_pos hlen
    refine ⟨?_, hprint, inner_of_flat hflat, printableAll_iff.2 fun e he => (hall e he).2, hne,
      fun e he => inner_of_flat (hall e (List.mem_of_mem_dropLast he)).1,
      fun e he => argues_of_flat (hall e (List.mem_of_getLast? he)).1⟩
    obtain ⟨init, last, rfl⟩ := (List.eq_nil_or_concat' arguments).resolve_left hne
    rw [List.forall_mem_append] at hall
    rw [phrase_apply]
    refine ((hall.2 last List.mem_cons_self).1.wrap _).join (List.forall_mem_append.2
      ⟨(hflat.followed _).clean, ?_⟩) _
    simp only [List.flatMap_map, List.mem_flatMap]
    rintro i ⟨e, he, hi⟩
    exact List.forall_mem_cons.2 ⟨clean_gap, ((hall.1 e he).1.followed _).clean⟩ i hi
  | pointFree s none =>
    obtain ⟨hfree, hsymbol⟩ := isPointFree_of h.1 h.2.1 h.2.2
    exact ⟨⟨rfl, rfl, List.forall_mem_cons.2 ⟨clean_group.1, List.forall_mem_cons.2
      ⟨hsymbol, by simpa using clean_group.2⟩⟩⟩, hfree⟩
  | pointFree s (some preset) =>
    obtain ⟨hs, hdefine, hlambda, hpreset⟩ := h
    obtain ⟨hfree, hsymbol⟩ := isPointFree_of hs hdefine hlambda
    obtain ⟨hflat, hprint⟩ := hpreset.sound
    have hline : ∀ i ∈ (pointFree s (some preset)).phrase.line, i.Clean := List.forall_mem_append.2
      ⟨List.forall_mem_cons.2 ⟨clean_group.1, List.forall_mem_cons.2 ⟨hsymbol, List.forall_mem_cons.2
        ⟨clean_gap, (hflat.wrap _).clean⟩⟩⟩, by simpa using clean_group.2⟩
    exact ⟨⟨rfl, rfl, hline⟩, hfree, hprint, inner_of_flat hflat⟩
  | list elements =>
    obtain ⟨hlen, helements⟩ := h
    have hall := helements.sound
    have hprint : (list elements).Printable := ⟨printableAll_iff.2 fun e he => (hall e he).2, hlen,
      fun e he => inner_of_flat (hall e (List.mem_of_mem_dropLast he)).1,
      fun e he => outer_of_flat (hall e (List.mem_of_getLast? he)).1 _⟩
    refine ⟨?_, hprint⟩
    obtain ⟨first, middle, last, rfl, -⟩ := hprint.of_list
    rw [← List.cons_append, List.forall_mem_append, List.forall_mem_cons] at hall
    have hcomma : (symbol ",").Clean := clean_symbol (by decide)
    rw [phrase_list]
    refine ((hall.2 last List.mem_cons_self).1.wrap _).join (List.forall_mem_append.2
      ⟨List.forall_mem_append.2 ⟨(hall.1.1.1.followed _).clean, ?_⟩, by simpa using hcomma⟩) _
    simp only [List.flatMap_map, List.mem_flatMap]
    rintro i ⟨e, he, hi⟩
    exact List.forall_mem_cons.2 ⟨hcomma, List.forall_mem_cons.2
      ⟨clean_gap, ((hall.1.2 e he).1.followed _).clean⟩⟩ i hi

/-- Simple expressions are printable, each on one clean line. -/
theorem AllSimple.sound {es : List Expr} (h : AllSimple es) :
    ∀ e ∈ es, e.phrase.Flat ∧ e.Printable := by
  match es with
  | [] => nofun
  | e :: es =>
    rw [List.forall_mem_cons]
    exact ⟨h.1.sound, h.2.sound⟩

end

/-! ## Structured programs are printable -/

/-- A statement that can be written on lines of its own, which may be indented. -/
structure Writable (e : Expr) : Prop where
  printable : e.Printable
  stands : e.Stands
  plain : (Phrase.page [e.phrase]).Plain

/-- The lines of several statements are plain if those of each are. -/
lemma plain_page {es : List Expr} (h : ∀ e ∈ es, e.Writable) : (Phrase.page (phrases es)).Plain := by
  induction es with
  | nil => trivial
  | cons e es ih =>
    rw [List.forall_mem_cons] at h
    obtain ⟨hne, hline, hbody, -⟩ := h.1.plain
    exact ⟨hne, hline, hbody, ih h.2⟩

/-- A block of statements hangs below its header. -/
lemma hangs_of_writable {body : List Expr} (hlen : 2 ≤ body.length) (h : ∀ e ∈ body, e.Writable) :
    (block body).Printable ∧ (block body).Hangs :=
  ⟨⟨printableAll_iff.2 fun e he => (h e he).printable, fun e he => (h e he).stands⟩, hlen,
    plain_page h⟩

/-- A statement whose line is clean, above lines that are plain. -/
lemma writable_of_clean {e : Expr} (hprint : e.Printable) (hstands : e.Stands)
    (hline : ∀ i ∈ e.phrase.line, i.Clean) (hbody : e.phrase.body.Plain) : e.Writable := by
  refine ⟨hprint, hstands, ?_⟩
  obtain ⟨hlegible, -⟩ := formed_page (List.forall_mem_singleton.2 (readable_of_printable hprint))
    (List.forall_mem_singleton.2 hstands)
  obtain ⟨c, cs, htext, -⟩ := hlegible.text_eq_cons
  have hclean : (∀ i ∈ e.phrase.statement.line, i.Clean) ∧ e.phrase.statement.body.Plain := by
    unfold Phrase.statement
    split
    · refine ⟨List.forall_mem_append.2 ⟨List.forall_mem_cons.2 ⟨clean_group.1, hline⟩, ?_⟩, trivial⟩
      simpa using clean_group.2
    · exact ⟨hline, hbody⟩
  refine ⟨by simp [htext], ?_, hclean.2, trivial⟩
  rw [textOf, List.all_flatMap, List.all_eq_true]
  exact fun i hi => (hclean.1 i hi).1

/-- A statement whose header starts with no tick, above a block of statements. -/
lemma writable_of_header {e : Expr} {head : List Item} {body : List Expr} {power : Nat}
    (heq : e.phrase = ⟨head, Phrase.page (phrases body), power, false, false⟩) (hprint : e.Printable)
    (hclean : ∀ i ∈ head, i.Clean) (hfirst : (textOf head).head?.any (· ≠ tick))
    (hbody : ∀ e ∈ body, e.Writable) : e.Writable := by
  refine writable_of_clean hprint ⟨by rw [heq], fun _ => ?_⟩ (by rwa [heq]) (by
    rw [heq]
    exact plain_page hbody)
  cases htext : textOf head with
  | nil =>
    rw [htext] at hfirst
    cases hfirst
  | cons c cs =>
    rw [htext] at hfirst
    have hne : c ≠ tick := by simpa using hfirst
    simp [heq, Phrase.startsWith, Phrase.text, htext, hne]

/-- A name starts with no tick. -/
lemma head?_ne_tick {name : String} (h : ScansAs .identifier name) (rest : List Char) :
    (name.toList ++ rest).head?.any (· ≠ tick) := by
  have hstart : name.toList.head?.any isNameStart := (ScansAs.admits h).1
  cases hname : name.toList with
  | nil =>
    rw [hname] at hstart
    cases hstart
  | cons c cs =>
    have hc : isNameStart c := by simpa [hname] using hstart
    have hne : c ≠ tick := by
      rintro rfl
      exact absurd hc (by decide)
    simpa using hne

/-- A parameter list starts with no tick. -/
lemma AreParameters.head?_ne_tick {params : List Parameter} (h : AreParameters params) :
    (textOf (Parameter.head params)).head?.any (· ≠ tick) := by
  cases params with
  | nil => decide
  | cons p params =>
    have hname := h.1 p List.mem_cons_self
    rw [Parameter.head, List.flatMap_cons, List.append_assoc, List.append_assoc, textOf_append,
      Parameter.items]
    split
    · rfl
    · rw [textOf_cons, textOf_nil, List.append_nil]
      exact Expr.head?_ne_tick hname _

/-- The phrase of a function whose body is a block. -/
lemma phrase_lambda_block (params : List Parameter) (body : List Expr) :
    (lambda params (block body)).phrase =
      ⟨Parameter.head params, Phrase.page (phrases body), Power.lambda, false, false⟩ := by
  simp [phrase, Phrase.wrap, Phrase.block, Phrase.join]

/-- A structured statement can be written on lines of its own. -/
theorem Structured.writable {e : Expr} (h : e.Structured) : e.Writable := by
  induction h with
  | simple h =>
    obtain ⟨hflat, hprint⟩ := h.sound
    refine writable_of_clean hprint ⟨hflat.isBlock_eq, by simp [hflat.tail_eq]⟩ hflat.clean ?_
    rw [hflat.body_eq]
    trivial
  | @define name body hname hlen _ ih =>
    obtain ⟨hprint, hangs⟩ := hangs_of_writable hlen ih
    have hclean : ∀ i ∈ [word .identifier name] ++ [gap, symbol ":"], i.Clean :=
      clean_concat (by simpa using clean_identifier hname.admits) (clean_symbol (by decide))
    exact writable_of_header rfl ⟨⟨name, rfl, hname.admits⟩, hprint, .inl hangs⟩ hclean
      (Expr.head?_ne_tick hname _) ih
  | @function name params body hname hparams hlen _ ih =>
    obtain ⟨hprint, hangs⟩ := hangs_of_writable hlen ih
    have hclean : ∀ i ∈ [word .identifier name] ++ [gap, symbol ":"], i.Clean :=
      clean_concat (by simpa using clean_identifier hname.admits) (clean_symbol (by decide))
    have hlambda : (Expr.lambda params (block body)).Printable :=
      ⟨fun p hp => (hparams.1 p hp).admits, hparams.2, hprint, .inl hangs⟩
    have hphrase := phrase_lambda_block params body
    have hdefine : (Expr.define (.identifier name) (.lambda params (block body))).phrase =
        ⟨[word .identifier name] ++ [gap, symbol ":"] ++ gap :: Parameter.head params,
          Phrase.page (phrases body), Power.define, false, false⟩ := by
      rw [phrase, hphrase]
      rfl
    exact writable_of_header hdefine ⟨⟨name, rfl, hname.admits⟩, hlambda, .inr (by
      rw [hphrase])⟩ (List.forall_mem_append.2
      ⟨hclean, List.forall_mem_cons.2 ⟨clean_gap, hparams.clean⟩⟩) (Expr.head?_ne_tick hname _) ih
  | @lambda params body hparams hlen _ ih =>
    obtain ⟨hprint, hangs⟩ := hangs_of_writable hlen ih
    exact writable_of_header (phrase_lambda_block params body)
      ⟨fun p hp => (hparams.1 p hp).admits, hparams.2, hprint, .inl hangs⟩ hparams.clean
      hparams.head?_ne_tick ih

/-- What is structured is no block. -/
lemma Structured.statements_eq {e : Expr} (h : e.Structured) : e.statements = [e] := by
  have hblock := h.writable.stands.1
  cases e with
  | block es => cases hblock
  | _ => rfl

/-- A structured program is a printable one. -/
lemma StructuredProgram.program {e : Expr} (h : e.StructuredProgram) : e.Program := by
  cases h with
  | statement h =>
    refine ⟨?_, ?_, ?_⟩
    all_goals rw [h.statements_eq]
    · rfl
    · simpa using h.writable.printable
    · simpa using h.writable.stands
  | empty => exact ⟨rfl, nofun, nofun⟩
  | @block body hlen h =>
    refine ⟨?_, fun e he => (h e he).writable.printable, fun e he => (h e he).writable.stands⟩
    match body, hlen with
    | e :: e' :: es, _ => rfl

/-- Every structured program has a text, and the text is read as the program wherever the limits on
nesting admit it. -/
theorem writes_of_structured {e : Expr} (h : e.StructuredProgram) :
    ∃ text, e.render = .ok text ∧ Writes text e :=
  h.program.writes

/-- A program with a function of a rest parameter, whose body is a block. -/
def sumProgram : Expr :=
  block [define (identifier "f") (lambda [⟨"x", false⟩, ⟨"y", true⟩]
    (block [binary "+" (identifier "x") (literal .number "1"),
      unary "|" true (literal .character "a")])), unit]

/-- The program `sumProgram` is structured, so its text is read as the program. -/
theorem writes_sumProgram : ∃ text, sumProgram.render = .ok text ∧ Writes text sumProgram := by
  have hscan (kind : Kind) (text : String) (h : scan text = .ok
      [⟨kind, text, 1, 1, 0, false⟩, ⟨.ending, "", 1, 2, 1, false⟩]) : ScansAs kind text :=
    ⟨_, _, h, rfl, rfl⟩
  have hf : ScansAs .identifier "f" := hscan _ _ (by decide +kernel)
  have hx : ScansAs .identifier "x" := hscan _ _ (by decide +kernel)
  have hy : ScansAs .identifier "y" := hscan _ _ (by decide +kernel)
  have hone : ScansAs .number "1" := hscan _ _ (by decide +kernel)
  have hsum : (binary "+" (identifier "x") (literal .number "1")).Simple :=
    ⟨by decide, by decide, by simp, hx, hone⟩
  have hbars : (unary "|" true (literal .character "a")).Simple :=
    ⟨by decide, 'a', rfl, by decide, by decide⟩
  have hparams : AreParameters [⟨"x", false⟩, ⟨"y", true⟩] := ⟨by simp [hx, hy], by decide⟩
  have hbody : ∀ e ∈ [binary "+" (identifier "x") (literal .number "1"),
      unary "|" true (literal .character "a")], e.Structured := by
    simp [Structured.simple hsum, Structured.simple hbars]
  have hunit : unit.Structured := .simple trivial
  refine writes_of_structured (.block (by decide) ?_)
  simp [Structured.function hf hparams (by decide) hbody, hunit]

end Expr

end SignLang
