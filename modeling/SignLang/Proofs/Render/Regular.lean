import SignLang.Proofs.Parser.Seats
import SignLang.Proofs.Render.Infix

/-!
# Regular expressions are printable

What is renderable throughout has a text (`Expr.Throughout.exists_fragment`). `Expr.Regular` says what else a
form owes to the parser: its words are ones that the scanner knows, and what stands last in it binds tightly
enough to be read there. That is not yet enough for a text that is read back. `Expr.Kept` names what rendering
relies on besides. Where both hold throughout an expression, and its blocks stand where they may, it is
printable (`Expr.Throughout.printable`).
-/

namespace SignLang

open Item Lexeme SignLang.Parser

namespace Phrase

variable {p : Phrase} {head : List Item}

/-- Nothing is indented below a right-hand side below which nothing is. -/
lemma inner_join (ht : p.tail = false) (hb : p.isBlock = false) (power : Nat) :
    (join head p power).tail = false ∧ (join head p power).isBlock = false := by
  rw [join, hb, if_neg Bool.false_ne_true]
  exact ⟨by rw [tail, body_eq_done ht hb]; rfl, rfl⟩

/-- Nothing is indented below a wrapped phrase below which nothing is. -/
lemma inner_join_wrap (ht : p.tail = false) (hb : p.isBlock = false) (power power' : Nat) :
    (join head (p.wrap power) power').tail = false ∧ (join head (p.wrap power) power').isBlock = false :=
  inner_join (tail_wrap ht power) (isBlock_wrap hb power) power'

/-- Nothing is indented below a glued phrase below which nothing is. -/
lemma body_glued (ht : p.tail = false) (hb : p.isBlock = false) (power : Nat) : (p.glued power).body = .done := by
  unfold glued
  split
  · rfl
  · exact body_eq_done (tail_wrap ht power) (isBlock_wrap hb power)

end Phrase

instance Page.decidablePlain : (page : Page) → Decidable page.Plain
  | .done => .isTrue trivial
  | .entry line body next =>
    have := decidablePlain body
    have := decidablePlain next
    inferInstanceAs (Decidable
      (textOf line ≠ [] ∧ (textOf line).all (!Text.isLineEnd ·) ∧ body.Plain ∧ next.Plain))

namespace Expr

/-- The property holds of the expression, of its parts, of theirs and so on. -/
inductive Throughout (P : Expr → Prop) : Expr → Prop where
  | mk {e} :
    P e →
    (∀ part ∈ e.parts, Throughout P part.2) →
    Throughout P e

variable {P : Expr → Prop} {place : Place} {e : Expr} {es : List Expr}

/-- The property holds of the expression. -/
lemma Throughout.self (h : e.Throughout P) : P e := by
  cases h with
  | mk hself => exact hself

/-- The property holds throughout the parts. -/
lemma Throughout.part (h : e.Throughout P) : ∀ part ∈ e.parts, part.2.Throughout P := by
  cases h with
  | mk _ hparts => exact hparts

/-- What may stand in a place has its parts where they may stand. -/
lemma Seated.part (h : Seated place e) : ∀ part ∈ e.parts, Seated part.1 part.2 := by
  cases h with
  | inner hblockless => exact fun part hpart => (hblockless.part part hpart).seated part.1
  | outer _ _ hparts => exact hparts

/-- The operator of the form is in the table, and there is an argument or an element to end it with. -/
def Renderable : Expr → Prop
  | binary s _ _ => (Operator.binary? s).isSome
  | unary s leads _ => leads = true → s ≠ Operator.bar → (Operator.leading? s).isSome
  | apply _ arguments => arguments ≠ []
  | list elements => elements ≠ []
  | _ => True

/-- As many fragments are rendered as there are expressions, if each of these is rendered. -/
lemma exists_fragments (h : ∀ e ∈ es, ∃ f, e.fragment = .ok f) :
    ∃ fs, fragments es = .ok fs ∧ fs.length = es.length := by
  induction es with
  | nil => exact ⟨[], rfl, rfl⟩
  | cons e es ih =>
    rw [List.forall_mem_cons] at h
    obtain ⟨f, hf⟩ := h.1
    obtain ⟨fs, hfs, hlength⟩ := ih h.2
    exact ⟨f :: fs, by rw [fragments, hf, hfs]; rfl, by simp [hlength]⟩

/-- What is renderable throughout is rendered. -/
lemma Throughout.exists_fragment (h : e.Throughout Renderable) : ∃ f, e.fragment = .ok f := by
  induction h with
  | @mk e hself _ ih =>
    cases e with
    | literal | identifier | unit | emptyList => exact ⟨_, rfl⟩
    | define target value =>
      obtain ⟨f, hf⟩ := ih (.inner, target) (by simp [parts])
      obtain ⟨g, hg⟩ := ih (.value, value) (by simp [parts])
      exact ⟨_, by rw [fragment, hf, hg]; rfl⟩
    | lambda params body =>
      obtain ⟨f, hf⟩ := ih (.body, body) (by simp [parts])
      exact ⟨_, by rw [fragment, hf]; rfl⟩
    | binary s left right =>
      obtain ⟨op, hop⟩ := Option.isSome_iff_exists.1 hself
      obtain ⟨f, hf⟩ := ih (.inner, left) (by simp [parts])
      obtain ⟨g, hg⟩ := ih (if s = ":" then .colon else .last, right) (by simp [parts])
      exact ⟨_, by simp only [fragment, hf, hg, hop]; rfl⟩
    | unary s leads operand =>
      obtain ⟨f, hf⟩ := ih (if leads then .last else .inner, operand) (by simp [parts])
      simp only [fragment, hf]
      by_cases hbar : s = Operator.bar
      · exact ⟨_, if_pos hbar⟩
      cases leads with
      | false => exact ⟨_, if_neg hbar⟩
      | true =>
        obtain ⟨op, hop⟩ := Option.isSome_iff_exists.1 (hself rfl hbar)
        exact ⟨_, (if_neg hbar).trans (by rw [hop]; rfl)⟩
    | range start stop =>
      obtain ⟨f, hf⟩ := ih (.inner, start) (by simp [parts])
      obtain ⟨g, hg⟩ := ih (.last, stop) (by simp [parts])
      exact ⟨_, by rw [fragment, hf, hg]; rfl⟩
    | get target key =>
      obtain ⟨f, hf⟩ := ih (.inner, target) (by simp [parts])
      obtain ⟨g, hg⟩ := ih (.last, key) (by simp [parts])
      exact ⟨_, by rw [fragment, hf, hg]; rfl⟩
    | apply function arguments =>
      obtain ⟨f, hf⟩ := ih (.inner, function) (by simp [parts])
      obtain ⟨fs, hfs, hlength⟩ := exists_fragments
        (forall_mem_rowOf_iff.1 fun part hpart => ih part (List.mem_cons_of_mem _ hpart))
      obtain ⟨init, last, rfl⟩ := (List.eq_nil_or_concat' fs).resolve_left (by
        rintro rfl
        exact hself (List.length_eq_zero_iff.1 hlength.symm))
      exact ⟨_, by simp only [fragment, hf, hfs, bind, Except.bind, List.getLast?_concat]; rfl⟩
    | pointFree s preset =>
      cases preset with
      | none => exact ⟨_, rfl⟩
      | some preset =>
        obtain ⟨f, hf⟩ := ih (.last, preset) (by simp [parts])
        exact ⟨_, by rw [fragment, hf]; rfl⟩
    | list elements =>
      obtain ⟨fs, hfs, hlength⟩ := exists_fragments (forall_mem_rowOf_iff.1 ih)
      obtain ⟨init, last, rfl⟩ := (List.eq_nil_or_concat' fs).resolve_left (by
        rintro rfl
        exact hself (List.length_eq_zero_iff.1 hlength.symm))
      exact ⟨_, by simp only [fragment, hfs, bind, Except.bind, List.getLast?_concat]; rfl⟩
    | block statements =>
      obtain ⟨fs, hfs, -⟩ := exists_fragments fun e he => ih (.statement, e) (List.mem_map_of_mem he)
      exact ⟨_, by rw [fragment, hfs]; rfl⟩

/-- The form is one that the parser makes: from words that the scanner knows, of operators that stand as
the table of operators has them, and with a last part that binds tightly enough. -/
def Regular : Expr → Prop
  | literal .number raw => IsNumber raw.toList
  | literal .string raw => raw.toList.all isStringChar
  | literal .character raw => raw.toList.length = 1
  | literal (.other _) _ => False
  | identifier name => IsName name.toList
  | unit | emptyList | block _ => True
  | define target _ => ∃ name, target = identifier name
  | lambda params _ => (∀ p ∈ params, IsName p.name.toList) ∧ ∀ p ∈ params.dropLast, p.isRest = false
  | binary s left right =>
    s ∉ ["?", ",", "~", "'"] ∧ (s = ":" → nameOf? left = none) ∧
      ∃ op, Operator.binary? s = some op ∧ (s ≠ ":" → right.Outer op.rightPower)
  | unary s leads operand =>
    if s = Operator.bar then leads = true ∧ operand.Inner
    else if leads = true then ∃ op, Operator.leading? s = some op ∧ operand.Outer op.power
    else s = "!" ∨ s = "~"
  | range _ stop => stop.Outer (Power.range + 1)
  | get _ key => key.Outer (Power.get + 1)
  | apply _ arguments => arguments ≠ [] ∧ ∀ e ∈ arguments.getLast?, e.Argues
  | pointFree s _ => Operator.isPointFree s
  | list elements => 2 ≤ elements.length ∧ ∀ e ∈ elements.getLast?, e.Outer (Power.product + 1)

/-- A regular form is rendered as a block only if it is one. -/
lemma Regular.isBlock_eq (h : e.Regular) : e.phrase.isBlock = e.isBlock := by
  cases e with
  | literal | identifier | unit | emptyList | get | block => rfl
  | define | lambda | range => exact Phrase.isBlock_join _ _ _
  | pointFree s preset => cases preset <;> rfl
  | binary s left right =>
    obtain ⟨-, -, op, hop, -⟩ := h
    rw [phrase_binary hop]
    exact Phrase.isBlock_join _ _ _
  | unary s leads operand =>
    rw [phrase]
    split
    · rfl
    · next hbar =>
      rw [Regular, if_neg hbar] at h
      split
      · rfl
      · next hleads =>
        rw [if_pos (by simpa using hleads)] at h
        obtain ⟨op, hop, -⟩ := h
        rw [hop]
        rfl
  | apply function arguments =>
    obtain ⟨init, last, rfl⟩ := (List.eq_nil_or_concat' arguments).resolve_left h.1
    rw [phrase_apply]
    exact Phrase.isBlock_join _ _ _
  | list elements =>
    obtain ⟨first, middle, last, rfl⟩ := exists_of_two_le h.1
    rw [phrase_list]
    exact Phrase.isBlock_join _ _ _

/-- Nothing is indented below a regular expression that has no block. -/
lemma Blockless.inner (h : e.Blockless) (hregular : e.Throughout Regular) : e.Inner := by
  induction h with
  | @mk e hblock hparts ih =>
    refine ⟨?_, hregular.self.isBlock_eq.trans hblock⟩
    have hinner (part : Place × Expr) (hpart : part ∈ e.parts) : part.2.Inner :=
      ih part hpart (hregular.part part hpart)
    cases e with
    | literal | identifier | unit | emptyList => rfl
    | define target value =>
      obtain ⟨ht, hb⟩ := hinner (.value, value) (by simp [parts])
      exact (Phrase.inner_join ht hb _).1
    | lambda params body =>
      obtain ⟨ht, hb⟩ := hinner (.body, body) (by simp [parts])
      exact (Phrase.inner_join_wrap ht hb _ _).1
    | binary s left right =>
      obtain ⟨-, -, op, hop, -⟩ := hregular.self
      obtain ⟨ht, hb⟩ := hinner (if s = ":" then .colon else .last, right) (by simp [parts])
      rw [phrase_binary hop]
      exact (Phrase.inner_join_wrap ht hb _ _).1
    | unary s leads operand =>
      obtain ⟨ht, hb⟩ := hinner (if leads then .last else .inner, operand) (by simp [parts])
      rw [phrase]
      split
      · rfl
      split
      · rfl
      split
      · rfl
      · simp only [Phrase.tail, Phrase.leading, Phrase.body_glued ht hb]
        rfl
    | range start stop =>
      obtain ⟨ht, hb⟩ := hinner (.last, stop) (by simp [parts])
      exact (Phrase.inner_join_wrap ht hb _ _).1
    | get target key =>
      obtain ⟨ht, hb⟩ := hinner (.last, key) (by simp [parts])
      simp only [phrase, Phrase.tail, Phrase.get, Phrase.body_glued ht hb]
      rfl
    | apply function arguments =>
      obtain ⟨init, last, rfl⟩ := (List.eq_nil_or_concat' arguments).resolve_left hregular.self.1
      obtain ⟨ht, hb⟩ := hinner (.last, last) (by simp [parts, rowOf])
      rw [phrase_apply]
      exact (Phrase.inner_join_wrap ht hb _ _).1
    | pointFree s preset => cases preset <;> rfl
    | list elements =>
      obtain ⟨first, middle, last, rfl⟩ := exists_of_two_le hregular.self.1
      obtain ⟨ht, hb⟩ := hinner (.last, last) (by simp [parts, rowOf, List.getLast?_cons])
      rw [phrase_list]
      exact (Phrase.inner_join_wrap ht hb _ _).1
    | block statements => cases hblock

/-- Rendering keeps the form:

* lines that are indented below it hold no line ends of their own, since a tab is put after every line end;
* a body of a function that has lines below it needs no brackets, since none are put around lines there;
* a preset operand has no lines below it, nor has an operand that touches a symbol before it and starts with a
  bar, since both are put in brackets, which would join the lines;
* a statement that has lines below it starts with no tick, since it would be taken as a comment;
* no character literal that looks like an opening bracket stands right before a closing bar, since the bar could
  be taken as an operator. -/
def Kept : Expr → Prop
  | define _ value => value.isBlock → value.phrase.body.Plain
  | lambda _ body =>
    (body.isBlock → body.phrase.body.Plain) ∧
      (body.phrase.tail → Power.lambda ≤ body.phrase.power ∨ body.isPrefixed)
  | binary _ _ right => right.isBlock → right.phrase.body.Plain
  | unary s leads operand =>
    if s = Operator.bar then EndsClear operand.phrase.line
    else leads → operand.phrase.tail → operand.phrase.startsWith '|' = false
  | get _ key => key.phrase.tail → key.phrase.startsWith '|' = false
  | pointFree _ preset => ∀ e ∈ preset, e.phrase.tail = false
  | block statements => ∀ e ∈ statements, e.phrase.tail → e.phrase.startsWith tick = false
  | _ => True

/-- A block under its header hangs there. -/
lemma Seated.hangs_or (h : Seated place e) (hregular : e.Regular) (hplain : e.isBlock → e.phrase.body.Plain) :
    e.Hangs ∨ e.phrase.isBlock = false := by
  by_cases hblock : e.isBlock
  · have hlength : 2 ≤ e.parts.length := by
      cases h with
      | inner hblockless =>
        cases hblockless with
        | mk hne =>
          rw [hblock] at hne
          cases hne
      | outer _ hheld _ => exact (hheld hblock).2
    cases e with
    | block statements => exact .inl ⟨by simpa [parts] using hlength, hplain hblock⟩
    | _ => cases hblock
  · rw [hregular.isBlock_eq]
    exact .inr (by simpa using hblock)

/-- The right operand of a colon is read at the power of a definition. -/
lemma rightPower_of_colon {op : Operator} (h : Operator.binary? ":" = some op) : op.rightPower = Power.define := by
  have heq : Operator.binary? ":" = some ⟨":", .binary, "define", Power.define, .right⟩ := by decide
  rw [heq] at h
  cases h
  rfl

/-- A regular expression that rendering keeps, with its blocks where they may stand, is printable. -/
theorem Throughout.printable (h : e.Throughout Regular) (hkept : e.Throughout Kept) (hseated : Seated place e) :
    e.Printable := by
  induction h generalizing place with
  | @mk e hregular hparts ih =>
    have hprint (part : Place × Expr) (hpart : part ∈ e.parts) : part.2.Printable :=
      ih part hpart (hkept.part part hpart) (hseated.part part hpart)
    have hinner (x : Expr) (hx : (.inner, x) ∈ e.parts) : x.Inner := by
      have hblockless : x.Blockless := by
        cases hseated.part _ hx with
        | inner hblockless => exact hblockless
        | outer hne => exact absurd rfl hne
      exact hblockless.inner (hparts _ hx)
    have hheld (part : Place × Expr) (hpart : part ∈ e.parts) (hplain : part.2.isBlock → part.2.phrase.body.Plain) :
        part.2.Hangs ∨ part.2.phrase.isBlock = false :=
      (hseated.part part hpart).hangs_or (hparts part hpart).self hplain
    replace hkept := hkept.self
    cases e with
    | literal kind raw =>
      cases kind with
      | other => exact hregular.elim
      | _ => exact hregular
    | identifier | unit | emptyList => exact hregular
    | define target value =>
      obtain ⟨name, rfl⟩ := hregular
      have hname : IsName name.toList := hprint (.inner, .identifier name) (by simp [parts])
      exact ⟨⟨name, rfl, hname⟩, hprint (.value, value) (by simp [parts]),
        hheld (.value, value) (by simp [parts]) hkept⟩
    | lambda params body =>
      obtain ⟨hplain, htail⟩ := hkept
      exact ⟨hregular.1, hregular.2, hprint (.body, body) (by simp [parts]),
        (hheld (.body, body) (by simp [parts]) hplain).imp_right fun hb => ⟨hb, htail⟩⟩
    | binary s left right =>
      obtain ⟨hs, hname, op, hop, hright⟩ := hregular
      have hmem : (if s = ":" then .colon else .last, right) ∈ (binary s left right).parts := by simp [parts]
      have hprint' : right.Printable := hprint _ hmem
      refine ⟨hprint (.inner, left) (by simp [parts]), hinner left (by simp [parts]), hprint', hs, hname, op, hop, ?_⟩
      by_cases hcolon : s = ":"
      · refine (hheld _ hmem hkept).imp (fun hang => ⟨hcolon, hang⟩) fun hb => ⟨hb, fun _ => .inl ?_⟩
        rw [rightPower_of_colon (hcolon ▸ hop)]
        exact (hprint'.power_le hb).1
      · exact .inr (hright hcolon)
    | unary s leads operand =>
      have hmem : (if leads then .last else .inner, operand) ∈ (unary s leads operand).parts := by simp [parts]
      refine ⟨hprint _ hmem, ?_⟩
      simp only [Regular, Kept] at hregular hkept
      split
      · next hbar =>
        rw [if_pos hbar] at hregular hkept
        exact ⟨hregular.1, hregular.2, hkept⟩
      · next hbar =>
        rw [if_neg hbar] at hregular hkept
        split
        · next hleads =>
          rw [if_pos hleads] at hregular
          obtain ⟨op, hop, houter⟩ := hregular
          exact ⟨op, hop, houter, hkept hleads⟩
        · next hleads =>
          rw [if_neg hleads] at hregular
          exact ⟨hregular, hinner operand (by rwa [if_neg hleads] at hmem)⟩
    | range start stop =>
      exact ⟨hprint (.inner, start) (by simp [parts]), hinner start (by simp [parts]),
        hprint (.last, stop) (by simp [parts]), hregular⟩
    | get target key =>
      exact ⟨hprint (.inner, target) (by simp [parts]), hinner target (by simp [parts]),
        hprint (.last, key) (by simp [parts]), hregular, hkept⟩
    | apply function arguments =>
      obtain ⟨hne, hlast⟩ := hregular
      have hall : ∀ a ∈ arguments, a.Printable :=
        forall_mem_rowOf_iff.1 fun part hpart => hprint part (List.mem_cons_of_mem _ hpart)
      refine ⟨hprint (.inner, function) List.mem_cons_self, hinner function List.mem_cons_self,
        printableAll_iff.2 hall, hne, fun a ha => hinner a (List.mem_cons_of_mem _ ?_), hlast⟩
      exact List.mem_append_left _ (List.mem_map_of_mem ha)
    | pointFree s preset =>
      cases preset with
      | none => exact hregular
      | some preset =>
        have hmem : (.last, preset) ∈ (pointFree s (some preset)).parts := by simp [parts]
        have hblock := (hparts _ hmem).self.isBlock_eq.trans ((hseated.part _ hmem).isBlock_eq_false rfl)
        exact ⟨hregular, hprint _ hmem, hkept preset rfl, hblock⟩
    | list elements =>
      obtain ⟨hlength, hlast⟩ := hregular
      refine ⟨printableAll_iff.2 (forall_mem_rowOf_iff.1 hprint), hlength, fun x hx => hinner x ?_, hlast⟩
      exact List.mem_append_left _ (List.mem_map_of_mem hx)
    | block statements =>
      have hmem {x : Expr} (hx : x ∈ statements) : (.statement, x) ∈ (block statements).parts :=
        List.mem_map_of_mem hx
      refine ⟨printableAll_iff.2 fun x hx => hprint _ (hmem hx), fun x hx => ⟨?_, hkept x hx⟩⟩
      exact (hparts _ (hmem hx)).self.isBlock_eq.trans ((hseated.part _ (hmem hx)).isBlock_eq_false rfl)

end Expr

end SignLang
