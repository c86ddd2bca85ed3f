import SignLang.Parser.Expr
import SignLang.Proofs.Render.Phrase
import SignLang.Proofs.Text.Indent

/-!
# Printable expressions

`Expr.Printable` says of an expression that each of its parts is one that the language can write, and
that lines are indented below a part only where its line may end. An expression that is printable has
a text, which is that of its phrase (`Expr.fragment_of_printable`).
-/

namespace SignLang

open Item Lexeme

/-! ## Indented pages -/

namespace Text

/-- The text with a tab after each line feed. -/
def shift (cs : List Char) : List Char :=
  cs.flatMap fun c => if c = '\n' then ['\n', '\t'] else [c]

/-- Two texts are shifted one after the other. -/
lemma shift_append (a b : List Char) : shift (a ++ b) = shift a ++ shift b :=
  List.flatMap_append

/-- A text without line feeds is not shifted. -/
lemma shift_eq_self {cs : List Char} (h : ∀ c ∈ cs, c ≠ '\n') : shift cs = cs := by
  induction cs with
  | nil => rfl
  | cons c cs ih =>
    rw [List.forall_mem_cons] at h
    rw [shift, List.flatMap_cons, if_neg h.1]
    exact congrArg (c :: ·) (ih h.2)

/-- A text in which only line feeds end lines, and none ends it, is shifted where tabs come in front of lines. -/
lemma indentAfter_eq_shift {cs : List Char} (hends : ∀ c ∈ cs, isLineEnd c → c = '\n')
    (hlast : cs.getLast? ≠ some '\n') : indentAfter (some ' ') cs = shift cs := by
  induction cs with
  | nil => rfl
  | cons c cs ih =>
    rw [List.forall_mem_cons] at hends
    have hlast' : cs.getLast? ≠ some '\n' := by
      cases cs with
      | nil => nofun
      | cons d cs => rwa [List.getLast?_cons_cons] at hlast
    by_cases hc : c = '\n'
    · subst hc
      have hcs : cs ≠ [] := by
        rintro rfl
        exact hlast rfl
      have htab : indentAfter (some '\n') cs = '\t' :: shift cs := by
        rw [indentAfter_lineEnd (c := '\n') (by decide) nofun, indentAfter_none hcs, ih hends.2 hlast']
      simp [indentAfter, shift, htab]
    · have hend : isLineEnd c = false := by simpa using mt hends.1 hc
      have hself : indentAfter (some c) cs = shift cs := by rw [indentAfter_inside hend, ih hends.2 hlast']
      simp [indentAfter, shift, hself, hc]

/-- A text in which only line feeds end lines, and none ends it, is indented by shifting it. -/
lemma toList_indent {text : String} (hne : text.toList ≠ [])
    (hends : ∀ c ∈ text.toList, isLineEnd c → c = '\n')
    (hlast : text.toList.getLast? ≠ some '\n') :
    (indent text).toList = '\t' :: shift text.toList := by
  rw [← String.ofList_toList (s := text), indent_eq, String.toList_ofList, String.toList_ofList,
    indentAfter_none hne, indentAfter_eq_shift hends hlast]

end Text

open Text

namespace Page

/-- The page has no line. -/
lemma isSome_eq_false {page : Page} (h : page.isSome = false) : page = done := by
  cases page with
  | done => rfl
  | entry => cases h

/-- The lines of a plain page hold no line feed. -/
lemma ne_lineFeed_of_plain {line : List Item} (h : (textOf line).all (!isLineEnd ·)) :
    ∀ c ∈ textOf line, c ≠ '\n' := by
  rintro c hc rfl
  have := List.all_eq_true.1 h '\n' hc
  exact absurd this (by decide)

/-- A plain page is moved to the next level by shifting its text. -/
lemma shift_text {page : Page} (h : page.Plain) (level : Nat) :
    shift (page.text level) = page.text (level + 1) := by
  induction page generalizing level with
  | done => rfl
  | entry line body next ihbody ihnext =>
    obtain ⟨-, hline, hbody, hnext⟩ := h
    have htabs : ∀ c ∈ List.replicate level '\t', c ≠ '\n' := by
      intro c hc
      rw [List.eq_of_mem_replicate hc]
      decide
    rw [text, text, shift_append, shift_append, ihbody hbody, ihnext hnext, ← List.singleton_append,
      shift_append, shift_append, shift_eq_self htabs, shift_eq_self (ne_lineFeed_of_plain hline),
      List.replicate_succ]
    rfl

/-- Only line feeds end lines in the text of a plain page. -/
lemma eq_lineFeed_of_mem_text {page : Page} (h : page.Plain) (level : Nat) :
    ∀ c ∈ page.text level, isLineEnd c → c = '\n' := by
  induction page generalizing level with
  | done => nofun
  | entry line body next ihbody ihnext =>
    obtain ⟨-, hline, hbody, hnext⟩ := h
    intro c hc hend
    simp only [text, List.cons_append, List.mem_cons, List.mem_append] at hc
    rcases hc with hc | ((hc | hc) | hc) | hc
    · exact hc
    · rw [List.eq_of_mem_replicate hc] at hend
      exact absurd hend (by decide)
    · have := List.all_eq_true.1 hline c hc
      simp [hend] at this
    · exact ihbody hbody _ c hc hend
    · exact ihnext hnext _ c hc hend

/-- The text of a plain page ends with the last character of a line. -/
lemma getLast?_text {page : Page} (h : page.Plain) (level : Nat) :
    (page.text level).getLast? ≠ some '\n' := by
  induction page generalizing level with
  | done => simp [text]
  | entry line body next ihbody ihnext =>
    obtain ⟨hne, hline, hbody, hnext⟩ := h
    have hlast : (textOf line).getLast? ≠ some '\n' := fun h =>
      ne_lineFeed_of_plain hline _ (List.mem_of_getLast? h) rfl
    rw [text, List.getLast?_append, List.getLast?_append, ← List.singleton_append,
      List.getLast?_append, List.getLast?_append]
    intro h
    cases hn : (next.text level).getLast? with
    | some c =>
      rw [hn] at h
      exact ihnext hnext _ (hn.trans h)
    | none =>
      rw [hn] at h
      cases hb : (body.text (level + 1)).getLast? with
      | some c =>
        rw [hb] at h
        exact ihbody hbody _ (hb.trans h)
      | none =>
        rw [hb] at h
        cases ht : (textOf line).getLast? with
        | none => exact hne (List.getLast?_eq_none_iff.1 ht)
        | some c =>
          rw [ht] at h
          exact hlast (ht.trans h)

/-- The text of a page that has lines starts with a line end, and is not only that. -/
lemma text_eq_cons {page : Page} (h : page.Plain) (hsome : page.isSome) (level : Nat) :
    ∃ cs, page.text level = '\n' :: cs ∧ cs ≠ [] := by
  cases page with
  | done => cases hsome
  | entry line body next => exact ⟨_, rfl, by simp [h.1]⟩

/-- A plain page with lines, indented. -/
lemma toList_indent_text {page : Page} (h : page.Plain) (hsome : page.isSome) :
    '\n' :: (indent (String.ofList (page.text 0).tail)).toList = page.text 1 := by
  obtain ⟨cs, hcs, hne⟩ := text_eq_cons h hsome 0
  have hends := eq_lineFeed_of_mem_text h 0
  have hlast := getLast?_text h 0
  have hshift := shift_text h 0
  rw [hcs] at hends hlast hshift ⊢
  rw [List.getLast?_cons_of_ne_nil hne] at hlast
  rw [List.tail_cons, toList_indent (by simpa using hne)
    (by simpa using fun c hc => hends c (List.mem_cons_of_mem _ hc)) (by simpa using hlast),
    String.toList_ofList, ← hshift]
  rfl

end Page

/-! ## Phrases and fragments -/

namespace Phrase

/-- Nothing is indented below a phrase without tail that is no block. -/
lemma body_eq_done {p : Phrase} (ht : p.tail = false) (hb : p.isBlock = false) : p.body = .done := by
  rw [tail, hb, Bool.not_false, Bool.and_true] at ht
  exact Page.isSome_eq_false ht

/-- A phrase without tail that is no block is its line. -/
lemma text_eq_line {p : Phrase} (ht : p.tail = false) (hb : p.isBlock = false) :
    p.text = textOf p.line := by
  simp [text, hb, body_eq_done ht hb, Page.text]

/-- Two fragments are the same if their characters and flags are. -/
lemma fragment_ext {p : Phrase} {f : Fragment} (htext : p.text = f.text.toList)
    (hpower : p.power = f.power) (hblock : p.isBlock = f.isBlock) (htail : p.tail = f.tail)
    (hloose : p.loose = f.loose) : p.fragment = f := by
  cases f
  simp_all [fragment]

@[simp] lemma fragment_power (p : Phrase) : p.fragment.power = p.power := rfl
@[simp] lemma fragment_isBlock (p : Phrase) : p.fragment.isBlock = p.isBlock := rfl
@[simp] lemma fragment_tail (p : Phrase) : p.fragment.tail = p.tail := rfl
@[simp] lemma fragment_loose (p : Phrase) : p.fragment.loose = p.loose := rfl
@[simp] lemma fragment_text (p : Phrase) : p.fragment.text = String.ofList p.text := rfl

@[simp] lemma fragment_startsWith (p : Phrase) (c : Char) :
    p.fragment.startsWith c = p.startsWith c := by
  simp [Fragment.startsWith, startsWith]

/-- A phrase is bracketed as its fragment is, if nothing is indented below it. -/
lemma fragment_bracketed {p : Phrase} (ht : p.tail = false) (hb : p.isBlock = false) :
    p.bracketed.fragment = p.fragment.bracketed := by
  refine fragment_ext ?_ rfl rfl rfl rfl
  simp [text, bracketed, Page.text, Fragment.bracketed, Fragment.atom, body_eq_done ht hb, hb,
    openGroup, closeGroup, Item.text]

/-- A phrase is wrapped as its fragment is. -/
lemma fragment_wrap (p : Phrase) (power : Nat) : (p.wrap power).fragment = p.fragment.wrap power := by
  unfold wrap Fragment.wrap
  by_cases h : (power ≤ p.power || p.tail || p.isBlock) = true
  · rw [if_pos h]
    exact (if_pos h).symm
  · rw [if_neg h]
    refine Eq.trans ?_ (if_neg h).symm
    simp only [Bool.or_eq_true, not_or, Bool.not_eq_true] at h
    exact fragment_bracketed h.1.2 h.2

/-- Wrapping makes no tail. -/
lemma tail_wrap {p : Phrase} (ht : p.tail = false) (power : Nat) : (p.wrap power).tail = false := by
  unfold wrap
  split
  · exact ht
  · rfl

/-- Wrapping makes no block. -/
lemma isBlock_wrap {p : Phrase} (hb : p.isBlock = false) (power : Nat) :
    (p.wrap power).isBlock = false := by
  unfold wrap
  split
  · exact hb
  · rfl

/-- A phrase with a tail is not wrapped. -/
lemma wrap_of_tail {p : Phrase} (ht : p.tail) (power : Nat) : p.wrap power = p := by
  simp [wrap, ht]

/-- A phrase is followed by more text as its fragment is. -/
lemma fragment_followed {p : Phrase} (ht : p.tail = false) (hb : p.isBlock = false) (power : Nat) :
    (p.followed power).fragment = p.fragment.followed power := by
  unfold followed Fragment.followed
  simp only [← fragment_wrap, fragment_loose]
  split
  · exact fragment_bracketed (tail_wrap ht power) (isBlock_wrap hb power)
  · rfl

/-- Nothing is indented below a phrase that more text follows. -/
lemma tail_followed {p : Phrase} (ht : p.tail = false) (power : Nat) :
    (p.followed power).tail = false := by
  unfold followed
  split
  · rfl
  · exact tail_wrap ht power

/-- A phrase that more text follows is no block. -/
lemma isBlock_followed {p : Phrase} (hb : p.isBlock = false) (power : Nat) :
    (p.followed power).isBlock = false := by
  unfold followed
  split
  · rfl
  · exact isBlock_wrap hb power

/-- The characters of a phrase that more text follows. -/
lemma toList_followed {p : Phrase} (ht : p.tail = false) (hb : p.isBlock = false) (power : Nat) :
    (p.fragment.followed power).text.toList = textOf (p.followed power).line := by
  rw [← fragment_followed ht hb, fragment_text, String.toList_ofList,
    text_eq_line (tail_followed ht power) (isBlock_followed hb power)]

/-- A phrase is glued to a symbol as its fragment is, unless it starts with a bar and has a tail. -/
lemma fragment_glued {p : Phrase} (hb : p.isBlock = false)
    (ht : p.tail → p.startsWith '|' = false) (power : Nat) :
    (p.glued power).fragment = p.fragment.glued power := by
  unfold glued Fragment.glued
  simp only [← fragment_wrap, fragment_startsWith]
  split
  · next h =>
    refine fragment_bracketed ?_ (isBlock_wrap hb power)
    refine tail_wrap ?_ power
    by_contra htail
    rw [Bool.not_eq_false] at htail
    rw [wrap_of_tail htail, ht htail] at h
    cases h
  · rfl

/-- A glued phrase is no block. -/
lemma isBlock_glued {p : Phrase} (hb : p.isBlock = false) (power : Nat) :
    (p.glued power).isBlock = false := by
  unfold glued
  split
  · rfl
  · exact isBlock_wrap hb power

/-- A statement is bracketed as its fragment is. -/
lemma fragment_statement {p : Phrase} (hb : p.isBlock = false) :
    p.statement.fragment = p.fragment.statement := by
  unfold statement Fragment.statement
  simp only [fragment_startsWith, fragment_tail]
  split
  · next h =>
    simp only [Bool.and_eq_true, Bool.not_eq_true'] at h
    exact fragment_bracketed h.2 hb
  · rfl

/-- A statement is no block. -/
lemma isBlock_statement {p : Phrase} (hb : p.isBlock = false) : p.statement.isBlock = false := by
  unfold statement
  split
  · rfl
  · exact hb

/-- If the phrase is a block, it can be indented. -/
def Fits (p : Phrase) : Prop :=
  p.isBlock → p.body.Plain ∧ p.body.isSome

/-- A phrase that is no block fits anywhere. -/
lemma Fits.of_isBlock {p : Phrase} (hb : p.isBlock = false) : p.Fits := by
  intro h
  rw [hb] at h
  cases h

/-- Wrapping leaves blocks as they are. -/
lemma Fits.wrap {p : Phrase} (h : p.Fits) (power : Nat) : (p.wrap power).Fits := by
  unfold Phrase.wrap
  split
  · exact h
  · exact .of_isBlock rfl

/-- A right-hand side after its head, or a block under it. -/
lemma fragment_join {head : List Item} {s : String} (hs : s.toList = textOf head) {right : Phrase}
    (fits : right.Fits) (power : Nat) :
    (join head right power).fragment = Fragment.join s right.fragment power := by
  cases hb : right.isBlock with
  | false =>
    refine fragment_ext ?_ ?_ ?_ ?_ ?_
    all_goals simp only [join, Fragment.join, fragment_isBlock, hb, Bool.false_eq_true, if_false]
    · simp [text, hb, hs, Item.text]
    · simp [tail, hb]
    · rfl
  | true =>
    obtain ⟨hplain, hsome⟩ := fits hb
    refine fragment_ext ?_ ?_ ?_ ?_ ?_
    all_goals simp only [join, Fragment.join, fragment_isBlock, hb, if_true]
    · have := Page.toList_indent_text hplain hsome
      simp [text, hb, hs, ← this]
    · simp [tail, hsome]

/-- What is set between parts stands before all but the first. -/
lemma intercalate_cons {α : Type} (between a : List α) (parts : List (List α)) :
    between.intercalate (a :: parts) = a ++ parts.flatMap (between ++ ·) := by
  induction parts generalizing a with
  | nil => simp
  | cons b parts ih => rw [List.intercalate_cons_cons, ih, List.flatMap_cons, List.append_assoc,
      List.append_assoc]

/-- The text of a page of statements. -/
lemma text_page {ps : List Phrase} (h : ∀ p ∈ ps, p.isBlock = false) :
    (page ps).text 0 = (ps.map (·.statement.text)).flatMap ('\n' :: ·) := by
  induction ps with
  | nil => rfl
  | cons p ps ih =>
    rw [List.forall_mem_cons] at h
    rw [page, Page.text, ih h.2, List.map_cons, List.flatMap_cons, text, isBlock_statement h.1]
    simp

/-- A block is written as a block of fragments. -/
lemma fragment_block {ps : List Phrase} (h : ∀ p ∈ ps, p.isBlock = false) :
    (block ps).fragment = Fragment.block (ps.map fragment) := by
  refine fragment_ext ?_ rfl rfl (by simp [tail, block, Fragment.block]) rfl
  have hmap : ∀ p ∈ ps,
      ((String.toList ∘ fun f : Fragment => f.statement.text) ∘ fragment) p = p.statement.text := by
    intro p hp
    simp [← fragment_statement (h p hp)]
  change ((page ps).text 0).tail = _
  rw [text_page h, Fragment.block, String.toList_intercalate, List.map_map, List.map_map,
    List.map_congr_left hmap]
  cases ps with
  | nil => rfl
  | cons p ps => rw [List.map_cons, intercalate_cons, List.flatMap_cons]; rfl

/-- The texts of phrases that more text follows, with some items between them. -/
lemma toList_intercalate_followed {s : String} {between : List Item} (hs : s.toList = textOf between)
    (power : Nat) {p : Phrase} {ps : List Phrase}
    (h : ∀ q ∈ p :: ps, q.tail = false ∧ q.isBlock = false) :
    (s.intercalate ((p :: ps).map fun q => (q.fragment.followed power).text)).toList =
      textOf ((p.followed power).line ++ ps.flatMap fun q => between ++ (q.followed power).line) := by
  have hmap : ∀ q ∈ ps, (String.toList ∘ fun q : Phrase => (q.fragment.followed power).text) q =
      textOf (q.followed power).line := by
    intro q hq
    obtain ⟨ht, hb⟩ := h q (List.mem_cons_of_mem p hq)
    exact toList_followed ht hb power
  rw [List.forall_mem_cons] at h
  rw [String.toList_intercalate, List.map_cons, List.map_cons, List.map_map, intercalate_cons,
    toList_followed h.1.1 h.1.2, List.map_congr_left hmap, textOf_append, hs, List.flatMap_map]
  simp only [textOf, List.flatMap_assoc, List.flatMap_append]

/-- A binary operation is written as that of the fragments. -/
lemma fragment_binary (op : Operator) {left right : Phrase} (ht : left.tail = false)
    (hb : left.isBlock = false) (fits : right.Fits) :
    (binary op left right).fragment = Fragment.binary op left.fragment right.fragment := by
  have hhead (power : Nat) : ((left.fragment.followed power).text ++ " " ++ op.symbol).toList =
      textOf ((left.followed power).line ++ [gap, symbol op.symbol]) := by
    simp [toList_followed ht hb, Item.text, symbol]
  unfold binary Fragment.binary
  cases op.assoc
  all_goals
    dsimp only
    rw [fragment_join (hhead _) (fits.wrap _), fragment_wrap]

/-- A range is written as that of the fragments. -/
lemma fragment_range {start stop : Phrase} (ht : start.tail = false) (hb : start.isBlock = false)
    (fits : stop.Fits) : (range start stop).fragment = Fragment.range start.fragment stop.fragment := by
  have hhead : ((start.fragment.followed Power.range).text ++ " ~").toList =
      textOf ((start.followed Power.range).line ++ [gap, symbol "~"]) := by
    simp [toList_followed ht hb, Item.text, symbol]
  rw [range, Fragment.range, fragment_join hhead (fits.wrap _), fragment_wrap]

/-- An absolute value is written as that of the fragment. -/
lemma fragment_bars {p : Phrase} (ht : p.tail = false) (hb : p.isBlock = false) :
    (bars p).fragment = Fragment.bars p.fragment := by
  refine fragment_ext ?_ rfl rfl rfl rfl
  simp only [bars, Fragment.bars, fragment_text, String.toList_ofList]
  by_cases h : p.text.getLast?.any isBlank
  · simp only [if_pos h, ← fragment_bracketed ht hb]
    simp [text, Page.text, bracketed, Item.text, Fragment.atom]
  · simp only [if_neg h]
    simp [text, Page.text, Item.text, hb, body_eq_done ht hb, Fragment.atom]

/-- An operand with an operator after it is written as that of the fragment. -/
lemma fragment_trailing (s : String) {p : Phrase} (ht : p.tail = false) (hb : p.isBlock = false) :
    (trailing s p).fragment = Fragment.trailing s p.fragment := by
  refine fragment_ext ?_ rfl rfl rfl rfl
  simp [trailing, Fragment.trailing, text, Page.text, toList_followed ht hb, Item.text, symbol]

/-- An operand with an operator before it is written as that of the fragment. -/
lemma fragment_leading (op : Operator) {p : Phrase} (hb : p.isBlock = false)
    (ht : p.tail → p.startsWith '|' = false) :
    (leading op p).fragment = Fragment.leading op p.fragment := by
  have hblock := isBlock_glued hb op.power
  unfold Fragment.leading
  simp only [← fragment_glued hb ht, fragment_isBlock, hblock]
  refine fragment_ext ?_ rfl rfl ?_ rfl
  · simp [leading, text, hblock, Item.text, symbol]
  · simp [leading, tail, hblock]

/-- A member access is written as that of the fragments. -/
lemma fragment_get {target key : Phrase} (ht : target.tail = false) (hb : target.isBlock = false)
    (hkb : key.isBlock = false) (hkt : key.tail → key.startsWith '|' = false) :
    (get target key).fragment = Fragment.get target.fragment key.fragment := by
  have hblock := isBlock_glued hkb (Power.get + 1)
  unfold Fragment.get
  simp only [← fragment_glued hkb hkt]
  refine fragment_ext ?_ rfl rfl ?_ rfl
  · simp [get, text, hblock, Item.text, symbol, toList_followed ht hb]
  · simp [get, tail, hblock]

/-- A function and its arguments are written as those of the fragments. -/
lemma fragment_apply {function last : Phrase} {ps : List Phrase}
    (h : ∀ q ∈ function :: ps, q.tail = false ∧ q.isBlock = false) (fits : last.Fits) :
    (apply function ps last).fragment =
      Fragment.apply function.fragment (ps.map fragment) last.fragment := by
  have hgap : " ".toList = textOf [gap] := rfl
  have hhead := toList_intercalate_followed hgap (Power.apply + 1) h
  rw [List.map_cons] at hhead
  unfold Fragment.apply
  rw [List.map_cons, List.map_map, ← fragment_wrap]
  exact fragment_join hhead (fits.wrap _) _

/-- A list is written as that of the fragments. -/
lemma fragment_list {first last : Phrase} {ps : List Phrase}
    (h : ∀ q ∈ first :: ps, q.tail = false ∧ q.isBlock = false) (fits : last.Fits) :
    (list first ps last).fragment =
      Fragment.list (first.fragment :: ps.map fragment) last.fragment := by
  have hcomma : ", ".toList = textOf [symbol ",", gap] := rfl
  have hhead := toList_intercalate_followed hcomma (Power.product + 1) h
  rw [List.map_cons] at hhead
  unfold Fragment.list
  rw [List.map_cons, List.map_map, ← fragment_wrap]
  refine fragment_join ?_ (fits.wrap _) _
  rw [String.toList_append]
  exact (congrArg (· ++ ",".toList) hhead).trans (by simp [Item.text, symbol])

/-- An operator without its left operand is written as that of the fragment. -/
lemma fragment_pointFree (s : String) {p : Phrase} (ht : p.tail = false) (hb : p.isBlock = false) :
    (pointFree s (some p)).fragment = Fragment.pointFree s (some p.fragment) := by
  have hblock := isBlock_wrap hb (Power.product + 1)
  have hbody := body_eq_done (tail_wrap ht (Power.product + 1)) hblock
  refine fragment_ext ?_ rfl rfl rfl rfl
  simp [pointFree, Fragment.pointFree, ← fragment_wrap, hblock, hbody, text, Page.text, Item.text,
    symbol, openGroup, closeGroup, Fragment.atom]

end Phrase

/-! ## Printable expressions -/

namespace Expr

/-- The expression starts with an operator that takes all that it can of what follows, so that it is
read at any power. -/
def isPrefixed : Expr → Bool
  | lambda [] _ => true
  | unary s leads _ => leads && s ≠ Operator.bar
  | _ => false

/-- The expression starts with an operator that makes it an argument of what stands before it. -/
def isLedArgument : Expr → Bool
  | unary s leads _ => leads && s ≠ Operator.bar && (Operator.binary? s).isNone
  | _ => false

/-- A part that more text may follow on its line. -/
def Inner (e : Expr) : Prop :=
  e.phrase.tail = false ∧ e.phrase.isBlock = false

/-- A part that stands last on its line, where operators have at least the power `power`. It has
lines indented below it only if it is read there without brackets. -/
def Outer (power : Nat) (e : Expr) : Prop :=
  e.phrase.isBlock = false ∧ (e.phrase.tail → power ≤ e.phrase.power ∨ e.isPrefixed)

/-- A part after a symbol that touches it. -/
def Glues (power : Nat) (e : Expr) : Prop :=
  e.Outer power ∧ (e.phrase.tail → e.phrase.startsWith '|' = false)

/-- A part that is the last argument. -/
def Argues (e : Expr) : Prop :=
  e.phrase.isBlock = false ∧
    (e.phrase.tail → Power.apply + 1 ≤ e.phrase.power ∨ e.isLedArgument)

/-- A block of two or more statements that can be indented. -/
def Hangs : Expr → Prop
  | block statements => 2 ≤ statements.length ∧ (block statements).phrase.body.Plain
  | _ => False

/-- A part that can stand on a line of its own. -/
def Stands (e : Expr) : Prop :=
  e.phrase.isBlock = false ∧ (e.phrase.tail → e.phrase.startsWith tick = false)

/-- The last word of a line does not look like an opening bracket to a bar after it. -/
def EndsClear (line : List Item) : Prop :=
  ∀ c : Char, isOpener c → line.getLast? ≠ some (word .character (String.ofList ['\\', c]))

mutual

/-- The expression has parts that the language can write, each where it can stand. -/
def Printable : Expr → Prop
  | literal .number raw => IsNumber raw.toList
  | literal .string raw => raw.toList.all isStringChar
  | literal .character raw => raw.toList.length = 1
  | literal (.other _) _ => False
  | identifier name => IsName name.toList
  | unit => True
  | emptyList => True
  | define target value =>
    (∃ name, target = identifier name ∧ IsName name.toList) ∧ Printable value ∧
      (value.Hangs ∨ value.phrase.isBlock = false)
  | lambda params body =>
    (∀ p ∈ params, IsName p.name.toList) ∧ (∀ p ∈ params.dropLast, p.isRest = false) ∧
      Printable body ∧ (body.Hangs ∨ body.Outer Power.lambda)
  | binary s left right =>
    Printable left ∧ left.Inner ∧ Printable right ∧ s ∉ ["?", ",", "~", "'"] ∧
      (s = ":" → Parser.nameOf? left = none) ∧
      ∃ op, Operator.binary? s = some op ∧ (s = ":" ∧ right.Hangs ∨ right.Outer op.rightPower)
  | unary s leads operand =>
    Printable operand ∧
      if s = Operator.bar then leads ∧ operand.Inner ∧ EndsClear operand.phrase.line
      else if leads then ∃ op, Operator.leading? s = some op ∧ operand.Glues op.power
      else (s = "!" ∨ s = "~") ∧ operand.Inner
  | range start stop =>
    Printable start ∧ start.Inner ∧ Printable stop ∧ stop.Outer (Power.range + 1)
  | get target key =>
    Printable target ∧ target.Inner ∧ Printable key ∧ key.Glues (Power.get + 1)
  | apply function arguments =>
    Printable function ∧ function.Inner ∧ PrintableAll arguments ∧ arguments ≠ [] ∧
      (∀ e ∈ arguments.dropLast, e.Inner) ∧ ∀ e ∈ arguments.getLast?, e.Argues
  | pointFree s none => Operator.isPointFree s
  | pointFree s (some preset) => Operator.isPointFree s ∧ Printable preset ∧ preset.Inner
  | list elements =>
    PrintableAll elements ∧ 2 ≤ elements.length ∧ (∀ e ∈ elements.dropLast, e.Inner) ∧
      ∀ e ∈ elements.getLast?, e.Outer (Power.product + 1)
  | block statements => PrintableAll statements ∧ ∀ e ∈ statements, e.Stands

/-- All expressions of a list are printable. -/
def PrintableAll : List Expr → Prop
  | [] => True
  | e :: es => Printable e ∧ PrintableAll es

end

/-- A property of the first expressions of a list holds of their phrases. -/
lemma forall_mem_phrases {es : List Expr} {P : Phrase → Prop} (h : ∀ e ∈ es, P e.phrase) :
    ∀ p ∈ phrases es, P p := by
  induction es with
  | nil => nofun
  | cons e es ih =>
    rw [List.forall_mem_cons] at h
    rw [phrases, List.forall_mem_cons]
    exact ⟨h.1, ih h.2⟩

/-- The phrases of a list are those of its elements. -/
lemma phrases_eq_map (es : List Expr) : phrases es = es.map phrase := by
  induction es with
  | nil => rfl
  | cons e es ih => rw [phrases, ih, List.map_cons]

/-- The phrase of a function and its arguments. -/
lemma phrase_apply (function last : Expr) (init : List Expr) :
    (apply function (init ++ [last])).phrase =
      .apply function.phrase (init.map phrase) last.phrase := by
  simp [phrase, phrases_eq_map]

/-- The phrase of a list. -/
lemma phrase_list (first last : Expr) (middle : List Expr) :
    (list (first :: (middle ++ [last]))).phrase =
      .list first.phrase (middle.map phrase) last.phrase := by
  simp [phrase, phrases_eq_map]

/-- A list of printable expressions. -/
lemma printableAll_iff {es : List Expr} : PrintableAll es ↔ ∀ e ∈ es, e.Printable := by
  induction es with
  | nil => simp [PrintableAll]
  | cons e es ih => rw [PrintableAll, ih, List.forall_mem_cons]

/-- A printable application has arguments: some that more text follows, and a last one. -/
lemma Printable.of_apply {function : Expr} {arguments : List Expr}
    (h : (apply function arguments).Printable) :
    function.Printable ∧ function.Inner ∧ ∃ init last, arguments = init ++ [last] ∧
      (∀ e ∈ init, e.Printable ∧ e.Inner) ∧ last.Printable ∧ last.Argues := by
  obtain ⟨hf, hinner, hall, hne, hinit, hlast⟩ := h
  obtain ⟨init, last, rfl⟩ := (List.eq_nil_or_concat' arguments).resolve_left hne
  rw [printableAll_iff] at hall
  simp only [List.dropLast_concat, List.getLast?_concat, Option.mem_some_iff, forall_eq'] at hinit hlast
  exact ⟨hf, hinner, init, last, rfl, fun e he => ⟨hall e (List.mem_append_left _ he), hinit e he⟩,
    hall last (by simp), hlast⟩

/-- A list of two or more has a first element and a last one. -/
lemma exists_of_two_le {es : List Expr} (h : 2 ≤ es.length) :
    ∃ first middle last, es = first :: (middle ++ [last]) := by
  obtain ⟨first, others, rfl⟩ := List.exists_cons_of_length_pos (by omega : 0 < es.length)
  obtain ⟨middle, last, rfl⟩ := (List.eq_nil_or_concat' others).resolve_left (by
    rintro rfl
    simp at h)
  exact ⟨first, middle, last, rfl⟩

/-- A printable list has elements: a first one and others that more text follows, and a last one. -/
lemma Printable.of_list {elements : List Expr} (h : (list elements).Printable) :
    ∃ first middle last, elements = first :: (middle ++ [last]) ∧
      (∀ e ∈ first :: middle, e.Printable ∧ e.Inner) ∧ last.Printable ∧
      last.Outer (Power.product + 1) := by
  obtain ⟨hall, hlen, hinit, hlast⟩ := h
  obtain ⟨first, middle, last, rfl⟩ := exists_of_two_le hlen
  rw [printableAll_iff] at hall
  rw [← List.cons_append] at hinit hlast hall
  simp only [List.dropLast_concat, List.getLast?_concat, Option.mem_some_iff, forall_eq'] at hinit hlast
  exact ⟨first, middle, last, rfl, fun e he => ⟨hall e (List.mem_append_left _ he), hinit e he⟩,
    hall last (by simp), hlast⟩

/-- A block that hangs is a page of plain lines. -/
lemma Hangs.spec {e : Expr} (h : e.Hangs) :
    e.phrase.isBlock ∧ e.phrase.body.Plain ∧ e.phrase.body.isSome := by
  cases e with
  | block statements =>
    obtain ⟨hlen, hplain⟩ := h
    refine ⟨rfl, hplain, ?_⟩
    cases statements with
    | nil => simp at hlen
    | cons e es => rfl
  | _ => exact h.elim

/-- A block that hangs fits under its header. -/
lemma Hangs.fits {e : Expr} (h : e.Hangs) : e.phrase.Fits :=
  fun _ => h.spec.2

/-- The characters of a parameter list and its question mark. -/
lemma toList_head (params : List Parameter) :
    (" ".intercalate (params.map Parameter.text ++ ["?"])).toList = textOf (Parameter.head params) := by
  have htext (p : Parameter) : p.text.toList = textOf p.items := by
    unfold Parameter.text Parameter.items
    split <;> simp [Item.text, symbol]
  induction params with
  | nil => rfl
  | cons p params ih =>
    rw [List.map_cons, List.cons_append, String.intercalate_cons_of_ne_nil (by simp)]
    simp only [String.toList_append, htext, ih, Parameter.head, List.flatMap_cons, textOf_append,
      List.append_assoc]
    rfl

mutual

/-- A printable expression has a text, which is that of its phrase. -/
theorem fragment_of_printable {e : Expr} (h : e.Printable) : e.fragment = .ok e.phrase.fragment := by
  match e with
  | literal kind raw =>
    cases kind with
    | other name => exact h.elim
    | _ =>
      refine congrArg Except.ok (Phrase.fragment_ext ?_ rfl rfl rfl rfl).symm
      simp [Phrase.text, phrase, Page.text, LiteralKind.word, LiteralKind.write, Item.text,
        Fragment.atom]
  | identifier name | unit | emptyList =>
    refine congrArg Except.ok (Phrase.fragment_ext ?_ rfl rfl rfl rfl).symm
    simp [Phrase.text, phrase, Phrase.atom, Page.text, Item.text, Fragment.atom, openGroup, closeGroup]
  | define target value =>
    obtain ⟨⟨name, rfl, -⟩, hvalue, hang⟩ := h
    have fits : value.phrase.Fits := hang.elim Hangs.fits Phrase.Fits.of_isBlock
    simp only [fragment, fragment_of_printable hvalue]
    refine congrArg Except.ok (Phrase.fragment_join ?_ fits _).symm
    simp [Fragment.atom, phrase, Phrase.atom, Item.text, symbol]
  | lambda params body =>
    obtain ⟨-, -, hbody, hang⟩ := h
    have fits : body.phrase.Fits := hang.elim Hangs.fits fun h => .of_isBlock h.1
    simp only [fragment, fragment_of_printable hbody]
    refine congrArg Except.ok ?_
    rw [← Phrase.fragment_wrap]
    exact (Phrase.fragment_join (toList_head params) (fits.wrap _) _).symm
  | binary s left right =>
    obtain ⟨hleft, ⟨ht, hb⟩, hright, -, -, op, hop, hang⟩ := h
    have fits : right.phrase.Fits := hang.elim (fun h => h.2.fits) fun h => .of_isBlock h.1
    simp only [fragment, fragment_of_printable hleft, fragment_of_printable hright, phrase, hop]
    exact congrArg Except.ok (Phrase.fragment_binary op ht hb fits).symm
  | unary s leads operand =>
    obtain ⟨hoperand, h⟩ := h
    simp only [fragment, fragment_of_printable hoperand, phrase]
    by_cases hbar : s = Operator.bar
    · rw [if_pos hbar] at h ⊢
      exact (if_pos hbar).trans (congrArg Except.ok (Phrase.fragment_bars h.2.1.1 h.2.1.2).symm)
    rw [if_neg hbar] at h ⊢
    refine (if_neg hbar).trans ?_
    cases leads with
    | false =>
      obtain ⟨-, ht, hb⟩ := h
      exact congrArg Except.ok (Phrase.fragment_trailing s ht hb).symm
    | true =>
      obtain ⟨op, hop, ⟨hb, -⟩, ht⟩ := h
      simp only [hop]
      exact congrArg Except.ok (Phrase.fragment_leading op hb ht).symm
  | range start stop =>
    obtain ⟨hstart, ⟨ht, hb⟩, hstop, hblock, -⟩ := h
    simp only [fragment, fragment_of_printable hstart, fragment_of_printable hstop, phrase]
    exact congrArg Except.ok (Phrase.fragment_range ht hb (.of_isBlock hblock)).symm
  | get target key =>
    obtain ⟨htarget, ⟨ht, hb⟩, hkey, ⟨hkb, -⟩, hkt⟩ := h
    simp only [fragment, fragment_of_printable htarget, fragment_of_printable hkey, phrase]
    exact congrArg Except.ok (Phrase.fragment_get ht hb hkb hkt).symm
  | apply function arguments =>
    have hall : fragments arguments = .ok ((phrases arguments).map Phrase.fragment) :=
      fragments_of_printableAll h.2.2.1
    obtain ⟨hfunction, hf, init, last, rfl, hinit, -, hlast⟩ := h.of_apply
    rw [phrase_apply]
    simp only [fragment, fragment_of_printable hfunction, hall, phrases_eq_map, List.map_append,
      List.map_cons, List.map_nil, bind, Except.bind, List.getLast?_concat, List.dropLast_concat]
    refine congrArg Except.ok (Phrase.fragment_apply ?_ (.of_isBlock hlast.1)).symm
    rw [List.forall_mem_cons, List.forall_mem_map]
    exact ⟨hf, fun e he => (hinit e he).2⟩
  | pointFree s none =>
    refine congrArg Except.ok (Phrase.fragment_ext ?_ rfl rfl rfl rfl).symm
    simp [Phrase.text, phrase, Phrase.pointFree, Page.text, Item.text, Fragment.atom, openGroup,
      closeGroup, symbol, Fragment.pointFree]
  | pointFree s (some preset) =>
    obtain ⟨-, hpreset, ht, hb⟩ := h
    simp only [fragment, fragment_of_printable hpreset, phrase]
    exact congrArg Except.ok (Phrase.fragment_pointFree s ht hb).symm
  | list elements =>
    have hall : fragments elements = .ok ((phrases elements).map Phrase.fragment) :=
      fragments_of_printableAll h.1
    obtain ⟨first, middle, last, rfl, hinit, -, hlast⟩ := h.of_list
    have hmap : (phrases (first :: (middle ++ [last]))).map Phrase.fragment =
        first.phrase.fragment :: (middle.map phrase).map Phrase.fragment ++ [last.phrase.fragment] := by
      simp [phrases_eq_map]
    rw [hmap] at hall
    rw [phrase_list]
    simp only [fragment, hall, bind, Except.bind, List.getLast?_concat, List.dropLast_concat]
    refine congrArg Except.ok (Phrase.fragment_list ?_ (.of_isBlock hlast.1)).symm
    rw [← List.map_cons, List.forall_mem_map]
    exact fun e he => (hinit e he).2
  | block statements =>
    simp only [fragment, fragments_of_printableAll h.1]
    refine congrArg Except.ok (Phrase.fragment_block ?_).symm
    exact forall_mem_phrases fun e he => (h.2 e he).1

/-- Printable expressions have texts, which are those of their phrases. -/
theorem fragments_of_printableAll {es : List Expr} (h : PrintableAll es) :
    fragments es = .ok ((phrases es).map Phrase.fragment) := by
  match es with
  | [] => rfl
  | e :: es =>
    simp only [fragments, fragment_of_printable h.1, fragments_of_printableAll h.2]
    rfl

end

end Expr

end SignLang
