import SignLang.Proofs.Concat
import SignLang.Proofs.Parser.Seats

/-!
# Blocks in a program

`Expr.Sits` goes down from an expression to a part of it, a part of that part, and so on, and keeps track of
the smallest statement on the way. In a program that a text with balanced brackets writes, every block has
two or more statements, is held by a definition, a colon or a function, and ends its statement
(`blocks_of_parseWithin`).
-/

namespace SignLang

open SignLang.Parser

namespace Expr

/-- The expression `x` is a part of `root`, or of a part of it and so on, and stands in the place. The
smallest statement that contains it, and is not `x` itself, is `within`. -/
inductive Sits (root : Expr) : Expr → Place → Expr → Prop where
  | part {place x} :
    (place, x) ∈ root.parts →
    Sits root root place x
  | deeper {within place x place' y} :
    Sits root within place x →
    (place', y) ∈ x.parts →
    Sits root (if place = .statement then x else within) place' y

variable {e x : Expr} {place : Place}

/-- A part in a row that no other follows is the last one. -/
lemma eq_concat_of_mem_rowOf {es : List Expr} (h : (place, x) ∈ rowOf es) (hinner : place ≠ .inner) :
    ∃ init, es = init ++ [x] := by
  rcases List.eq_nil_or_concat' es with rfl | ⟨init, last, rfl⟩
  · simp [rowOf] at h
  · have hlast : x = last := by
      simp only [rowOf, List.dropLast_concat, List.getLast?_concat, Option.toList_some, List.map_cons,
        List.map_nil, List.mem_append, List.mem_map, List.mem_singleton, Prod.mk.injEq] at h
      rcases h with ⟨_, -, rfl, -⟩ | ⟨-, rfl⟩
      · exact absurd rfl hinner
      · rfl
    exact ⟨init, by rw [hlast]⟩

/-- The words of a part that nothing follows are the last words of the whole. -/
lemma words_suffix (h : (place, x) ∈ e.parts) (hinner : place ≠ .inner) (hstatement : place ≠ .statement) :
    x.words <:+ e.words := by
  have hright {l r : Expr} {p : Place} (h : (place, x) ∈ [(.inner, l), (p, r)]) : x = r := by
    simp only [List.mem_cons, Prod.mk.injEq, List.not_mem_nil, or_false] at h
    exact (h.resolve_left fun h => hinner h.1).2
  cases e with
  | literal | identifier | unit | emptyList => cases h
  | define target value =>
    obtain rfl := hright h
    exact ⟨target.words ++ [.symbol ":"], by simp [words]⟩
  | lambda params body =>
    obtain ⟨-, rfl⟩ : place = .body ∧ x = body := by simpa [parts] using h
    exact ⟨params.flatMap Parameter.words ++ [.symbol "?"], by simp [words]⟩
  | binary symbol left right =>
    obtain rfl := hright h
    exact ⟨left.words ++ [.symbol symbol], by simp [words]⟩
  | unary symbol leads operand =>
    cases leads with
    | false =>
      obtain ⟨rfl, -⟩ : place = .inner ∧ x = operand := by simpa [parts] using h
      exact absurd rfl hinner
    | true =>
      obtain ⟨-, rfl⟩ : place = .last ∧ x = operand := by simpa [parts] using h
      rw [words]
      split
      · exact List.suffix_rfl
      · exact List.suffix_cons _ _
  | range start stop =>
    obtain rfl := hright h
    exact ⟨start.words ++ [.symbol "~"], by simp [words]⟩
  | get target key =>
    obtain rfl := hright h
    exact ⟨target.words ++ [.symbol "'"], by simp [words]⟩
  | apply function arguments =>
    rcases List.mem_cons.1 h with heq | h
    · cases heq
      exact absurd rfl hinner
    obtain ⟨init, rfl⟩ := eq_concat_of_mem_rowOf h hinner
    exact ⟨function.words ++ wordsAll init, by simp [words, wordsAll_append, wordsAll]⟩
  | pointFree symbol preset =>
    cases preset with
    | none => cases h
    | some preset =>
      obtain ⟨-, rfl⟩ : place = .last ∧ x = preset := by simpa [parts] using h
      exact List.suffix_cons _ _
  | list elements =>
    obtain ⟨init, rfl⟩ := eq_concat_of_mem_rowOf h hinner
    rw [words]
    by_cases hinit : init = []
    · rw [hinit]
      exact List.suffix_rfl
    · exact ⟨wordsList init ++ [.symbol ","], by simp [wordsList_concat hinit]⟩
  | block statements =>
    obtain ⟨_, -, heq⟩ := List.mem_map.1 h
    cases heq
    exact absurd rfl hstatement

/-- What stands in an expression may stand there, and is the end of a statement if it has a block. -/
lemma Sits.seated {root within : Expr} (h : Sits root within place x)
    (hroot : ∀ part ∈ root.parts, Seated part.1 part.2) :
    Seated place x ∧ (x.Blockless ∨ place = .statement ∨ x.words <:+ within.words) := by
  induction h with
  | @part place x hpart =>
    have hseated := hroot _ hpart
    refine ⟨hseated, ?_⟩
    by_cases hstatement : place = .statement
    · exact .inr (.inl hstatement)
    cases hseated with
    | inner hblockless => exact .inl hblockless
    | outer hinner => exact .inr (.inr (words_suffix hpart hinner hstatement))
  | @deeper within place x place' y _ hpart ih =>
    obtain ⟨hseated, hx⟩ := ih
    by_cases hblockless : x.Blockless
    · have hy := hblockless.part _ hpart
      exact ⟨hy.seated _, .inl hy⟩
    have hy : Seated place' y := by
      cases hseated with
      | inner h => exact absurd h hblockless
      | outer _ _ hparts => exact hparts _ hpart
    refine ⟨hy, ?_⟩
    by_cases hstatement' : place' = .statement
    · exact .inr (.inl hstatement')
    cases hy with
    | inner h => exact .inl h
    | outer hinner =>
      have hsuffix := words_suffix hpart hinner hstatement'
      split
      · exact .inr (.inr hsuffix)
      · next hstatement =>
        have hx := (hx.resolve_left hblockless).resolve_left hstatement
        exact .inr (.inr (hsuffix.trans hx))

/-- A block is no expression without blocks. -/
lemma not_blockless_block {es : List Expr} : ¬(block es).Blockless := by
  rintro ⟨h, -⟩
  cases h

/-- A block has two or more statements, is held by a definition, a colon or a function, and ends its
statement. -/
lemma Sits.block {root within : Expr} {es : List Expr} (h : Sits root within place (.block es))
    (hroot : ∀ part ∈ root.parts, Seated part.1 part.2) :
    2 ≤ es.length ∧ place ∈ [.value, .colon, .body] ∧ (Expr.block es).words <:+ within.words := by
  obtain ⟨hseated, hwords⟩ := h.seated hroot
  cases hseated with
  | inner h => exact absurd h not_blockless_block
  | outer _ hheld _ =>
    obtain ⟨hplace, hlength⟩ := hheld rfl
    refine ⟨by simpa [parts] using hlength, ?_, ?_⟩
    · cases place with
      | value | colon | body => simp
      | statement | last | inner => cases hplace
    · refine (hwords.resolve_left not_blockless_block).resolve_left ?_
      rintro rfl
      cases hplace

end Expr

/-- In the laid-out tokens of a text with balanced brackets, all separators are housed. -/
lemma housed_of_nest {limit : Nat} {text : String} {tokens : List Token} {outline : Outline}
    (hscan : scan text = .ok tokens) (hnest : Outline.nest limit 0 (Line.split tokens) = .ok outline)
    (hbal : Balanced tokens) (hlaid : Balanced outline.tokens) : Housed outline.tokens := by
  have hlines := Outline.lines_of_nest hnest
  refine (Outline.housed ?_ ?_).1
  · refine (Outline.balanced_lines ?_ hlaid).2
    rw [hlines]
    exact level_of_balanced hscan hbal
  · rw [hlines]
    exact kind_ne_separator hscan

/-- A text with balanced brackets is read from laid-out tokens in which all separators are housed. -/
lemma exists_housed_of_parseWithin {limits : Limits} {text : String} {tokens : List Token} {e : Expr}
    (hscan : scan text = .ok tokens) (hbal : Balanced tokens) (h : parseWithin limits text = .ok e) :
    ∃ outline c d, Outline.nest limits.levels 0 (Line.split tokens) = .ok outline ∧
      c.tokens = outline.tokens ++ [endingOf tokens] ∧ c.Ends ∧ Housed c.tokens ∧ c.afterHeader = false ∧
      Reads (.statements []) c e d := by
  obtain ⟨tokens', laid, hscan', hlaid, hbuild⟩ := parseWithin_eq_ok h
  obtain rfl : tokens = tokens' := Except.ok.inj (hscan.symm.trans hscan')
  obtain ⟨outline, hnest, rfl⟩ := normalizeWithin_eq_ok hlaid
  obtain ⟨hfault, d, hread, -⟩ := Spells.of_buildWithin hbuild
  have hending := endingOf_kind tokens
  have htokens : (outline.cursor tokens).tokens = outline.tokens ++ [endingOf tokens] :=
    tokens_ofTokens_concat hending
  have hlaid := (outline.bracketFault?_cursor tokens).1 hfault
  have housed : Housed (outline.tokens ++ [endingOf tokens]) :=
    (housed_of_nest hscan hnest hbal hlaid).append (hlaid.heightAfter 0)
      (.of_forall (by simp [hending])) (.inr (by simp [Token.isEnd, hending]))
  have hstart : (outline.cursor tokens).afterHeader = false := by
    unfold Outline.cursor
    cases outline.tokens <;> rfl
  exact ⟨outline, outline.cursor tokens, d, hnest, htokens, Cursor.ofTokens_ends _, htokens.symm ▸ housed, hstart,
    hread⟩

/-- What a text with balanced brackets writes is a sequence of statements that have their blocks where they
may stand. -/
lemma seated_of_parseWithin {limits : Limits} {text : String} {tokens : List Token} {e : Expr}
    (hscan : scan text = .ok tokens) (hbal : Balanced tokens) (h : parseWithin limits text = .ok e) :
    ∃ fs, e = sequenced fs ∧ ∀ f ∈ fs, Expr.Seated .statement f := by
  obtain ⟨_, _, _, -, -, ends, housed, hstart, hread⟩ := exists_housed_of_parseWithin hscan hbal h
  obtain ⟨fs, rfl, -, hfs, -⟩ := hread.seats ends housed hstart
  exact ⟨fs, rfl, hfs⟩

/-- In the program that a text with balanced brackets writes, every block but the program itself has two or
more statements, is the value of a definition, the right operand of a colon or the body of a function, and
its words are the last ones of the smallest statement around it. -/
theorem blocks_of_parseWithin {limits : Limits} {text : String} {tokens : List Token} {e : Expr}
    (hscan : scan text = .ok tokens) (hbal : Balanced tokens) (h : parseWithin limits text = .ok e) :
    ∀ within place es, e.Sits within place (.block es) →
      2 ≤ es.length ∧ place ∈ [.value, .colon, .body] ∧ (Expr.block es).words <:+ within.words := by
  intro within place es hsits
  obtain ⟨fs, rfl, hfs⟩ := seated_of_parseWithin hscan hbal h
  refine hsits.block ?_
  unfold sequenced
  split
  · next f =>
    cases hfs f List.mem_cons_self with
    | outer _ _ hparts => exact hparts
  · exact List.forall_mem_map.2 hfs

/-- A block in a statement of another one ends that statement. -/
theorem blocks_of_parseWithin_nested :
    ∃ e within es, parse "f : x ?\n\ta :\n\t\tb\n\t\tc\n\td" = .ok e ∧ e.Sits within .value (.block es) ∧
      within = .define (.identifier "a") (.block es) ∧ 2 ≤ es.length ∧
      (Expr.block es).words <:+ within.words := by
  let held : Expr := .block [.identifier "b", .identifier "c"]
  let within : Expr := .define (.identifier "a") held
  let body : Expr := .block [within, .identifier "d"]
  let e : Expr := .define (.identifier "f") (.lambda [⟨"x", false⟩] body)
  have hparse : parse "f : x ?\n\ta :\n\t\tb\n\t\tc\n\td" = .ok e := by decide +kernel
  have hscan : (scan "f : x ?\n\ta :\n\t\tb\n\t\tc\n\td").toOption.any (Balanced ·) := by decide +kernel
  have hlambda : e.Sits e .value (.lambda [⟨"x", false⟩] body) := .part (by simp [e, Expr.parts])
  have hbody : e.Sits e .body body := .deeper hlambda (by simp [Expr.parts])
  have hwithin : e.Sits e .statement within := .deeper hbody (by simp [body, Expr.parts])
  have hheld : e.Sits within .value held := .deeper hwithin (by simp [within, Expr.parts])
  cases htokens : scan "f : x ?\n\ta :\n\t\tb\n\t\tc\n\td" with
  | error failure => simp [htokens, Except.toOption] at hscan
  | ok tokens =>
    have hbal : Balanced tokens := by simpa [htokens, Except.toOption] using hscan
    obtain ⟨hlength, -, hwords⟩ := blocks_of_parseWithin htokens hbal hparse _ _ _ hheld
    exact ⟨e, within, _, hparse, hheld, rfl, hlength, hwords⟩

end SignLang
