import SignLang.Program
import SignLang.Proofs.Brackets
import SignLang.Proofs.Layout.Lines
import SignLang.Proofs.Parser.Reads
import SignLang.Proofs.Scanner.Lexical

/-!
# The brackets that are written

The parser checks the brackets of the laid-out tokens, where written brackets stand among those that
the layout stage puts around indented lines. The lines of a text are taken apart by the number of
open brackets, which never falls below zero: a closing bracket too many leaves it at zero, and a
later opening one makes up for it.

* `Line.level_splitFrom`: if the written brackets never fall below zero, every line opens as many
  as it closes.
* `Outline.balanced_lines`: if every line does, the check makes sure that the brackets of each line
  match.
* `balanced_iff_of_parseWithin`: so a text that is accepted has balanced brackets exactly if no
  front of it closes more brackets than it opens.
-/

namespace SignLang

/-! ## Lines -/

/-- A line closes as many brackets as it opens, and never one that it has not opened. -/
def Line.Level (line : Line) : Prop :=
  heightAfter 0 line.tokens = some 0

/-- A token that is no content is no bracket. -/
lemma Token.isContent_of_isBracket (t : Token) (h : t.isBracket) : t.isContent := by
  simp only [isBracket, Bool.or_eq_true, decide_eq_true_eq] at h
  rcases h with h | h <;> simp [isContent, h]

/-- Tokens that are no brackets change no height. -/
lemma heightAfter_eq_of_forall {ts : List Token} (h : ∀ t ∈ ts, t.isBracket = false)
    (height : Nat) : heightAfter height ts = some height := by
  induction ts with
  | nil => rfl
  | cons t ts ih =>
    rw [heightAfter_other (h t List.mem_cons_self)]
    exact ih fun s hs => h s (List.mem_cons_of_mem t hs)

/-- Tokens that are no brackets open and close no family. -/
lemma openAfter_eq_of_forall {ts : List Token} (h : ∀ t ∈ ts, t.isBracket = false)
    (stack : List Bool) : openAfter stack ts = some stack := by
  induction ts with
  | nil => rfl
  | cons t ts ih =>
    rw [openAfter_other (h t List.mem_cons_self)]
    exact ih fun s hs => h s (List.mem_cons_of_mem t hs)

namespace Line

/-- A line is level if the tokens gathered for it are. -/
lemma level_ofGathered {level : Nat} {gathered : List Token}
    (h : heightAfter 0 gathered.reverse = some 0) : ∀ line ∈ ofGathered level gathered, line.Level := by
  intro line hline
  unfold ofGathered at hline
  split at hline
  · cases hline
  · next first others heq =>
    rw [List.mem_singleton.1 hline]
    rw [heq] at h
    exact h

/-- The gathered tokens with one more have its height. -/
lemma heightAfter_gather {gathered : List Token} {t : Token} {depth depth' : Nat}
    (h : heightAfter 0 gathered.reverse = some depth) (ht : heightAfter depth [t] = some depth') :
    heightAfter 0 (t :: gathered).reverse = some depth' := by
  rw [List.reverse_cons, heightAfter_append, h]
  exact ht

/-- If the written brackets never fall below zero and none stays open, all lines are level. -/
lemma level_splitFrom {level depth : Nat} {gathered ts : List Token}
    (hg : heightAfter 0 gathered.reverse = some depth)
    (hts : heightAfter depth (beforeEnding ts) = some 0) :
    ∀ line ∈ splitFrom level depth gathered ts, line.Level := by
  fun_induction splitFrom level depth gathered ts with
  | case1 =>
    cases hts
    exact level_ofGathered hg
  | case2 level depth gathered t rest hk =>
    have : beforeEnding (t :: rest) = [] := by simp [beforeEnding, hk]
    rw [this] at hts
    cases hts
    exact level_ofGathered hg
  | case3 level gathered t rest hk ih =>
    rw [beforeEnding_cons (by simp [hk]), heightAfter_other (by simp [Token.isBracket, hk])] at hts
    intro line hline
    rcases List.mem_append.1 hline with hline | hline
    · exact level_ofGathered hg line hline
    · exact ih rfl hts line hline
  | case4 level depth gathered t rest hk _ ih | case5 level depth gathered t rest hk ih =>
    rw [beforeEnding_cons (by simp [hk]), heightAfter_other (by simp [Token.isBracket, hk])] at hts
    exact ih hg hts
  | case6 level depth gathered t rest hk ih =>
    rw [beforeEnding_cons (by simp [hk]), heightAfter_opening hk] at hts
    exact ih (heightAfter_gather hg (heightAfter_opening hk depth [])) hts
  | case7 level depth gathered t rest hk ih =>
    rw [beforeEnding_cons (by simp [hk])] at hts
    cases depth with
    | zero => rw [heightAfter_zero_closing hk] at hts; cases hts
    | succ depth =>
      rw [heightAfter_closing hk] at hts
      exact ih (heightAfter_gather hg (heightAfter_closing hk depth [])) hts
  | case8 level depth gathered t rest hend _ _ hopening hclosing ih =>
    have hb : t.isBracket = false := by
      simp only [Token.isBracket, Bool.or_eq_false_iff, decide_eq_false_iff_not]
      exact ⟨hopening, hclosing⟩
    rw [beforeEnding_cons hend, heightAfter_other hb] at hts
    exact ih (heightAfter_gather hg (heightAfter_other hb depth [])) hts

end Line

/-! ## Outlines -/

namespace Outline

/-- The headers of a line are no brackets. -/
lemma isBracket_of_mem_headers {line : Line} {t : Token} (h : t ∈ line.headers) :
    t.isBracket = false := by
  simp [Token.isBracket, Line.kind_of_mem_headers h]

/-- The stem of a level line is level. -/
lemma heightAfter_stem {line : Line} (h : line.Level) : heightAfter 0 line.stem = some 0 := by
  rw [Line.Level, ← line.stem_append_headers, heightAfter_append] at h
  cases hs : heightAfter 0 line.stem with
  | none => rw [hs] at h; cases h
  | some height =>
    rw [hs, Option.bind_some,
      heightAfter_eq_of_forall fun t ht => isBracket_of_mem_headers ht] at h
    exact h

/-- A line is balanced if its stem is. -/
lemma balanced_of_stem {line : Line} (h : Balanced line.stem) : Balanced line.tokens := by
  rw [Balanced, ← line.stem_append_headers, openAfter_append, h, Option.bind_some]
  exact openAfter_eq_of_forall (fun t ht => isBracket_of_mem_headers ht) []

/-- The block operators of a line are no brackets, so what is before them is balanced if the line is. -/
lemma balanced_stem {line : Line} (h : Balanced line.tokens) : Balanced line.stem := by
  rw [Balanced, ← line.stem_append_headers, openAfter_append] at h
  obtain ⟨stack, hstack, hheaders⟩ := Option.bind_eq_some_iff.1 h
  rw [openAfter_eq_of_forall fun t ht => isBracket_of_mem_headers ht] at hheaders
  cases hheaders
  exact hstack

/-- The brackets before a body open one family for each block operator. -/
lemma openAfter_openers (ops : List Token) (h : ∀ t ∈ ops, t.isBracket = false)
    (stack : List Bool) :
    openAfter stack (ops.flatMap fun op => [op, op.borrow .opening "["]) =
      some (List.replicate ops.length false ++ stack) := by
  induction ops generalizing stack with
  | nil => rfl
  | cons op ops ih =>
    rw [List.flatMap_cons, List.cons_append, openAfter_other (h op List.mem_cons_self),
      List.singleton_append, openAfter_opening rfl,
      ih fun t ht => h t (List.mem_cons_of_mem op ht)]
    have hbar : (op.borrow .opening "[").isBar = false := by
      simp [Token.isBar, Token.borrow, Operator.bar]
    rw [hbar, List.length_cons, List.replicate_succ', List.append_assoc]
    rfl

/-- The brackets after a body close one family for each block operator. -/
lemma openAfter_closers (ops : List Token) (last : Token) (stack : List Bool) :
    openAfter (List.replicate ops.length false ++ stack)
      (ops.map fun _ => last.borrow .closing "]") = some stack := by
  induction ops with
  | nil => rfl
  | cons op ops ih =>
    have hbar : (last.borrow .closing "]").isBar = false := by
      simp [Token.isBar, Token.borrow, Operator.bar]
    rw [List.length_cons, List.replicate_succ, List.cons_append, List.map_cons,
      openAfter_closing rfl, if_pos hbar.symm]
    exact ih

/-- A line with balanced brackets encloses a balanced body in balanced brackets. -/
lemma balanced_enclose {line : Line} {body : List Token} (hline : Balanced line.tokens)
    (hbody : Balanced body) : Balanced (enclose line body) := by
  unfold enclose
  split
  · exact hline
  · rw [Balanced, openAfter_append, openAfter_append, openAfter_append, balanced_stem hline,
      Option.bind_some, openAfter_openers _ (fun t ht => isBracket_of_mem_headers ht), Option.bind_some,
      hbody.openAfter, Option.bind_some]
    exact openAfter_closers _ _ []

/-- The token between two lines is no bracket. -/
lemma openAfter_separator (o : Outline) (stack : List Bool) :
    openAfter stack o.separator = some stack := by
  cases o with
  | done => rfl
  | entry line body next => exact openAfter_other (by simp [Token.isBracket, Token.borrow]) _ _

/-- A level part of a list whose families match is balanced. -/
lemma balanced_of_level {stack stack' : List Bool} {ts : List Token}
    (h : openAfter stack ts = some stack') (hlevel : heightAfter 0 ts = some 0) :
    Balanced ts ∧ stack' = stack := by
  obtain ⟨inner, rfl, hlen, hinner⟩ := openAfter_frame (a := []) h hlevel
  obtain rfl := List.eq_nil_of_length_eq_zero hlen
  exact ⟨hinner, rfl⟩

/-- If all lines of an outline are level and the families of its laid-out brackets match, the
brackets that the layout stage has put in close each other, and those of each line do. -/
lemma balanced_lines {o : Outline} {stack stack' : List Bool}
    (hlevel : ∀ line ∈ o.lines, line.Level) (h : openAfter stack o.tokens = some stack') :
    stack' = stack ∧ ∀ line ∈ o.lines, Balanced line.tokens := by
  induction o generalizing stack stack' with
  | done =>
    cases h
    exact ⟨rfl, nofun⟩
  | entry line body next ihbody ihnext =>
    simp only [lines, List.forall_mem_cons, List.forall_mem_append] at hlevel ⊢
    obtain ⟨hline, hbody, hnext⟩ := hlevel
    rw [tokens, openAfter_append, openAfter_append] at h
    obtain ⟨stack₁, hrest, h⟩ := Option.bind_eq_some_iff.1 h
    obtain ⟨stack₂, henc, hsep⟩ := Option.bind_eq_some_iff.1 hrest
    rw [openAfter_separator] at hsep
    cases hsep
    obtain ⟨rfl, hnext⟩ := ihnext hnext h
    unfold enclose at henc
    split at henc
    · next hnone =>
      obtain ⟨hbal, rfl⟩ := balanced_of_level henc hline
      rw [List.getLast?_eq_none_iff] at hnone
      rw [hnone] at ihbody
      exact ⟨rfl, hbal, (@ihbody [] [] hbody rfl).2, hnext⟩
    · next last _ =>
      simp only [openAfter_append] at henc
      obtain ⟨stack₃, henc, hclose⟩ := Option.bind_eq_some_iff.1 henc
      obtain ⟨stack₄, henc, hinside⟩ := Option.bind_eq_some_iff.1 henc
      obtain ⟨stack₅, hstem, hopen⟩ := Option.bind_eq_some_iff.1 henc
      obtain ⟨hbal, rfl⟩ := balanced_of_level hstem (heightAfter_stem hline)
      rw [openAfter_openers _ fun t ht => isBracket_of_mem_headers ht] at hopen
      cases hopen
      obtain ⟨rfl, hbody⟩ := ihbody hbody hinside
      rw [openAfter_closers] at hclose
      cases hclose
      exact ⟨rfl, balanced_of_stem hbal, hbody, hnext⟩

/-- The layout stage puts in as many opening brackets as closing ones. -/
lemma openings_add_closings (o : Outline) :
    openings o.tokens + closings (o.lines.flatMap Line.tokens) =
      closings o.tokens + openings (o.lines.flatMap Line.tokens) := by
  induction o with
  | done => rfl
  | entry line body next ihbody ihnext =>
    have hsep : openings next.separator = 0 ∧ closings next.separator = 0 := by
      cases next <;> simp [separator, openings, closings, Token.borrow]
    have henc : openings (enclose line body.tokens) + closings line.tokens + closings body.tokens =
        closings (enclose line body.tokens) + openings line.tokens + openings body.tokens := by
      unfold enclose
      split
      · next hnone =>
        rw [List.getLast?_eq_none_iff] at hnone
        rw [hnone]
        simp only [openings, closings, List.countP_nil]
        omega
      · have hstack := openAfter_openers line.headers
          (fun t ht => isBracket_of_mem_headers ht) []
        have hopen := heightAfter_count (heightAfter_of_openAfter hstack)
        have hclose := heightAfter_count (heightAfter_of_openAfter
          (openAfter_closers line.headers (by assumption) []))
        have hheaders := heightAfter_count (@heightAfter_eq_of_forall line.headers
          (fun t ht => isBracket_of_mem_headers ht) 0)
        rw [← line.stem_append_headers]
        simp only [openings, closings, List.countP_append, List.length_append, List.length_replicate,
          List.length_nil] at *
        omega
    simp only [tokens, lines, List.flatMap_cons, List.flatMap_append, openings, closings,
      List.countP_append] at *
    omega

end Outline

/-! ## Texts -/

/-- The layout of the tokens of a text has the lines of the text. -/
lemma normalizeWithin_eq_ok {limit : Nat} {tokens laid : List Token}
    (h : normalizeWithin limit tokens = .ok laid) :
    ∃ outline, Outline.nest limit 0 (Line.split tokens) = .ok outline ∧
      laid = outline.tokens ++ [endingOf tokens] := by
  unfold normalizeWithin Layout.ofTokensWithin at h
  dsimp only at h
  cases hnest : Outline.nest limit 0 (Line.split tokens) with
  | error failure =>
    rw [hnest] at h
    dsimp only at h
    split at h <;> cases h
  | ok outline =>
    rw [hnest] at h
    cases h
    exact ⟨outline, rfl, rfl⟩

/-- Tokens are laid out as their lines are nested. -/
lemma normalizeWithin_of_nest {limit : Nat} {tokens : List Token} {outline : Outline}
    (h : Outline.nest limit 0 (Line.split tokens) = .ok outline) :
    normalizeWithin limit tokens = .ok (outline.tokens ++ [endingOf tokens]) := by
  simp [normalizeWithin, Layout.ofTokensWithin, h, Except.map, Layout.tokens]

/-- A text that is accepted is scanned, laid out and parsed. -/
lemma parseWithin_eq_ok {limits : Limits} {text : String} {e : Expr}
    (h : parseWithin limits text = .ok e) :
    ∃ tokens laid, scan text = .ok tokens ∧ normalizeWithin limits.levels tokens = .ok laid ∧
      buildWithin limits.depth laid = .ok e := by
  unfold parseWithin layOutWithin at h
  cases hscan : scan text with
  | error failure => rw [hscan] at h; cases h
  | ok tokens =>
    rw [hscan] at h
    cases hlaid : normalizeWithin limits.levels tokens with
    | error failure =>
      simp only [Except.mapError, bind, Except.bind, hlaid] at h
      cases h
    | ok laid =>
      simp only [Except.mapError, bind, Except.bind, hlaid] at h
      cases hbuild : buildWithin limits.depth laid with
      | error failure => rw [hbuild] at h; cases h
      | ok e' =>
        rw [hbuild] at h
        cases h
        exact ⟨tokens, laid, rfl, hlaid, hbuild⟩

/-- The families that are open after a part of the tokens are those after its brackets. -/
lemma balanced_flatMap {lines : List Line} (h : ∀ line ∈ lines, Balanced line.tokens) :
    Balanced (lines.flatMap Line.tokens) := by
  induction lines with
  | nil => rfl
  | cons line lines ih =>
    rw [List.forall_mem_cons] at h
    rw [Balanced, List.flatMap_cons, openAfter_append, h.1, Option.bind_some]
    exact ih h.2

/-- The content of a list has its brackets. -/
lemma openAfter_content (stack : List Bool) (ts : List Token) :
    openAfter stack (ts.filter Token.isContent) = openAfter stack ts :=
  openAfter_filter Token.isContent_of_isBracket stack ts

/-- Nothing is opened or closed at the end of the input. -/
lemma balanced_concat {ts : List Token} {ending : Token} (h : ending.kind = .ending) :
    Balanced (ts ++ [ending]) ↔ Balanced ts := by
  rw [Balanced, openAfter_append]
  constructor
  · intro h'
    obtain ⟨stack, hstack, hlast⟩ := Option.bind_eq_some_iff.1 h'
    rw [openAfter_other (by simp [Token.isBracket, h])] at hlast
    cases hlast
    exact hstack
  · intro h'
    rw [h', Option.bind_some, openAfter_other (by simp [Token.isBracket, h])]
    rfl

/-- The cursor before a list that has its end stands before that list. -/
lemma tokens_ofTokens_concat {ts : List Token} {ending : Token} (h : ending.kind = .ending) :
    (Cursor.ofTokens (ts ++ [ending])).tokens = ts ++ [ending] := by
  cases ts with
  | nil => simp [Cursor.ofTokens, Cursor.tokens, h]
  | cons t ts =>
    have hlast : ((ts ++ [ending]).getLastD t).kind = .ending := by simp [h]
    simp only [List.cons_append, Cursor.ofTokens, Cursor.tokens, hlast, if_true]
    rfl

/-- The content of a list has as many brackets of each kind. -/
lemma count_content (ts : List Token) :
    openings (ts.filter Token.isContent) = openings ts ∧
      closings (ts.filter Token.isContent) = closings ts := by
  simp only [openings, closings, List.countP_filter]
  constructor
  all_goals
    refine List.countP_congr fun t _ => ?_
    have := t.isContent_of_isBracket
    simp only [Token.isBracket, Bool.or_eq_true, decide_eq_true_eq, Bool.and_eq_true] at this ⊢
    tauto

/-- The tokens on the lines of a text are lexical. -/
lemma lexical_of_split {text : String} {tokens : List Token} (hscan : scan text = .ok tokens) :
    ∀ line ∈ Line.split tokens, ∀ t ∈ line.tokens, t.Lexical := by
  obtain ⟨body, ending, rfl, hbody, hending, -⟩ := scan_eq_concat hscan
  intro line hline t ht
  have hmem : t ∈ (Line.split (body ++ [ending])).flatMap Line.tokens := List.mem_flatMap.2 ⟨line, hline, ht⟩
  rw [Line.flatMap_split, beforeEnding_concat (fun t ht => (hbody t ht).kind_ne_ending) hending] at hmem
  exact hbody t (List.mem_of_mem_filter hmem)

/-- If the laid-out tokens of a list are balanced and its brackets never fall below zero, the list is
balanced. -/
lemma balanced_of_nest {limit : Nat} {body : List Token} {ending : Token} {outline : Outline}
    (hbody : ∀ t ∈ body, t.kind ≠ .ending) (hending : ending.kind = .ending)
    (hnest : Outline.nest limit 0 (Line.split (body ++ [ending])) = .ok outline)
    (hbal : Balanced outline.tokens) (hsome : (heightAfter 0 body).isSome) : Balanced body := by
  have hlines := Outline.lines_of_nest hnest
  have hcontent := Line.flatMap_split (body ++ [ending])
  rw [beforeEnding_concat hbody hending, ← hlines] at hcontent
  obtain ⟨height, hheight⟩ := Option.isSome_iff_exists.1 hsome
  -- The layout stage puts brackets in by pairs, so that no written bracket stays open.
  obtain rfl : height = 0 := by
    have hcount := outline.openings_add_closings
    rw [hcontent, (count_content body).1, (count_content body).2] at hcount
    have hlaid := heightAfter_count (heightAfter_of_openAfter hbal)
    have := heightAfter_count hheight
    omega
  have hlevel : ∀ line ∈ outline.lines, line.Level := by
    rw [hlines]
    refine Line.level_splitFrom rfl ?_
    rw [beforeEnding_concat hbody hending]
    exact hheight
  have := balanced_flatMap (Outline.balanced_lines hlevel hbal).2
  rwa [hcontent, Balanced, openAfter_content] at this

/-- The brackets that a text writes, without those that the layout stage puts in, are balanced in
an accepted text exactly if no front of the text closes more brackets than it opens. The parser does
not see such a front when the lines after it open as many brackets again. -/
theorem balanced_iff_of_parseWithin {limits : Limits} {text : String} {e : Expr}
    {tokens : List Token} (h : parseWithin limits text = .ok e) (hscan : scan text = .ok tokens) :
    Balanced tokens ↔ ∀ front, front <+: tokens → closings front ≤ openings front := by
  have hfronts := @heightAfter_isSome_iff 0 tokens
  simp only [Nat.zero_add] at hfronts
  rw [← hfronts]
  constructor
  · intro hbal
    rw [show (0 : Nat) = ([] : List Bool).length from rfl, heightAfter_of_openAfter hbal]
    rfl
  intro hsome
  obtain ⟨tokens', laid, hscan', hlaid, hbuild⟩ := parseWithin_eq_ok h
  obtain rfl : tokens = tokens' := Except.ok.inj (hscan.symm.trans hscan')
  obtain ⟨outline, hnest, rfl⟩ := normalizeWithin_eq_ok hlaid
  obtain ⟨body, ending, rfl, hbody, hending⟩ := scan_eq_concat hscan
  have hend : (endingOf (body ++ [ending])).kind = .ending := by simp [endingOf, hending]
  obtain ⟨hfault, -⟩ := Spells.of_buildWithin hbuild
  rw [tokens_ofTokens_concat hend, Parser.bracketFault?_eq_none_iff, balanced_concat hend] at hfault
  rw [balanced_concat hending.1]
  refine balanced_of_nest (fun t ht => (hbody t ht).kind_ne_ending) hending.1 hnest hfault ?_
  rw [heightAfter_append] at hsome
  cases hheight : heightAfter 0 body with
  | none => rw [hheight] at hsome; cases hsome
  | some height => rfl

/-- A text that is accepted although its second line closes a bracket that it has not opened: the
layout stage has put one in before that line. -/
def strayText : String :=
  "f :\n\ta)\n\t(b"

/-- The brackets of `strayText` are not balanced, and a front of it shows it. -/
theorem not_balanced_strayText :
    ∃ e tokens, parse strayText = .ok e ∧ scan strayText = .ok tokens ∧ ¬Balanced tokens ∧
      ¬∀ front, front <+: tokens → closings front ≤ openings front := by
  have he : parse strayText =
      .ok (.block [.define (.identifier "f") (.identifier "a"), .identifier "b"]) := by
    decide +kernel
  have hscan : (scan strayText).toOption.any (¬Balanced ·) := by decide +kernel
  cases htokens : scan strayText with
  | error failure => simp [htokens, Except.toOption] at hscan
  | ok tokens =>
    have hbal : ¬Balanced tokens := by simpa [htokens, Except.toOption] using hscan
    exact ⟨_, tokens, he, rfl, hbal, mt (balanced_iff_of_parseWithin he htokens).2 hbal⟩

end SignLang
