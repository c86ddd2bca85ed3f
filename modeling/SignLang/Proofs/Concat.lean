import SignLang.Proofs.Layout.Append
import SignLang.Proofs.Parser.Level
import SignLang.Proofs.Render.RoundTrip
import SignLang.Proofs.Scanner.Brackets
import SignLang.Proofs.Scanner.Prior
import SignLang.Proofs.Trivia

/-!
# Programs one after the other

Two programs with a line end between them are the program of the statements of both
(`parseWithin_concat`). At the line end the scanner has closed its brackets, so that it goes on as at the
start of a text (`scan_concat`); the lines of the second program are not indented below those of the first;
and a separator divides the statements.
-/

namespace SignLang

open Lexeme Scanner SignLang.Parser

/-! ## Statements -/

/-- The laid-out tokens start with the stem of the first line, and with its first token. -/
lemma Outline.exists_tokens (line : Line) (body next : Outline) :
    ∃ rest, (entry line body next).tokens = line.stem ++ rest ∧
      (line.stem ++ rest).head? = some line.first := by
  have hsplit := line.stem_append_headers
  unfold tokens enclose
  split
  · refine ⟨line.headers ++ (next.separator ++ next.tokens), ?_, ?_⟩
    · simp only [← hsplit, List.append_assoc]
    · rw [← List.append_assoc, hsplit]
      rfl
  · refine ⟨_, by simp only [List.append_assoc]; rfl, ?_⟩
    cases hstem : line.stem with
    | nil =>
      rw [hstem, List.nil_append] at hsplit
      rw [hsplit]
      rfl
    | cons u us =>
      rw [hstem] at hsplit
      obtain ⟨rfl, -⟩ := List.cons.inj hsplit
      rfl

/-- The lines of a text with balanced brackets are level. -/
lemma level_of_balanced {tokens : List Token} {text : String} (hscan : scan text = .ok tokens)
    (hbal : Balanced tokens) : ∀ line ∈ Line.split tokens, line.Level := by
  obtain ⟨body, ending, rfl, hbody, hending, -⟩ := scan_eq_concat hscan
  refine Line.level_splitFrom rfl ?_
  rw [beforeEnding_concat (fun t ht => (hbody t ht).kind_ne_ending) hending]
  exact heightAfter_of_openAfter ((balanced_concat hending).1 hbal)

/-- No separator is written. -/
lemma kind_ne_separator {tokens : List Token} {text : String} (hscan : scan text = .ok tokens) :
    ∀ line ∈ Line.split tokens, ∀ t ∈ line.tokens, t.kind ≠ .separator := by
  intro line hline t ht hk
  have hadmits := (lexical_of_split hscan line hline t ht).2
  rw [hk] at hadmits
  exact hadmits

/-- A level line is read no further than to its stem, if a group starts it. -/
lemma not_wraps {line : Line} {c d : Cursor} {rest : List Token} (hlevel : line.Level)
    (hseparator : ∀ t ∈ line.tokens, t.kind ≠ .separator) (hc : c.ahead = line.stem ++ rest)
    (hhead : (line.stem ++ rest).head? = some line.first) : ¬c.Wraps d := by
  rintro ⟨hopening, ts, last, hpass, hts, t, ht, hk⟩
  have hfirst : c.here = line.first := by
    rw [← hc] at hhead
    exact Option.some.inj hhead
  have hstem := Outline.heightAfter_stem hlevel
  have hahead := hpass.ahead_eq
  rw [hc] at hahead
  cases hs : line.stem with
  | nil =>
    -- the first token would be one of the block operators
    have hheaders := line.stem_append_headers
    rw [hs, List.nil_append] at hheaders
    have := Line.kind_of_mem_headers (hheaders ▸ List.mem_cons_self : line.first ∈ line.headers)
    rw [← hfirst, hopening] at this
    cases this
  | cons u us =>
    rw [hs, List.cons_append, List.cons_append] at hahead
    obtain ⟨rfl, hrest⟩ := List.cons.inj hahead
    rw [hs, heightAfter_opening hopening] at hstem
    rw [List.append_assoc] at hrest
    rcases List.append_eq_append_iff.1 hrest with ⟨vs, hvs, -⟩ | ⟨vs, hvs, -⟩
    · -- the line closes the group before it ends
      rw [hvs, heightAfter_append] at hts
      obtain ⟨height, hheight, -⟩ := Option.bind_eq_some_iff.1 hts
      have hcount := heightAfter_count hheight
      have hcount' := heightAfter_count hstem
      omega
    · refine hseparator t ?_ hk
      rw [← line.stem_append_headers, hs, hvs]
      simp [ht]

/-- The statements of a program with balanced brackets are those that are read. -/
lemma Staged.statements_eq {limits : Limits} {text : String} {tokens : List Token} {outline : Outline}
    {es : List Expr} (h : Staged limits text tokens outline es) (hbal : Balanced tokens) :
    (sequenced es).statements = es := by
  rcases es with _ | ⟨e, _ | ⟨e', es⟩⟩
  · rfl
  · obtain ⟨d, hs, hd⟩ := h.statements
    obtain ⟨hgo, e', m, he, hm⟩ := (parseStatements_eq_ok.1 hs).resolve_left (by rintro ⟨-, ⟨⟩, -⟩)
    obtain rfl : e = e' := by
      rcases hm with ⟨-, hes, -⟩ | ⟨-, t, rest, fs, -, hes, -⟩
      · exact (List.cons.inj hes).1
      · exact (List.cons.inj hes).1
    cases e with
    | block es =>
      have hwraps := (Reads.of_parseExpr limits.depth he).wraps (Cursor.ofTokens_ends _)
      have hahead := outline.ahead_cursor tokens
      cases outline with
      | done =>
        obtain ⟨hhere, -⟩ := List.cons.inj hahead
        refine absurd (.inr ?_) hgo
        rw [hhere]
        exact endingOf_kind tokens
      | entry line body next =>
        have hlines := Outline.lines_of_nest h.nest_eq
        have hline : line ∈ Line.split tokens := hlines ▸ List.mem_cons_self
        obtain ⟨rest, hrest, hhead⟩ := Outline.exists_tokens line body next
        rw [hrest, List.append_assoc] at hahead
        refine absurd hwraps (not_wraps (level_of_balanced h.scan_eq hbal line hline)
          (kind_ne_separator h.scan_eq line hline) hahead ?_)
        rw [← List.append_assoc, List.head?_append_of_ne_nil _ (by
          intro hnil
          rw [hnil] at hhead
          cases hhead)]
        exact hhead
    | _ => rfl
  · rfl

/-! ## Scanning -/

/-- The end of a text, without a carriage return that a line feed after the text would join. -/
lemma exists_end {text : List Char} {f : Scanner} (hrun : (ofText text).run = .ok f) :
    ∃ u x c B ns, (ofText text).Steps u ∧ text = x ++ u.rest ∧ text ++ ['\n'] = x ++ c :: B ∧
      Fits u.rest (c :: B) ∧ isTerminator c ∧ Trivia B ∧ (u.returned → c ≠ '\n') ∧
      f.emitted.reverse = u.emitted.reverse ++ ns ∧ ∀ t ∈ ns, t.kind = .newline := by
  obtain ⟨hsteps, hrest⟩ := steps_of_run hrun
  by_cases hreturned : f.returned
  · obtain ⟨u, t, hu, hurest, hemitted, hnewline⟩ := exists_of_returned hrun hreturned
    obtain ⟨x, hx⟩ := hu.exists_rest
    have htext : text = x ++ u.rest := hx
    refine ⟨u, x, '\r', ['\n'], [t], hu, htext, ?_, ?_, rfl, .cons .nil rfl, by simp, ?_, ?_⟩
    · rw [htext, hurest]
      simp
    · rw [hurest]
      exact .inl rfl
    · simp [hemitted]
    · simpa using hnewline
  · refine ⟨f, text, '\n', [], [], hsteps, by simp [hrest], rfl, ?_, rfl, .nil, ?_, by simp, by simp⟩
    · rw [hrest]
      exact .inr (.inr (.inl ⟨rfl, rfl⟩))
    · exact fun h => absurd h hreturned

/-- The tokens of two texts with a line end between them, if the first one closes its brackets. -/
theorem scan_concat {text text' : List Char} {f f' : Scanner} (hrun : (ofText text).run = .ok f)
    (hrun' : (ofText text').run = .ok f') (hbal : Balanced f.emitted.reverse) :
    ∃ us ns us' t after distance, f.emitted.reverse = us ++ ns ∧ (∀ t ∈ ns, t.kind = .newline) ∧
      Balanced us ∧ List.Forall₂ (Token.Matches (Token.Shift 0)) us us' ∧ t.kind = .newline ∧
      scan (String.ofList (text ++ '\n' :: text')) = .ok (us' ++ t :: after) ∧
      Lined (Token.Shift distance) 0 true
        (f'.emitted.reverse ++ [⟨.ending, "", f'.line, f'.column, f'.offset, false⟩]) after := by
  obtain ⟨feeds, r, rfl, hfeeds, hr⟩ := exists_lineFeeds text'
  obtain ⟨u, x, c, B, ns, hu, hx, hconcat, hfits, hc, hB, hreturn, hemitted, hns⟩ := exists_end hrun
  -- nothing is open where the first text ends
  have hclosed : Balanced u.emitted.reverse := by
    rw [Balanced, hemitted, openAfter_append] at hbal
    obtain ⟨stack, hstack, hlast⟩ := Option.bind_eq_some_iff.1 hbal
    rw [openAfter_eq_of_forall fun t ht => by simp [Token.isBracket, hns t ht]] at hlast
    rw [Balanced, hstack, hlast]
  have hkeeps : u.Keeps [] := hu.keeps hclosed
  have htext : text ++ '\n' :: (feeds ++ r) = x ++ (c :: (B ++ feeds) ++ r) := by
    rw [← List.singleton_append, ← List.append_assoc, hconcat]
    simp
  have hfits' : Fits u.rest (c :: (B ++ feeds) ++ r) := hfits
  obtain ⟨u', hu', hrest', halike, ts, ts', hts, hts', hmoved⟩ := Alike.steps hu
    (alike_ofText text (text ++ '\n' :: (feeds ++ r))) hx htext hfits'
    ((Steps.run_eq hu).symm.trans hrun) (by simpa using hreturn)
  obtain ⟨m', ns', hm', hmr', hlands⟩ := steps_terminator hrest' hc (hB.append hfeeds) hr
  -- the scanner goes on as at the start of the second text
  obtain ⟨m, hm, hmr, hstart, hdepth, hbars, hgap, hall⟩ := steps_start hfeeds hr
  have halike' := alike_of_gap hm (hu'.trans hm') (by rw [hstart, hlands.start])
    (by rw [hdepth, hlands.depth, halike.depth, hkeeps.depth]; rfl)
    (by rw [hbars, hlands.bars, halike.bars, hkeeps.bars]; rfl) hgap hlands.gap
  have hmrun : m.run = .ok f' := (Steps.run_eq hm).symm.trans hrun'
  obtain ⟨f'', hrun'', vs, vs', hvs, hvs', hmoved'⟩ := halike'.run (hmr'.trans hmr.symm) hmrun
  have hinside (t : Token) (ht : t ∈ f'.emitted) : t.kind ≠ .ending :=
    ((steps_of_run hrun').1.stop_le t ht).inside
  obtain ⟨t, ns'', hnewlines⟩ := List.exists_cons_of_ne_nil (List.reverse_ne_nil_iff.2 hlands.ne_nil)
  have hall' : ∀ t ∈ ns'.reverse, t.kind = .newline := fun t ht => hlands.newlines t (by simpa using ht)
  rw [hnewlines, List.forall_mem_cons] at hall'
  refine ⟨u.emitted.reverse, ns, u'.emitted.reverse, t,
    ns'' ++ (vs'.reverse ++ [⟨.ending, "", f''.line, f''.column, f''.offset, false⟩]), m'.offset - m.offset, hemitted, hns,
    hclosed, ?_, hall'.1, scan_eq_ok.2 ⟨f'', (Steps.run_eq (hu'.trans hm')).trans hrun'', ?_⟩, ?_⟩
  · rw [show u.emitted = ts by simpa [ofText] using hts, show u'.emitted = ts' by simpa [ofText] using hts']
    refine List.rel_reverse (((List.forall₂_and_left _ _).2 ⟨fun t ht => ?_, hmoved⟩).imp fun _ _ h =>
      h.2.matches h.1)
    exact (hu.stop_le t (by simpa [hts] using .inl ht)).inside
  · rw [hvs', hlands.emitted]
    simp [hnewlines]
  · rw [hvs]
    simp only [List.reverse_append, List.append_assoc]
    refine .blanks (fun t ht => hall t (by simpa using ht)) hall'.2 (.append ?_ (fun _ => .ending rfl rfl) true)
    exact List.rel_reverse (((List.forall₂_and_left _ _).2
      ⟨fun t ht => hinside t (by simp [hvs, ht]), hmoved'⟩).imp fun _ _ h => h.2.matches h.1)

/-- The tokens of a line and of a text below it, if the line closes its brackets. -/
lemma scan_concat_of_line {text text' : List Char} {f f' : Scanner} (hrun : (ofText text).run = .ok f)
    (hrun' : (ofText text').run = .ok f') (hbal : Balanced f.emitted.reverse)
    (hline : ∀ t ∈ f.emitted, t.kind ≠ .newline) :
    ∃ us t after distance, List.Forall₂ (Token.Matches (Token.Shift 0)) f.emitted.reverse us ∧
      t.kind = .newline ∧ scan (String.ofList (text ++ '\n' :: text')) = .ok (us ++ t :: after) ∧
      Lined (Token.Shift distance) 0 true
        (f'.emitted.reverse ++ [⟨.ending, "", f'.line, f'.column, f'.offset, false⟩]) after := by
  obtain ⟨us, ns, us', t, after, distance, hsplit, hns, -, hus, ht, hall, hlined⟩ :=
    scan_concat hrun hrun' hbal
  obtain rfl : ns = [] := by
    refine List.eq_nil_iff_forall_not_mem.2 fun n hn => hline n (List.mem_reverse.1 ?_) (hns n hn)
    rw [hsplit]
    exact List.mem_append_right _ hn
  rw [List.append_nil] at hsplit
  exact ⟨us', t, after, distance, hsplit ▸ hus, ht, hall, hlined⟩

/-! ## Programs -/

/-- Without lines there are no statements. -/
lemma Staged.eq_nil {limits : Limits} {text : String} {tokens : List Token} {es : List Expr}
    (h : Staged limits text tokens .done es) : es = [] := by
  obtain ⟨d, hs, hd⟩ := h.statements
  obtain ⟨hhere, -⟩ := List.cons.inj (Outline.ahead_cursor .done tokens)
  rcases parseStatements_eq_ok.1 hs with ⟨-, hes, -⟩ | ⟨hgo, -⟩
  · exact hes
  · refine absurd (.inr ?_) hgo
    rw [hhere]
    exact endingOf_kind tokens

/-- Outlines one after the other have their brackets balanced. -/
lemma Outline.balanced_append {o o' : Outline} (h : Balanced o.tokens) (h' : Balanced o'.tokens) :
    Balanced (o.append o').tokens := by
  by_cases ho : o = .done
  · rw [ho]
    exact h'
  · rw [tokens_append ho, Balanced, openAfter_append, openAfter_append, h, Option.bind_some,
      openAfter_separator, Option.bind_some]
    exact h'

/-- The statements of one outline are read before those of another. -/
lemma Staged.statements_append {place place' : Int → Int → Prop} (unique : Relator.BiUnique place)
    (unique' : Relator.BiUnique place') {limits : Limits} {text text' : String}
    {tokens tokens' all : List Token} {outline outline' o o' : Outline} {es es' : List Expr}
    (h : Staged limits text tokens outline es) (h' : Staged limits text' tokens' outline' es')
    (hmatches : outline.Matches place 0 o) (hmatches' : outline'.Matches place' 0 o') :
    ∃ d, parseStatements (parseExpr limits.depth) ((o.append o').cursor all).after
      ((o.append o').cursor all) = .ok (es ++ es', d) ∧ d.here.kind = .ending := by
  have hahead := (o.append o').ahead_cursor all
  generalize (o.append o').cursor all = c at hahead ⊢
  have hending := endingOf_kind all
  generalize endingOf all = ending at hahead hending
  cases hmatches with
  | done =>
    obtain rfl := h.eq_nil
    exact h'.statements_of_matches unique' hmatches' hending hahead le_rfl
  | @entry line line₁ body body₁ next next₁ hline hbody hnext =>
    have hentry := Outline.Matches.entry hline hbody hnext
    rw [Outline.tokens_append (by simp)] at hahead
    cases hmatches' with
    | done =>
      obtain rfl := h'.eq_nil
      rw [List.append_nil]
      exact h.statements_of_matches unique hentry hending (by simpa [Outline.separator, Outline.tokens] using hahead) le_rfl
    | @entry line' line₁' body' body₁' next' next₁' hline' hbody' hnext' =>
      have hentry' := Outline.Matches.entry hline' hbody' hnext'
      obtain ⟨d, hs, hd⟩ := h.statements
      have hfirst := Outline.ahead_cursor (.entry line body next) tokens
      have habreast : ((Outline.entry line body next).cursor tokens).Abreast place
          (line₁'.first.borrow .separator "\n" :: ((Outline.entry line₁' body₁' next₁').tokens ++ [ending])) c := by
        rw [Cursor.Abreast, hfirst, hahead, List.append_assoc, List.append_assoc]
        exact .of_forall₂ hentry.tokens (endingOf_kind _) rfl
      refine (Carries.parseExpr unique limits.depth).statements_append rfl (by simp) habreast ?_ ?_ ?_ hs hd
        fun m hm turns hturns => h'.statements_of_matches unique' hentry' hending hm hturns
      · obtain ⟨t, ts, hts⟩ := List.exists_cons_of_ne_nil (Outline.tokens_ne_nil line body next)
        rw [hts] at hfirst
        rw [(List.cons.inj hfirst).1]
        exact (Token.kind_ne_ending_of_matches hentry.tokens).1 t (by simp [hts])
      · intro us t e heq
        rw [hfirst, show us ++ [t, e] = us ++ [t] ++ [e] by simp] at heq
        obtain ⟨htokens, -⟩ := List.append_inj' heq rfl
        refine Outline.getLast?_tokens (o := .entry line body next) ?_ t (by simp [htokens])
        rw [Outline.lines_of_nest h.nest_eq]
        exact kind_ne_separator h.scan_eq
      · have hlength := Aligned.length_add habreast
        simp only [Cursor.ahead, List.length_cons] at hlength
        omega

/-- Two programs with a line end between them have the statements of both. -/
theorem parseWithin_concat {limits : Limits} {text text' : String} {tokens tokens' : List Token}
    {e e' : Expr} (hscan : scan text = .ok tokens) (hscan' : scan text' = .ok tokens')
    (hbal : Balanced tokens) (hbal' : Balanced tokens') (h : parseWithin limits text = .ok e)
    (h' : parseWithin limits text' = .ok e') :
    parseWithin limits (text ++ "\n" ++ text') = .ok (sequenced (e.statements ++ e'.statements)) := by
  obtain ⟨_, outline, es, staged, rfl⟩ := parseWithin_iff.1 h
  obtain ⟨_, outline', es', staged', rfl⟩ := parseWithin_iff.1 h'
  cases hscan.symm.trans staged.scan_eq
  cases hscan'.symm.trans staged'.scan_eq
  rw [staged.statements_eq hbal, staged'.statements_eq hbal']
  have htext : text ++ "\n" ++ text' = String.ofList (text.toList ++ '\n' :: text'.toList) := by
    apply String.toList_injective
    simp
  rw [← String.ofList_toList (s := text)] at hscan
  rw [← String.ofList_toList (s := text')] at hscan'
  obtain ⟨f, hrun, rfl⟩ := scan_eq_ok.1 hscan
  obtain ⟨f', hrun', rfl⟩ := scan_eq_ok.1 hscan'
  obtain ⟨us, ns, us', t, after, distance, hemitted, hns, hclosed, hus, ht, hall, hlined⟩ :=
    scan_concat hrun hrun' ((balanced_concat rfl).1 hbal)
  obtain ⟨hinside, hinside'⟩ := Token.kind_ne_ending_of_matches hus
  have hlevel := heightAfter_of_openAfter hclosed
  have hclosed' : Balanced us' := by
    rw [Balanced, openAfter_same (hus.imp fun _ _ h => h.toSame)]
    exact hclosed
  have hlevel' := heightAfter_of_openAfter hclosed'
  have hending : (⟨.ending, "", f.line, f.column, f.offset, false⟩ : Token).kind = .ending := rfl
  generalize (⟨.ending, "", f.line, f.column, f.offset, false⟩ : Token) = ending at staged hending
  have hsplit : Line.split (f.emitted.reverse ++ [ending]) = Line.split (us ++ [ending]) := by
    rw [hemitted]
    exact Line.split_append_newlines hinside hlevel hns hending
  have hsplit' : Line.split (us' ++ t :: after) = Line.split (us' ++ [ending]) ++ Line.split after :=
    Line.split_append hinside' hlevel' ht hending
  have hfirst : Lined (Token.Shift 0) 0 true (us ++ [ending]) (us' ++ [ending]) :=
    .append hus (fun _ => .ending hending hending) true
  obtain ⟨o, hnest, hmatches⟩ := Outline.nest_matches (hsplit ▸ hfirst.split) staged.nest_eq
  obtain ⟨o', hnest', hmatches'⟩ := Outline.nest_matches hlined.split staged'.nest_eq
  refine parseWithin_iff.2 ⟨_, o.append o', es ++ es', ⟨htext ▸ hall, ?_, ?_, ?_⟩, rfl⟩
  · rw [hsplit']
    exact Outline.nest_append hnest hnest'
  · exact Outline.balanced_append (hmatches.balanced staged.balanced) (hmatches'.balanced staged'.balanced)
  · exact staged.statements_append (Token.Shift.biUnique 0) (Token.Shift.biUnique distance) staged'
      hmatches hmatches'

/-- A program that ends in a block and a carriage return, and one that starts with a comment. -/
theorem parseWithin_concat_block :
    parse ("f : x ?\n\t|y|\n\tx\r" ++ "\n" ++ "\t`note\nf 2\ng") = .ok (.block
      [.define (.identifier "f") (.lambda [⟨"x", false⟩]
        (.block [.unary "|" true (.identifier "y"), .identifier "x"])),
        .apply (.identifier "f") [.literal .number "2"], .identifier "g"]) := by
  have hscan (text : String) (h : (scan text).toOption.any (Balanced ·)) :
      ∃ tokens, scan text = .ok tokens ∧ Balanced tokens := by
    cases htokens : scan text with
    | error failure => simp [htokens, Except.toOption] at h
    | ok tokens => exact ⟨tokens, rfl, by simpa [htokens, Except.toOption] using h⟩
  obtain ⟨tokens, htokens, hbal⟩ := hscan "f : x ?\n\t|y|\n\tx\r" (by decide +kernel)
  obtain ⟨tokens', htokens', hbal'⟩ := hscan "\t`note\nf 2\ng" (by decide +kernel)
  have h : parse "f : x ?\n\t|y|\n\tx\r" = .ok (.define (.identifier "f") (.lambda [⟨"x", false⟩]
      (.block [.unary "|" true (.identifier "y"), .identifier "x"]))) := by
    decide +kernel
  have h' : parse "\t`note\nf 2\ng" =
      .ok (.block [.apply (.identifier "f") [.literal .number "2"], .identifier "g"]) := by
    decide +kernel
  exact parseWithin_concat htokens htokens' hbal hbal' h h'

end SignLang
