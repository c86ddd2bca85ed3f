import SignLang.Proofs.Concat
import SignLang.Proofs.Layout.Block
import SignLang.Proofs.Parser.Enclosed
import SignLang.Proofs.Scanner.Inside
import SignLang.Proofs.Scanner.Margin

/-!
# Indented blocks and brackets

A line that ends in a block operator has its operand indented below it, or in brackets after it: the text
means the same (`writes_block_iff`). Both texts have the tokens of the line and those of the block. The
layout puts a bracket after each of the operators that end the line, where the second text has one bracket
after the last of them, and the parser does not mind (`Parser.Yields.bracketed`).
-/

namespace SignLang

open Lexeme Scanner SignLang.Parser

/-- Scanned tokens that are neither line ends nor margins are contents of a line. -/
lemma Scanner.Steps.isContent {text : List Char} {f : Scanner} (h : (ofText text).Steps f)
    (hline : ∀ t ∈ f.emitted, t.kind ≠ .newline ∧ t.kind ≠ .indent) : ∀ t ∈ f.emitted.reverse, t.isContent := by
  intro t ht
  have ht : t ∈ f.emitted := List.mem_reverse.1 ht
  have hinside := (h.stop_le t ht).inside
  simp [Token.isContent, hline t ht, hinside]

/-- The contents of a line stay contents where they are moved. -/
lemma Token.isContent_of_matches {place : Int → Int → Prop} {ts ts' : List Token}
    (h : List.Forall₂ (Token.Matches place) ts ts') (hts : ∀ t ∈ ts, t.isContent) :
    ∀ t ∈ ts', t.isContent := by
  induction h with
  | nil => simp
  | @cons t t' _ _ ht _ ih =>
    rw [List.forall_mem_cons] at hts ⊢
    exact ⟨by rw [Token.isContent, ht.kind_eq]; exact hts.1, ih hts.2⟩

/-- A header and a block below it are two lines. -/
lemma exists_below {header block : List Char} {f g : Scanner} (hrun : (ofText header).run = .ok f)
    (hrun' : (ofText block).run = .ok g) (hbal : Balanced f.emitted.reverse)
    (hline : ∀ t ∈ f.emitted, t.kind ≠ .newline ∧ t.kind ≠ .indent)
    (hline' : ∀ t ∈ g.emitted, t.kind ≠ .newline ∧ t.kind ≠ .indent) (hne : f.emitted ≠ [])
    (hne' : g.emitted ≠ []) :
    ∃ tokens l l' distance, scan (String.ofList (header ++ '\n' :: '\t' :: block)) = .ok tokens ∧
      Line.split tokens = [l, l'] ∧ l.level = 0 ∧ l'.level = 1 ∧
      List.Forall₂ (Token.Matches (Token.Shift 0)) f.emitted.reverse l.tokens ∧
      List.Forall₂ (Token.Matches (Token.Shift distance)) g.emitted.reverse l'.tokens := by
  obtain ⟨v, vs, hvs⟩ := List.exists_cons_of_ne_nil (List.reverse_ne_nil_iff.2 hne')
  have hcontent' := (steps_of_run hrun').1.isContent hline'
  have hscan : scan (String.ofList block) = .ok (g.emitted.reverse ++
      [⟨.ending, "", g.line, g.column, g.offset, false⟩]) := scan_eq_ok.2 ⟨g, hrun', rfl⟩
  have hstarts : lineStarts (g.emitted.reverse ++ [⟨.ending, "", g.line, g.column, g.offset, false⟩]) = [] := by
    simp only [lineStarts, List.map_eq_nil_iff, List.filter_eq_nil_iff, decide_eq_true_eq]
    intro t ht
    rcases List.mem_append.1 ht with ht | ht
    · exact (hline' t (by simpa using ht)).1
    · simp [List.mem_singleton.1 ht]
  obtain ⟨tokens₁, hscan₁, hlined₁⟩ := scan_indented hscan
  rw [indented, hstarts, insertTabs_nil] at hscan₁
  rw [hstarts] at hlined₁
  obtain ⟨g₁, hrun₁, rfl⟩ := scan_eq_ok.1 hscan₁
  obtain ⟨us', t, after, distance, hus, ht, hall, hlined₂⟩ :=
    scan_concat_of_line hrun hrun₁ hbal fun t ht => (hline t ht).1
  have hcontent := Token.isContent_of_matches hus ((steps_of_run hrun).1.isContent hline)
  obtain ⟨u, us₁, rfl⟩ := List.exists_cons_of_ne_nil fun hnil : us' = [] => by
    rw [hnil, List.forall₂_nil_right_iff, List.reverse_eq_nil_iff] at hus
    exact hne hus
  -- the line of the block, first one level deeper and then below the header
  have hblock := hlined₁.split
  rw [hvs, Line.split_contents (hvs ▸ hcontent') rfl] at hblock
  obtain ⟨l₁, _, hl₁, hnil, hsplit₁⟩ := List.forall₂_cons_left_iff.1 hblock
  rw [List.forall₂_nil_left_iff.1 hnil] at hsplit₁
  have hbelow := hlined₂.split
  rw [hsplit₁] at hbelow
  obtain ⟨l₂, _, hl₂, hnil, hsplit₂⟩ := List.forall₂_cons_left_iff.1 hbelow
  rw [List.forall₂_nil_left_iff.1 hnil] at hsplit₂
  have hshift : List.Forall₂ (Token.Matches (Token.Shift 1)) g.emitted.reverse l₁.tokens := by
    rw [hvs]
    exact hl₁.tokens.imp fun _ _ h => ⟨h.toSame, h.inside, fun ht => (h.placed ht).imp Tabbed.shift Tabbed.shift⟩
  refine ⟨_, ⟨0, u, us₁⟩, l₂, distance - -1, hall, ?_, rfl, ?_, hus,
    Token.Matches.forall₂_shift_sub (Token.Matches.forall₂_shift_symm hshift) hl₂.tokens⟩
  · rw [Line.split_append (e := Token.emptyEnding) (Token.kind_ne_ending_of_matches hus).2
      ((hbal.of_matches hus).heightAfter 0) ht rfl,
      Line.split_contents hcontent rfl, hsplit₂]
    rfl
  · rw [hl₂.level_eq, hl₁.level_eq]

/-- From a line with a block in the brackets of the layout the parser reads what it reads from the line with
the block in written brackets. -/
lemma reads_block_iff {header body header₂ body₁ body₂ : List Token} {l : Line} {a b a' b' : Int}
    {last opener closer ending₁ ending₂ : Token} {c₁ c₂ : Cursor}
    (hheader₁ : List.Forall₂ (Token.Matches (Token.Shift a)) header l.tokens)
    (hheader₂ : List.Forall₂ (Token.Matches (Token.Shift b)) header header₂)
    (hbody₁ : List.Forall₂ (Token.Matches (Token.Shift a')) body body₁)
    (hbody₂ : List.Forall₂ (Token.Matches (Token.Shift b')) body body₂) (hbal : Balanced header)
    (hbal' : Balanced body) (hne : body ≠ []) (hheaders : l.headers ≠ [])
    (hopener : opener.kind = .opening ∧ opener.lexeme = "[") (hcloser : closer.kind = .closing)
    (hending₁ : ending₁.kind = .ending) (hending₂ : ending₂.kind = .ending)
    (hc₁ : c₁.ahead = l.stem ++ l.headers.flatMap (fun op => [op, op.borrow .opening "["]) ++ body₁ ++
      l.headers.map (fun _ => last.borrow .closing "]") ++ [ending₁])
    (hc₂ : c₂.ahead = header₂ ++ opener :: (body₂ ++ [closer]) ++ [ending₂])
    {height₁ height₂ : Nat} (hheight₁ : heightAfter 0 c₁.ahead = some height₁)
    (hheight₂ : heightAfter 0 c₂.ahead = some height₂) (e : Expr) :
    (∃ d, Reads (.statements []) c₁ e d ∧ d.here.kind = .ending) ↔
      ∃ d, Reads (.statements []) c₂ e d ∧ d.here.kind = .ending := by
  obtain ⟨op, ops, hops⟩ := List.exists_cons_of_ne_nil hheaders
  have hsplit : l.stem ++ op :: ops = l.tokens := by rw [← hops, l.stem_append_headers]
  have hheader := Token.Matches.forall₂_shift_sub hheader₁ hheader₂
  rw [← hsplit] at hheader
  -- the written header is split as that of the layout
  obtain ⟨stem₂, rest₂, rfl, hstem, hrest⟩ : ∃ stem₂ rest₂, header₂ = stem₂ ++ rest₂ ∧
      List.Forall₂ (Token.Matches (Token.Shift (b - a))) l.stem stem₂ ∧
      List.Forall₂ (Token.Matches (Token.Shift (b - a))) (op :: ops) rest₂ := by
    have htake := List.forall₂_take l.stem.length hheader
    have hdrop := List.forall₂_drop l.stem.length hheader
    rw [List.take_left] at htake
    rw [List.drop_left] at hdrop
    exact ⟨_, _, (List.take_append_drop _ _).symm, htake, hdrop⟩
  obtain ⟨op₂, ops₂, hop, hops₂, rfl⟩ := List.forall₂_cons_left_iff.1 hrest
  have hlevel : Balanced l.stem := Outline.balanced_stem (hbal.of_matches hheader₁)
  have hblock : ∀ t ∈ op :: ops, t.isOperator Operator.blockSymbols := fun t ht =>
    Line.isOperator_of_mem_headers (hops ▸ ht)
  rw [List.forall_mem_cons] at hblock
  have hne₂ : body₂ ≠ [] := by
    rintro rfl
    exact hne (List.forall₂_nil_right_iff.1 hbody₂)
  have hgroup : IsGroup opener closer body₂ [ending₂] :=
    ⟨hopener.1, by simp [hopener.2, Operator.bar], hcloser, hne₂, (hbal'.of_matches hbody₂).heightAfter 0,
      (Token.kind_ne_ending_of_matches hbody₂).2, .ending hending₂⟩
  obtain ⟨yields, yields'⟩ := Yields.bracketed (Token.Shift.biUnique _) (Token.Shift.biUnique _)
    (Token.Matches.forall₂_shift_sub hbody₁ hbody₂) (Token.Matches.forall₂_shift_sub hbody₂ hbody₁)
    (hops₂.imp fun _ _ h => h.toSame) hblock.2 ((hbal'.of_matches hbody₁).heightAfter 0) op last
    (.ending hending₁) hgroup
  have hc₁ : c₁.ahead = l.stem ++ op :: (bracketed last body₁ op ops ++ [ending₁]) := by
    rw [hc₁, hops, ← List.cons_append, cons_bracketed]
    simp
  have hc₂ : c₂.ahead = stem₂ ++ op₂ :: (ops₂ ++ opener :: (body₂ ++ [closer]) ++ [ending₂]) := by
    rw [hc₂]
    simp
  have hsome : bracketed last body₁ op ops ≠ [] := by cases ops <;> simp [bracketed]
  constructor
  · rintro ⟨d, hread, hd⟩
    exact yields.statements (Token.Shift.biUnique _) hstem (hlevel.heightAfter 0) hop hblock.1
      ⟨hsome, by simp⟩ hending₁ hending₂ hc₁ hc₂ hheight₂ hread hd
  · rintro ⟨d, hread, hd⟩
    exact yields'.statements (Token.Shift.biUnique _) (Token.Matches.forall₂_shift_symm hstem)
      ((hlevel.of_matches hstem).heightAfter 0) hop.shift_symm ((hop.isOperator_eq _).trans hblock.1)
      ⟨by simp, hsome⟩ hending₂ hending₁ hc₂ hc₁ hheight₁ hread hd

/-- A text writes what is read from its laid-out tokens, if their brackets are balanced. -/
lemma writes_iff_reads {limit : Nat} {text : String} {tokens : List Token} {o : Outline}
    (hscan : scan text = .ok tokens) (hnest : Outline.nest limit 0 (Line.split tokens) = .ok o)
    (hbal : Balanced o.tokens) (e : Expr) :
    Writes text e ↔ ∃ d, Reads (.statements []) (o.cursor tokens) e d ∧ d.here.kind = .ending :=
  ⟨fun h => h.exists_reads hscan hnest, .of_outline hscan hnest hbal⟩

/-- The tokens ahead of the first one close the brackets that they open. -/
lemma Outline.heightAfter_cursor {o : Outline} (hbal : Balanced o.tokens) (tokens : List Token) :
    heightAfter 0 (o.cursor tokens).ahead = some 0 := by
  rw [o.ahead_cursor, heightAfter_append, hbal.heightAfter, Option.bind_some,
    heightAfter_other (by simp [Token.isBracket, endingOf_kind])]
  rfl

/-- The outline of a header and a block below it. -/
lemma exists_outline_below {header block : List Token} {l l' : Line} {a b : Int} (hlevel : l.level = 0)
    (hlevel' : l'.level = 1) (hheader : List.Forall₂ (Token.Matches (Token.Shift a)) header l.tokens)
    (hblock : List.Forall₂ (Token.Matches (Token.Shift b)) block l'.tokens) (hbal : Balanced header)
    (hbal' : Balanced block) (hop : header.getLast?.any (·.isOperator Operator.blockSymbols)) :
    ∃ o last, Outline.nest 2 0 [l, l'] = .ok o ∧ Balanced o.tokens ∧ l.headers ≠ [] ∧
      o.tokens = l.stem ++ l.headers.flatMap (fun op => [op, op.borrow .opening "["]) ++ l'.tokens ++
        l.headers.map fun _ => Token.borrow last .closing "]" := by
  have hheaders : l.headers ≠ [] := by
    refine Line.headers_ne_nil ?_
    have hreverse := List.rel_reverse hheader
    rw [← List.head?_reverse] at hop ⊢
    obtain ⟨op, hhead, hblock⟩ := (Option.any_eq_true _ _).1 hop
    obtain ⟨ts, hts⟩ := List.head?_eq_some_iff.1 hhead
    rw [hts] at hreverse
    obtain ⟨op', _, hop', -, hreverse'⟩ := List.forall₂_cons_left_iff.1 hreverse
    rw [hreverse']
    exact (hop'.isOperator_eq _).trans hblock
  have htokens : (Outline.entry l' .done .done).tokens = l'.tokens := by
    simp [Outline.tokens, Outline.enclose, Outline.separator]
  obtain ⟨last, hlast⟩ := Outline.tokens_block l (o := .entry l' .done .done) (by simp [htokens, Line.tokens])
  have hnest : Outline.nest 2 1 [l'] = .ok (.entry l' .done .done) := Outline.nest_singleton hlevel'.le
  refine ⟨_, last, Outline.nest_block hlevel hheaders (by simp) (by simp [hlevel']) (by omega) hnest, ?_,
    hheaders, by rw [hlast, htokens]⟩
  have henclosed := Outline.balanced_enclose (hbal.of_matches hheader) (hbal'.of_matches hblock)
  rw [Outline.tokens, htokens]
  simpa [Outline.separator, Outline.tokens] using henclosed

/-- The outline of a single line. -/
lemma exists_outline_single {ts : List Token} {ending : Token} (hne : ts ≠ []) (hts : ∀ t ∈ ts, t.isContent)
    (hending : ending.kind = .ending) :
    ∃ o, Outline.nest 1 0 (Line.split (ts ++ [ending])) = .ok o ∧ o.tokens = ts := by
  obtain ⟨first, others, rfl⟩ := List.exists_cons_of_ne_nil hne
  refine ⟨.entry ⟨0, first, others⟩ .done .done, ?_, ?_⟩
  · rw [Line.split_contents hts hending]
    exact Outline.nest_singleton le_rfl
  · simp [Outline.tokens, Outline.enclose, Outline.separator, Line.tokens]

/-- A balanced list in brackets of its own after another one is balanced. -/
lemma balanced_bracketed {us vs : List Token} {opener closer : Token} (hus : Balanced us) (hvs : Balanced vs)
    (hopener : opener.kind = .opening ∧ opener.lexeme = "[")
    (hcloser : closer.kind = .closing ∧ closer.lexeme = "]") :
    Balanced (us ++ opener :: (vs ++ [closer])) := by
  rw [Balanced, openAfter_append, hus, Option.bind_some, openAfter_opening hopener.1, openAfter_append,
    hvs.openAfter, Option.bind_some, openAfter_closing hcloser.1, if_pos]
  · rfl
  · simp [Token.isBar, hopener.2, hcloser.2, Operator.bar]

/-- A line that ends in a block operator means the same with its block indented below it and with the block
in brackets after it. -/
theorem writes_block_iff {header block : String} {us vs : List Token} (hscan : scan header = .ok us)
    (hscan' : scan block = .ok vs) (hline : ∀ t ∈ us, t.kind ≠ .newline ∧ t.kind ≠ .indent)
    (hline' : ∀ t ∈ vs, t.kind ≠ .newline ∧ t.kind ≠ .indent) (hbal : Balanced us) (hbal' : Balanced vs)
    (hop : us.dropLast.getLast?.any (·.isOperator Operator.blockSymbols))
    (hfirst : ∃ c rest, block.toList = c :: rest ∧ isGap c = false ∧ c ≠ tick) (e : Expr) :
    Writes (header ++ "\n\t" ++ block) e ↔ Writes (header ++ " [" ++ block ++ "]") e := by
  have htext₁ : header ++ "\n\t" ++ block = String.ofList (header.toList ++ '\n' :: '\t' :: block.toList) := by
    rw [← String.toList_inj]
    simp
  have htext₂ : header ++ " [" ++ block ++ "]" =
      String.ofList (header.toList ++ ' ' :: '[' :: (block.toList ++ [']'])) := by
    rw [← String.toList_inj]
    simp
  have hink : block.toList.head?.any isInk := by
    obtain ⟨c, rest, hc, hgap, htick⟩ := hfirst
    simp [hc, isInk, hgap, htick]
  rw [htext₁, htext₂]
  rw [← String.ofList_toList (s := header)] at hscan
  rw [← String.ofList_toList (s := block)] at hscan'
  obtain ⟨f, hrun, rfl⟩ := scan_eq_ok.1 hscan
  obtain ⟨g, hrun', rfl⟩ := scan_eq_ok.1 hscan'
  have hemitted {f : Scanner} {e : Token}
      (h : ∀ t ∈ f.emitted.reverse ++ [e], t.kind ≠ .newline ∧ t.kind ≠ .indent) :
      ∀ t ∈ f.emitted, t.kind ≠ .newline ∧ t.kind ≠ .indent := fun t ht => h t (by simp [ht])
  have hline := hemitted hline
  have hline' := hemitted hline'
  have hbal := (balanced_concat rfl).1 hbal
  have hbal' := (balanced_concat rfl).1 hbal'
  rw [List.dropLast_concat] at hop
  obtain ⟨before, op, hlast⟩ := (List.eq_nil_or_concat f.emitted.reverse).resolve_left fun hnil => by
    rw [hnil] at hop
    cases hop
  rw [List.concat_eq_append] at hlast
  have hblock : op.isOperator Operator.blockSymbols := by simpa [hlast] using hop
  -- the two token lists and their outlines
  obtain ⟨tokens₁, l, l', distance₁, hscan₁, hsplit₁, hl, hl', hheader₁, hbody₁⟩ :=
    exists_below hrun hrun' hbal hline hline' (by rintro hnil; simp [hnil] at hlast) (emitted_ne_nil hrun' hink)
  obtain ⟨us₂, opener, vs₂, closer, ending, distance₂, hscan₂, hheader₂, hopener, hbody₂, hcloser, hending⟩ :=
    scan_bracketed hrun hrun' hlast hblock hbal hbal' (fun t ht => (hline' t ht).1) hink
  obtain ⟨o₁, last, hnest₁, hbal₁, hheaders, htokens₁⟩ :=
    exists_outline_below hl hl' hheader₁ hbody₁ hbal hbal' hop
  have hcontent₂ : ∀ t ∈ us₂ ++ opener :: (vs₂ ++ [closer]), t.isContent := by
    have hus := Token.isContent_of_matches hheader₂ ((steps_of_run hrun).1.isContent hline)
    have hvs := Token.isContent_of_matches hbody₂ ((steps_of_run hrun').1.isContent hline')
    simp only [List.forall_mem_append, List.forall_mem_cons]
    exact ⟨hus, by simp [Token.isContent, hopener.1], hvs, by simp [Token.isContent, hcloser.1], by simp⟩
  obtain ⟨o₂, hnest₂, htokens₂⟩ := exists_outline_single (by simp) hcontent₂ hending
  have hbal₂ : Balanced o₂.tokens := by
    rw [htokens₂]
    exact balanced_bracketed (hbal.of_matches hheader₂) (hbal'.of_matches hbody₂) hopener hcloser
  rw [show us₂ ++ opener :: (vs₂ ++ [closer, ending]) = us₂ ++ opener :: (vs₂ ++ [closer]) ++ [ending] by simp]
    at hscan₂
  rw [writes_iff_reads hscan₁ (hsplit₁ ▸ hnest₁) hbal₁, writes_iff_reads hscan₂ hnest₂ hbal₂]
  have hc₁ := o₁.ahead_cursor tokens₁
  rw [htokens₁] at hc₁
  have hc₂ := o₂.ahead_cursor (us₂ ++ opener :: (vs₂ ++ [closer]) ++ [ending])
  rw [htokens₂] at hc₂
  exact reads_block_iff hheader₁ hheader₂ hbody₁ hbody₂ hbal hbal'
    (List.reverse_ne_nil_iff.2 (emitted_ne_nil hrun' hink)) hheaders hopener hcloser.1 (endingOf_kind _)
    (endingOf_kind _) hc₁ hc₂ (Outline.heightAfter_cursor hbal₁ _) (Outline.heightAfter_cursor hbal₂ _) e

/-- A function without parameters as the value of a definition, with an absolute value at the start of its
block. -/
theorem writes_block_iff_thunk :
    parse "f : ? [|a| + 1]" = .ok (.define (.identifier "f") (.lambda []
        (.binary "+" (.unary "|" true (.identifier "a")) (.literal .number "1")))) ∧
      Writes "f : ?\n\t|a| + 1" (.define (.identifier "f") (.lambda []
        (.binary "+" (.unary "|" true (.identifier "a")) (.literal .number "1")))) := by
  have hscan : scan "f : ?" = .ok
      [⟨.identifier, "f", 1, 1, 0, false⟩, ⟨.operator, ":", 1, 3, 2, false⟩,
        ⟨.operator, "?", 1, 5, 4, false⟩, ⟨.ending, "", 1, 6, 5, false⟩] := by
    decide +kernel
  have hscan' : scan "|a| + 1" = .ok
      [⟨.opening, "|", 1, 1, 0, false⟩, ⟨.identifier, "a", 1, 2, 1, false⟩,
        ⟨.closing, "|", 1, 3, 2, false⟩, ⟨.operator, "+", 1, 5, 4, false⟩,
        ⟨.number, "1", 1, 7, 6, false⟩, ⟨.ending, "", 1, 8, 7, false⟩] := by
    decide +kernel
  have hparse : parse "f : ? [|a| + 1]" = .ok (.define (.identifier "f") (.lambda []
      (.binary "+" (.unary "|" true (.identifier "a")) (.literal .number "1")))) := by
    decide +kernel
  exact ⟨hparse, (writes_block_iff hscan hscan' (by decide) (by decide) (by decide) (by decide) (by decide)
    ⟨'|', "a| + 1".toList, by decide, by decide, by decide⟩ _).2 (.of_parseWithin hparse)⟩

end SignLang
