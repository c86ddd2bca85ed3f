import SignLang.Proofs.Layout.Brackets
import SignLang.Proofs.Layout.Complaints

/-!
# Layout in one pass

The layout stage nests lines and then writes the nesting out. The same tokens come out of one pass over
the lines that keeps a stack of the headers whose blocks are open (`Layout.flow`): a line above a deeper one
is a header and opens a bracket after each of its block operators, and any other line closes the brackets
of all headers that the next line is not below. `Outline.Nests` is what a nesting looks like, line by line,
and both the pass (`Outline.Nests.flow_eq`) and the count of headers (`Outline.Nests.blocks_eq`) follow it.
-/

namespace SignLang

namespace Layout

/-- The closing brackets of the headers `closed`, at the place of the token `last`. -/
def closers (last : Token) (closed : List Line) : List Token :=
  List.replicate (closed.map (·.headers.length)).sum (last.borrow .closing "]")

/-- The laid-out tokens of lines in one pass. The headers `opened` stand above the lines, innermost first,
and their blocks are still open. -/
def flow (opened : List Line) : List Line → List Token
  | [] => []
  | [line] => line.tokens ++ closers line.last opened
  | line :: next :: rest =>
    if line.level < next.level then
      line.stem ++ line.headers.flatMap (fun op => [op, op.borrow .opening "["]) ++
        flow (line :: opened) (next :: rest)
    else
      line.tokens ++ closers line.last (opened.filter (next.level ≤ ·.level)) ++
        next.first.borrow .separator "\n" :: flow (opened.filter (·.level < next.level)) (next :: rest)

/-- How many lines stand directly above a deeper one. -/
def headerCount (lines : List Line) : Nat :=
  (lines.zip lines.tail).countP fun (line, next) => line.level < next.level

/-- What follows the token `last` of a block: the brackets that close there, and the lines after it. -/
def settle (opened : List Line) (last : Token) : List Line → List Token
  | [] => closers last opened
  | next :: rest =>
    closers last (opened.filter (next.level ≤ ·.level)) ++
      next.first.borrow .separator "\n" :: flow (opened.filter (·.level < next.level)) (next :: rest)

variable {opened ls rest : List Line} {line : Line} {last : Token}

/-- A line that is not above a deeper one is written as it is. -/
lemma flow_cons (h : ∀ next ∈ rest.head?, next.level ≤ line.level) :
    flow opened (line :: rest) = line.tokens ++ settle opened line.last rest := by
  cases rest with
  | nil => rfl
  | cons next rest =>
    rw [flow, if_neg (Nat.not_lt.2 (h next rfl)), settle, List.append_assoc]

/-- A line above a deeper one is a header. -/
lemma flow_header {next : Line} (h : line.level < next.level) :
    flow opened (line :: next :: rest) = line.stem ++
      line.headers.flatMap (fun op => [op, op.borrow .opening "["]) ++ flow (line :: opened) (next :: rest) := by
  rw [flow, if_pos h]

/-- The brackets of several headers close one after the other. -/
lemma closers_append (closed closed' : List Line) :
    closers last (closed ++ closed') = closers last closed ++ closers last closed' := by
  rw [closers, List.map_append, List.sum_append, List.replicate_add]
  rfl

/-- A header closes as many brackets as it has opened. -/
lemma closers_singleton (line : Line) (last : Token) :
    closers last [line] = line.headers.map fun _ => last.borrow .closing "]" := by
  simp [closers]

/-- Where the block of a header ends, the header's brackets close first. -/
lemma settle_cons (hrest : ∀ next ∈ rest.head?, next.level ≤ line.level) :
    settle (line :: opened) last rest = closers last [line] ++ settle opened last rest := by
  cases rest with
  | nil => exact closers_append [line] opened
  | cons next rest =>
    have hle := hrest next rfl
    have hlt : ¬line.level < next.level := Nat.not_lt.2 hle
    simp only [settle, List.filter_cons, decide_eq_true hle, decide_eq_false hlt, if_true, Bool.false_eq_true,
      if_false]
    rw [← List.singleton_append, closers_append, List.append_assoc]

/-- Brackets that close at the place of a closing bracket are those that close at its place. -/
lemma settle_borrow (opened : List Line) (last : Token) (rest : List Line) :
    settle opened (last.borrow .closing "]") rest = settle opened last rest := by
  cases rest <;> rfl

/-- Headers that are all above a line stay open before it. -/
lemma settle_next {next : Line} (h : ∀ header ∈ opened, header.level < next.level) :
    settle opened last (next :: rest) = next.first.borrow .separator "\n" :: flow opened (next :: rest) := by
  have hnone : opened.filter (next.level ≤ ·.level) = [] :=
    List.filter_eq_nil_iff.2 fun header hheader => by simpa using h header hheader
  have hall : opened.filter (·.level < next.level) = opened :=
    List.filter_eq_self.2 fun header hheader => by simpa using h header hheader
  rw [settle, hnone, hall]
  rfl

/-- A line that is not above a deeper one is no header. -/
lemma headerCount_plain (h : ∀ next ∈ rest.head?, next.level ≤ line.level) :
    headerCount (line :: rest) = headerCount rest := by
  cases rest with
  | nil => rfl
  | cons next rest =>
    have hnot : ¬line.level < next.level := Nat.not_lt.2 (h next rfl)
    simp only [headerCount, List.tail_cons, List.zip_cons_cons]
    exact List.countP_cons_of_neg (by simpa using hnot)

/-- A line above a deeper one is a header. -/
lemma headerCount_header {next : Line} (h : line.level < next.level) :
    headerCount (line :: next :: rest) = headerCount (next :: rest) + 1 := by
  simp [headerCount, h]

end Layout

open Layout

namespace Outline

/-- The outline nests the lines at a level: a line without deeper ones below it stands alone, and any other
one is a header with the deeper lines as its body. -/
inductive Nests : Nat → List Line → Outline → Prop where
  | done {level} :
    Nests level [] .done
  | plain {level line rest next} :
    line.level = level →
    (∀ l ∈ rest.head?, l.level = level) →
    Nests level rest next →
    Nests level (line :: rest) (.entry line .done next)
  | header {level line first others rest body next} :
    line.level = level →
    line.headers ≠ [] →
    (∀ l ∈ first :: others, level < l.level) →
    (∀ l ∈ rest.head?, l.level = level) →
    Nests (level + 1) (first :: others) body →
    Nests level rest next →
    Nests level (line :: (first :: others ++ rest)) (.entry line body next)

/-- What is found as the nesting of lines at a level or deeper is one. -/
lemma nests_of_nest {limit level : Nat} {ls : List Line} {o : Outline} (h : nest limit level ls = .ok o)
    (hls : ∀ l ∈ ls, level ≤ l.level) : Nests level ls o := by
  rw [nest_iff] at h
  induction h with
  | done => exact .done
  | plain hlevel hnone _ ih =>
    rw [List.forall_mem_cons] at hls
    refine .plain (Nat.le_antisymm hlevel hls.1) (fun l hl => ?_) (ih hls.2)
    have hle := hls.2 l (List.mem_of_head? hl)
    rw [(exists_deeper hnone).1, List.nil_append] at hl
    exact Nat.le_antisymm (head?_dropWhile_le _ l hl) hle
  | @header level line rest first others body next hlevel hsome hheaders _ _ _ _ ihbody ihnext =>
    obtain ⟨hrest, hdeeper⟩ := exists_deeper hsome
    rw [List.forall_mem_cons] at hls
    have hafter : ∀ l ∈ rest.dropWhile (level < ·.level), level ≤ l.level := fun l hl =>
      hls.2 l ((List.dropWhile_sublist _).subset hl)
    rw [hrest]
    refine .header (Nat.le_antisymm hlevel hls.1) hheaders hdeeper (fun l hl => ?_) (ihbody hdeeper)
      (ihnext hafter)
    exact Nat.le_antisymm (head?_dropWhile_le rest l hl) (hafter l (List.mem_of_head? hl))

namespace Nests

variable {level : Nat} {ls rest opened : List Line} {o : Outline}

/-- The first line of a nesting is the one that is divided from what stands before. -/
lemma separator_eq {first : Line} {others : List Line} (h : Nests level (first :: others) o) :
    o.separator = [first.first.borrow .separator "\n"] := by
  cases h <;> rfl

/-- Lines that are nested are written in one pass as the nesting is, up to what follows their last token. -/
theorem flow_eq (h : Nests level ls o) (hne : ls ≠ []) (hopened : ∀ header ∈ opened, header.level < level)
    (hrest : ∀ l ∈ rest.head?, l.level < level) :
    ∃ last ∈ o.tokens.getLast?, flow opened (ls ++ rest) = o.tokens ++ settle opened last rest := by
  induction h generalizing opened rest with
  | done => exact absurd rfl hne
  | @plain level line after next hline hafter hnext ih =>
    cases after with
    | nil =>
      cases hnext
      refine ⟨line.last, ?_, ?_⟩
      · simp [tokens, enclose, separator, line.getLast?_tokens]
      · rw [List.singleton_append, flow_cons fun l hl => by rw [hline]; exact (hrest l hl).le]
        simp [tokens, enclose, separator]
    | cons first others =>
      have hfirst := hafter first rfl
      obtain ⟨last, hlast, hflow⟩ := ih (List.cons_ne_nil _ _) hopened hrest
      refine ⟨last, ?_, ?_⟩
      · rw [tokens, List.getLast?_append, Option.mem_def.1 hlast]
        rfl
      · rw [List.cons_append, flow_cons, List.cons_append, settle_next, ← List.cons_append, hflow, tokens,
          hnext.separator_eq]
        · simp [tokens, enclose]
        · rwa [hfirst]
        · rintro l ⟨⟩
          rw [hfirst, hline]
  | @header level line first others after body next hline hheaders hdeeper hafter hbody hnext ihbody
      ihnext =>
    subst hline
    have hbelow : ∀ header ∈ line :: opened, header.level < line.level + 1 := by
      rw [List.forall_mem_cons]
      exact ⟨Nat.lt_succ_self _, fun header hheader => (hopened header hheader).trans (Nat.lt_succ_self _)⟩
    have hle : ∀ l ∈ (after ++ rest).head?, l.level ≤ line.level := by
      intro l hl
      cases after with
      | nil => exact (hrest l hl).le
      | cons next after => exact (hafter l hl).le
    obtain ⟨last, hlast, hflow⟩ := ihbody (List.cons_ne_nil _ _) hbelow fun l hl => Nat.lt_succ_of_le (hle l hl)
    have hclosed : enclose line body.tokens = line.stem ++
        line.headers.flatMap (fun op => [op, op.borrow .opening "["]) ++ body.tokens ++ closers last [line] := by
      rw [enclose, Option.mem_def.1 hlast, closers_singleton]
    rw [List.cons_append, List.append_assoc, List.cons_append, flow_header (hdeeper first List.mem_cons_self),
      ← List.cons_append, hflow, settle_cons hle]
    cases after with
    | nil =>
      cases hnext
      -- the brackets of the header are the last tokens
      refine ⟨last.borrow .closing "]", ?_, ?_⟩
      · have hne : closers last [line] ≠ [] := by simpa [closers_singleton] using hheaders
        have hgetLast : (closers last [line]).getLast hne = last.borrow .closing "]" :=
          List.eq_of_mem_replicate (List.getLast_mem hne)
        simp only [tokens, separator, List.append_nil, hclosed]
        rw [List.getLast?_append_of_ne_nil _ hne, List.getLast?_eq_some_getLast hne, hgetLast]
        rfl
      · rw [settle_borrow]
        simp [tokens, separator, hclosed]
    | cons first' others' =>
      have hfirst := hafter first' rfl
      obtain ⟨last', hlast', hflow'⟩ := ihnext (List.cons_ne_nil _ _) hopened hrest
      refine ⟨last', ?_, ?_⟩
      · rw [tokens, List.getLast?_append, Option.mem_def.1 hlast']
        rfl
      · rw [List.cons_append, settle_next (by rwa [hfirst]), ← List.cons_append, hflow', tokens,
          hnext.separator_eq, hclosed]
        simp

/-- The lines with a body are those above a deeper line. -/
theorem blocks_eq (h : Nests level ls o) (hrest : ∀ l ∈ rest.head?, l.level ≤ level) :
    headerCount (ls ++ rest) = o.blocks + headerCount rest := by
  induction h generalizing rest with
  | done => simp [blocks]
  | @plain level line after next hline hafter hnext ih =>
    have hle : ∀ l ∈ (after ++ rest).head?, l.level ≤ line.level := by
      intro l hl
      cases after with
      | nil => exact (hrest l hl).trans hline.ge
      | cons next after => exact ((hafter l hl).trans hline.symm).le
    rw [List.cons_append, headerCount_plain hle, ih hrest]
    rfl
  | @header level line first others after body next hline hheaders hdeeper hafter hbody hnext ihbody
      ihnext =>
    have hle : ∀ l ∈ (after ++ rest).head?, l.level ≤ level + 1 := by
      intro l hl
      cases after with
      | nil => exact (hrest l hl).trans (Nat.le_succ level)
      | cons next after => exact (hafter l hl).le.trans (Nat.le_succ level)
    have hblocks : (entry line body next).blocks = body.blocks + 1 + next.blocks := by
      cases hbody <;> rfl
    have hfirst : line.level < first.level := by
      rw [hline]
      exact hdeeper first List.mem_cons_self
    rw [List.cons_append, List.append_assoc, List.cons_append, headerCount_header hfirst, ← List.cons_append,
      ihbody hle, ihnext hrest, hblocks]
    omega

end Nests

/-- Without the opening brackets that are put in after them, block operators stand alone. -/
lemma filter_openers {ops : List Token} (h : ∀ op ∈ ops, op.synthetic = false) :
    (ops.flatMap fun op => [op, op.borrow .opening "["]).filter (!·.synthetic) = ops := by
  induction ops with
  | nil => rfl
  | cons op ops ih =>
    rw [List.forall_mem_cons] at h
    rw [List.flatMap_cons, List.filter_append, ih h.2]
    simp [h.1, Token.borrow]

/-- Without the tokens that are put in, the tokens of a nesting are those of its lines. -/
lemma filter_tokens {o : Outline} (h : ∀ line ∈ o.lines, ∀ t ∈ line.tokens, t.synthetic = false) :
    o.tokens.filter (!·.synthetic) = o.lines.flatMap Line.tokens := by
  induction o with
  | done => rfl
  | entry line body next ihbody ihnext =>
    simp only [lines, List.forall_mem_cons, List.forall_mem_append] at h
    obtain ⟨hline, hbody, hnext⟩ := h
    have hself {ts : List Token} (hts : ∀ t ∈ ts, t.synthetic = false) : ts.filter (!·.synthetic) = ts :=
      List.filter_eq_self.2 fun t ht => by simp [hts t ht]
    have hseparator : next.separator.filter (!·.synthetic) = [] := by cases next <;> rfl
    have henclose : (enclose line body.tokens).filter (!·.synthetic) =
        line.tokens ++ body.tokens.filter (!·.synthetic) := by
      unfold enclose
      split
      · next hnone => rw [List.getLast?_eq_none_iff.1 hnone, hself hline, List.filter_nil, List.append_nil]
      · next last _ =>
        have hsplit := line.stem_append_headers
        rw [← hsplit, List.forall_mem_append] at hline
        have hclosers : (line.headers.map fun _ => last.borrow .closing "]").filter (!·.synthetic) = [] := by
          simp [Token.borrow]
        rw [List.filter_append, List.filter_append, List.filter_append, hself hline.1,
          filter_openers hline.2, hclosers,
          List.append_nil, hsplit]
    rw [tokens, List.filter_append, List.filter_append, henclose, hseparator, ihbody hbody, ihnext hnext, lines,
      List.flatMap_cons, List.flatMap_append]
    simp

end Outline

/-- The laid-out tokens of a text come out of one pass over its lines. Without the tokens that are put in
they are the tokens of the text that are neither margins nor line ends, and there are as many blocks as there
are lines above a deeper one. -/
theorem exists_layout_eq_flow {limit : Nat} {text : String} {tokens laid : List Token}
    (hscan : scan text = .ok tokens) (h : normalizeWithin limit tokens = .ok laid) :
    ∃ layout ending, Layout.ofTokensWithin limit tokens = .ok layout ∧ layout.tokens = laid ∧
      tokens.getLast? = some ending ∧ laid = flow [] (Line.split tokens) ++ [ending] ∧
      laid.filter (!·.synthetic) = tokens.filter (fun t => t.kind ≠ .indent ∧ t.kind ≠ .newline) ∧
      layout.outline.blocks = headerCount (Line.split tokens) := by
  obtain ⟨outline, hnest, rfl⟩ := normalizeWithin_eq_ok h
  obtain ⟨body, ending, rfl, hbody, hending, -, hsynthetic⟩ := scan_eq_concat hscan
  have hcontent := Line.flatMap_split (body ++ [ending])
  rw [beforeEnding_concat (fun t ht => (hbody t ht).kind_ne_ending) hending] at hcontent
  have hlines := Outline.lines_of_nest hnest
  have hnests := Outline.nests_of_nest hnest fun _ _ => Nat.zero_le _
  have hendingOf : endingOf (body ++ [ending]) = ending := by simp [endingOf, hending]
  refine ⟨⟨Line.split (body ++ [ending]), outline, ending⟩, ending, ?_, ?_, ?_, ?_, ?_, ?_⟩
  · simp [Layout.ofTokensWithin, hnest, hendingOf]
  · rw [hendingOf]
    rfl
  · exact List.getLast?_concat
  · rw [hendingOf]
    cases hsplit : Line.split (body ++ [ending]) with
    | nil =>
      rw [hsplit] at hnests
      cases hnests
      rfl
    | cons first others =>
      rw [hsplit] at hnests
      obtain ⟨last, -, hflow⟩ : ∃ last ∈ outline.tokens.getLast?,
          flow [] (first :: others ++ []) = outline.tokens ++ settle [] last [] :=
        hnests.flow_eq (List.cons_ne_nil _ _) (List.forall_mem_nil _) (by simp)
      rw [List.append_nil] at hflow
      rw [hflow]
      simp [settle, closers]
  · have hlexical : ∀ line ∈ outline.lines, ∀ t ∈ line.tokens, t.synthetic = false := by
      intro line hline t ht
      have hmem := List.mem_flatMap.2 ⟨line, hline, ht⟩
      rw [hlines, hcontent] at hmem
      exact (hbody t (List.mem_filter.1 hmem).1).1
    rw [hendingOf, List.filter_append, List.filter_append, Outline.filter_tokens hlexical, hlines, hcontent]
    congr 1
    · refine List.filter_congr fun t ht => ?_
      simp [Token.isContent, (hbody t ht).kind_ne_ending, Bool.and_comm]
    · simp [hsynthetic, hending]
  · have hcount : headerCount (Line.split (body ++ [ending]) ++ []) = outline.blocks + headerCount [] :=
      hnests.blocks_eq (by simp)
    rw [List.append_nil] at hcount
    exact hcount.symm

/-- The brackets of two headers close in one place, three of them before one separator. -/
theorem exists_layout_eq_flow_nested :
    ∃ tokens ending, scan "f : ?\n\ta :\n\t\tb\n\t\tc\nd" = .ok tokens ∧
      normalizeWithin 3 tokens = .ok (flow [] (Line.split tokens) ++ [ending]) ∧
      (flow [] (Line.split tokens)).map (·.lexeme) =
        ["f", ":", "[", "?", "[", "a", ":", "[", "b", "\n", "c", "]", "]", "]", "\n", "d"] := by
  have hrun : (scan "f : ?\n\ta :\n\t\tb\n\t\tc\nd").toOption.any fun tokens =>
      (normalizeWithin 3 tokens).toOption.isSome ∧ (flow [] (Line.split tokens)).map (·.lexeme) =
        ["f", ":", "[", "?", "[", "a", ":", "[", "b", "\n", "c", "]", "]", "]", "\n", "d"] := by
    decide +kernel
  cases hscan : scan "f : ?\n\ta :\n\t\tb\n\t\tc\nd" with
  | error failure => simp [hscan, Except.toOption] at hrun
  | ok tokens =>
    simp only [hscan, Except.toOption, Option.any_some] at hrun
    cases hlaid : normalizeWithin 3 tokens with
    | error failure => simp [hlaid] at hrun
    | ok laid =>
      obtain ⟨layout, ending, -, -, -, rfl, -⟩ := exists_layout_eq_flow hscan hlaid
      exact ⟨tokens, ending, rfl, hlaid, (of_decide_eq_true hrun).2⟩

end SignLang
