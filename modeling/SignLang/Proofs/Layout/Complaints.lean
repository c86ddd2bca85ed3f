import SignLang.Proofs.Layout.Lines

/-!
# Illegal indentation

The first line of a text is not indented, and a line is deeper than the one before it only by one level,
and only if that one ends in a block operator. `Layout.complaints` says so of the lines alone, without any
nesting: each line is held against the line before it. The layout stage refuses a text exactly if there is
something to complain about, and reports the first complaint (`normalizeWithin_complains`).
-/

namespace SignLang

namespace Line

/-- The last token of a line. -/
def last (line : Line) : Token :=
  line.others.getLastD line.first

/-- What is wrong with the indentation of a line after the line `previous`; the first line of a text has
none before it. -/
def complaintAfter? (line : Line) : Option Line → Option String
  | none =>
    if 0 < line.level then some "Unexpected indent: previous line does not end in ':' or '?'" else none
  | some previous =>
    if line.level ≤ previous.level then none
    else if !previous.last.isOperator Operator.blockSymbols then
      some "Unexpected indent: previous line does not end in ':' or '?'"
    else if previous.level + 1 < line.level then
      some s!"Indentation jumps from level {previous.level} to {line.level}"
    else none

/-- The last token of a line ends its tokens. -/
lemma getLast?_tokens (line : Line) : line.tokens.getLast? = some line.last := by
  rw [tokens, List.getLast?_cons, last, List.getLastD_eq_getLast?]

/-- A line has no block operators at its end if its last token is none. -/
lemma isEmpty_headers_eq (line : Line) :
    line.headers.isEmpty = !line.last.isOperator Operator.blockSymbols := by
  obtain ⟨init, hinit⟩ := List.getLast?_eq_some_iff.1 line.getLast?_tokens
  rw [headers, trailingBlockOps, hinit, List.reverse_concat, List.takeWhile_cons]
  cases line.last.isOperator Operator.blockSymbols <;> simp

end Line

namespace Layout

/-- The complaints about lines that follow the line `previous`, in the order of the lines, each with the
first token of its line. -/
def complaintsAfter (previous : Option Line) (lines : List Line) : List (String × Token) :=
  ((previous :: lines.map some).zip lines).filterMap fun (previous, line) =>
    (line.complaintAfter? previous).map (·, line.first)

/-- The complaints about the lines of a text. -/
def complaints (lines : List Line) : List (String × Token) :=
  complaintsAfter none lines

variable {previous : Option Line} {line : Line} {ls ls' : List Line}

/-- A line with nothing to complain about. -/
lemma complaintsAfter_cons (h : line.complaintAfter? previous = none) (rest : List Line) :
    complaintsAfter previous (line :: rest) = complaintsAfter (some line) rest := by
  simp [complaintsAfter, h]

/-- A complaint about the first line comes first. -/
lemma head?_complaintsAfter {message : String} (h : line.complaintAfter? previous = some message)
    (rest : List Line) :
    (complaintsAfter previous (line :: rest)).head? = some (message, line.first) := by
  simp [complaintsAfter, h]

/-- The complaints about further lines come after those about the lines before them. -/
lemma complaintsAfter_append {last : Line} (h : ls.getLast? = some last) :
    complaintsAfter previous (ls ++ ls') =
      complaintsAfter previous ls ++ complaintsAfter (some last) ls' := by
  induction ls generalizing previous with
  | nil => cases h
  | cons line rest ih =>
    have hcons (rest : List Line) : complaintsAfter previous (line :: rest) =
        ((line.complaintAfter? previous).map (·, line.first)).toList ++ complaintsAfter (some line) rest := by
      cases hline : line.complaintAfter? previous <;> simp [complaintsAfter, hline]
    rw [List.cons_append, hcons, hcons, List.append_assoc]
    cases rest with
    | nil =>
      cases h
      simp [complaintsAfter]
    | cons next rest =>
      rw [List.getLast?_cons_cons] at h
      rw [ih h]

/-- The lines `ls`, of which none is above `level`, follow the line `previous`: only if the first of them is
deeper than `level` is there something to complain about, and it is the indent. -/
structure Enters (level : Nat) (previous : Option Line) (ls : List Line) : Prop where
  levels : ∀ line ∈ ls, level ≤ line.level
  first : ∀ line ∈ ls.head?, line.complaintAfter? previous =
    if level < line.level then some Fault.unexpectedIndent.message else none

namespace Enters

variable {level : Nat}

/-- The lines of a text enter at level zero. -/
lemma start (lines : List Line) : Enters 0 none lines :=
  ⟨fun _ _ => Nat.zero_le _, fun _ _ => rfl⟩

/-- Lines that go on at the level, after a line that is as deep or deeper. -/
lemma onward {line : Line} (levels : ∀ line ∈ ls, level ≤ line.level) (hline : level ≤ line.level)
    (hhead : ∀ next ∈ ls.head?, next.level ≤ level) : Enters level (some line) ls := by
  refine ⟨levels, fun next hnext => ?_⟩
  have hle := hhead next hnext
  rw [Line.complaintAfter?, if_pos (hle.trans hline), if_neg (Nat.not_lt.2 hle)]

end Enters

/-- The outcome of nesting lines fits the complaints about them. -/
def Answers (limit : Nat) (lines : List Line) (complaints : List (String × Token)) :
    Except Failure Outline → Prop
  | .ok _ => complaints = []
  | .error f =>
    f.fault ≠ .tooDeep ∧ complaints.head? = some (f.fault.message, f.token) ∨
      f.fault = .tooDeep ∧ ∃ line ∈ lines, limit ≤ line.level

namespace Answers

variable {limit : Nat} {found found' : List (String × Token)} {x y : Except Failure Outline}

/-- An outcome for some of the lines fits further ones, if it is a failure. -/
lemma error {f : Failure} (h : Answers limit ls found (.error f)) (hls : ls ⊆ ls') :
    Answers limit ls' (found ++ found') (.error f) := by
  rcases h with ⟨hfault, h⟩ | ⟨hdeep, line, hline, hlimit⟩
  · exact .inl ⟨hfault, by rw [List.head?_append, h, Option.some_or]⟩
  · exact .inr ⟨hdeep, line, hls hline, hlimit⟩

/-- What goes on after the nesting of some lines answers all of them. -/
lemma bind (h : Answers limit ls found x) (hls : ls ⊆ ls') {k : Outline → Except Failure Outline}
    (hk : ∀ o, x = .ok o → Answers limit ls' found' (k o)) : Answers limit ls' (found ++ found') (x >>= k) := by
  cases x with
  | error f => exact h.error hls
  | ok o =>
    obtain rfl : found = [] := h
    exact hk o rfl

end Answers

end Layout

open Layout

namespace Outline

/-- A run of deeper lines is followed by a line that is not deeper. -/
lemma head?_dropWhile_le {level : Nat} (ls : List Line) :
    ∀ line ∈ (ls.dropWhile (level < ·.level)).head?, line.level ≤ level := by
  intro line hline
  have hnot := List.head?_dropWhile_not (level < ·.level) ls
  rw [Option.mem_def] at hline
  rw [hline] at hnot
  simpa using hnot

/-- Lines are taken apart into a run of deeper ones and the rest. -/
lemma exists_deeper {level : Nat} {ls deeper : List Line} (h : ls.takeWhile (level < ·.level) = deeper) :
    ls = deeper ++ ls.dropWhile (level < ·.level) ∧ ∀ line ∈ deeper, level < line.level := by
  subst h
  refine ⟨List.takeWhile_append_dropWhile.symm, fun line hline => ?_⟩
  simpa using List.mem_takeWhile_imp hline

/-- Lines are nested as long as there is nothing to complain about, and the first complaint is reported. -/
theorem answers_nest {limit level : Nat} {previous : Option Line} {ls : List Line}
    (h : Enters level previous ls) : Answers limit ls (complaintsAfter previous ls) (nest limit level ls) := by
  fun_induction nest limit level ls generalizing previous with
  | case1 => rfl
  | case2 level line rest hlevel =>
    have hfirst := h.first line rfl
    rw [if_pos hlevel] at hfirst
    exact .inl ⟨by simp, head?_complaintsAfter hfirst rest⟩
  | case3 level line rest hlevel hwhile ih =>
    have hfirst := h.first line rfl
    rw [if_neg hlevel] at hfirst
    -- no line below is deeper, so that the next one goes on at the level
    have hhead : ∀ next ∈ rest.head?, next.level ≤ level := by
      rw [(exists_deeper hwhile).1, List.nil_append]
      exact head?_dropWhile_le rest
    have hline := h.levels line List.mem_cons_self
    have hrest := ih (.onward (fun l hl => h.levels l (List.mem_cons_of_mem line hl)) hline hhead)
    rw [complaintsAfter_cons hfirst, ← List.append_nil (complaintsAfter _ _)]
    exact hrest.bind (List.subset_cons_self line rest) fun _ _ => rfl
  | case4 level line rest hlevel first others hwhile hheaders =>
    obtain ⟨hrest, hdeeper⟩ := exists_deeper hwhile
    have hfirst := h.first line rfl
    rw [if_neg hlevel] at hfirst
    have hlt := hdeeper first List.mem_cons_self
    have hcomplaint : first.complaintAfter? (some line) = some Fault.unexpectedIndent.message := by
      rw [Line.isEmpty_headers_eq] at hheaders
      rw [Line.complaintAfter?, if_neg (by omega), if_pos hheaders]
      rfl
    rw [complaintsAfter_cons hfirst, hrest]
    exact .inl ⟨by simp, head?_complaintsAfter hcomplaint _⟩
  | case5 level line rest hlevel first others hwhile hheaders hjump =>
    obtain ⟨hrest, hdeeper⟩ := exists_deeper hwhile
    have hfirst := h.first line rfl
    rw [if_neg hlevel] at hfirst
    have hlt := hdeeper first List.mem_cons_self
    have hle := h.levels line List.mem_cons_self
    obtain rfl : level = line.level := by omega
    have hcomplaint : first.complaintAfter? (some line) =
        some (Fault.jump line.level first.level).message := by
      rw [Line.isEmpty_headers_eq] at hheaders
      rw [Line.complaintAfter?, if_neg (by omega), if_neg hheaders, if_pos (by omega)]
      rfl
    rw [complaintsAfter_cons hfirst, hrest]
    exact .inl ⟨by simp, head?_complaintsAfter hcomplaint _⟩
  | case6 level line rest hlevel first others hwhile hheaders hjump hdeep =>
    refine .inr ⟨rfl, first, List.mem_cons_of_mem line ?_, hdeep⟩
    rw [(exists_deeper hwhile).1]
    exact List.mem_cons_self
  | case7 level line rest hlevel first others hwhile hheaders hjump hdeep ihbody ihnext =>
    obtain ⟨hrest, hdeeper⟩ := exists_deeper hwhile
    have hfirst := h.first line rfl
    rw [if_neg hlevel] at hfirst
    have hle := h.levels line List.mem_cons_self
    -- the body enters one level below its header
    have hbody : Enters (level + 1) (some line) (first :: others) := by
      refine ⟨hdeeper, fun l hl => ?_⟩
      cases hl
      rw [Line.isEmpty_headers_eq] at hheaders
      rw [Line.complaintAfter?, if_neg (by omega), if_neg hheaders, if_neg (by omega), if_neg (by omega)]
    -- the lines after the body follow its last line, which is deeper
    obtain ⟨last, hlast⟩ : ∃ last, (first :: others).getLast? = some last := ⟨_, List.getLast?_cons⟩
    have hlt := hdeeper last (List.mem_of_getLast? hlast)
    have hlevels : ∀ l ∈ rest.dropWhile (level < ·.level), level ≤ l.level := fun l hl =>
      h.levels l (List.mem_cons_of_mem line ((List.dropWhile_sublist _).subset hl))
    have hnext : Enters level (some last) (rest.dropWhile (level < ·.level)) :=
      .onward hlevels hlt.le (head?_dropWhile_le rest)
    have hsub : first :: others ⊆ line :: rest := by
      rw [hrest]
      exact List.subset_cons_of_subset line (List.subset_append_left _ _)
    have hsub' : rest.dropWhile (level < ·.level) ⊆ line :: rest :=
      List.subset_cons_of_subset line (List.dropWhile_sublist _).subset
    have hsplit : complaintsAfter (some line) rest = complaintsAfter (some line) (first :: others) ++
        (complaintsAfter (some last) (rest.dropWhile (level < ·.level)) ++ []) := by
      rw [List.append_nil, ← complaintsAfter_append hlast, ← hrest]
    rw [complaintsAfter_cons hfirst, hsplit]
    exact (ihbody hbody).bind hsub fun _ _ => (ihnext hnext).bind hsub' fun _ _ => rfl

end Outline

/-- A token list is laid out if there is nothing to complain about in the indentation of its lines, and
otherwise refused with the first complaint, unless a line is too deep for the limit on nesting. -/
theorem normalizeWithin_complains (limit : Nat) (tokens : List Token) :
    match normalizeWithin limit tokens with
    | .ok _ => complaints (Line.split tokens) = []
    | .error f =>
      f.fault ≠ .tooDeep ∧ (complaints (Line.split tokens)).head? = some (f.fault.message, f.token) ∨
        f.fault = .tooDeep ∧ ∃ line ∈ Line.split tokens, limit ≤ line.level := by
  have hnest : Answers limit _ _ _ := Outline.answers_nest (Enters.start (Line.split tokens))
  unfold normalizeWithin Layout.ofTokensWithin
  dsimp only
  cases hx : Outline.nest limit 0 (Line.split tokens) with
  | ok outline =>
    rw [hx] at hnest
    exact hnest
  | error f =>
    rw [hx] at hnest
    dsimp only
    by_cases hdeep : f.fault = .tooDeep
    · rw [if_pos hdeep]
      exact .inr ⟨rfl, (hnest.resolve_left fun h => h.1 hdeep).2⟩
    · rw [if_neg hdeep]
      exact hnest

end SignLang
