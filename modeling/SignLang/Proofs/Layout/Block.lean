import SignLang.Proofs.Layout.Append
import SignLang.Proofs.Layout.Brackets

/-!
# A line and its body

Tokens without a line end are one line (`Line.split_contents`). Lines that all stand deeper than a line
before them are its body (`Outline.nest_block`), and the line encloses them (`Outline.tokens_block`).
-/

namespace SignLang

variable {limit : Nat} {line : Line} {ls : List Line} {o : Outline}

/-- A line whose last token is a block operator has headers. -/
lemma Line.headers_ne_nil (h : line.tokens.getLast?.any (·.isOperator Operator.blockSymbols)) :
    line.headers ≠ [] := by
  obtain ⟨ts, op, hop⟩ := (List.eq_nil_or_concat line.tokens).resolve_left (by simp [Line.tokens])
  rw [hop, List.concat_eq_append, List.getLast?_concat] at h
  rw [Line.headers, trailingBlockOps, hop]
  simpa using h

/-- Matching lines are as many levels deeper as the match says. -/
lemma Line.level_of_matches {place : Int → Int → Prop} {k n : Nat} {ls' : List Line}
    (h : List.Forall₂ (Line.Matches place k) ls ls') (hls : ∀ l ∈ ls, n ≤ l.level) :
    ∀ l ∈ ls', n + k ≤ l.level := by
  induction h with
  | nil => simp
  | cons hl _ ih =>
    rw [List.forall_mem_cons] at hls ⊢
    exact ⟨by rw [hl.level_eq]; omega, ih hls.2⟩

/-- Tokens without a line end are gathered into one line. -/
lemma Line.splitFrom_contents {level depth : Nat} {g ts : List Token} {ending : Token}
    (hts : ∀ t ∈ ts, t.isContent) (he : ending.kind = .ending) :
    splitFrom level depth g (ts ++ [ending]) = ofGathered level (ts.reverse ++ g) := by
  induction ts generalizing depth g with
  | nil => exact splitFrom_ending he
  | cons t ts ih =>
    rw [List.forall_mem_cons] at hts
    rw [List.cons_append, splitFrom_content hts.1, ih hts.2]
    simp

/-- Tokens without a line end are one line. -/
lemma Line.split_contents {first ending : Token} {others : List Token}
    (hts : ∀ t ∈ first :: others, t.isContent) (he : ending.kind = .ending) :
    split (first :: others ++ [ending]) = [⟨0, first, others⟩] := by
  rw [split, splitFrom_contents hts he, List.append_nil, ofGathered, List.reverse_reverse]

namespace Outline

/-- A single line that is not indented deeper than its level is nested as it is. -/
lemma nest_singleton {level : Nat} (h : line.level ≤ level) :
    nest limit level [line] = .ok (.entry line .done .done) :=
  nest_iff.2 (.plain h rfl .done)

/-- The lines of a body stand one level deeper than the line before them, which ends in a block
operator. -/
theorem nest_block (hline : line.level = 0) (hheaders : line.headers ≠ []) (hne : ls ≠ [])
    (hdeeper : ∀ l ∈ ls, 0 < l.level) (hlimit : 1 < limit) (h : nest limit 1 ls = .ok o) :
    nest limit 0 (line :: ls) = .ok (.entry line o .done) := by
  obtain ⟨first, others, rfl⟩ := List.exists_cons_of_ne_nil hne
  have hall : ∀ l ∈ first :: others, decide (0 < l.level) = true := fun l hl => by simpa using hdeeper l hl
  have hfirst : first.level = 1 := by
    have hle := level_of_nest h
    have hpos := hdeeper first List.mem_cons_self
    simp only [List.head?_cons, Option.any_some, decide_eq_false_iff_not] at hle
    omega
  rw [nest_iff] at h ⊢
  refine .header hline.le (List.takeWhile_eq_self_iff.2 hall) hheaders hfirst (by omega) h ?_
  rw [List.dropWhile_eq_nil_iff.2 hall]
  exact .done

/-- A line encloses its body: one bracket opens after each block operator, and as many close at the
end. -/
lemma tokens_block (line : Line) (hne : o.tokens ≠ []) : ∃ last, (entry line o .done).tokens =
    line.stem ++ line.headers.flatMap (fun op => [op, op.borrow .opening "["]) ++ o.tokens ++
      line.headers.map fun _ => Token.borrow last .closing "]" := by
  refine ⟨o.tokens.getLast hne, ?_⟩
  simp [tokens, separator, enclose, List.getLast?_eq_some_getLast hne]

end Outline

end SignLang
