import SignLang.Proofs.Layout.Lines
import SignLang.Proofs.Token

/-!
# Layout of matching tokens

Token lists are laid out alike if their lines match, all of them a fixed number of levels deeper in the
second list (`Lined`). Lines without tokens make no difference.

* `Lined.split`: the lines of the two lists match.
* `Outline.nest_matches`: matching lines are nested alike.
* `Outline.Matches.tokens`: and so the laid-out tokens match.
-/

namespace SignLang

variable {place : Int → Int → Prop} {k : Nat}

/-- The lines say the same, the second one `k` levels deeper. -/
structure Line.Matches (place : Int → Int → Prop) (k : Nat) (line line' : Line) : Prop where
  level_eq : line'.level = line.level + k
  tokens : List.Forall₂ (Token.Matches place) line.tokens line'.tokens

/-- The outlines nest matching lines alike. -/
inductive Outline.Matches (place : Int → Int → Prop) (k : Nat) : Outline → Outline → Prop where
  | done : Matches place k .done .done
  | entry {line line' : Line} {body body' next next' : Outline} :
    line.Matches place k line' →
    Matches place k body body' →
    Matches place k next next' →
    Matches place k (.entry line body next) (.entry line' body' next')

/-! ## Nesting -/

/-- Runs of elements that answer a question alike are matched with each other. -/
lemma forall₂_takeWhile {α β : Type} {r : α → β → Prop} {p : α → Bool} {q : β → Bool}
    (hpq : ∀ a b, r a b → q b = p a) {l : List α} {l' : List β} (h : List.Forall₂ r l l') :
    List.Forall₂ r (l.takeWhile p) (l'.takeWhile q) ∧ List.Forall₂ r (l.dropWhile p) (l'.dropWhile q) := by
  induction h with
  | nil => exact ⟨.nil, .nil⟩
  | @cons a b l l' hab h ih =>
    rw [List.takeWhile_cons, List.takeWhile_cons, List.dropWhile_cons, List.dropWhile_cons, hpq a b hab]
    cases p a with
    | true => exact ⟨.cons hab ih.1, ih.2⟩
    | false => exact ⟨.nil, .cons hab h⟩

namespace Line.Matches

variable {line line' : Line}

lemma headers (h : line.Matches place k line') :
    List.Forall₂ (Token.Matches place) line.headers line'.headers := by
  rw [Line.headers, Line.headers, trailingBlockOps, trailingBlockOps, List.forall₂_reverse_iff]
  exact (forall₂_takeWhile (fun _ _ h => h.isOperator_eq _) (List.rel_reverse h.tokens)).1

lemma stem (h : line.Matches place k line') :
    List.Forall₂ (Token.Matches place) line.stem line'.stem := by
  rw [Line.stem, Line.stem, h.tokens.length_eq, h.headers.length_eq]
  exact List.forall₂_take _ h.tokens

lemma headers_isEmpty (h : line.Matches place k line') :
    line'.headers.isEmpty = line.headers.isEmpty := by
  rw [Bool.eq_iff_iff, List.isEmpty_iff_length_eq_zero, List.isEmpty_iff_length_eq_zero,
    h.headers.length_eq]

lemma first (h : line.Matches place k line') : line.first.Matches place line'.first := by
  cases h.tokens with
  | cons h _ => exact h

end Line.Matches

namespace Outline

/-- Matching lines are nested alike. -/
theorem nest_matches {limit level : Nat} {ls ls' : List Line} {o : Outline}
    (h : List.Forall₂ (Line.Matches place k) ls ls') (hnest : nest limit level ls = .ok o) :
    ∃ o', nest (limit + k) (level + k) ls' = .ok o' ∧ o.Matches place k o' := by
  have hdeeper (level : Nat) (l l' : Line) (h : l.Matches place k l') :
      decide (level + k < l'.level) = decide (level < l.level) := by
    rw [h.level_eq, decide_eq_decide]
    omega
  rw [nest_iff] at hnest
  induction hnest generalizing ls' with
  | done =>
    cases h
    exact ⟨.done, Nesting.done.nest_eq, .done⟩
  | @plain level line rest next hlevel hnone _ ih =>
    cases h with
    | @cons _ line' _ rest' hline hrest =>
      obtain ⟨next', hnext', hmatches⟩ := ih hrest
      have hnone' := (forall₂_takeWhile (hdeeper level) hrest).1
      rw [hnone, List.forall₂_nil_left_iff] at hnone'
      rw [nest_iff] at hnext'
      refine ⟨.entry line' .done next', nest_iff.2 (.plain ?_ hnone' hnext'), .entry hline .done hmatches⟩
      rw [hline.level_eq]
      omega
  | @header level line rest first others body next hlevel hsome hheaders hfirst hlimit _ _ ihbody ihnext =>
    cases h with
    | @cons _ line' _ rest' hline hrest =>
      obtain ⟨htake, hdrop⟩ := forall₂_takeWhile (hdeeper level) hrest
      rw [hsome] at htake
      obtain ⟨body', hbody', hbmatches⟩ := ihbody htake
      obtain ⟨next', hnext', hnmatches⟩ := ihnext hdrop
      generalize hsome' : rest'.takeWhile (level + k < ·.level) = taken at htake hbody'
      cases htake with
      | @cons _ first' _ others' hfirst' _ =>
        have hheaders' : line'.headers ≠ [] := by
          simpa [← List.isEmpty_eq_false_iff, hline.headers_isEmpty] using hheaders
        have hlevels := hline.level_eq
        have hlevels' := hfirst'.level_eq
        rw [show level + 1 + k = level + k + 1 by omega, nest_iff] at hbody'
        rw [nest_iff] at hnext'
        exact ⟨.entry line' body' next', nest_iff.2 (.header (by omega) hsome' hheaders' (by omega) (by omega)
          hbody' hnext'), .entry hline hbmatches hnmatches⟩

/-! ## Laid-out tokens -/

/-- A line and its body are enclosed alike. -/
lemma enclose_matches {line line' : Line} {body body' : List Token} (h : line.Matches place k line')
    (hbody : List.Forall₂ (Token.Matches place) body body') :
    List.Forall₂ (Token.Matches place) (enclose line body) (enclose line' body') := by
  have hopeners : List.Forall₂ (Token.Matches place)
      (line.headers.flatMap fun op => [op, op.borrow .opening "["])
      (line'.headers.flatMap fun op => [op, op.borrow .opening "["]) :=
    List.rel_flatMap h.headers fun op op' hop =>
      .cons hop (.cons (.borrow op op' (by decide) "[") .nil)
  unfold enclose
  cases hlast : body.getLast? with
  | none =>
    obtain rfl := List.getLast?_eq_none_iff.1 hlast
    cases hbody
    exact h.tokens
  | some last =>
    obtain ⟨last', hlast'⟩ : ∃ last', body'.getLast? = some last' := by
      rw [← Option.ne_none_iff_exists', ne_eq, List.getLast?_eq_none_iff]
      rintro rfl
      cases hbody
      cases hlast
    have hclosers : List.Forall₂ (Token.Matches place)
        (line.headers.map fun _ => last.borrow .closing "]")
        (line'.headers.map fun _ => last'.borrow .closing "]") :=
      List.rel_map (fun _ _ _ => .borrow last last' (by decide) "]") h.headers
    rw [hlast']
    exact List.rel_append (List.rel_append (List.rel_append h.stem hopeners) hbody) hclosers

/-- Outlines of matching lines have matching tokens. -/
theorem Matches.tokens {o o' : Outline} (h : o.Matches place k o') :
    List.Forall₂ (Token.Matches place) o.tokens o'.tokens := by
  induction h with
  | done => exact .nil
  | @entry line line' body body' next next' hline _ hnext ihbody ihnext =>
    have hseparator : List.Forall₂ (Token.Matches place) next.separator next'.separator := by
      cases hnext with
      | done => exact .nil
      | @entry line line' _ _ _ _ hline _ _ =>
        exact .cons (.borrow line.first line'.first (by decide) "\n") .nil
    exact List.rel_append (List.rel_append (enclose_matches hline ihbody) hseparator) ihnext

end Outline

/-! ## Lines -/

/-- The token lists write matching lines, all of them `k` levels deeper in the second list. The first
argument tells whether a line starts, where line ends make no difference and a margin may be missing in
the first list. -/
inductive Lined (place : Int → Int → Prop) (k : Nat) : Bool → List Token → List Token → Prop where
  | ending {b : Bool} {e e' : Token} :
    e.kind = .ending →
    e'.kind = .ending →
    Lined place k b [e] [e']
  | newline {b : Bool} {t t' : Token} {ts ts' : List Token} :
    t.kind = .newline →
    t'.kind = .newline →
    Lined place k true ts ts' →
    Lined place k b (t :: ts) (t' :: ts')
  | blank {t : Token} {ts ts' : List Token} :
    t.kind = .newline →
    Lined place k true ts ts' →
    Lined place k true (t :: ts) ts'
  | blank' {t' : Token} {ts ts' : List Token} :
    t'.kind = .newline →
    Lined place k true ts ts' →
    Lined place k true ts (t' :: ts')
  | indent {b : Bool} {t t' : Token} {ts ts' : List Token} :
    t.kind = .indent →
    t'.kind = .indent →
    t'.level = t.level + k →
    Lined place k false ts ts' →
    Lined place k b (t :: ts) (t' :: ts')
  | margin {t' : Token} {ts ts' : List Token} :
    t'.kind = .indent →
    t'.level = k →
    Lined place k false ts ts' →
    Lined place k true ts (t' :: ts')
  | word {b : Bool} {t t' : Token} {ts ts' : List Token} :
    k = 0 ∨ b = false →
    t.isContent →
    t.Matches place t' →
    Lined place k false ts ts' →
    Lined place k b (t :: ts) (t' :: ts')

namespace Line

variable {t : Token} {level depth : Nat} {g rest : List Token}

lemma splitFrom_ending (h : t.kind = .ending) :
    splitFrom level depth g (t :: rest) = ofGathered level g := by
  rw [splitFrom, h]

lemma splitFrom_newline (h : t.kind = .newline) :
    splitFrom level depth g (t :: rest) =
      if depth = 0 then ofGathered level g ++ splitFrom 0 0 [] rest
      else splitFrom level depth g rest := by
  rw [splitFrom, h]

lemma splitFrom_indent (h : t.kind = .indent) :
    splitFrom level depth g (t :: rest) =
      splitFrom (if depth = 0 then t.level else level) depth g rest := by
  rw [splitFrom, h]

/-- The bracket depth after a token of a line. -/
def depthAfter (depth : Nat) (t : Token) : Nat :=
  if t.kind = .opening then depth + 1 else if t.kind = .closing then depth - 1 else depth

lemma splitFrom_content (h : t.isContent) :
    splitFrom level depth g (t :: rest) = splitFrom level (depthAfter depth t) (t :: g) rest := by
  simp only [Token.isContent, Bool.and_eq_true, decide_eq_true_eq] at h
  rw [splitFrom]
  split
  case h_1 hk => exact absurd hk h.2
  case h_2 hk => exact absurd hk h.1.1
  case h_3 hk => exact absurd hk h.1.2
  case h_4 hk | h_5 hk => simp [depthAfter, hk]
  case h_6 hopen hclose => rw [depthAfter, if_neg hopen, if_neg hclose]

end Line

/-- Matching tokens that are gathered make matching lines. -/
lemma Line.ofGathered_matches {level level' : Nat} {g g' : List Token}
    (h : List.Forall₂ (Token.Matches place) g g') (hlevel : g ≠ [] → level' = level + k) :
    List.Forall₂ (Line.Matches place k) (ofGathered level g) (ofGathered level' g') := by
  have hreverse := List.rel_reverse h
  unfold ofGathered
  generalize hg : g.reverse = ts at hreverse
  generalize g'.reverse = ts' at hreverse
  cases hreverse with
  | nil => exact .nil
  | cons ht hts =>
    refine .cons ⟨hlevel ?_, .cons ht hts⟩ .nil
    rintro rfl
    cases hg

/-- At the start of a line nothing is gathered; anywhere else the line in the second list is `k` levels
deeper. -/
def Level (k : Nat) (b : Bool) (level level' depth : Nat) (g : List Token) : Prop :=
  if b ∧ depth = 0 then g = [] ∧ level = 0 ∧ level' = 0 else level' = level + k

/-- Token lists of matching lines are split into matching lines. -/
lemma Lined.splitFrom {b : Bool} {ts ts' g g' : List Token} (h : Lined place k b ts ts')
    {level level' depth : Nat} (hlevel : Level k b level level' depth g)
    (hg : List.Forall₂ (Token.Matches place) g g') :
    List.Forall₂ (Line.Matches place k) (Line.splitFrom level depth g ts)
      (Line.splitFrom level' depth g' ts') := by
  have hgathered {b : Bool} {level level' depth : Nat} {g g' : List Token}
      (hlevel : Level k b level level' depth g) (hg : List.Forall₂ (Token.Matches place) g g') :
      List.Forall₂ (Line.Matches place k) (Line.ofGathered level g) (Line.ofGathered level' g') := by
    refine Line.ofGathered_matches hg fun hne => ?_
    unfold Level at hlevel
    split at hlevel
    · exact absurd hlevel.1 hne
    · exact hlevel
  have hstart : Level k true 0 0 0 [] := by simp [Level]
  induction h generalizing level level' depth g g' with
  | ending he he' =>
    rw [Line.splitFrom_ending he, Line.splitFrom_ending he']
    exact hgathered hlevel hg
  | newline ht ht' _ ih =>
    rw [Line.splitFrom_newline ht, Line.splitFrom_newline ht']
    by_cases hdepth : depth = 0
    · rw [if_pos hdepth, if_pos hdepth]
      exact List.rel_append (hgathered hlevel hg) (ih hstart .nil)
    · rw [if_neg hdepth, if_neg hdepth]
      exact ih (by simpa [Level, hdepth] using hlevel) hg
  | blank ht _ ih =>
    rw [Line.splitFrom_newline ht]
    by_cases hdepth : depth = 0
    · subst hdepth
      simp only [Level, and_self, if_true] at hlevel
      obtain ⟨rfl, rfl, rfl⟩ := hlevel
      rw [if_pos rfl]
      exact ih hstart hg
    · rw [if_neg hdepth]
      exact ih hlevel hg
  | blank' ht _ ih =>
    rw [Line.splitFrom_newline ht]
    by_cases hdepth : depth = 0
    · subst hdepth
      simp only [Level, and_self, if_true] at hlevel
      obtain ⟨rfl, rfl, rfl⟩ := hlevel
      cases hg
      rw [if_pos rfl]
      exact ih hstart .nil
    · rw [if_neg hdepth]
      exact ih hlevel hg
  | indent ht ht' hlevels _ ih =>
    rw [Line.splitFrom_indent ht, Line.splitFrom_indent ht']
    refine ih ?_ hg
    by_cases hdepth : depth = 0
    · simp [Level, hdepth, hlevels]
    · simpa [Level, hdepth] using hlevel
  | margin ht hlevels _ ih =>
    rw [Line.splitFrom_indent ht]
    refine ih ?_ hg
    by_cases hdepth : depth = 0
    · have hzero : level = 0 := by
        simp only [Level, hdepth, and_self, if_true] at hlevel
        exact hlevel.2.1
      simp [Level, hdepth, hlevels, hzero]
    · simpa [Level, hdepth] using hlevel
  | @word b t t' _ _ hb hcontent hmatches _ ih =>
    have hcontent' : t'.isContent := by
      rw [Token.isContent, hmatches.kind_eq]
      exact hcontent
    have hdepth : Line.depthAfter depth t' = Line.depthAfter depth t := by
      rw [Line.depthAfter, Line.depthAfter, hmatches.kind_eq]
    rw [Line.splitFrom_content hcontent, Line.splitFrom_content hcontent', hdepth]
    refine ih ?_ (.cons hmatches hg)
    unfold Level at hlevel ⊢
    rw [if_neg (by simp)]
    rcases hb with rfl | rfl
    · split at hlevel
      · rw [hlevel.2.1, hlevel.2.2]
      · exact hlevel
    · simpa using hlevel

/-- Token lists of matching lines have matching lines. -/
theorem Lined.split {ts ts' : List Token} (h : Lined place k true ts ts') :
    List.Forall₂ (Line.Matches place k) (Line.split ts) (Line.split ts') :=
  h.splitFrom (by simp [Level]) .nil

end SignLang
