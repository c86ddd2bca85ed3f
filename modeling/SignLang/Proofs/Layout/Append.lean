import SignLang.Proofs.Layout.Brackets
import SignLang.Proofs.Layout.Matching

/-!
# One list of lines after another

A line end outside of all brackets ends the lines before it (`Line.split_append`). Lines that can be nested
on their own are nested alike before other such lines (`Outline.nest_append`), and only a separator is put
between the two outlines (`Outline.tokens_append`).
-/

namespace SignLang

namespace Line

variable {t e : Token} {ts rest : List Token}

/-- The bracket depth after a token is its height. -/
lemma heightAfter_depthAfter {depth height : Nat} (h : heightAfter depth (t :: ts) = some height) :
    heightAfter (depthAfter depth t) ts = some height := by
  rcases t.bracket_cases with hk | hk | hk
  · rw [heightAfter_opening hk] at h
    rwa [depthAfter, if_pos hk]
  · cases depth with
    | zero => rw [heightAfter_zero_closing hk] at h; cases h
    | succ depth =>
      rw [heightAfter_closing hk] at h
      rwa [depthAfter, if_neg (by simp [hk]), if_pos hk]
  · rw [heightAfter_other hk] at h
    simp only [Token.isBracket, Bool.or_eq_false_iff, decide_eq_false_iff_not] at hk
    rwa [depthAfter, if_neg hk.1, if_neg hk.2]

/-- A line end outside of all brackets ends the lines before it. -/
lemma splitFrom_newline_append {level depth : Nat} {g : List Token} (hts : ∀ t ∈ ts, t.kind ≠ .ending)
    (hheight : heightAfter depth ts = some 0) (ht : t.kind = .newline) (he : e.kind = .ending) :
    splitFrom level depth g (ts ++ t :: rest) =
      splitFrom level depth g (ts ++ [e]) ++ splitFrom 0 0 [] rest := by
  induction ts generalizing level depth g with
  | nil =>
    cases hheight
    rw [List.nil_append, List.nil_append, splitFrom_newline ht, if_pos rfl, splitFrom_ending he]
  | cons u ts ih =>
    rw [List.forall_mem_cons] at hts
    rw [List.cons_append, List.cons_append]
    have hheight' := heightAfter_depthAfter hheight
    by_cases hnewline : u.kind = .newline
    · rw [depthAfter, if_neg (by simp [hnewline]), if_neg (by simp [hnewline])] at hheight'
      rw [splitFrom_newline hnewline, splitFrom_newline hnewline]
      split
      · next hdepth =>
        rw [ih hts.2 (hdepth ▸ hheight'), List.append_assoc]
      · exact ih hts.2 hheight'
    by_cases hindent : u.kind = .indent
    · rw [depthAfter, if_neg (by simp [hindent]), if_neg (by simp [hindent])] at hheight'
      rw [splitFrom_indent hindent, splitFrom_indent hindent]
      exact ih hts.2 hheight'
    · have hcontent : u.isContent := by simp [Token.isContent, hnewline, hindent, hts.1]
      rw [splitFrom_content hcontent, splitFrom_content hcontent]
      exact ih hts.2 hheight'

/-- The lines before and after a line end that is outside of all brackets. -/
lemma split_append (hts : ∀ t ∈ ts, t.kind ≠ .ending) (hheight : heightAfter 0 ts = some 0)
    (ht : t.kind = .newline) (he : e.kind = .ending) :
    split (ts ++ t :: rest) = split (ts ++ [e]) ++ split rest :=
  splitFrom_newline_append hts hheight ht he

/-- Line ends alone make no line. -/
lemma split_newlines (hts : ∀ t ∈ ts, t.kind = .newline) (he : e.kind = .ending) : split (ts ++ [e]) = [] := by
  induction ts with
  | nil => rw [List.nil_append, split, splitFrom_ending he]; rfl
  | cons t ts ih =>
    rw [List.forall_mem_cons] at hts
    rw [List.cons_append, split, splitFrom_newline hts.1, if_pos rfl]
    exact ih hts.2

/-- Line ends at the end make no difference. -/
lemma split_append_newlines {ns : List Token} (hts : ∀ t ∈ ts, t.kind ≠ .ending)
    (hheight : heightAfter 0 ts = some 0) (hns : ∀ t ∈ ns, t.kind = .newline) (he : e.kind = .ending) :
    split (ts ++ ns ++ [e]) = split (ts ++ [e]) := by
  cases ns with
  | nil => rw [List.append_nil]
  | cons t ns =>
    rw [List.forall_mem_cons] at hns
    rw [List.append_assoc, List.cons_append, split_append hts hheight hns.1 he, split_newlines hns.2 he,
      List.append_nil]

end Line

namespace Outline

/-- The lines of one outline before those of another. -/
def append : Outline → Outline → Outline
  | done, o => o
  | entry line body next, o => entry line body (next.append o)

/-- A run of elements ends before an element that does not belong to it. -/
lemma takeWhile_append_stop {α : Type} {p : α → Bool} {l l' : List α} (h : l'.head?.any p = false) :
    (l ++ l').takeWhile p = l.takeWhile p ∧ (l ++ l').dropWhile p = l.dropWhile p ++ l' := by
  induction l with
  | nil =>
    cases l' with
    | nil => exact ⟨rfl, rfl⟩
    | cons a l' =>
      have ha : p a = false := by simpa using h
      simp [ha]
  | cons a l ih =>
    rw [List.cons_append, List.takeWhile_cons, List.takeWhile_cons, List.dropWhile_cons,
      List.dropWhile_cons]
    cases p a with
    | true => simpa using ih
    | false => simp

/-- The first of the lines that are nested is not indented further. -/
lemma level_of_nest {limit level : Nat} {ls : List Line} {o : Outline} (h : nest limit level ls = .ok o) :
    ls.head?.any (level < ·.level) = false := by
  cases ls with
  | nil => rfl
  | cons line rest =>
    rw [nest] at h
    split at h
    · cases h
    · next hlevel => simpa using hlevel

/-- Lines that are nested on their own are nested alike before others. -/
theorem nest_append {limit level : Nat} {ls ls' : List Line} {o o' : Outline}
    (h : nest limit level ls = .ok o) (h' : nest limit level ls' = .ok o') :
    nest limit level (ls ++ ls') = .ok (o.append o') := by
  rw [nest_iff] at h
  induction h with
  | done => exact h'
  | @plain level line rest next hlevel hnone _ ih =>
    obtain ⟨htake, -⟩ := takeWhile_append_stop (l := rest) (level_of_nest h')
    rw [List.cons_append, nest_plain hlevel (htake.trans hnone), ih h']
    rfl
  | @header level line rest first others body next hlevel hsome hheaders hfirst hlimit hbody _ _ ihnext =>
    obtain ⟨htake, hdrop⟩ := takeWhile_append_stop (l := rest) (level_of_nest h')
    rw [List.cons_append, nest_header hlevel (htake.trans hsome) hheaders hfirst hlimit, hbody.nest_eq, hdrop,
      ihnext h']
    rfl

/-- Outlines one after the other have a separator between their tokens. -/
lemma tokens_append {o : Outline} (ho : o ≠ .done) (o' : Outline) :
    (o.append o').tokens = o.tokens ++ o'.separator ++ o'.tokens := by
  induction o with
  | done => exact absurd rfl ho
  | entry line body next _ ih =>
    cases next with
    | done => simp [append, tokens, separator]
    | entry line' body' next' =>
      change enclose line body.tokens ++ [line'.first.borrow .separator "\n"] ++
        ((entry line' body' next').append o').tokens = _
      rw [ih (by simp), tokens.eq_2 line]
      simp [separator]

/-- No separator ends the tokens of an outline. -/
lemma getLast?_tokens {o : Outline} (ho : ∀ line ∈ o.lines, ∀ t ∈ line.tokens, t.kind ≠ .separator) :
    ∀ t ∈ o.tokens.getLast?, t.kind ≠ .separator := by
  induction o with
  | done => simp [tokens]
  | entry line body next ihbody ihnext =>
    simp only [lines, List.forall_mem_cons, List.forall_mem_append] at ho
    obtain ⟨hline, hbody, hnext⟩ := ho
    cases next with
    | entry line' body' next' =>
      rw [tokens, List.getLast?_append_of_ne_nil _ (tokens_ne_nil _ _ _)]
      exact ihnext hnext
    | done =>
      simp only [tokens, separator, List.append_nil]
      unfold enclose
      cases hlast : body.tokens.getLast? with
      | none => exact fun t ht => hline t (List.mem_of_getLast? ht)
      | some last =>
        have hne : body.tokens ≠ [] := by
          intro hnil
          rw [hnil] at hlast
          cases hlast
        dsimp only
        by_cases hheaders : line.headers = []
        · -- without headers the body ends the tokens
          rw [hheaders, List.map_nil, List.append_nil, List.getLast?_append_of_ne_nil _ hne]
          exact ihbody hbody
        · rw [List.getLast?_append_of_ne_nil _ (by simpa using hheaders)]
          intro t ht
          obtain ⟨op, -, rfl⟩ := List.mem_map.1 (List.mem_of_getLast? ht)
          simp [Token.borrow]

end Outline

end SignLang
