import Mathlib
import SignLang.Cursor

/-!
# Cursors

A cursor that the parser meets stands in a list that ends with the end of the input (`Cursor.Ends`).
At any other token it can therefore move on, and moving on takes one token from those ahead and
puts it behind. `Cursor.Passes` says which tokens a cursor is moved over. The parameters ahead of a
cursor are names and then perhaps a rest parameter (`Cursor.Ends.parameters_induction`).
-/

namespace SignLang.Parameter

variable {t : Token}

/-- A name at the front is a parameter, and others may follow it. -/
lemma listOf_name (h : t.kind = .identifier) (rest : List Token) :
    listOf (t :: rest) = ⟨t.lexeme, false⟩ :: listOf rest := by
  simp [listOf, h]

/-- Without a name at the front there is at most a rest parameter. -/
lemma listOf_other (h : t.kind ≠ .identifier) (rest : List Token) :
    listOf (t :: rest) = restOf (t :: rest) := by
  simp [listOf, h]

/-- There are no parameters at a token that is neither a name nor a tilde. -/
lemma listOf_eq_nil (h : t.kind ≠ .identifier) (htilde : t.isSymbol "~" = false) (rest : List Token) :
    listOf (t :: rest) = [] := by
  rw [listOf_other h]
  cases rest <;> simp [restOf, htilde]

end SignLang.Parameter

namespace SignLang.Cursor

/-- The token at hand and those after it. -/
def ahead (c : Cursor) : List Token :=
  c.here :: c.after

/-- The list ends with the end of the input. -/
def Ends (c : Cursor) : Prop :=
  c.last.kind = .ending

/-- The cursor `d` is `c` moved on, or `c` itself. -/
def Reaches (c d : Cursor) : Prop :=
  ∃ n, d = c.skip n

/-- A group without left operand is headed by an operator. -/
lemma kind_of_headsPointFree {c : Cursor} (h : c.headsPointFree) : c.here.kind = .operator := by
  simp only [headsPointFree, Bool.and_eq_true, decide_eq_true_eq] at h
  exact h.1.1

/-- Only at the end of the input can nothing follow. -/
lemma Ends.exists_after {c : Cursor} (ends : c.Ends) (h : c.here.kind ≠ .ending) :
    ∃ t rest, c.after = t :: rest := by
  cases e : c.after with
  | nil =>
    have : c.last = c.here := by simp [Cursor.last, e]
    exact absurd (this ▸ ends) h
  | cons t rest => exact ⟨t, rest, rfl⟩

/-- Moving on takes the token at hand behind. -/
lemma advance_eq {c : Cursor} {t : Token} {rest : List Token} (h : c.after = t :: rest) :
    c.advance = { before := c.here :: c.before, here := t, after := rest } := by
  simp [Cursor.advance, h]

/-- Moving on never leaves the list. -/
lemma Ends.advance {c : Cursor} (ends : c.Ends) : c.advance.Ends := by
  cases e : c.after with
  | nil => simpa [Cursor.advance, e] using ends
  | cons t rest =>
    rw [advance_eq e]
    simpa [Ends, Cursor.last, e, List.getLast?_cons] using ends

/-- Moving over several tokens never leaves the list. -/
lemma Ends.skip {c : Cursor} (ends : c.Ends) (n : Nat) : (c.skip n).Ends := by
  induction n generalizing c with
  | zero => exact ends
  | succ n ih => exact ih ends.advance

/-- Before the end of the input, moving on leaves one token less ahead. -/
lemma Ends.length_advance {c : Cursor} (ends : c.Ends) (h : c.here.kind ≠ .ending) :
    c.advance.after.length + 1 = c.after.length := by
  obtain ⟨t, rest, e⟩ := ends.exists_after h
  rw [advance_eq e, e, List.length_cons]

/-- Moving on never leaves more tokens ahead. -/
lemma length_advance_le (c : Cursor) : c.advance.after.length ≤ c.after.length := by
  cases e : c.after with
  | nil => simp [Cursor.advance, e]
  | cons t rest => simp [advance_eq e]

/-- Moving over several tokens never leaves more tokens ahead. -/
lemma length_skip_le (c : Cursor) (n : Nat) : (c.skip n).after.length ≤ c.after.length := by
  induction n generalizing c with
  | zero => exact le_rfl
  | succ n ih => exact (ih c.advance).trans c.length_advance_le

/-- The token after the one at hand is the one that moving on comes to. -/
lemma here_advance (c : Cursor) : c.advance.here = c.next := by
  cases e : c.after with
  | nil => simp [Cursor.advance, Cursor.next, e]
  | cons t rest => simp [advance_eq e, Cursor.next, e]

/-- The token behind a cursor that has moved on is the one where it stood. -/
lemma previous_advance {c : Cursor} (h : c.after ≠ []) : c.advance.previous = c.here := by
  obtain ⟨t, rest, e⟩ := List.exists_cons_of_ne_nil h
  rw [advance_eq e]
  rfl

/-- The token at hand is one of the list. -/
lemma here_mem_tokens (c : Cursor) : c.here ∈ c.tokens := by
  simp [tokens]

/-- Moving on does not change the list. -/
lemma tokens_advance (c : Cursor) : c.advance.tokens = c.tokens := by
  cases e : c.after with
  | nil => simp [Cursor.advance, e]
  | cons t rest => simp [advance_eq e, Cursor.tokens, e]

/-- The list of a cursor ends where its tokens do. -/
lemma ends_of_tokens_eq {c d : Cursor} (h : c.tokens = d.tokens) (ends : d.Ends) : c.Ends := by
  have hlast (c : Cursor) : c.tokens.getLast? = some c.last := by
    simp [tokens, last, List.getLast?_append, List.getLast?_cons]
  have heq := hlast c
  rw [h, hlast d] at heq
  rw [Ends, ← Option.some.inj heq]
  exact ends

/-- Going to another position does not change the list. -/
lemma tokens_moveTo (c : Cursor) (n : Nat) : (c.moveTo n).tokens = c.tokens := by
  unfold Cursor.moveTo
  cases e : c.tokens.drop n with
  | nil => rfl
  | cons t rest => rw [tokens, List.reverse_reverse, ← e, List.take_append_drop]

/-- A cursor reaches itself. -/
lemma Reaches.refl (c : Cursor) : c.Reaches c :=
  ⟨0, rfl⟩

/-- A cursor reaches the next token. -/
lemma Reaches.advance (c : Cursor) : c.Reaches c.advance :=
  ⟨1, rfl⟩

/-- Moving on twice is moving on. -/
lemma Reaches.trans {a b c : Cursor} (h : a.Reaches b) (h' : b.Reaches c) : a.Reaches c := by
  obtain ⟨m, rfl⟩ := h
  obtain ⟨n, rfl⟩ := h'
  refine ⟨m + n, ?_⟩
  induction m generalizing a with
  | zero => rw [Nat.zero_add]; rfl
  | succ m ih =>
    rw [Nat.succ_add]
    exact ih

/-- A cursor that is moved on stands in the same list. -/
lemma Reaches.tokens_eq {c d : Cursor} (h : c.Reaches d) : d.tokens = c.tokens := by
  obtain ⟨n, rfl⟩ := h
  induction n generalizing c with
  | zero => rfl
  | succ n ih => exact ih.trans c.tokens_advance

/-- What is ahead of a cursor that is moved on was ahead before. -/
lemma Reaches.ahead_suffix {c d : Cursor} (h : c.Reaches d) : d.ahead <:+ c.ahead := by
  obtain ⟨n, rfl⟩ := h
  induction n generalizing c with
  | zero => exact List.suffix_rfl
  | succ n ih =>
    refine ih.trans ?_
    cases e : c.after with
    | nil => rw [show c.advance = c by simp [Cursor.advance, e]]
    | cons t rest =>
      rw [advance_eq e, ahead, ahead, e]
      exact List.suffix_cons _ _

/-- A list that the parser is given ends with the end of the input. -/
lemma ofTokens_ends (tokens : List Token) : (ofTokens tokens).Ends := by
  cases tokens with
  | nil => rfl
  | cons t rest =>
    simp only [ofTokens, Ends, Cursor.last]
    split
    · next h => exact h
    · simp [Token.borrow]

/-- A cursor before a list has all of it ahead. -/
lemma ahead_ofTokens (tokens : List Token) : (ofTokens tokens).ahead = (ofTokens tokens).tokens := by
  cases tokens <;> rfl

/-- The cursor `d` is `c` moved over the tokens. -/
def Passes (c d : Cursor) : List Token → Prop
  | [] => c = d
  | t :: ts => c.here = t ∧ c.after ≠ [] ∧ c.advance.Passes d ts

/-- A cursor that is moved over two parts is moved over one after the other. -/
lemma passes_append {c d : Cursor} {us vs : List Token} :
    c.Passes d (us ++ vs) ↔ ∃ m, c.Passes m us ∧ m.Passes d vs := by
  induction us generalizing c with
  | nil => exact ⟨fun h => ⟨c, rfl, h⟩, by rintro ⟨m, rfl, h⟩; exact h⟩
  | cons t us ih =>
    rw [List.cons_append]
    constructor
    · rintro ⟨hhere, hafter, h⟩
      obtain ⟨m, hus, hvs⟩ := ih.1 h
      exact ⟨m, ⟨hhere, hafter, hus⟩, hvs⟩
    · rintro ⟨m, ⟨hhere, hafter, hus⟩, hvs⟩
      exact ⟨hhere, hafter, ih.2 ⟨m, hus, hvs⟩⟩

/-- Moving on takes the token at hand from those ahead. -/
lemma ahead_eq_cons {c : Cursor} (h : c.after ≠ []) : c.ahead = c.here :: c.advance.ahead := by
  obtain ⟨t, rest, e⟩ := List.exists_cons_of_ne_nil h
  rw [advance_eq e, ahead, e]
  rfl

/-- Where another token follows the one at hand, the cursor moves on to it. -/
lemma advance_of_ahead {c : Cursor} {t u : Token} {ts : List Token} (h : c.ahead = t :: u :: ts) :
    c.here = t ∧ c.advance.ahead = u :: ts := by
  obtain ⟨rfl, hafter⟩ := List.cons.inj h
  rw [advance_eq hafter]
  exact ⟨rfl, rfl⟩

/-- Where other tokens follow the one at hand, they are ahead of the cursor once it has moved on. -/
lemma advance_of_ne_nil {c : Cursor} {t : Token} {ts : List Token} (h : c.ahead = t :: ts) (hne : ts ≠ []) :
    c.here = t ∧ c.advance.ahead = ts := by
  obtain ⟨u, us, rfl⟩ := List.exists_cons_of_ne_nil hne
  exact advance_of_ahead h

/-- The tokens that a cursor is moved over were ahead of it. -/
lemma Passes.ahead_eq {c d : Cursor} {ts : List Token} (h : c.Passes d ts) :
    c.ahead = ts ++ d.ahead := by
  induction ts generalizing c with
  | nil =>
    obtain rfl : c = d := h
    rfl
  | cons t ts ih =>
    obtain ⟨rfl, hafter, h⟩ := h
    rw [ahead_eq_cons hafter, ih h]
    rfl

/-- A cursor can be moved over all but the last of the tokens ahead. -/
lemma exists_passes {c : Cursor} {ts rest : List Token} {t : Token} (h : c.ahead = ts ++ t :: rest) :
    ∃ d, c.Passes d ts ∧ d.ahead = t :: rest := by
  induction ts generalizing c with
  | nil => exact ⟨c, rfl, h⟩
  | cons u ts ih =>
    obtain ⟨hhere, hafter⟩ := List.cons.inj h
    have hne : c.after ≠ [] := by
      rw [hafter]
      simp
    rw [ahead_eq_cons hne] at h
    obtain ⟨d, hpass, hd⟩ := ih (List.cons.inj h).2
    exact ⟨d, ⟨hhere, hne, hpass⟩, hd⟩

/-- The token behind a cursor is the last one that it was moved over. -/
lemma Passes.previous_eq {c d : Cursor} {ts : List Token} {t : Token} (h : c.Passes d (ts ++ [t])) :
    d.previous = t := by
  obtain ⟨m, -, hhere, hafter, rfl⟩ := passes_append.1 h
  obtain ⟨u, rest, e⟩ := List.exists_cons_of_ne_nil hafter
  rw [advance_eq e]
  exact hhere

/-- A cursor is moved over as many tokens as there are. -/
lemma Passes.skip_eq {c d : Cursor} {ts : List Token} (h : c.Passes d ts) : c.skip ts.length = d := by
  induction ts generalizing c with
  | nil => exact h
  | cons t ts ih => exact ih h.2.2

/-! ## Parameters ahead -/

/-- What holds of any cursor and no parameters, of a tilde and a name, and of a name before parameters of
which it holds, holds of every cursor and the parameters ahead of it. -/
@[elab_as_elim]
lemma Ends.parameters_induction {motive : Cursor → List Parameter → Prop}
    (none : ∀ {c : Cursor}, c.Ends → motive c [])
    (rest : ∀ {c : Cursor}, c.Ends → c.here.isSymbol "~" → c.advance.here.kind = .identifier →
      motive c [⟨c.advance.here.lexeme, true⟩])
    (name : ∀ {c : Cursor} {params : List Parameter}, c.Ends → c.here.kind = .identifier →
      motive c.advance params → motive c (⟨c.here.lexeme, false⟩ :: params))
    {c : Cursor} (ends : c.Ends) : motive c (Parameter.listOf c.ahead) := by
  induction hlength : c.after.length generalizing c with
  | zero =>
    -- only the end of the input is left, and it is no parameter
    have hnil : c.after = [] := List.eq_nil_of_length_eq_zero hlength
    have hk : c.here.kind = .ending := by simpa [Ends, Cursor.last, hnil] using ends
    rw [ahead, Parameter.listOf_eq_nil (by simp [hk]) (Token.isSymbol_of_kind (by simp [hk]) _)]
    exact none ends
  | succ n ih =>
    have hafter : c.after ≠ [] := by
      rintro hnil
      simp [hnil] at hlength
    rw [ahead_eq_cons hafter]
    by_cases hid : c.here.kind = .identifier
    · rw [Parameter.listOf_name hid]
      have hlt := ends.length_advance (by simp [hid])
      exact name ends hid (ih ends.advance (by omega))
    · rw [Parameter.listOf_other hid, ahead, Parameter.restOf]
      split
      · next h =>
        rw [Bool.and_eq_true, decide_eq_true_eq] at h
        exact rest ends h.1 h.2
      · exact none ends

/-- The head of a function is its parameters and a question mark. -/
lemma lambdaHead?_eq_some {c : Cursor} {params : List Parameter} (h : c.lambdaHead? = some params) :
    params = Parameter.listOf c.ahead ∧ (c.skip (Parameter.listWidth params)).here.isSymbol "?" := by
  unfold lambdaHead? at h
  dsimp only at h
  split at h
  · cases h
  · split at h
    · next hq =>
      cases h
      exact ⟨rfl, hq⟩
    · cases h

/-- A head of a function has parameters. -/
lemma ne_nil_of_lambdaHead? {c : Cursor} {params : List Parameter} (h : c.lambdaHead? = some params) :
    params ≠ [] := by
  rintro rfl
  unfold lambdaHead? at h
  dsimp only at h
  split_ifs at h with hempty
  simp [Option.some.inj h] at hempty

end SignLang.Cursor
