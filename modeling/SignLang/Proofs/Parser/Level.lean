import SignLang.Proofs.Brackets
import SignLang.Proofs.Parser.Abreast

/-!
# What the parser reads is level

The tokens of whatever the parser reads close the brackets that they open, and no others
(`Reads.levels`). A sequence of statements is therefore read as an expression only if it stands in
brackets of its own, with a separator inside (`Reads.wraps`).
-/

namespace SignLang

namespace Cursor

/-- The tokens between two cursors close the brackets that they open. -/
def Levels (c d : Cursor) : Prop :=
  ∃ ts, c.Passes d ts ∧ heightAfter 0 ts = some 0

/-- There is a separator between two cursors. -/
def Divides (c d : Cursor) : Prop :=
  ∃ ts, c.Passes d ts ∧ ∃ t ∈ ts, t.kind = .separator

/-- Between two cursors there is a group of several statements. -/
def Wraps (c d : Cursor) : Prop :=
  c.here.kind = .opening ∧ ∃ ts last, c.Passes d (c.here :: (ts ++ [last])) ∧ heightAfter 0 ts = some 0 ∧
    ∃ t ∈ ts, t.kind = .separator

variable {c d m : Cursor}

lemma Levels.refl (c : Cursor) : c.Levels c :=
  ⟨[], rfl, rfl⟩

lemma Levels.trans (h : c.Levels m) (h' : m.Levels d) : c.Levels d := by
  obtain ⟨ts, hpass, hts⟩ := h
  obtain ⟨us, hpass', hus⟩ := h'
  exact ⟨ts ++ us, passes_append.2 ⟨m, hpass, hpass'⟩, by rw [heightAfter_append, hts]; exact hus⟩

/-- A cursor before the end of the input is moved over the token at hand. -/
lemma Ends.passes (ends : c.Ends) (hk : c.here.kind ≠ .ending) : c.Passes c.advance [c.here] := by
  obtain ⟨t, rest, hafter⟩ := ends.exists_after hk
  exact ⟨rfl, by simp [hafter], rfl⟩

lemma Levels.advance (ends : c.Ends) (hk : c.here.kind ≠ .ending) (hb : c.here.isBracket = false) :
    c.Levels c.advance :=
  ⟨[c.here], ends.passes hk, heightAfter_other hb 0 []⟩

lemma Levels.of_operator (ends : c.Ends) (hk : c.here.kind = .operator) : c.Levels c.advance :=
  .advance ends (by simp [hk]) (by simp [Token.isBracket, hk])

/-- A bracket, a level part and a bracket are level. -/
lemma Levels.group (ends : c.Ends) (ends' : d.Ends) (hc : c.here.kind = .opening)
    (hd : d.here.kind = .closing) (h : c.advance.Levels d) : c.Levels d.advance := by
  obtain ⟨ts, hpass, hts⟩ := h
  refine ⟨[c.here] ++ (ts ++ [d.here]), passes_append.2 ⟨_, ends.passes (by simp [hc]),
    passes_append.2 ⟨_, hpass, ends'.passes (by simp [hd])⟩⟩, ?_⟩
  have hone : heightAfter 1 ts = some 1 := heightAfter_add 1 hts
  rw [List.singleton_append, heightAfter_opening hc, heightAfter_append, hone, Option.bind_some,
    heightAfter_closing hd]
  rfl

lemma Levels.skip (ends : c.Ends) {n : Nat}
    (hn : ∀ t ∈ c.ahead.take n, t.kind = .identifier ∨ t.kind = .operator) : c.Levels (c.skip n) := by
  induction n generalizing c with
  | zero => exact .refl c
  | succ n ih =>
    have hk := hn c.here (by simp [ahead])
    have hending : c.here.kind ≠ .ending := by rcases hk with hk | hk <;> simp [hk]
    obtain ⟨t, rest, hafter⟩ := ends.exists_after hending
    have hlevel : c.Levels c.advance :=
      .advance ends hending (by rcases hk with hk | hk <;> simp [Token.isBracket, hk])
    refine hlevel.trans (ih ends.advance fun t ht => hn t ?_)
    rw [ahead_eq_cons (by simp [hafter]), List.take_succ_cons]
    exact List.mem_cons_of_mem _ ht

end Cursor

namespace Parser

open Cursor

/-- The comma or separator that may end a group is no bracket. -/
lemma levels_pastComma {c : Cursor} (ends : c.Ends) : c.Levels (pastComma c) := by
  rcases pastComma_cases c with heq | ⟨heq, h | h⟩ <;> rw [heq]
  · exact .refl c
  · exact .of_operator ends (kind_of_isSymbol h)
  · exact .advance ends (by simp [h]) (by simp [Token.isBracket, h])

/-- A token that is an expression alone is no bracket. -/
lemma isBracket_of_atom? {t : Token} {e : Expr} (h : atom? t = some e) : t.isBracket = false := by
  rcases t.bracket_cases with hk | hk | hk
  · simp [atom?, hk] at h
  · simp [atom?, hk] at h
  · exact hk

/-- A token that the parser goes on with after an operand, other than an argument, is an operator. -/
lemma kind_of_moveAt {p : Nat} {c : Cursor} {move : Move} (h : moveAt p c = move) (hstop : move ≠ .stop)
    (hargue : move ≠ .argue) : c.here.kind = .operator := by
  by_contra hk
  rw [moveAt, if_neg hk, argumentMove] at h
  split at h
  · exact hargue h.symm
  · exact hstop h.symm

/-- Whatever is read closes the brackets that it opens. -/
theorem Reads.levels {task c e d} (h : Reads task c e d) (ends : c.Ends) : c.Levels d := by
  induction h with
  | done _ | stop _ => exact .refl _
  | last _ _ _ ih | primary _ _ _ ih => exact ih ends
  | more _ he hsep _ ih ih' =>
    have ends' := (he.progress ends).1
    exact (ih ends).trans ((Levels.advance ends' (by simp [hsep]) (by simp [Token.isBracket, hsep])).trans
      (ih' ends'.advance))
  | expr he _ ih ih' => exact (ih ends).trans (ih' (he.progress ends).1)
  | @define p c e d _ hstarts _ _ ih =>
    obtain ⟨hid, hk, -⟩ := of_startsDefine hstarts
    exact (Levels.advance ends (by simp [hid]) (by simp [Token.isBracket, hid])).trans
      ((Levels.of_operator ends.advance hk).trans (ih ends.advance.advance))
  | @lambda p c params e d _ _ hhead _ _ ih =>
    obtain ⟨rfl, hq⟩ := lambdaHead?_eq_some hhead
    exact ((Levels.skip ends (kind_of_mem_parameters c.ahead)).trans
      (.of_operator (ends.skip _) (kind_of_isSymbol hq))).trans (ih (ends.skip _).advance)
  | atom ha => exact .advance ends (kind_ne_ending_of_atom? ha) (isBracket_of_atom? ha)
  | thunk hq _ _ ih => exact (Levels.of_operator ends (kind_of_isSymbol hq)).trans (ih ends.advance)
  | leading hk _ _ _ _ _ ih => exact (Levels.of_operator ends hk).trans (ih ends.advance)
  | bars hc _ _ hs hclosing ih | group hc _ _ _ hs hclosing ih =>
    exact .group ends (hs.progress ends.advance).1 hc hclosing (ih ends.advance)
  | emptyGroup hc _ hclosing => exact .group ends ends.advance hc hclosing (.refl _)
  | bareSymbol hc _ hfree hclosing =>
    exact .group ends ends.advance.advance hc hclosing
      (.of_operator ends.advance (kind_of_headsPointFree hfree))
  | preset hc _ hfree _ he hclosing ih =>
    have ends' := (he.progress ends.advance.advance).1
    exact .group ends (pastComma_progress ends').1 hc hclosing
      ((Levels.of_operator ends.advance (kind_of_headsPointFree hfree)).trans
        ((ih ends.advance.advance).trans (levels_pastComma ends')))
  | trail hmove _ ih =>
    exact (Levels.of_operator ends (kind_of_moveAt hmove (by simp) (by simp))).trans
      (ih ends.advance)
  | join hmove _ he _ _ ih ih' =>
    exact (Levels.of_operator ends (kind_of_moveAt hmove (by simp) (by simp))).trans
      ((ih ends.advance).trans (ih' (he.progress ends.advance).1))
  | argue _ he _ ih ih' => exact (ih ends).trans (ih' (he.progress ends).1)

/-- What a task has moved over if it has read a sequence of statements that is no single one. -/
def Task.Gathers (c : Cursor) (e : Expr) (d : Cursor) : Task → Prop
  | .statements read => read = [] → ¬(c.here.kind = .closing ∨ c.here.kind = .ending) → c.Divides d
  | .climb _ left => left.expr = e ∧ d = c
  | _ => c.Wraps d

/-- A joined expression is no sequence. -/
lemma join?_ne_block {left left' : Left} {symbol : String} {e : Expr} {es : List Expr}
    (h : left.join? symbol e = some left') : left'.expr ≠ .block es := by
  obtain ⟨-, rfl⟩ | ⟨-, params, -, rfl⟩ | ⟨-, -, rfl⟩ := Left.join?_cases h
  · cases left <;> simp [Left.element, Left.expr]
  · simp [Left.expr]
  · unfold joined
    repeat' split
    all_goals simp [Left.expr]

/-- Nothing is read where no statement starts. -/
lemma Reads.eq_of_stop {read : List Expr} {c d : Cursor} {e : Expr} (h : Reads (.statements read) c e d)
    (hstop : c.here.kind = .closing ∨ c.here.kind = .ending) : d = c := by
  cases h with
  | done => rfl
  | last hgo | more hgo => exact absurd hstop hgo

/-- A sequence of statements is read in brackets of its own. -/
lemma Reads.gathers {task c e d} (h : Reads task c e d) (ends : c.Ends) {es : List Expr}
    (he : e = .block es) : task.Gathers c e d := by
  induction h with
  | done hstop => exact fun _ hgo => absurd hstop hgo
  | @last read c e d hgo hreads hsep ih =>
    rintro rfl -
    rw [List.nil_append] at he
    obtain ⟨-, ts, last, hpass, -, t, ht, hkind⟩ := ih ends he
    exact ⟨_, hpass, t, by simp [ht], hkind⟩
  | @more read c e d f d' hgo hreads hsep hrest _ _ =>
    rintro - -
    have ends' := (hreads.progress ends).1
    obtain ⟨ts, hpass, -⟩ := hreads.levels ends
    obtain ⟨us, hpass', -⟩ := hrest.levels ends'.advance
    exact ⟨ts ++ ([d.here] ++ us), passes_append.2 ⟨d, hpass, passes_append.2
      ⟨d.advance, ends'.passes (by simp [hsep]), hpass'⟩⟩, d.here, by simp, hsep⟩
  | expr hoperand _ ih ih' =>
    obtain ⟨rfl, rfl⟩ := ih' (hoperand.progress ends).1 he
    exact ih ends he
  | primary _ _ _ ih => exact ih ends he
  | @group c e d hc _ hne _ hreads hclosing ih =>
    have ends' := (hreads.progress ends.advance).1
    obtain ⟨ts, hpass, hlevel⟩ := hreads.levels ends.advance
    obtain ⟨us, hpass', t, ht, hsep⟩ := ih ends.advance he rfl fun hstop => by
      rw [hreads.eq_of_stop hstop] at hclosing
      exact hne hclosing
    obtain rfl : us = ts := List.append_cancel_right (hpass'.ahead_eq.symm.trans hpass.ahead_eq)
    have hgroup : c.Passes d.advance ([c.here] ++ (us ++ [d.here])) :=
      passes_append.2 ⟨_, ends.passes (by simp [hc]), passes_append.2 ⟨_, hpass,
        ends'.passes (by simp [hclosing])⟩⟩
    exact ⟨hc, us, d.here, hgroup, hlevel, t, ht, hsep⟩
  | stop _ => exact ⟨rfl, rfl⟩
  | @trail p left c e d _ hrest ih =>
    obtain ⟨h, -⟩ := ih ends.advance he
    exact absurd (h.trans he) (by simp [Left.expr])
  | join _ _ hreads hjoin _ _ ih =>
    obtain ⟨h, -⟩ := ih (hreads.progress ends.advance).1 he
    exact absurd (h.trans he) (join?_ne_block hjoin)
  | @argue p left c e d f d' _ hreads _ _ ih =>
    obtain ⟨h, -⟩ := ih (hreads.progress ends).1 he
    exact absurd (h.trans he) (by cases left <;> simp [Left.argument, Left.expr])
  | atom ha =>
    rw [he] at ha
    unfold atom? at ha
    split at ha <;> cases ha
  | _ => cases he

/-- A sequence of statements that is read as one expression is a group. -/
theorem Reads.wraps {p : Nat} {c d : Cursor} {es : List Expr} (h : Reads (.expr p) c (.block es) d)
    (ends : c.Ends) : c.Wraps d :=
  h.gathers ends rfl

end Parser

end SignLang
