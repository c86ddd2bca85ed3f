import SignLang.Proofs.Parser.Level

/-!
# Readers that agree

The functions of the parser read one form each, with a reader for the expressions inside it. If two readers
agree on all cursors with fewer tokens ahead (`Settles`), so do the functions: they come to the same outcome,
and fail only in ways that are allowed (`Allows`). One lemma for each function says so, and the limits on
turns do not show, because every turn reads a token.

A failure that a function adds of its own is a plain one, about the tokens next to the cursor, or a group that
is not closed where its inside has been read.
-/

namespace SignLang

namespace Cursor

/-- The cursor stands in the list, which ends with the end of the input, and has fewer than `n` tokens after
the one at hand. -/
structure Within (tokens : List Token) (n : Nat) (c : Cursor) : Prop where
  tokens_eq : c.tokens = tokens
  ends : c.Ends
  length_lt : c.after.length < n

namespace Within

variable {tokens : List Token} {n : Nat} {c : Cursor}

/-- Moving on stays in the list. -/
lemma advance (h : c.Within tokens n) : c.advance.Within tokens n :=
  ⟨c.tokens_advance.trans h.tokens_eq, h.ends.advance, c.length_advance_le.trans_lt h.length_lt⟩

lemma skip (h : c.Within tokens n) (k : Nat) : (c.skip k).Within tokens n :=
  ⟨(Reaches.tokens_eq ⟨k, rfl⟩).trans h.tokens_eq, h.ends.skip k, (c.length_skip_le k).trans_lt h.length_lt⟩

/-- Before the end of the input, moving on leaves fewer tokens. -/
lemma advance_succ (h : c.Within tokens (n + 1)) (hk : c.here.kind ≠ .ending) : c.advance.Within tokens n :=
  ⟨h.advance.tokens_eq, h.advance.ends, by
    have := h.ends.length_advance hk
    have := h.length_lt
    omega⟩

/-- A cursor stays in the list when something is read. -/
lemma read (h : c.Within tokens n) {task e d} (hread : Parser.Reads task c e d) : d.Within tokens n :=
  ⟨hread.reaches.tokens_eq.trans h.tokens_eq, (hread.progress h.ends).1, by
    have := (hread.progress h.ends).2
    have := h.length_lt
    omega⟩

/-- What takes a token leaves fewer of them. -/
lemma read_succ (h : c.Within tokens (n + 1)) {task e d} (hread : Parser.Reads task c e d)
    (hgain : task.gain = 1) : d.Within tokens n :=
  ⟨hread.reaches.tokens_eq.trans h.tokens_eq, (hread.progress h.ends).1, by
    have := (hread.progress h.ends).2
    have := h.length_lt
    omega⟩

end Within

end Cursor

namespace Parser

open Cursor

/-- The outcomes are the same, and they fail only as `allowed` says. -/
def Settled {α : Type} (allowed : Failure → Prop) (x y : Except Failure α) : Prop :=
  y = x ∧ ∀ f, x = .error f → allowed f

/-- A fault that is about the tokens next to the cursor. -/
def Fault.IsPlain : Fault → Prop
  | .missingOperand .. | .expectedOperand _ | .badParameters | .emptyBars => True
  | _ => False

/-- What may go wrong in a form of the list is allowed: a plain fault, and a group whose inside is read up to
a token that does not close it. -/
structure Allows (tokens : List Token) (allowed : Failure → Prop) : Prop where
  plain : ∀ f : Failure, f.fault.IsPlain → allowed f
  unclosed : ∀ c d : Cursor, c.tokens = tokens → c.Ends → c.here.kind = .opening → c.advance.Levels d →
    d.here.kind ≠ .closing → allowed ⟨.unclosed c.here d.here, d, d⟩

/-- The readers agree on the cursors of a list that have fewer than `n` tokens after the one at hand. -/
structure Settles (tokens : List Token) (n : Nat) (allowed : Failure → Prop) (parse parse' : Reader) :
    Prop where
  same : ∀ (p : Nat) (c : Cursor), c.Within tokens n → Settled allowed (parse p c) (parse' p c)
  sound : Sound parse

namespace Settled

variable {α β : Type} {allowed : Failure → Prop}

lemma ok (a : α) : Settled allowed (.ok a) (.ok a) :=
  ⟨rfl, fun f hf => by cases hf⟩

lemma error {f : Failure} (h : allowed f) : Settled allowed (.error f : Except Failure α) (.error f) :=
  ⟨rfl, fun g hg => by cases hg; exact h⟩

/-- What goes on after a settled outcome is settled. -/
lemma bind {x y : Except Failure α} {f g : α → Except Failure β} (h : Settled allowed x y)
    (hfg : ∀ a, x = .ok a → Settled allowed (f a) (g a)) : Settled allowed (x >>= f) (y >>= g) := by
  obtain ⟨rfl, hx⟩ := h
  cases y with
  | error failure => exact error (hx failure rfl)
  | ok a => exact hfg a rfl

/-- What is made of a settled outcome is settled. -/
lemma map {x y : Except Failure α} (h : Settled allowed x y) (f : α → β) :
    Settled allowed (x.map f) (y.map f) := by
  obtain ⟨rfl, hx⟩ := h
  cases y with
  | error failure => exact error (hx failure rfl)
  | ok a => exact ok _

/-- Both outcomes are chosen by one condition. -/
lemma ite {p : Prop} [Decidable p] {x x' y y' : Except Failure α} (h : p → Settled allowed x x')
    (h' : ¬p → Settled allowed y y') : Settled allowed (if p then x else y) (if p then x' else y') := by
  split
  · next hp => exact h hp
  · next hp => exact h' hp

end Settled

section Readers

variable {tokens : List Token} {n : Nat} {allowed : Failure → Prop} {parse parse' : Reader} {c d : Cursor}

/-- A group whose inside has been read is closed alike. -/
lemma Allows.expectClosing (allows : Allows tokens allowed) (hc : c.tokens = tokens) (ends : c.Ends)
    (hk : c.here.kind = .opening) (hlevels : c.advance.Levels d) :
    Settled allowed (expectClosing c d) (expectClosing c d) :=
  .ite (fun _ => .ok _) fun hclosing => .error (allows.unclosed c d hc ends hk hlevels hclosing)

/-- What is read of a group without left operand is level. -/
lemma Sound.levels_pointFree (sound : Sound parse) (ends : c.Ends) (hfree : c.headsPointFree) {r : Expr × Cursor}
    (hr : Parser.parsePointFree parse c = .ok r) : c.Levels r.2 := by
  have hop := Levels.of_operator ends (kind_of_headsPointFree hfree)
  unfold Parser.parsePointFree at hr
  dsimp only at hr
  split at hr
  · cases hr
    exact hop
  · obtain ⟨⟨preset, m⟩, hright, hr⟩ := bind_eq_ok.1 hr
    cases hr
    have hread := sound (parseRight_eq_ok.1 hright).2
    exact hop.trans ((hread.levels ends.advance).trans (levels_pastComma (hread.progress ends.advance).1))

variable (h : Settles tokens n allowed parse parse')
include h

/-- Statements are read alike. -/
lemma Settles.parseStatements {turns turns' : List Token} (hc : c.Within tokens n)
    (hturns : c.after.length ≤ turns.length) (hturns' : c.after.length ≤ turns'.length) :
    Settled allowed (parseStatements parse turns c) (parseStatements parse' turns' c) := by
  induction turns generalizing turns' c with
  | nil =>
    unfold Parser.parseStatements
    refine .ite (fun _ => .ok _) fun _ => .bind (h.same 0 c hc) fun r hr => ?_
    have := ((h.sound hr).progress hc.ends).2
    simp only [List.length_nil, Task.gain] at *
    omega
  | cons t turns ih =>
    unfold Parser.parseStatements
    refine .ite (fun _ => .ok _) fun _ => .bind (h.same 0 c hc) fun r hr => ?_
    have hlt : r.2.after.length + 1 ≤ c.after.length := ((h.sound hr).progress hc.ends).2
    obtain ⟨t', turns', rfl, hle⟩ := exists_cons_of_lt_length (hlt.trans hturns')
    have hle' := r.2.length_advance_le
    rw [List.length_cons] at hturns
    exact .ite (fun _ => .bind (ih (hc.read (h.sound hr)).advance (by omega) (by omega)) fun _ _ => .ok _)
      fun _ => .ok _

/-- A sequence is read alike. -/
lemma Settles.parseSequence (hc : c.Within tokens n) :
    Settled allowed (parseSequence parse c) (parseSequence parse' c) :=
  .bind (h.parseStatements hc le_rfl le_rfl) fun _ _ => .ok _

variable (allows : Allows tokens allowed)
include allows

/-- A right operand is read alike. -/
lemma Settles.parseRight (operator : Cursor) (p : Nat) (hc : c.Within tokens n) :
    Settled allowed (parseRight parse operator p c) (parseRight parse' operator p c) :=
  .ite (fun _ => h.same p c hc) fun _ => .error (allows.plain _ trivial)

/-- The inside of a group without left operand is read alike. -/
lemma Settles.parsePointFree (hc : c.Within tokens n) :
    Settled allowed (parsePointFree parse c) (parsePointFree parse' c) :=
  .ite (fun _ => .ok _) fun _ => .bind (h.parseRight allows c _ hc.advance) fun _ _ => .ok _

/-- A group is read alike. -/
lemma Settles.parseGroup (hc : c.Within tokens (n + 1)) (hk : c.here.kind = .opening) :
    Settled allowed (parseGroup parse c) (parseGroup parse' c) := by
  have hinner := hc.advance_succ (by simp [hk])
  have hclose {d : Cursor} (hlevels : c.advance.Levels d) :=
    allows.expectClosing hc.tokens_eq hc.ends hk hlevels
  have hsequence {r : Expr × Cursor} (hr : Parser.parseSequence parse c.advance = .ok r) :
      c.advance.Levels r.2 := (Sound.sequence h.sound hr).levels hinner.ends
  unfold Parser.parseGroup
  refine .ite (fun _ => .ite (fun _ => .error (allows.plain _ trivial)) fun _ => ?_)
    fun _ => .ite (fun _ => .ok _) fun _ => ?_
  · exact .bind (h.parseSequence hinner) fun r hr => .bind (hclose (hsequence hr)) fun _ _ => .ok _
  · refine .ite (fun hfree => ?_) fun _ => ?_
    · exact .bind (h.parsePointFree allows hinner) fun r hr =>
        .bind (hclose (Sound.levels_pointFree h.sound hinner.ends hfree hr)) fun _ _ => .ok _
    · exact .bind (h.parseSequence hinner) fun r hr => .bind (hclose (hsequence hr)) fun _ _ => .ok _

/-- A definition is read alike. -/
lemma Settles.parseDefine (hc : c.Within tokens (n + 1)) (hk : c.here.kind = .identifier) :
    Settled allowed (parseDefine parse c) (parseDefine parse' c) :=
  .bind (h.parseRight allows c.advance _ (hc.advance_succ (by simp [hk])).advance) fun _ _ => .ok _

/-- A function is read alike. -/
lemma Settles.parseLambda {params : List Parameter} (hc : c.Within tokens (n + 1))
    (hq : (c.skip (Parameter.listWidth params)).here.isSymbol "?") :
    Settled allowed (parseLambda parse params c) (parseLambda parse' params c) :=
  .bind (h.parseRight allows _ _ ((hc.skip _).advance_succ (by simp [kind_of_isSymbol hq]))) fun _ _ => .ok _

/-- An operand is read alike by its first token. -/
lemma Settles.parsePrimary (hc : c.Within tokens (n + 1)) :
    Settled allowed (parsePrimary parse c) (parsePrimary parse' c) := by
  unfold Parser.parsePrimary
  split
  case h_6 hk => exact h.parseGroup allows hc hk
  case h_7 hk =>
    refine .ite (fun hq => h.parseLambda allows hc ?_) fun _ => ?_
    · change c.here.isSymbol "?"
      simp [Token.isSymbol, hk, hq]
    split
    · exact .bind (h.parseRight allows c _ (hc.advance_succ (by simp [hk]))) fun _ _ => .ok _
    · exact .error (allows.plain _ trivial)
  case h_8 => exact .error (allows.plain _ trivial)
  all_goals exact .ok _

/-- An operand is read alike. -/
lemma Settles.parseOperand (p : Nat) (hc : c.Within tokens (n + 1)) :
    Settled allowed (parseOperand parse p c) (parseOperand parse' p c) := by
  unfold Parser.parseOperand
  refine .ite (fun hdef => h.parseDefine allows hc ?_) fun _ => ?_
  · rw [Bool.and_eq_true] at hdef
    exact (startsDefine_iff.1 hdef.2).1
  · split
    · next params hhead =>
      split at hhead
      · exact h.parseLambda allows hc (lambdaHead?_eq_some hhead).2
      · cases hhead
    · exact h.parsePrimary allows hc

/-- An operator takes its right operand alike. -/
lemma Settles.parseJoin (op : Operator) (left : Left) (hc : c.Within tokens n) :
    Settled allowed (parseJoin parse op left c) (parseJoin parse' op left c) := by
  have hright := h.parseRight allows c op.rightPower hc.advance
  unfold Parser.parseJoin
  refine .ite (fun _ => .bind hright fun _ _ => .ok _) fun _ => .ite (fun _ => ?_)
    fun _ => .bind hright fun _ _ => .ok _
  split
  · exact .error (allows.plain _ trivial)
  · exact .bind hright fun _ _ => .ok _

/-- What follows an operand is read alike. -/
lemma Settles.climb (p : Nat) {turns turns' : List Token} (left : Left) (hc : c.Within tokens n)
    (hturns : c.after.length ≤ turns.length) (hturns' : c.after.length ≤ turns'.length) :
    Settled allowed (climb parse p turns left c) (climb parse' p turns' left c) := by
  induction turns generalizing turns' left c with
  | nil =>
    have hstop : moveAt p c = .stop := by
      by_contra hmove
      have := hc.ends.length_advance (mt moveAt_ending hmove)
      simp only [List.length_nil] at hturns
      omega
    unfold Parser.climb
    rw [hstop]
    exact .ok _
  | cons t turns ih =>
    by_cases hstop : moveAt p c = .stop
    · unfold Parser.climb
      rw [hstop]
      exact .ok _
    -- each further step takes a token, so there is a turn for it on both sides
    have hlt := hc.ends.length_advance (mt moveAt_ending hstop)
    rw [List.length_cons] at hturns
    obtain ⟨t', turns', rfl, hle⟩ := exists_cons_of_lt_length (hlt.le.trans hturns')
    unfold Parser.climb
    cases hmove : moveAt p c with
    | stop => exact absurd hmove hstop
    | trail => exact ih _ hc.advance (by omega) hle
    | join op =>
      refine .bind (h.parseJoin allows op left hc) fun r hr => ?_
      obtain ⟨e, -, hread, -⟩ := Sound.join h.sound hr
      have hlt' : r.2.after.length + 1 ≤ c.advance.after.length := (hread.progress hc.advance.ends).2
      exact ih r.1 (hc.advance.read hread) (by omega) (by omega)
    | argue =>
      refine .bind (h.same _ c hc) fun r hr => ?_
      have hlt' : r.2.after.length + 1 ≤ c.after.length := ((h.sound hr).progress hc.ends).2
      exact ih _ (hc.read (h.sound hr)) (by omega) (by omega)

end Readers

variable {tokens : List Token} {n depth depth' : Nat} {allowed : Failure → Prop}

/-- The parser reads alike with one more expression nested, where there is one more token. -/
lemma Settles.parseExpr (allows : Allows tokens allowed)
    (h : Settles tokens n allowed (parseExpr depth) (parseExpr depth')) :
    Settles tokens (n + 1) allowed (Parser.parseExpr (depth + 1)) (Parser.parseExpr (depth' + 1)) := by
  refine ⟨fun p c hc => .bind (h.parseOperand allows p hc) fun r hr => ?_, Reads.of_parseExpr _⟩
  exact h.climb allows p _ (hc.read_succ (Sound.operand h.sound hr) rfl) le_rfl le_rfl

end Parser

end SignLang
