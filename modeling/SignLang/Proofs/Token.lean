import Mathlib
import SignLang.Cursor

/-!
# Tokens at other places

Two texts that differ in their spaces or their line ends have the same tokens at other places.
`Token.Same` compares tokens without their places, and `Token.Matches` also says where a token has gone:
`place n m` means that the offset `n` of one text is the offset `m` of the other. As long as `place` is
one to one, tokens of one text touch exactly if their matches do (`Token.Matches.touches_eq`).
-/

namespace SignLang.Token

/-- The token `u` is `t` at some other place. -/
structure Same (t u : Token) : Prop where
  kind_eq : u.kind = t.kind
  lexeme_eq : u.lexeme = t.lexeme
  synthetic_eq : u.synthetic = t.synthetic

/-- The token `u` is `t` moved by a distance. -/
structure Moved (distance : Int) (t u : Token) : Prop extends Same t u where
  offset_eq : u.offset = t.offset + distance

/-- The token `u` is `t`, which does not end the input, where `place` puts it. A synthetic token borrows
its place, so it may be put anywhere; no operator is synthetic. -/
structure Matches (place : Int → Int → Prop) (t u : Token) : Prop extends Same t u where
  inside : t.kind ≠ .ending
  placed : t.synthetic = false ∨ t.kind = .operator → place t.offset u.offset ∧ place t.stop u.stop

variable {t u t' u' : Token}

namespace Same

lemma symm (h : t.Same u) : u.Same t :=
  ⟨h.kind_eq.symm, h.lexeme_eq.symm, h.synthetic_eq.symm⟩

lemma trans (h : t.Same u) (h' : u.Same u') : t.Same u' :=
  ⟨h'.kind_eq.trans h.kind_eq, h'.lexeme_eq.trans h.lexeme_eq, h'.synthetic_eq.trans h.synthetic_eq⟩

lemma startsOperand_eq (h : t.Same u) : u.startsOperand = t.startsOperand := by
  rw [startsOperand, startsOperand, h.kind_eq, h.lexeme_eq]

lemma isSymbol_eq (h : t.Same u) (symbol : String) : u.isSymbol symbol = t.isSymbol symbol := by
  rw [isSymbol, isSymbol, h.kind_eq, h.lexeme_eq]

lemma isOperator_eq (h : t.Same u) (symbols : List String) :
    u.isOperator symbols = t.isOperator symbols := by
  rw [isOperator, isOperator, h.kind_eq, h.lexeme_eq]

lemma payload_eq (h : t.Same u) : u.payload = t.payload := by
  rw [payload, payload, h.kind_eq, h.lexeme_eq]

lemma level_eq (h : t.Same u) : u.level = t.level := by
  rw [level, level, h.kind_eq, h.lexeme_eq]

end Same

/-- A moved token ends where the token does, moved. -/
lemma Moved.stop_eq {distance : Int} (h : t.Moved distance u) : u.stop = t.stop + distance := by
  rw [Token.stop, Token.stop, h.lexeme_eq, h.offset_eq]
  omega

/-- Places that are a distance apart. -/
def Shift (distance i j : Int) : Prop :=
  j = i + distance

lemma Shift.biUnique (distance : Int) : Relator.BiUnique (Shift distance) := by
  unfold Shift
  exact ⟨fun i j k h h' => by omega, fun i j k h h' => by omega⟩

/-- A token that is moved matches the one at its place. -/
lemma Moved.matches {distance : Int} (h : t.Moved distance u) (ht : t.kind ≠ .ending) :
    t.Matches (Shift distance) u :=
  ⟨h.toSame, ht, fun _ => ⟨h.offset_eq, h.stop_eq⟩⟩

namespace Matches

variable {place : Int → Int → Prop}

/-- Synthetic tokens that say the same match, wherever they are borrowed from. -/
lemma borrow (t u : Token) {k : Kind} (hk : k ≠ .operator ∧ k ≠ .ending) (lexeme : String) :
    (t.borrow k lexeme).Matches place (u.borrow k lexeme) := by
  refine ⟨⟨rfl, rfl, rfl⟩, hk.2, fun h => ?_⟩
  rcases h with h | h
  · cases h
  · exact absurd h hk.1

/-- Written tokens touch exactly if their matches do. -/
lemma touches_eq (unique : Relator.BiUnique place) (h : t.Matches place t') (h' : u.Matches place u')
    (ht : t.synthetic = false ∨ t.kind = .operator) (hu : u.synthetic = false ∨ u.kind = .operator) :
    t'.touches u' = t.touches u := by
  have hstop := (h.placed ht).2
  have hoffset := (h'.placed hu).1
  rw [touches, touches, decide_eq_decide]
  constructor
  · intro heq
    rw [heq] at hstop
    exact unique.1 hstop hoffset
  · intro heq
    rw [heq] at hstop
    exact unique.2 hstop hoffset

/-- A token that is moved is moved back. -/
lemma shift_symm {distance : Int} (h : t.Matches (Shift distance) u) : u.Matches (Shift (-distance)) t := by
  refine ⟨h.toSame.symm, by rw [h.kind_eq]; exact h.inside, fun hu => ?_⟩
  rw [h.synthetic_eq, h.kind_eq] at hu
  obtain ⟨hoffset, hstop⟩ := h.placed hu
  unfold Shift at *
  omega

/-- Two places of one token are a distance apart. -/
lemma shift_sub {distance distance' : Int} (h : t.Matches (Shift distance) u)
    (h' : t.Matches (Shift distance') u') : u.Matches (Shift (distance' - distance)) u' := by
  refine ⟨h.toSame.symm.trans h'.toSame, by rw [h.kind_eq]; exact h.inside, fun hu => ?_⟩
  rw [h.synthetic_eq, h.kind_eq] at hu
  obtain ⟨hoffset, hstop⟩ := h.placed hu
  obtain ⟨hoffset', hstop'⟩ := h'.placed hu
  unfold Shift at *
  omega

/-- Tokens that are moved are moved back. -/
lemma forall₂_shift_symm {distance : Int} {ts us : List Token}
    (h : List.Forall₂ (Matches (Shift distance)) ts us) :
    List.Forall₂ (Matches (Shift (-distance))) us ts :=
  List.Forall₂.flip (h.imp fun _ _ h => h.shift_symm)

/-- Two places of the same tokens are a distance apart. -/
lemma forall₂_shift_sub {distance distance' : Int} {ts us us' : List Token}
    (h : List.Forall₂ (Matches (Shift distance)) ts us)
    (h' : List.Forall₂ (Matches (Shift distance')) ts us') :
    List.Forall₂ (Matches (Shift (distance' - distance))) us us' := by
  induction h generalizing us' with
  | nil =>
    cases h'
    exact .nil
  | cons ht _ ih =>
    cases h' with
    | cons ht' h' => exact .cons (ht.shift_sub ht') (ih h')

end Matches

/-- Neither of two matching lists has the end of the input. -/
lemma kind_ne_ending_of_matches {place : Int → Int → Prop} {ts ts' : List Token}
    (h : List.Forall₂ (Matches place) ts ts') :
    (∀ t ∈ ts, t.kind ≠ .ending) ∧ ∀ t ∈ ts', t.kind ≠ .ending := by
  induction h with
  | nil => simp
  | @cons t t' _ _ h _ ih =>
    rw [List.forall_mem_cons, List.forall_mem_cons, h.kind_eq]
    exact ⟨⟨h.inside, ih.1⟩, h.inside, ih.2⟩

end SignLang.Token
