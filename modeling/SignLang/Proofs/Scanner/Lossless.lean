import SignLang.Proofs.Scanner.Payload

/-!
# Scanning is lossless

The tokens of a text, with what the scanner skips between them, make up the text. Each lexeme stands in the text at
the offset of its token and is of the class of its kind, and between two tokens there are only spaces, or a comment
where a line starts (`Token.Follows`). The scanner keeps this up from step to step (`Scanner.Keeping.step`), so it
holds of whole texts (`lossless_of_scan`). The classes are those of the grammar: unlike `Kind.Admits` they do not
mention the readers.
-/

namespace SignLang

open Lexeme

/-! ## Classes of lexemes -/

namespace Lexeme

/-- The fraction of a number, which may be missing. -/
def IsFraction (cs : List Char) : Prop :=
  cs = [] ∨ ∃ ds, IsDigits ds ∧ cs = '.' :: ds

/-- The exponent of a number, which may be missing. -/
def IsExponent (cs : List Char) : Prop :=
  cs = [] ∨ ∃ ds, IsDigits ds ∧ (cs = 'e' :: ds ∨ cs = 'e' :: '-' :: ds)

/-- A number of the grammar: a radix and digits of it, or a decimal number. -/
inductive IsNumeral : List Char → Prop where
  | radix {letter : Char} {radix : Radix} {digits : List Char} :
    Radix.ofLetter? letter = some radix →
    digits ≠ [] →
    digits.all radix.isDigit →
    IsNumeral ('0' :: letter :: digits)
  | decimal {whole fraction exponent : List Char} :
    IsDigits whole →
    IsFraction fraction →
    IsExponent exponent →
    IsNumeral (whole ++ fraction ++ exponent)

/-- What the reader of numbers takes is a number of the grammar. -/
lemma IsNumber.isNumeral {cs : List Char} (h : IsNumber cs) : IsNumeral cs := by
  obtain ⟨hhead, hread⟩ := h
  unfold readNumber at hread
  split at hread
  · rw [← eq_of_endNumber hread]
    refine .decimal ⟨?_, List.all_takeWhile⟩ (readFraction_cases _) (readExponent_cases _)
    cases cs with
    | nil => cases hhead
    | cons c cs =>
      have hc : c.isDigit := by simpa using hhead
      simp [hc]
  · next radix hradix =>
    unfold radixAt? at hradix
    split at hradix
    · next letter text =>
      dsimp only [List.drop_succ_cons, List.drop_zero, List.take_succ_cons, List.take_zero] at hread
      split at hread
      · cases hread
      · next hdigits =>
        rw [← eq_of_endNumber hread]
        exact .radix hradix (by simpa using hdigits) List.all_takeWhile
    · cases hradix

/-- The symbols of operators. -/
def operators : List String :=
  ["|", "<=", ">=", "!=", "==", ":", "?", ",", "~", ";", "&", "!", "<", "=", ">", "+", "-", "*", "/", "%", "^",
    "'", "#", "@", "$"]

/-- What the reader of operators takes is one of their symbols. -/
lemma IsSymbol.mem_operators {cs : List Char} (h : IsSymbol cs) : String.ofList cs ∈ operators := by
  rcases h with rfl | ⟨c, rfl, hc⟩ | ⟨c, d, rfl, hpair⟩
  · decide
  · simp only [isSingle, List.contains_eq_mem, decide_eq_true_eq, List.mem_cons, List.not_mem_nil, or_false] at hc
    rcases hc with rfl | rfl | rfl | rfl | rfl | rfl | rfl | rfl | rfl | rfl | rfl | rfl | rfl | rfl | rfl | rfl |
      rfl | rfl | rfl | rfl <;> decide
  · obtain ⟨rfl | rfl | rfl | rfl, rfl⟩ := isPair_iff.1 hpair <;> decide

end Lexeme

/-- The class of the lexemes of a kind. -/
def Kind.Class (cs : List Char) : Kind → Prop
  | .identifier => IsName cs
  | .number => IsNumeral cs
  | .string => IsString cs
  | .character => IsCharacter cs
  | .unit => cs = ['_']
  | .operator => String.ofList cs ∈ operators
  | .opening => ∃ c ∈ ['(', '[', '\x7b', '|'], cs = [c]
  | .closing => ∃ c ∈ [')', ']', '\x7d', '|'], cs = [c]
  | .indent => cs ≠ [] ∧ cs.all (· = '\t')
  | .newline => cs = ['\n'] ∨ cs = ['\r', '\n'] ∨ cs = ['\r']
  | .ending => cs = []
  | .separator => False

/-- A token that stands in a text is of the class of its kind, and no character of names follows a word. -/
lemma Scanner.Lexes.classed {s : Scanner} {r w : List Char} {k : Kind} (h : s.Lexes r w k) :
    k.Class w ∧ (k ∈ [.identifier, .unit, .number] → r.head?.any isNameChar = false) := by
  cases k with
  | identifier | unit => exact ⟨h.1, fun _ => h.2⟩
  | number => exact ⟨h.1.isNumeral, fun _ => h.2.1⟩
  | string | character => exact ⟨h, by simp⟩
  | operator =>
    refine ⟨IsSymbol.mem_operators ?_, by simp⟩
    rcases h with hpair | ⟨c, hw, hc, -⟩ | ⟨hw, -⟩
    · exact .inr (.inr hpair)
    · exact .inr (.inl ⟨c, hw, hc⟩)
    · exact .inl hw
  | opening =>
    refine ⟨?_, by simp⟩
    rcases h with ⟨c, rfl, hc⟩ | ⟨rfl, -⟩
    · obtain rfl | rfl | rfl := isOpener_iff.1 hc <;> exact ⟨_, by decide, rfl⟩
    · exact ⟨_, by decide, rfl⟩
  | closing =>
    refine ⟨?_, by simp⟩
    rcases h with ⟨c, rfl, hc⟩ | ⟨rfl, -⟩
    · obtain rfl | rfl | rfl := isCloser_iff.1 hc <;> exact ⟨_, by decide, rfl⟩
    · exact ⟨_, by decide, rfl⟩
  | newline => exact ⟨h.imp_right (.imp_right And.left), by simp⟩
  | indent | separator | ending => exact h.elim

/-! ## Tokens in their text -/

/-- The characters of a text between two offsets. -/
def slice (text : List Char) (i j : Int) : List Char :=
  (text.take j.toNat).drop i.toNat

/-- What may be skipped before a text that starts with `next`: spaces, and a comment up to the end of the line
if it is at the start of it. -/
def IsSkipped (start : Bool) (next : Option Char) (w : List Char) : Prop :=
  w.all isSpace ∨ start ∧ Scanner.IsBlank w ∧ next.all isTerminator

/-- Where the text after a token starts. Without a token that is all of it. -/
def stopOf (previous : Option Token) : Int :=
  previous.elim 0 Token.stop

/-- A line starts after a token. Without a token it does. -/
def startsLine (previous : Option Token) : Bool :=
  previous.all (·.kind = .newline)

/-- The token is the next one of the text after another one, or the first one of it. -/
structure Token.Follows (text : List Char) (previous : Option Token) (t : Token) : Prop where
  stop_le : stopOf previous ≤ t.offset
  skipped : IsSkipped (startsLine previous) (text.drop t.offset.toNat).head? (slice text (stopOf previous) t.offset)
  margin : t.kind = .indent → startsLine previous ∧ t.offset = stopOf previous
  spelled : slice text t.offset t.stop = t.lexeme.toList
  classed : t.kind.Class t.lexeme.toList
  apart : t.kind ∈ [.identifier, .unit, .number] → (text.drop t.stop.toNat).head?.any isNameChar = false

/-- Each token of a list is the next one of the text after the one before it. -/
def Linked (text : List Char) (tokens : List Token) : Prop :=
  ∀ before t after, tokens = before ++ t :: after → t.Follows text before.getLast?

/-- The tokens are all that there is in the text. The end of the input stands at its end and nowhere else. -/
structure Lossless (text : List Char) (tokens : List Token) : Prop where
  linked : Linked text tokens
  ending : ∃ body last, tokens = body ++ [last] ∧ (∀ t ∈ body, t.kind ≠ .ending) ∧ last.kind = .ending ∧
    last.offset = (text.length : Int)

section Text

variable {text x gap w r : List Char} {previous : Option Token} {t : Token} {ts : List Token} {k : Kind}

/-- The part of a text between two others. -/
lemma slice_append (x w r : List Char) : slice (x ++ (w ++ r)) x.length (x.length + w.length) = w := by
  have hlength : ((x.length : Int) + w.length).toNat = (x ++ w).length := by
    rw [List.length_append]
    omega
  rw [slice, hlength, ← List.append_assoc, List.take_left, Int.toNat_natCast, List.drop_left]

/-- The part of a text after another one. -/
lemma drop_append (x w r : List Char) : (x ++ (w ++ r)).drop ((x.length : Int) + w.length).toNat = r := by
  have hlength : ((x.length : Int) + w.length).toNat = (x ++ w).length := by
    rw [List.length_append]
    omega
  rw [hlength, ← List.append_assoc, List.drop_left]

/-- A token whose lexeme stands in the text after what has been skipped is the next one. -/
lemma Token.Spells.follows (ht : t.Spells k (String.ofList w) (x.length + gap.length))
    (hstop : stopOf previous = x.length) (hgap : IsSkipped (startsLine previous) (w ++ r).head? gap)
    (hmargin : k = .indent → startsLine previous ∧ gap = []) (hclass : k.Class w)
    (hapart : k ∈ [.identifier, .unit, .number] → r.head?.any isNameChar = false) :
    t.Follows (x ++ (gap ++ (w ++ r))) previous := by
  have hend : t.stop = ((x ++ gap).length : Int) + w.length := by
    rw [Token.stop, ht.offset_eq, ht.lexeme_eq, String.length_ofList, List.length_append]
    push_cast
    rfl
  have hspelled := slice_append (x ++ gap) w r
  have hafter := drop_append (x ++ gap) w r
  rw [List.append_assoc, ← hend] at hspelled hafter
  refine ⟨?_, ?_, ?_, ?_, ?_, ?_⟩
  · rw [hstop, ht.offset_eq]
    omega
  · rwa [hstop, ht.offset_eq, slice_append, drop_append]
  · rw [ht.kind_eq, ht.offset_eq, hstop]
    intro hk
    obtain ⟨hstart, rfl⟩ := hmargin hk
    exact ⟨hstart, by simp⟩
  · rwa [ht.lexeme_eq, String.toList_ofList, ht.offset_eq, ← Nat.cast_add, ← List.length_append]
  · rwa [ht.kind_eq, ht.lexeme_eq, String.toList_ofList]
  · rwa [ht.kind_eq, hafter]

/-- One more token after the last one. -/
lemma Linked.concat (h : Linked text ts) (ht : t.Follows text ts.getLast?) : Linked text (ts ++ [t]) := by
  rintro before u after heq
  obtain rfl | ⟨after, v, rfl⟩ := after.eq_nil_or_concat
  · obtain ⟨rfl, hu⟩ := List.append_inj' heq rfl
    obtain ⟨rfl, -⟩ := List.cons.inj hu
    exact ht
  · rw [List.concat_eq_append, ← List.cons_append, ← List.append_assoc] at heq
    exact h before u after (List.append_inj' heq rfl).1

end Text

/-! ## The scanner keeps its text -/

namespace Scanner

variable {text : List Char} {s m : Scanner}

/-- The scanner has come so far in its text, and has lost nothing of it: its tokens are linked, and after the last
one it has skipped `gap`, which is nothing at the start of a line. -/
structure Keeping (text : List Char) (s : Scanner) : Prop where
  linked : Linked text s.tokens
  gap : ∃ x gap : List Char, text = x ++ (gap ++ s.rest) ∧ stopOf s.emitted.head? = x.length ∧
    s.offset = x.length + gap.length ∧ IsSkipped (startsLine s.emitted.head?) s.rest.head? gap ∧
    (s.atLineStart → startsLine s.emitted.head? ∧ gap = [])

/-- Before the text nothing is lost. -/
lemma keeping_ofText (text : List Char) : (ofText text).Keeping text :=
  ⟨fun _ _ _ h => absurd h (by simp [ofText, tokens]), [], [], rfl, rfl, rfl, .inl rfl, fun _ => ⟨rfl, rfl⟩⟩

/-- A token that follows the others is linked to them. -/
lemma linked_of_emitted {t : Token} (h : Linked text s.tokens) (hm : m.emitted = t :: s.emitted)
    (ht : t.Follows text s.emitted.head?) : Linked text m.tokens := by
  rw [tokens, hm, List.reverse_cons]
  exact h.concat (by rwa [tokens, List.getLast?_reverse])

/-- A scanner that has moved on without a token has lost nothing, if what it has skipped may be skipped. -/
lemma Keeping.of_skipped (x gap : List Char) (h : Linked text s.tokens) (hemitted : m.emitted = s.emitted)
    (hin : m.atLineStart = false) (htext : text = x ++ (gap ++ m.rest))
    (hstop : stopOf s.emitted.head? = x.length) (hoffset : m.offset = x.length + gap.length)
    (hgap : IsSkipped (startsLine s.emitted.head?) m.rest.head? gap) : m.Keeping text := by
  have htokens : m.tokens = s.tokens := by rw [tokens, hemitted, tokens]
  rw [← hemitted] at hstop hgap
  exact ⟨htokens ▸ h, x, gap, htext, hstop, hoffset, hgap, by simp [hin]⟩

/-- The tabs of a margin are the token that follows a line end, and the spaces after them are skipped. -/
lemma Keeping.of_indent {x w : List Char} {t : Token} (h : Linked (x ++ s.rest) s.tokens)
    (hstop : stopOf s.emitted.head? = x.length) (hoffset : s.offset = x.length)
    (hfirst : startsLine s.emitted.head?) (hmoves : s.Moves w m) (hall : w.all isSpace)
    (htab : w.head? = some '\t') (ht : m.emitted = t :: s.emitted)
    (hspells : t.Spells .indent (String.ofList (w.takeWhile (· = '\t'))) s.offset) :
    m.Keeping (x ++ s.rest) := by
  have hrest := hmoves.rest
  have hmoved := hmoves.offset
  have hsplit : w.takeWhile (· = '\t') ++ w.dropWhile (· = '\t') = w := List.takeWhile_append_dropWhile
  have htabs : w.takeWhile (· = '\t') ≠ [] ∧ (w.takeWhile (· = '\t')).all (· = '\t') := by
    refine ⟨?_, List.all_takeWhile⟩
    obtain ⟨cs, rfl⟩ := List.head?_eq_some_iff.1 htab
    simp
  have hmore : (w.dropWhile (· = '\t')).all isSpace :=
    List.all_eq_true.2 fun c hc => List.all_eq_true.1 hall c ((List.dropWhile_suffix _).subset hc)
  generalize w.takeWhile (· = '\t') = tabs at *
  generalize w.dropWhile (· = '\t') = more at *
  subst hsplit
  have hfollows : t.Follows (x ++ s.rest) s.emitted.head? := by
    rw [hrest, List.append_assoc]
    have hplaced : t.Spells .indent (String.ofList tabs) (x.length + ([] : List Char).length) := by
      simpa [hoffset] using hspells
    exact hplaced.follows hstop (.inl rfl) (fun _ => ⟨hfirst, rfl⟩) htabs (by simp)
  refine ⟨linked_of_emitted h ht hfollows, x ++ tabs, more, by simp [hrest], ?_, ?_, .inl hmore, ?_⟩
  · rw [ht, List.head?_cons]
    change t.stop = _
    rw [Token.stop, hspells.offset_eq, hspells.lexeme_eq, String.length_ofList, hoffset]
    simp
  · rw [hmoved, hoffset, List.length_append, List.length_append, Nat.add_assoc]
  · simp [hmoves.start]

/-- A step loses nothing. -/
theorem Keeping.step (h : s.Keeping text) (hstep : s.Step m) : m.Keeping text := by
  obtain ⟨w, hw⟩ := hstep.stepped
  obtain ⟨x, gap, rfl, hstop, hoffset, hgap, hstart⟩ := h.gap
  have hrest := hw.rest
  have hmoved := hw.offset
  rw [hrest] at hgap
  cases hw with
  | @token k hin hreads hlexes =>
    obtain ⟨t, ht, hspells⟩ := hreads.emitted
    obtain ⟨hclass, hapart⟩ := hlexes.classed
    have hindent : k ≠ .indent := by
      rintro rfl
      exact hlexes
    have hfollows : t.Follows (x ++ (gap ++ s.rest)) s.emitted.head? := by
      rw [hrest]
      rw [hoffset] at hspells
      exact Token.Spells.follows (by exact_mod_cast hspells) hstop hgap (fun hk => absurd hk hindent) hclass hapart
    refine ⟨linked_of_emitted h.linked ht hfollows, x ++ gap ++ w, [], by simp [hrest], ?_, ?_, .inl rfl, ?_⟩
    · rw [ht, List.head?_cons]
      change t.stop = _
      rw [hreads.stop_eq hspells, hmoved, hoffset, List.length_append, List.length_append]
    · rw [hmoved, hoffset, List.length_append, List.length_append, List.length_nil, Nat.add_zero]
    · intro hline
      rw [hreads.start, decide_eq_true_eq] at hline
      refine ⟨?_, rfl⟩
      rw [ht, List.head?_cons]
      exact decide_eq_true (hspells.kind_eq.trans hline)
  | spaces hin hne hall hend hmoves hemitted =>
    have hspaces : gap.all isSpace := by
      refine hgap.resolve_right fun hblank => ?_
      -- a comment goes up to the end of its line, but spaces follow
      have hterm := hblank.2.2
      rw [← hrest, hmoves.not_isTerminator hne hall] at hterm
      cases hterm
    refine .of_skipped x (gap ++ w) h.linked hemitted hmoves.start (by simp [hrest]) hstop ?_ (.inl ?_)
    · rw [hmoved, hoffset, List.length_append, Nat.add_assoc]
    · rw [List.all_append, hspaces, hall]
      rfl
  | blank hline hblank hend hmoves hemitted =>
    obtain ⟨hfirst, rfl⟩ := hstart hline
    refine .of_skipped x w h.linked hemitted hmoves.start (by simp [hrest]) hstop ?_
      (.inr ⟨hfirst, hblank, hend⟩)
    rw [hmoved, hoffset, List.length_nil, Nat.add_zero]
  | margin hline hall hend hmoves hemitted =>
    obtain ⟨hfirst, rfl⟩ := hstart hline
    rw [List.length_nil, Nat.add_zero] at hoffset
    split at hemitted
    · next htab =>
      obtain ⟨t, ht, hspells⟩ := hemitted
      exact .of_indent h.linked hstop hoffset hfirst hmoves hall htab ht hspells
    · refine .of_skipped x w h.linked hemitted hmoves.start (by simp [hrest]) hstop ?_ (.inl hall)
      rw [hmoved, hoffset]

/-- A run loses nothing. -/
theorem Keeping.steps (h : s.Keeping text) (hsteps : s.Steps m) : m.Keeping text := by
  induction hsteps with
  | refl => exact h
  | tail _ hstep ih => exact ih.step hstep

end Scanner

open Scanner

/-- Scanning loses nothing of a text. -/
theorem lossless_of_scan {text : String} {tokens : List Token} (h : scan text = .ok tokens) :
    Lossless text.toList tokens := by
  obtain ⟨body, last, hbody, hlexical, -, -, -⟩ := scan_eq_concat h
  rw [← String.ofList_toList (s := text)] at h
  generalize text.toList = text at h ⊢
  obtain ⟨f, hrun, rfl⟩ := scan_eq_ok.1 h
  obtain ⟨hsteps, hrest⟩ := steps_of_run hrun
  have hkeeping := (keeping_ofText text).steps hsteps
  obtain ⟨x, gap, rfl, hstop, hoffset, hgap, -⟩ := hkeeping.gap
  rw [hrest] at hgap ⊢
  rw [hrest] at hkeeping
  obtain ⟨rfl, hlast'⟩ := List.append_inj' hbody rfl
  obtain ⟨rfl, -⟩ := List.cons.inj hlast'
  constructor
  · refine hkeeping.linked.concat ?_
    rw [Scanner.tokens, List.getLast?_reverse]
    exact Token.Spells.follows (k := .ending) (w := []) (r := []) ⟨rfl, rfl, by simp [hoffset], rfl⟩ hstop hgap
      (by simp) rfl (by simp)
  · refine ⟨_, _, rfl, fun t ht => (hlexical t ht).kind_ne_ending, rfl, ?_⟩
    simp [hoffset]

/-- A comment, margins, literals, and a line end inside of one of them. -/
def notedText : String :=
  "  \x60note\x60\r\n\tf : [0x1F, \x60a b\x60] \n\t \\\n _ 1.5e-3 |x|"

/-- Nothing of such a text is lost. -/
theorem lossless_notedText :
    ∃ tokens, scan notedText = .ok tokens ∧ tokens.length = 18 ∧ Lossless notedText.toList tokens := by
  have hscan : (scan notedText).toOption.any (·.length = 18) := by decide +kernel
  cases htokens : scan notedText with
  | error failure => simp [htokens, Except.toOption] at hscan
  | ok tokens =>
    exact ⟨tokens, rfl, by simpa [htokens, Except.toOption] using hscan, lossless_of_scan htokens⟩

end SignLang
