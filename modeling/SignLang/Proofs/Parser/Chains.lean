import SignLang.Proofs.Layout.Brackets
import SignLang.Proofs.Limits
import SignLang.Proofs.Parser.Moves

/-!
# Chains of binary operators

Operands with binary operators between them are read by climbing powers. What is read is what one gets by
splitting the chain at its loosest operator, and each side in the same way (`Chain.split`): of the
operators with the least power the last one if they group to the left, and the first one if they group to
the right. `Chain.split_cons` is the step of the climb, and `Chain.reads_climb` the climb itself.
-/

namespace SignLang

open SignLang.Parser

namespace Chain

/-- A token that is an operator between two operands, and makes neither a definition, nor a function, nor
a list. -/
structure Sign where
  token : Token
  op : Operator
  kind_eq : token.kind = .operator
  entry : Operator.binary? token.lexeme = some op
  plain : token.lexeme ∉ [":", "?", ","]

/-- The expression that an operator makes of its operands. -/
def Sign.join (sign : Sign) (left right : Expr) : Expr :=
  if sign.token.lexeme = "~" then .range left right
  else if sign.token.lexeme = "'" then .get left right
  else .binary sign.token.lexeme left right

/-- Tokens, and the expression that they are to be read as. -/
structure Part where
  tokens : List Token
  expr : Expr

/-- An operator and the operand on its right. -/
structure Link where
  sign : Sign
  operand : Part

namespace Link

/-- How tightly the operator of a link binds. -/
def power (link : Link) : Nat :=
  link.sign.op.power

/-- The least power of an operator on the right of the link. -/
def rightPower (link : Link) : Nat :=
  link.sign.op.rightPower

/-- The tokens of a link, the operator first. -/
def tokens (link : Link) : List Token :=
  link.sign.token :: link.operand.tokens

end Link

/-- A link of a chain, and the links on either side of it. -/
structure Cut where
  before : List Link
  link : Link
  after : List Link

namespace Cut

/-- All links, in order. -/
def links (cut : Cut) : List Link :=
  cut.before ++ cut.link :: cut.after

/-- The same link of the reversed chain. -/
def reverse (cut : Cut) : Cut :=
  ⟨cut.after.reverse, cut.link, cut.before.reverse⟩

/-- A chain cut at the first link that is one of those asked for. -/
def first? (wanted : Link → Bool) (links : List Link) : Option Cut :=
  match links.dropWhile (!wanted ·) with
  | [] => none
  | link :: after => some ⟨links.takeWhile (!wanted ·), link, after⟩

/-- A chain cut at the last link that is one of those asked for. -/
def last? (wanted : Link → Bool) (links : List Link) : Option Cut :=
  (first? wanted links.reverse).map reverse

end Cut

/-- No operator of the links binds less tightly. -/
def isLeast (links : List Link) (link : Link) : Bool :=
  links.all (link.power ≤ ·.power)

/-- A chain cut at its loosest operator: of those with the least power the last one if it groups to the
left, and the first one if it groups to the right. -/
def loosest? (links : List Link) : Option Cut :=
  match Cut.first? (isLeast links) links with
  | none => none
  | some cut =>
    if cut.link.sign.op.assoc = .right then some cut else Cut.last? (isLeast links) links

namespace Cut

variable {wanted : Link → Bool} {links : List Link} {cut : Cut}

/-- The first link that is asked for has none before it. -/
lemma of_first? (h : first? wanted links = some cut) :
    cut.links = links ∧ wanted cut.link ∧ ∀ link ∈ cut.before, wanted link = false := by
  unfold first? at h
  have hsplit := List.takeWhile_append_dropWhile (p := (!wanted ·)) (l := links)
  have hnot := List.head?_dropWhile_not (!wanted ·) links
  cases hdrop : links.dropWhile (!wanted ·) with
  | nil => rw [hdrop] at h; cases h
  | cons link after =>
    rw [hdrop] at h hsplit hnot
    cases h
    refine ⟨hsplit, by simpa using hnot, fun before hbefore => ?_⟩
    simpa using List.mem_takeWhile_imp hbefore

/-- The last link that is asked for has none after it. -/
lemma of_last? (h : last? wanted links = some cut) :
    cut.links = links ∧ wanted cut.link ∧ ∀ link ∈ cut.after, wanted link = false := by
  obtain ⟨found, hfound, rfl⟩ := Option.map_eq_some_iff.1 h
  obtain ⟨hlinks, hwanted, hbefore⟩ := of_first? hfound
  refine ⟨?_, hwanted, fun link hlink => hbefore link (List.mem_reverse.1 hlink)⟩
  rw [← List.reverse_reverse links, ← hlinks]
  simp [Cut.links, reverse]

/-- Links of which one is asked for are cut. -/
lemma isSome_first? {link : Link} (hlink : link ∈ links) (hwanted : wanted link) :
    (first? wanted links).isSome := by
  unfold first?
  cases hdrop : links.dropWhile (!wanted ·) with
  | nil =>
    have := List.dropWhile_eq_nil_iff.1 hdrop link hlink
    simp [hwanted] at this
  | cons => rfl

end Cut

/-- The link binds less tightly than all others: the operators before it would take a right operand at
a higher power, and those after it bind tightly enough to stand in its own. -/
structure Cut.Loosest (cut : Cut) : Prop where
  before : ∀ link ∈ cut.before, cut.link.power < link.rightPower
  after : ∀ link ∈ cut.after, cut.link.rightPower ≤ link.power

/-- An operator takes right operands at its own power if it groups to the right, and else at the next. -/
lemma Link.rightPower_eq (link : Link) :
    link.rightPower = if link.sign.op.assoc = .left then link.power + 1 else link.power := by
  have hall : ∀ op ∈ Operator.binaryTable, op.fixity = .binary := by decide
  have hfixity := hall _ (List.mem_of_find?_eq_some link.sign.entry)
  simp [rightPower, power, Operator.rightPower, hfixity]

/-- An operator takes right operands at its own power or the next. -/
lemma Link.rightPower_bounds (link : Link) :
    link.power ≤ link.rightPower ∧ link.rightPower ≤ link.power + 1 := by
  rw [link.rightPower_eq]
  split <;> omega

/-- Operators of one power group to the same side. -/
lemma Link.assoc_eq {link link' : Link} (h : link.power = link'.power) :
    link.sign.op.assoc = link'.sign.op.assoc := by
  have hall : ∀ op ∈ Operator.binaryTable, ∀ op' ∈ Operator.binaryTable,
      op.power = op'.power → op.assoc = op'.assoc := by
    decide
  exact hall _ (List.mem_of_find?_eq_some link.sign.entry) _ (List.mem_of_find?_eq_some link'.sign.entry) h

/-- Links that are some have one with the least power. -/
lemma exists_isLeast {links : List Link} (h : links ≠ []) : ∃ link ∈ links, isLeast links link := by
  cases hmin : List.argmin Link.power links with
  | none => exact absurd (List.argmin_eq_none.1 hmin) h
  | some link =>
    refine ⟨link, List.argmin_mem hmin, List.all_eq_true.2 fun other hother => ?_⟩
    exact decide_eq_true (List.le_of_mem_argmin hother hmin)

/-- A chain is cut at its loosest link. -/
lemma loosest_of_loosest? {links : List Link} {cut : Cut} (h : loosest? links = some cut) :
    cut.links = links ∧ cut.Loosest := by
  unfold loosest? at h
  cases hfirst : Cut.first? (isLeast links) links with
  | none => rw [hfirst] at h; cases h
  | some found =>
    obtain ⟨hlinks, hleast, hbefore⟩ := Cut.of_first? hfirst
    simp only [isLeast, List.all_eq_true, decide_eq_true_eq] at hleast
    -- what is not among the loosest binds tighter than they do
    have hlt {link : Link} (hlink : isLeast links link = false) : found.link.power < link.power := by
      by_contra hle
      rw [Bool.eq_false_iff] at hlink
      refine hlink (List.all_eq_true.2 fun other hother => decide_eq_true ?_)
      exact (Nat.not_lt.1 hle).trans (hleast other hother)
    rw [hfirst] at h
    dsimp only at h
    split at h
    · next hright =>
      cases h
      have hpower : cut.link.rightPower = cut.link.power := by rw [Link.rightPower_eq, hright]; rfl
      refine ⟨hlinks, fun link hlink => ?_, fun link hlink => ?_⟩
      · exact (hlt (hbefore link hlink)).trans_le link.rightPower_bounds.1
      · rw [hpower]
        exact hleast link (by rw [← hlinks]; simp [Cut.links, hlink])
    · next hright =>
      obtain ⟨hlinks', hleast', hafter⟩ := Cut.of_last? h
      simp only [isLeast, List.all_eq_true, decide_eq_true_eq] at hleast'
      have hmem : cut.link ∈ links := by rw [← hlinks']; simp [Cut.links]
      have hmem' : found.link ∈ links := by rw [← hlinks]; simp [Cut.links]
      have hpower : found.link.power = cut.link.power :=
        Nat.le_antisymm (hleast _ hmem) (hleast' _ hmem')
      have hassoc {link : Link} (hlink : link.power = cut.link.power) : link.rightPower = link.power + 1 := by
        rw [Link.rightPower_eq, Link.assoc_eq (hlink.trans hpower.symm)]
        cases hside : found.link.sign.op.assoc with
        | left => rfl
        | right => exact absurd hside hright
      refine ⟨hlinks', fun link hlink => ?_, fun link hlink => ?_⟩
      · have hle := hleast' link (by rw [← hlinks']; simp [Cut.links, hlink])
        rcases hle.eq_or_lt with heq | hlt
        · rw [hassoc heq.symm]
          exact Nat.lt_succ_of_le hle
        · exact hlt.trans_le link.rightPower_bounds.1
      · rw [hassoc rfl, ← hpower]
        exact hlt (hafter link hlink)

/-- Of two links, only one can be the loosest: each would stand in the right operand of the other. -/
lemma Cut.Loosest.false_of_both {before gap after : List Link} {link link' : Link}
    (h : Loosest ⟨before, link, gap ++ link' :: after⟩) (h' : Loosest ⟨before ++ link :: gap, link', after⟩) :
    False := by
  have hle := h.after link' (by simp)
  have hlt := h'.before link (by simp)
  exact Nat.not_lt.2 hle hlt

/-- A chain has one loosest link only. -/
lemma Cut.Loosest.unique {cut cut' : Cut} (h : cut.Loosest) (h' : cut'.Loosest)
    (hlinks : cut.links = cut'.links) : cut = cut' := by
  obtain ⟨before, link, after⟩ := cut
  obtain ⟨before', link', after'⟩ := cut'
  change before ++ link :: after = before' ++ link' :: after' at hlinks
  rcases List.append_eq_append_iff.1 hlinks with ⟨gap, rfl, htail⟩ | ⟨gap, rfl, htail⟩
  all_goals cases gap with
    | nil =>
      cases htail
      rw [List.append_nil]
    | cons l gap =>
      obtain ⟨rfl, rfl⟩ := List.cons.inj htail
      first
        | exact (h.false_of_both h').elim
        | exact (h'.false_of_both h).elim

/-- Both sides of a cut are shorter than the chain. -/
lemma Cut.length_lt {links : List Link} {cut : Cut} (h : loosest? links = some cut) :
    cut.before.length < links.length ∧ cut.after.length < links.length := by
  rw [← (loosest_of_loosest? h).1]
  simp only [Cut.links, List.length_append, List.length_cons]
  omega

/-- Links that are some are cut. -/
lemma isSome_loosest? {links : List Link} (h : links ≠ []) : (loosest? links).isSome := by
  obtain ⟨link, hlink, hleast⟩ := exists_isLeast h
  unfold loosest?
  cases hfirst : Cut.first? (isLeast links) links with
  | none =>
    have := Cut.isSome_first? hlink hleast
    rw [hfirst] at this
    cases this
  | some cut =>
    dsimp only
    split
    · rfl
    · rw [Cut.last?, Option.isSome_map]
      exact Cut.isSome_first? (List.mem_reverse.2 hlink) hleast

/-- The expression of an operand and the links after it, split at the loosest operator. -/
def split (first : Expr) (links : List Link) : Expr :=
  match _h : loosest? links with
  | none => first
  | some cut =>
    cut.link.sign.join (split first cut.before) (split cut.link.operand.expr cut.after)
termination_by links.length
decreasing_by
  · exact (Cut.length_lt _h).1
  · exact (Cut.length_lt _h).2

/-- An operand alone is not split. -/
lemma split_nil (first : Expr) : split first [] = first := by
  rw [split]
  rfl

/-- A chain is split at its loosest link. -/
lemma split_eq {cut : Cut} (h : cut.Loosest) (first : Expr) :
    split first cut.links =
      cut.link.sign.join (split first cut.before) (split cut.link.operand.expr cut.after) := by
  have hne : cut.links ≠ [] := by simp [Cut.links]
  obtain ⟨cut', hcut'⟩ := Option.isSome_iff_exists.1 (isSome_loosest? hne)
  obtain ⟨hlinks, hloosest⟩ := loosest_of_loosest? hcut'
  obtain rfl := hloosest.unique h hlinks
  rw [split]
  split
  · next hnone => rw [hcut'] at hnone; cases hnone
  · next found hfound =>
    rw [hcut'] at hfound
    cases hfound
    rfl

/-- The right operand of an operator is the run of links that bind tightly enough. -/
lemma split_cons (first : Expr) (link : Link) (links : List Link) :
    split first (link :: links) =
      split (link.sign.join first
          (split link.operand.expr (links.takeWhile (link.rightPower ≤ ·.power))))
        (links.dropWhile (link.rightPower ≤ ·.power)) := by
  generalize hlength : links.length = n
  induction n using Nat.strong_induction_on generalizing links with
  | _ n ih =>
  subst hlength
  have hsplit := List.takeWhile_append_dropWhile (p := (link.rightPower ≤ ·.power)) (l := links)
  have htaken : ∀ l ∈ links.takeWhile (link.rightPower ≤ ·.power), link.rightPower ≤ l.power :=
    fun l hl => by simpa using List.mem_takeWhile_imp hl
  have hdropped := List.head?_dropWhile_not (link.rightPower ≤ ·.power) links
  generalize links.takeWhile (link.rightPower ≤ ·.power) = taken at hsplit htaken ⊢
  generalize links.dropWhile (link.rightPower ≤ ·.power) = dropped at hsplit hdropped ⊢
  subst hsplit
  cases dropped with
  | nil =>
    -- the first operator is the loosest one
    rw [List.append_nil, split_nil]
    have hloosest : Cut.Loosest ⟨[], link, taken⟩ := ⟨List.forall_mem_nil _, htaken⟩
    exact (split_eq hloosest first).trans (by rw [split_nil])
  | cons head others =>
    obtain ⟨cut, hcut⟩ := Option.isSome_iff_exists.1 (isSome_loosest? (List.cons_ne_nil head others))
    obtain ⟨hlinks, hloosest⟩ := loosest_of_loosest? hcut
    have hhead : head.power < link.rightPower := by simpa using hdropped
    obtain ⟨before, last, after⟩ := cut
    have hlast : last.power < link.rightPower := by
      cases before with
      | nil =>
        cases hlinks
        exact hhead
      | cons l before =>
        cases hlinks
        have hlt := hloosest.before head List.mem_cons_self
        have hle := head.rightPower_bounds.2
        dsimp only at hlt
        omega
    -- the loosest operator of the rest is the loosest one of all
    have hall : Cut.Loosest ⟨link :: (taken ++ before), last, after⟩ := by
      refine ⟨fun l hl => ?_, hloosest.after⟩
      rcases List.mem_cons.1 hl with rfl | hl
      · exact hlast
      rcases List.mem_append.1 hl with hl | hl
      · exact (hlast.trans_le (htaken l hl)).trans_le l.rightPower_bounds.1
      · exact hloosest.before l hl
    have hpos : ∀ l ∈ taken, decide (link.rightPower ≤ l.power) := fun l hl => decide_eq_true (htaken l hl)
    have hstop : before.takeWhile (link.rightPower ≤ ·.power) = [] ∧
        before.dropWhile (link.rightPower ≤ ·.power) = before := by
      cases before with
      | nil => exact ⟨rfl, rfl⟩
      | cons l before =>
        cases hlinks
        have hnot := decide_eq_false (Nat.not_le.2 hhead)
        simp [hnot]
    have hlt : (taken ++ before).length < (taken ++ head :: others).length := by
      rw [← hlinks]
      simp [Cut.links]
    have hstep := ih _ hlt (taken ++ before) rfl
    rw [List.takeWhile_append_of_pos hpos, List.dropWhile_append_of_pos hpos, hstop.1, hstop.2,
      List.append_nil] at hstep
    calc split first (link :: (taken ++ head :: others))
        = split first (Cut.links ⟨link :: (taken ++ before), last, after⟩) := by
          rw [← hlinks]
          simp [Cut.links]
      _ = last.sign.join (split first (link :: (taken ++ before)))
            (split last.operand.expr after) := split_eq hall first
      _ = last.sign.join (split (link.sign.join first
            (split link.operand.expr taken)) before) (split last.operand.expr after) := by rw [hstep]
      _ = split (link.sign.join first (split link.operand.expr taken)) (head :: others) := by
          rw [← hlinks]
          exact (split_eq hloosest _).symm

/-! ## Reading -/

/-- The parser joins operands as an operator does. -/
lemma Sign.join?_eq (sign : Sign) (left right : Expr) :
    (Left.single left).join? sign.token.lexeme right = some (.single (sign.join left right)) := by
  have hplain := sign.plain
  simp only [List.mem_cons, List.not_mem_nil, or_false, not_or] at hplain
  simp [Left.join?, joined, Sign.join, Left.expr, hplain]

/-- Tokens that are read as an operand by the first of them, wherever they stand. -/
structure Part.Readable (part : Part) : Prop where
  reads {c d : Cursor} : c.Passes d part.tokens → Reads .primary c part.expr d
  first : ∃ t rest, part.tokens = t :: rest ∧ t.kind ≠ .operator ∧ t.startsOperand ∧
    (t.kind = .identifier → rest = [])
  closed (stack : List Bool) : openAfter stack part.tokens = some stack
  inside : ∀ t ∈ part.tokens, t.kind ≠ .ending

namespace Part.Readable

variable {part : Part} {rest : List Token} {c m : Cursor}

/-- An operand leads to no head of a function. -/
lemma continuesHead (h : part.Readable) (hrest : continuesHead rest = false) :
    continuesHead (part.tokens ++ rest) = false := by
  obtain ⟨t, others, htokens, hkind, -, hname⟩ := h.first
  rw [htokens, List.cons_append]
  by_cases hk : t.kind = .identifier
  · rw [continuesHead_name hk, hname hk]
    exact hrest
  · exact continuesHead_of_kind hk hkind _

/-- An operand starts where its tokens do. -/
lemma startsOperand (h : part.Readable) (hpass : c.Passes m part.tokens) :
    c.here.startsOperand ∧ c.here.kind ≠ .operator := by
  obtain ⟨t, others, htokens, hkind, hstarts, -⟩ := h.first
  rw [htokens] at hpass
  rw [hpass.1]
  exact ⟨hstarts, hkind⟩

/-- An operand is taken in at any power, if nothing follows that makes it a name or a parameter. -/
lemma takes (h : part.Readable) (hpass : c.Passes m part.tokens) (hhead : Parser.continuesHead m.ahead = false)
    (hcolon : m.here.isSymbol ":" = false) (p : Nat) : Takes p c (.single part.expr) m := by
  refine .primary (h.reads hpass) (fun _ => ?_) fun _ => lambdaHead?_eq_none ?_
  · obtain ⟨t, others, htokens, -, -, hname⟩ := h.first
    rw [htokens] at hpass
    by_contra hdefine
    rw [Bool.not_eq_false, startsDefine_iff, ← Cursor.here_advance] at hdefine
    rw [hname (hpass.1 ▸ hdefine.1)] at hpass
    rw [show c.advance = m from hpass.2.2, hcolon] at hdefine
    cases hdefine.2
  · rw [hpass.ahead_eq]
    exact h.continuesHead hhead

end Part.Readable

section

variable {links : List Link} {t : Token} {rest : List Token}

/-- Links, and what ends them, start with none of the operators that make other forms. -/
lemma isSymbol_links (links : List Link) (hend : t.isEnd) (rest : List Token) {s : String}
    (hs : s ∈ [":", "?", ","]) :
    ((links.flatMap Link.tokens ++ t :: rest).head?.any (·.isSymbol s)) = false := by
  cases links with
  | nil =>
    simp [Token.isSymbol_of_kind (Token.kind_of_isEnd hend).2]
  | cons link links =>
    have hne : link.sign.token.lexeme ≠ s := fun heq => link.sign.plain (heq ▸ hs)
    simp [Link.tokens, Token.isSymbol, hne]

/-- Links lead to no head of a function. -/
lemma continuesHead_links (hlinks : ∀ link ∈ links, link.operand.Readable) (hend : t.isEnd) :
    continuesHead (links.flatMap Link.tokens ++ t :: rest) = false := by
  cases links with
  | nil =>
    obtain ⟨hname, hop⟩ := Token.kind_of_isEnd hend
    exact continuesHead_of_kind hname hop _
  | cons link links =>
    rw [List.forall_mem_cons] at hlinks
    obtain ⟨u, others, htokens, -, -, hname⟩ := hlinks.1.first
    have hquestion := isSymbol_links (link :: links) hend rest (s := "?") (by simp)
    -- only a name after a tilde could be a parameter, and no question mark follows it
    have hnext := isSymbol_links links hend rest (s := "?") (by simp)
    simp only [List.flatMap_cons, Link.tokens, htokens, List.cons_append, List.append_assoc] at hquestion ⊢
    rw [continuesHead, if_neg (by simp [link.sign.kind_eq])]
    by_cases hk : u.kind = .identifier
    · rw [hname hk, List.nil_append, List.tail_cons, hnext]
      simpa using hquestion
    · simpa [hk] using hquestion

end

/-- An operator before an operand joins it to the left, if it binds tightly enough. -/
lemma Sign.moveAt_eq {sign : Sign} {c : Cursor} (hhere : c.here = sign.token)
    (hstart : c.advance.here.startsOperand) (p : Nat) :
    moveAt p c = if sign.op.power < p then .stop else .join sign.op := by
  refine moveAt_binary (hhere ▸ sign.kind_eq) (hhere ▸ sign.entry) ?_
  have hbang : sign.token.lexeme ≠ "!" := by
    intro heq
    have hentry := sign.entry
    rw [heq, show Operator.binary? "!" = none by decide] at hentry
    cases hentry
  by_cases htilde : sign.token.lexeme = "~"
  · rw [Cursor.here_advance] at hstart
    simp [trails, Cursor.isTrailing, hhere, htilde, hstart]
  · exact trails_eq_false (by simp [hhere, hbang, htilde])

/-- The links that bind at some power go first among those that bind at a lower one. -/
lemma runs_of_le {p q : Nat} (hpq : p ≤ q) (links : List Link) :
    (links.takeWhile (p ≤ ·.power)).takeWhile (q ≤ ·.power) = links.takeWhile (q ≤ ·.power) ∧
      (links.takeWhile (p ≤ ·.power)).dropWhile (q ≤ ·.power) =
        (links.dropWhile (q ≤ ·.power)).takeWhile (p ≤ ·.power) ∧
      (links.dropWhile (q ≤ ·.power)).dropWhile (p ≤ ·.power) = links.dropWhile (p ≤ ·.power) := by
  induction links with
  | nil => exact ⟨rfl, rfl, rfl⟩
  | cons link links ih =>
    by_cases hq : q ≤ link.power
    · simpa [hq, hpq.trans hq] using ih
    · by_cases hp : p ≤ link.power <;> simp [hq, hp]

/-- Links are taken in as long as they bind tightly enough, and joined as the chain of them is split. -/
theorem reads_climb {links : List Link} (hlinks : ∀ link ∈ links, link.operand.Readable) {c d : Cursor}
    (hpass : c.Passes d (links.flatMap Link.tokens)) (hend : d.here.isEnd) (p : Nat) (first : Expr) :
    ∃ m, m.Passes d ((links.dropWhile (p ≤ ·.power)).flatMap Link.tokens) ∧
      Reads (.climb p (.single first)) c (split first (links.takeWhile (p ≤ ·.power))) m := by
  generalize hlength : links.length = n
  induction n using Nat.strong_induction_on generalizing links c p first with
  | _ n ih =>
  subst hlength
  cases links with
  | nil =>
    obtain rfl : c = d := hpass
    refine ⟨c, rfl, ?_⟩
    rw [List.takeWhile_nil, split_nil]
    exact .stop (moveAt_of_isEnd hend p)
  | cons link links =>
    rw [List.forall_mem_cons] at hlinks
    have hpass' := hpass
    rw [List.flatMap_cons, Cursor.passes_append] at hpass'
    obtain ⟨m, ⟨hhere, hafter, hoperand⟩, hmore⟩ := hpass'
    have hstart := (hlinks.1.startsOperand hoperand).1
    have hmove : moveAt p c = if link.power < p then .stop else .join link.sign.op :=
      link.sign.moveAt_eq hhere hstart p
    by_cases hp : p ≤ link.power
    · have hq : p ≤ link.rightPower := hp.trans link.rightPower_bounds.1
      obtain ⟨htaken, hbetween, hdropped⟩ := runs_of_le hq links
      -- the right operand takes in what binds tightly enough there, and the climb goes on after it
      obtain ⟨m', hpass', hright⟩ := ih _ (Nat.lt_succ_self _) hlinks.2 hmore link.rightPower
        link.operand.expr rfl
      have hlinks' : ∀ l ∈ links.dropWhile (link.rightPower ≤ ·.power), l.operand.Readable := fun l hl =>
        hlinks.2 l ((List.dropWhile_sublist _).subset hl)
      obtain ⟨m'', hpass'', hread⟩ := ih _ (Nat.lt_succ_of_le (List.dropWhile_sublist _).length_le) hlinks' hpass'
        p (link.sign.join first (split link.operand.expr (links.takeWhile (link.rightPower ≤ ·.power)))) rfl
      have hahead : m.ahead = links.flatMap Link.tokens ++ d.here :: d.after := hmore.ahead_eq
      have hcolon := isSymbol_links links hend d.after (s := ":") (by simp)
      rw [← hahead] at hcolon
      have htakes := hlinks.1.takes hoperand (hahead ▸ continuesHead_links hlinks.2 hend) hcolon link.rightPower
      refine ⟨m'', ?_, ?_⟩
      · rw [List.dropWhile_cons, if_pos (decide_eq_true hp), ← hdropped]
        exact hpass''
      · rw [List.takeWhile_cons, if_pos (decide_eq_true hp), split_cons, htaken, hbetween]
        rw [if_neg (Nat.not_lt.2 hp)] at hmove
        refine .join hmove hstart (htakes _ _ hright) ?_ hread
        rw [hhere]
        exact link.sign.join?_eq _ _
    · have hnot := decide_eq_false hp
      refine ⟨c, ?_, ?_⟩
      · rw [List.dropWhile_cons, hnot]
        exact hpass
      · rw [List.takeWhile_cons, hnot]
        rw [if_pos (Nat.not_le.1 hp)] at hmove
        exact (split_nil first).symm ▸ .stop hmove

end Chain

/-! ## The grammar -/

namespace Chain

/-- A token that is an operand alone. -/
structure Atom where
  token : Token
  expr : Expr
  atom_eq : atom? token = some expr

/-- Two brackets, both of them bars or none. -/
structure Brackets where
  opener : Token
  closer : Token
  opens : opener.kind = .opening
  closes : closer.kind = .closing
  family : opener.isBar = closer.isBar

/-- What is in bars is an absolute value, and other brackets only group. -/
def Brackets.enclose (brackets : Brackets) (e : Expr) : Expr :=
  if brackets.opener.lexeme = Operator.bar then .unary Operator.bar true e else e

end Chain

mutual

/-- A single token, or a chain in brackets. -/
inductive Chain.Operand where
  | atom (a : Chain.Atom)
  | group (brackets : Chain.Brackets) (inside : Chain)

/-- Operands with binary operators between them. -/
inductive Chain where
  | single (operand : Chain.Operand)
  | more (operand : Chain.Operand) (sign : Chain.Sign) (rest : Chain)

end

namespace Chain

mutual

/-- The tokens of an operand, and its expression. -/
def Operand.part : Operand → Part
  | .atom a => ⟨[a.token], a.expr⟩
  | .group brackets inside =>
    ⟨brackets.opener :: (inside.head.tokens ++ inside.links.flatMap Link.tokens ++ [brackets.closer]),
      brackets.enclose (split inside.head.expr inside.links)⟩

/-- The first operand of a chain. -/
def head : Chain → Part
  | .single operand => operand.part
  | .more operand _ _ => operand.part

/-- The operators of a chain that are in none of its groups, with their right operands. -/
def links : Chain → List Link
  | .single _ => []
  | .more _ sign rest => ⟨sign, rest.head⟩ :: rest.links

end

/-- The tokens of a chain. -/
def tokens (chain : Chain) : List Token :=
  chain.head.tokens ++ chain.links.flatMap Link.tokens

/-- The expression of a chain. -/
def expr (chain : Chain) : Expr :=
  split chain.head.expr chain.links

/-- All operands of a chain can be read. -/
def Readable (chain : Chain) : Prop :=
  chain.head.Readable ∧ ∀ link ∈ chain.links, link.operand.Readable

namespace Readable

variable {chain : Chain} {c d : Cursor}

/-- A chain is read up to where it ends. -/
lemma reads (h : chain.Readable) (hpass : c.Passes d chain.tokens) (hend : d.here.isEnd) :
    Reads (.expr 0) c chain.expr d := by
  obtain ⟨m, hhead, hlinks⟩ := Cursor.passes_append.1 hpass
  obtain ⟨m', hpass', hread⟩ := reads_climb h.2 hlinks hend 0 chain.head.expr
  have hahead : m.ahead = chain.links.flatMap Link.tokens ++ d.here :: d.after := hlinks.ahead_eq
  have hcolon := isSymbol_links chain.links hend d.after (s := ":") (by simp)
  rw [← hahead] at hcolon
  have htakes := h.1.takes hhead (hahead ▸ continuesHead_links h.2 hend) hcolon 0
  -- all links bind at the lowest power
  have hall : ∀ link ∈ chain.links, decide (0 ≤ link.power) := fun link _ => decide_eq_true (Nat.zero_le _)
  rw [List.dropWhile_eq_nil_iff.2 hall] at hpass'
  rw [List.takeWhile_eq_self_iff.2 hall] at hread
  obtain rfl : m' = d := hpass'
  exact htakes _ _ hread

/-- A chain is a sequence of one statement. -/
lemma statements (h : chain.Readable) (hpass : c.Passes d chain.tokens) (hend : d.here.isEnd)
    (hseparator : d.here.kind ≠ .separator) : Reads (.statements []) c chain.expr d := by
  obtain ⟨m, hhead, -⟩ := Cursor.passes_append.1 hpass
  refine .last ?_ (h.reads hpass hend) hseparator
  have hstart := (h.1.startsOperand hhead).1
  rintro (hk | hk) <;> simp [Token.startsOperand, hk] at hstart

/-- The brackets of a chain match. -/
lemma closed (h : chain.Readable) (stack : List Bool) : openAfter stack chain.tokens = some stack := by
  have hlinks : ∀ links : List Link, (∀ link ∈ links, link.operand.Readable) →
      openAfter stack (links.flatMap Link.tokens) = some stack := by
    intro links hlinks
    induction links with
    | nil => rfl
    | cons link links ih =>
      rw [List.forall_mem_cons] at hlinks
      rw [List.flatMap_cons, openAfter_append, Link.tokens,
        openAfter_other (by simp [Token.isBracket, link.sign.kind_eq]), hlinks.1.closed]
      exact ih hlinks.2
  rw [tokens, openAfter_append, h.1.closed]
  exact hlinks chain.links h.2

/-- The end of the input is no token of a chain. -/
lemma inside (h : chain.Readable) : ∀ t ∈ chain.tokens, t.kind ≠ .ending := by
  intro t ht
  rcases List.mem_append.1 ht with ht | ht
  · exact h.1.inside t ht
  obtain ⟨link, hlink, ht⟩ := List.mem_flatMap.1 ht
  rcases List.mem_cons.1 ht with rfl | ht
  · simp [link.sign.kind_eq]
  · exact (h.2 link hlink).inside t ht

end Readable

/-- A single token can be read. -/
lemma Atom.readable (a : Atom) : Part.Readable ⟨[a.token], a.expr⟩ := by
  have hatom := a.atom_eq
  have hstarts : a.token.kind ≠ .operator ∧ a.token.startsOperand ∧ a.token.isBracket = false ∧
      a.token.kind ≠ .ending := by
    unfold atom? at hatom
    split at hatom
    all_goals first
      | cases hatom
      | simp [Token.startsOperand, Token.isBracket, *]
  refine ⟨?_, ⟨a.token, [], rfl, hstarts.1, hstarts.2.1, fun _ => rfl⟩, fun stack => ?_, ?_⟩
  · rintro c d ⟨hhere, -, rfl⟩
    exact .atom (hhere ▸ hatom)
  · exact openAfter_other hstarts.2.2.1 stack []
  · exact List.forall_mem_singleton.2 hstarts.2.2.2

/-- A chain in brackets can be read. -/
lemma Readable.group {chain : Chain} (h : chain.Readable) (brackets : Brackets) :
    Part.Readable ⟨brackets.opener :: (chain.tokens ++ [brackets.closer]), brackets.enclose chain.expr⟩ := by
  refine ⟨?_, ⟨brackets.opener, _, rfl, ?_, ?_, ?_⟩, fun stack => ?_, ?_⟩
  · rintro c d ⟨hhere, -, hinside⟩
    obtain ⟨m, hpass, hcloser, -, rfl⟩ := Cursor.passes_append.1 hinside
    have hclosing : m.here.kind = .closing := hcloser ▸ brackets.closes
    have hread := h.statements hpass (by simp [Token.isEnd, hclosing]) (by simp [hclosing])
    obtain ⟨_, hhead, -⟩ := Cursor.passes_append.1 hpass
    obtain ⟨hstart, hkind⟩ := h.1.startsOperand hhead
    have hopening : c.here.kind = .opening := hhere ▸ brackets.opens
    have hne : c.advance.here.kind ≠ .closing := by
      intro hk
      simp [Token.startsOperand, hk] at hstart
    dsimp only
    unfold Brackets.enclose
    split
    · next hbar => exact .bars hopening (hhere ▸ hbar) hne hread hclosing
    · next hbar =>
      refine .group hopening (hhere ▸ hbar) hne ?_ hread hclosing
      simp [Cursor.headsPointFree, hkind]
  · simp [brackets.opens]
  · simp [Token.startsOperand, brackets.opens]
  · simp [brackets.opens]
  · rw [openAfter_opening brackets.opens, openAfter_append, h.closed]
    exact (openAfter_closing brackets.closes _ _ _).trans (if_pos brackets.family)
  · simp only [List.forall_mem_cons, List.forall_mem_append]
    exact ⟨by simp [brackets.opens], h.inside, by simp [brackets.closes], List.forall_mem_nil _⟩

mutual

/-- Operands can be read. -/
lemma Operand.readable : ∀ operand : Operand, operand.part.Readable
  | .atom a => a.readable
  | .group brackets inside => inside.readable.group brackets

/-- The operands of chains can be read. -/
lemma readable : ∀ chain : Chain, chain.Readable
  | .single operand => ⟨operand.readable, List.forall_mem_nil _⟩
  | .more operand _ rest => ⟨operand.readable, List.forall_mem_cons.2 rest.readable⟩

end

/-- A chain is spelled by its tokens. -/
lemma spells (chain : Chain) {ending : Token} (hending : ending.kind = .ending) :
    Spells (chain.tokens ++ [ending]) chain.expr := by
  have htokens : (Cursor.ofTokens (chain.tokens ++ [ending])).tokens = chain.tokens ++ [ending] :=
    tokens_ofTokens_concat hending
  refine ⟨?_, ?_⟩
  · rw [htokens, bracketFault?_eq_none_iff, balanced_concat hending]
    exact chain.readable.closed []
  · obtain ⟨d, hpass, hd⟩ := Cursor.exists_passes ((Cursor.ahead_ofTokens _).trans htokens)
    have hkind : d.here.kind = .ending := by
      rw [(List.cons.inj hd).1]
      exact hending
    exact ⟨d, chain.readable.statements hpass (by simp [Token.isEnd, hkind]) (by simp [hkind]), hkind⟩

/-- A chain has a token. -/
lemma tokens_ne_nil (chain : Chain) : chain.tokens ≠ [] := by
  obtain ⟨t, rest, htokens, -⟩ := chain.readable.1.first
  simp [tokens, htokens]

end Chain

/-- The end of the input is added to a list that lacks it. -/
lemma exists_ofTokens_eq {ts : List Token} (hne : ts ≠ []) (h : ∀ t ∈ ts, t.kind ≠ .ending) :
    ∃ ending, ending.kind = .ending ∧ Cursor.ofTokens ts = Cursor.ofTokens (ts ++ [ending]) := by
  cases ts with
  | nil => exact absurd rfl hne
  | cons t rest =>
    have hlast : rest.getLastD t ∈ t :: rest := by
      cases hrest : rest.getLast? with
      | none => simp [List.getLastD_eq_getLast?, hrest]
      | some last => simp [List.getLastD_eq_getLast?, hrest, List.mem_of_getLast? hrest]
    refine ⟨(rest.getLastD t).borrow .ending "", rfl, ?_⟩
    rw [Cursor.ofTokens, List.cons_append, Cursor.ofTokens, if_neg (h _ hlast), if_pos (by simp [Token.borrow])]

/-- The tokens of a chain, with or without the end of the input after them, write the expression that the
chain is split into, up to the limit on nested expressions. -/
theorem Chain.buildWithin_eq (chain : Chain) (ending : Option Token) (hending : ∀ t ∈ ending, t.kind = .ending) :
    (∃ depth₀, ∀ depth, depth₀ ≤ depth → buildWithin depth (chain.tokens ++ ending.toList) = .ok chain.expr) ∧
      ∀ depth, buildWithin depth (chain.tokens ++ ending.toList) = .ok chain.expr ∨
        ∃ f, buildWithin depth (chain.tokens ++ ending.toList) = .error f ∧ f.fault = .tooDeep := by
  have hspells : Spells (chain.tokens ++ ending.toList) chain.expr := by
    cases ending with
    | some ending => exact chain.spells (hending ending rfl)
    | none =>
      obtain ⟨ending, hkind, heq⟩ := exists_ofTokens_eq chain.tokens_ne_nil chain.readable.inside
      have hspells := chain.spells hkind
      rw [Spells, ← heq] at hspells
      rwa [Option.toList_none, List.append_nil]
  exact ⟨hspells.buildWithin, buildWithin_or hspells⟩

/-- Differences group to the left and powers to the right, and bars enclose a range. -/
theorem Chain.buildWithin_eq_powers :
    ∃ depth, buildWithin depth [⟨.identifier, "a", 1, 1, 0, false⟩, ⟨.operator, "-", 1, 3, 2, false⟩,
      ⟨.identifier, "b", 1, 5, 4, false⟩, ⟨.operator, "-", 1, 7, 6, false⟩, ⟨.opening, "|", 1, 9, 8, false⟩,
      ⟨.identifier, "c", 1, 10, 9, false⟩, ⟨.operator, "~", 1, 11, 10, false⟩,
      ⟨.identifier, "d", 1, 12, 11, false⟩, ⟨.closing, "|", 1, 13, 12, false⟩,
      ⟨.operator, "^", 1, 15, 14, false⟩, ⟨.identifier, "e", 1, 17, 16, false⟩,
      ⟨.operator, "^", 1, 19, 18, false⟩, ⟨.identifier, "f", 1, 21, 20, false⟩] =
      .ok (.binary "-" (.binary "-" (.identifier "a") (.identifier "b"))
        (.binary "^" (.unary "|" true (.range (.identifier "c") (.identifier "d")))
          (.binary "^" (.identifier "e") (.identifier "f")))) := by
  let minus (column : Nat) (offset : Int) : Sign :=
    ⟨⟨.operator, "-", 1, column, offset, false⟩, ⟨"-", .binary, "sub", 80, .left⟩, rfl,
      show Operator.binary? "-" = _ by decide, show "-" ∉ [":", "?", ","] by decide⟩
  let power (column : Nat) (offset : Int) : Sign :=
    ⟨⟨.operator, "^", 1, column, offset, false⟩, ⟨"^", .binary, "power", 100, .right⟩, rfl,
      show Operator.binary? "^" = _ by decide, show "^" ∉ [":", "?", ","] by decide⟩
  let tilde : Sign :=
    ⟨⟨.operator, "~", 1, 11, 10, false⟩, ⟨"~", .binary, "range", Power.range, .left⟩, rfl,
      show Operator.binary? "~" = _ by decide, show "~" ∉ [":", "?", ","] by decide⟩
  let name (s : String) (column : Nat) (offset : Int) : Operand :=
    .atom ⟨⟨.identifier, s, 1, column, offset, false⟩, .identifier s, rfl⟩
  let bars : Brackets :=
    ⟨⟨.opening, "|", 1, 9, 8, false⟩, ⟨.closing, "|", 1, 13, 12, false⟩, rfl, rfl, rfl⟩
  let chain : Chain := .more (name "a" 1 0) (minus 3 2) (.more (name "b" 5 4) (minus 7 6)
    (.more (.group bars (.more (name "c" 10 9) tilde (.single (name "d" 12 11)))) (power 15 14)
      (.more (name "e" 17 16) (power 19 18) (.single (name "f" 21 20)))))
  obtain ⟨⟨depth, hbuild⟩, -⟩ := chain.buildWithin_eq none (by simp)
  refine ⟨depth, (hbuild depth le_rfl).trans (congrArg Except.ok ?_)⟩
  decide +kernel

end SignLang
