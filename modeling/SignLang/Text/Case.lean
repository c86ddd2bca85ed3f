import SignLang.Text.Case.Data

/-!
# Letter case

A text in capitals and a text in small letters. Both map character by character, and one character
may become several; only the Greek capital sigma looks around itself, since its small form differs at
the end of a word.
-/

namespace SignLang.Text

/-- The image of a character under a list of runs: itself, if no run has it. -/
def shifted (runs : List (Nat × Nat × Nat × Nat)) (c : Char) : Char :=
  let run := runs.find? fun (first, last, step, _) =>
    first ≤ c.toNat && c.toNat ≤ last && (c.toNat - first) % step = 0
  match run with
  | some (first, _, _, image) => Char.ofNat (image + (c.toNat - first))
  | none => c

/-- The image of a character under expansions and runs. -/
def caseImage (expansions : List (Nat × List Nat)) (runs : List (Nat × Nat × Nat × Nat))
    (c : Char) : List Char :=
  match expansions.find? (·.1 = c.toNat) with
  | some (_, image) => image.map Char.ofNat
  | none => [shifted runs c]

/-- The text in capitals. -/
def upper (text : String) : String :=
  String.ofList (text.toList.flatMap (caseImage upperExpansions upperRuns))

/-- A character lies in one of the ranges. -/
def isWithin (ranges : List (Nat × Nat)) (c : Char) : Bool :=
  ranges.any fun (first, last) => first ≤ c.toNat && c.toNat ≤ last

/-- The first character that counts for the end of a word is a letter with a case. -/
def meetsCased (text : List Char) : Bool :=
  (text.dropWhile (isWithin caseIgnorableRanges)).head?.any (isWithin casedRanges)

/-- The small form of a capital sigma, by the text before it (last character first) and after it: at
the end of a word a letter stands before and none after. -/
def smallSigma (before after : List Char) : Char :=
  if meetsCased before && !meetsCased after then '\u03c2' else '\u03c3'

/-- The rest of a text in small letters, when `before` stands before it, last character first. -/
def lowerFrom (before : List Char) : List Char → List Char
  | [] => []
  | c :: rest =>
    (if c = '\u03a3' then [smallSigma before rest] else caseImage lowerExpansions lowerRuns c) ++
      lowerFrom (c :: before) rest

/-- The text in small letters. -/
def lower (text : String) : String :=
  String.ofList (lowerFrom [] text.toList)

end SignLang.Text
