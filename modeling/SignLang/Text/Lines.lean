/-!
# Lines of a text

Where a text breaks into lines, and how a text is moved one tab to the right. A carriage return
and the line feed after it end one line together; every other character of `isLineEnd` ends a
line alone.
-/

namespace SignLang.Text

/-- A character ends a line. -/
def isLineEnd (c : Char) : Bool :=
  (0x0a ≤ c.toNat && c.toNat ≤ 0x0d) || (0x1c ≤ c.toNat && c.toNat ≤ 0x1e) ||
    c.toNat = 0x85 || c.toNat = 0x2028 || c.toNat = 0x2029

/-- The lines of a text, each with its line end; `line` holds the characters of the line at hand,
last one first. No line follows a final line end. -/
def splitLines.loop (line : List Char) : List Char → List (List Char)
  | [] => if line.isEmpty then [] else [line.reverse]
  | '\r' :: '\n' :: rest => ('\n' :: '\r' :: line).reverse :: loop [] rest
  | c :: rest =>
    if isLineEnd c then (c :: line).reverse :: loop [] rest else loop (c :: line) rest

/-- The lines of a text, each with the characters that end it. -/
def splitLines (text : List Char) : List (List Char) :=
  splitLines.loop [] text

/-- The text with a tab in front of each of its lines. -/
def indent (text : String) : String :=
  String.ofList ((splitLines text.toList).flatMap ('\t' :: ·))

/-- The text with every line end of the forms `\r\n` and `\r` written as `\n`. -/
def unifyLineEnds : List Char → List Char
  | [] => []
  | '\r' :: '\n' :: rest => '\n' :: unifyLineEnds rest
  | c :: rest => (if c = '\r' then '\n' else c) :: unifyLineEnds rest

end SignLang.Text
