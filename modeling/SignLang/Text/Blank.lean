/-!
# Blank characters

The characters that leave no mark on a line: spaces of every width, tabs, and the controls and
separators that end a line or a paragraph.
-/

namespace SignLang.Text

/-- The ranges of blank code points (first and last), ascending. -/
def blanks : List (Nat × Nat) :=
  [(0x09, 0x0d), (0x1c, 0x20), (0x85, 0x85), (0xa0, 0xa0), (0x1680, 0x1680), (0x2000, 0x200a),
   (0x2028, 0x2029), (0x202f, 0x202f), (0x205f, 0x205f), (0x3000, 0x3000)]

/-- A character is blank. -/
def isBlank (c : Char) : Bool :=
  blanks.any fun range => range.1 ≤ c.toNat && c.toNat ≤ range.2

end SignLang.Text
