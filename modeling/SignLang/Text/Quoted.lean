import SignLang.Text.Printable

/-!
# Quoted text

Messages and token dumps show a text between quotes, with everything invisible in it escaped.
The quote is the single one, unless the text has a single quote and no double one. `quoted` is
total: every text has a quoted form.
-/

namespace SignLang.Text

/-- The last `width` digits of `n` in lower-case hexadecimal. -/
def hexDigits : Nat → Nat → List Char
  | 0, _ => []
  | width + 1, n => hexDigits width (n / 16) ++ [Nat.digitChar (n % 16)]

/-- The escape of a character by its code point, as short as the code point allows. -/
def codeEscape (c : Char) : List Char :=
  if c.toNat < 0x100 then '\\' :: 'x' :: hexDigits 2 c.toNat
  else if c.toNat < 0x10000 then '\\' :: 'u' :: hexDigits 4 c.toNat
  else '\\' :: 'U' :: hexDigits 8 c.toNat

/-- One character of a text that stands between two `quote`s. -/
def escape (quote c : Char) : List Char :=
  if c = quote ∨ c = '\\' then ['\\', c]
  else if c = '\n' then ['\\', 'n']
  else if c = '\r' then ['\\', 'r']
  else if c = '\t' then ['\\', 't']
  else if isPrintable c then [c]
  else codeEscape c

/-- The quote for a text: single, unless only the double one is free. -/
def quoteFor (text : List Char) : Char :=
  if text.contains '\x27' && !text.contains '"' then '"' else '\x27'

/-- The text between quotes, invisible characters escaped. -/
def quoted (text : String) : String :=
  let quote := quoteFor text.toList
  String.ofList (quote :: (text.toList.flatMap (escape quote) ++ [quote]))

end SignLang.Text
