import SignLang.Text.Quoted

/-!
# Lexemes

The character classes of the language, and one reader for each form of lexeme. A reader is given
the text from the lexeme's first character on and returns the lexeme, which is the front of that
text. When it cannot, it says why and returns the characters that it had read until then.
-/

namespace SignLang

/-- The radix of an integer that starts with a zero and a letter. -/
inductive Radix where
  | hexadecimal
  | octal
  | binary
deriving DecidableEq, Repr

namespace Radix

/-- The name of a radix in messages. -/
def name : Radix → String
  | hexadecimal => "hexadecimal"
  | octal => "octal"
  | binary => "binary"

/-- The radix as a number. -/
def base : Radix → Nat
  | hexadecimal => 16
  | octal => 8
  | binary => 2

/-- The radix that a letter after a leading zero announces. -/
def ofLetter? (c : Char) : Option Radix :=
  if c = 'x' then some hexadecimal
  else if c = 'o' then some octal
  else if c = 'b' then some binary
  else none

/-- A character is a digit of the radix. -/
def isDigit (radix : Radix) (c : Char) : Bool :=
  match radix with
  | hexadecimal => c.isDigit || ('a' ≤ c && c ≤ 'f') || ('A' ≤ c && c ≤ 'F')
  | octal => '0' ≤ c && c ≤ '7'
  | binary => c = '0' || c = '1'

end Radix

namespace Lexeme

/-- A space or a tab: it divides tokens and ends no line. -/
def isSpace (c : Char) : Bool :=
  c = ' ' || c = '\t'

/-- A character that ends a line. -/
def isTerminator (c : Char) : Bool :=
  c = '\n' || c = '\r'

/-- A character between tokens. -/
def isGap (c : Char) : Bool :=
  isSpace c || isTerminator c

/-- The first character of a name: a letter or an underscore. The language knows plain Latin
letters only. -/
def isNameStart (c : Char) : Bool :=
  c.isAlpha || c = '_'

/-- A further character of a name. -/
def isNameChar (c : Char) : Bool :=
  c.isAlphanum || c = '_'

/-- A bracket that opens a group. -/
def isOpener (c : Char) : Bool :=
  c = '(' || c = '[' || c = '\x7b'

/-- A bracket that closes a group. -/
def isCloser (c : Char) : Bool :=
  c = ')' || c = ']' || c = '\x7d'

theorem isSpace_iff {c : Char} : isSpace c ↔ c = ' ' ∨ c = '\t' := by
  simp [isSpace]

theorem isTerminator_iff {c : Char} : isTerminator c ↔ c = '\n' ∨ c = '\r' := by
  simp [isTerminator]

theorem isOpener_iff {c : Char} : isOpener c ↔ c = '(' ∨ c = '[' ∨ c = '\x7b' := by
  simp [isOpener, or_assoc]

theorem isCloser_iff {c : Char} : isCloser c ↔ c = ')' ∨ c = ']' ∨ c = '\x7d' := by
  simp [isCloser, or_assoc]

/-- The mark around a string, which also starts a comment. -/
def tick : Char :=
  '\x60'

/-- Why no token can be read. -/
inductive Fault where
  | unterminatedString
  | danglingBackslash
  | noDigits (radix : Radix)
  | badSuffix
  | strayBar
  | unexpected (found : Option Char)
deriving DecidableEq, Repr

/-- The wording of a fault. -/
def Fault.message : Fault → String
  | unterminatedString => "Unterminated string literal"
  | danglingBackslash => "Dangling backslash: character literal needs a character"
  | noDigits radix => s!"Malformed {radix.name} literal: no digits after prefix"
  | badSuffix => "Invalid number suffix"
  | strayBar => "Stray '|': neither an operator nor an absolute-value delimiter"
  | unexpected found => "Unexpected character " ++ Text.quoted (String.ofList found.toList)

/-- A fault, with the characters read before it. -/
structure Misread where
  fault : Fault
  taken : List Char
deriving DecidableEq, Repr

/-- A line terminator: a carriage return and a line feed together, or either alone. -/
def readTerminator : List Char → List Char
  | '\r' :: '\n' :: _ => ['\r', '\n']
  | c :: _ => [c]
  | [] => []

/-- A character inside a string. -/
def isStringChar (c : Char) : Bool :=
  c ≠ tick && !isTerminator c

/-- A string: everything up to the next tick, which has to stand on the same line. -/
def readString (text : List Char) : Except Misread (List Char) :=
  let body := (text.drop 1).takeWhile isStringChar
  if ((text.drop 1).dropWhile isStringChar).head? = some tick then
    .ok (tick :: body ++ [tick])
  else
    .error ⟨.unterminatedString, tick :: body⟩

/-- A character literal: a backslash and the next character, whatever it is. -/
def readCharacter (text : List Char) : Except Misread (List Char) :=
  match text.drop 1 with
  | [] => .error ⟨.danglingBackslash, ['\\']⟩
  | c :: _ => .ok ['\\', c]

/-- The fractional part of a number: a point that a digit follows, and the digits. -/
def readFraction : List Char → List Char
  | '.' :: d :: rest => if d.isDigit then '.' :: (d :: rest).takeWhile Char.isDigit else []
  | _ => []

/-- The exponent of a number: the letter, a minus or nothing, and digits. -/
def readExponent : List Char → List Char
  | 'e' :: '-' :: d :: rest =>
    if d.isDigit then 'e' :: '-' :: (d :: rest).takeWhile Char.isDigit else []
  | 'e' :: d :: rest => if d.isDigit then 'e' :: (d :: rest).takeWhile Char.isDigit else []
  | _ => []

/-- A decimal number. -/
def readDecimal (text : List Char) : List Char :=
  let whole := text.takeWhile Char.isDigit
  let fraction := readFraction (text.drop whole.length)
  let exponent := readExponent (text.drop (whole.length + fraction.length))
  whole ++ fraction ++ exponent

/-- A number runs up to a character that is no part of a name. -/
def endNumber (lexeme text : List Char) : Except Misread (List Char) :=
  if (text.drop lexeme.length).head?.any isNameChar then .error ⟨.badSuffix, lexeme⟩
  else .ok lexeme

/-- The radix of the number at the front of a text, if it is announced there. -/
def radixAt? : List Char → Option Radix
  | '0' :: letter :: _ => Radix.ofLetter? letter
  | _ => none

/-- A number, decimal unless a radix is announced. -/
def readNumber (text : List Char) : Except Misread (List Char) :=
  match radixAt? text with
  | none => endNumber (readDecimal text) text
  | some radix =>
    let digits := (text.drop 2).takeWhile radix.isDigit
    if digits.isEmpty then .error ⟨.noDigits radix, text.take 2⟩
    else endNumber (text.take 2 ++ digits) text

/-- A name, or the unit when it is a lone underscore. -/
def readName (text : List Char) : List Char :=
  text.takeWhile isNameChar

/-- The operators that have two characters. -/
def isPair (c d : Char) : Bool :=
  (c = '<' || c = '>' || c = '!' || c = '=') && d = '='

theorem isPair_iff {c d : Char} : isPair c d ↔ (c = '<' ∨ c = '>' ∨ c = '!' ∨ c = '=') ∧ d = '=' := by
  simp [isPair, or_assoc]

/-- The operators that have one character; the bar is not among them. -/
def isSingle (c : Char) : Bool :=
  [':', '?', ',', '~', ';', '&', '!', '<', '=', '>', '+', '-', '*', '/', '%', '^', '\x27', '#', '@',
   '$'].contains c

/-- An operator, as long as possible. -/
def readOperator : List Char → Except Misread (List Char)
  | c :: d :: _ =>
    if isPair c d then .ok [c, d]
    else if isSingle c then .ok [c]
    else .error ⟨.unexpected (some c), []⟩
  | [c] => if isSingle c then .ok [c] else .error ⟨.unexpected (some c), []⟩
  | [] => .error ⟨.unexpected none, []⟩

/-- A text that starts with a digit has a number at its front. -/
theorem readDecimal_ne_nil {c : Char} {text : List Char} (h : c.isDigit) :
    readDecimal (c :: text) ≠ [] := by
  simp [readDecimal, h]

/-- A number that ends well is not empty. -/
theorem ne_nil_of_endNumber {lexeme text found : List Char} (hl : lexeme ≠ [])
    (h : endNumber lexeme text = .ok found) : found ≠ [] := by
  unfold endNumber at h
  split at h
  · cases h
  · cases h; exact hl

/-- A number that starts with a digit is not empty. -/
theorem ne_nil_of_readNumber {c : Char} {text found : List Char} (hc : c.isDigit)
    (h : readNumber (c :: text) = .ok found) : found ≠ [] := by
  unfold readNumber at h
  split at h
  · exact ne_nil_of_endNumber (readDecimal_ne_nil hc) h
  · dsimp only at h
    split at h
    · cases h
    · exact ne_nil_of_endNumber (by simp) h

/-- A string is not empty: it has its ticks. -/
theorem ne_nil_of_readString {text found : List Char} (h : readString text = .ok found) :
    found ≠ [] := by
  unfold readString at h
  split at h <;> cases h
  simp

/-- A character literal is not empty: it has its backslash. -/
theorem ne_nil_of_readCharacter {text found : List Char} (h : readCharacter text = .ok found) :
    found ≠ [] := by
  unfold readCharacter at h
  split at h <;> cases h
  simp

/-- An operator is not empty. -/
theorem ne_nil_of_readOperator {text found : List Char} (h : readOperator text = .ok found) :
    found ≠ [] := by
  unfold readOperator at h
  repeat' split at h
  all_goals cases h
  all_goals simp

/-- A terminator is not empty. -/
theorem readTerminator_ne_nil {text : List Char} (h : text ≠ []) : readTerminator text ≠ [] := by
  unfold readTerminator
  split <;> simp_all

/-- A text that starts like a name has a name at its front. -/
theorem readName_ne_nil {c : Char} {text : List Char} (h : isNameStart c) :
    readName (c :: text) ≠ [] := by
  have : isNameChar c := by
    simp only [isNameStart, isNameChar, Char.isAlphanum, Bool.or_eq_true] at h ⊢
    rcases h with h | h
    · exact .inl (.inl h)
    · exact .inr h
  simp [readName, this]

end Lexeme

end SignLang
