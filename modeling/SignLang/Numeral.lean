import SignLang.Expr
import SignLang.Lexeme
import SignLang.Numeral.Double
import SignLang.Text.Blank
import SignLang.Text.Digit

/-!
# Values of literals

A number literal stands for an integer when it is written with digits only or with a radix, and for
a double when it has a point or an exponent. The literals that the scanner reads are among those
accepted here; a tree built by hand may also have a sign, blanks around the number, and single
underscores between its digits. Every other literal stands for its text.
-/

namespace SignLang

/-- The value of a literal. -/
inductive Value where
  | int (n : Int)
  | float (x : Float)
  | text (s : String)

namespace Numeral

/-- Why a number literal has no value. -/
inductive Fault where
  | notInteger (base : Nat) (raw : String)
  | notDecimal (raw : String)
  | tooLong (digits : Nat)
deriving DecidableEq, Repr

/-- The most digits that a decimal integer may have. -/
def maxDigits : Nat := 4300

/-- The most characters of a literal that a message about an integer shows. -/
def maxShown : Nat := 200

/-- The wording of a fault. -/
def Fault.message : Fault → String
  | notInteger base raw =>
    s!"invalid literal for int() with base {base}: " ++
      String.ofList ((Text.quoted raw).toList.take maxShown)
  | notDecimal raw => "could not convert string to float: " ++ Text.quoted raw
  | tooLong digits =>
    s!"Exceeds the limit ({maxDigits} digits) for integer string conversion: value has {digits} " ++
      "digits; use sys.set_int_max_str_digits() to increase the limit"

/-- A character of a number in plain form: digits of every script as the plain ones, and blanks as
spaces. -/
def plain (c : Char) : Char :=
  if c.toNat < 127 then c
  else if Text.isBlank c then ' '
  else
    match Text.digitValue? c with
    | some value => Nat.digitChar value
    | none => c

/-- A blank that may stand around a number, in plain form. -/
def isPadding (c : Char) : Bool :=
  c = ' ' || (0x09 ≤ c.toNat && c.toNat ≤ 0x0d)

/-- The value of a digit in any radix. -/
def digitValue (c : Char) : Nat :=
  if c.isDigit then c.toNat - '0'.toNat
  else if 'a' ≤ c && c ≤ 'f' then c.toNat - 'a'.toNat + 10
  else c.toNat - 'A'.toNat + 10

/-- The number that digits write. -/
def positional (base : Nat) (digits : List Char) : Nat :=
  digits.foldl (fun n c => base * n + digitValue c) 0

/-- Two underscores stand next to each other. -/
def hasDoubleUnderscore : List Char → Bool
  | '_' :: '_' :: _ => true
  | _ :: rest => hasDoubleUnderscore rest
  | [] => false

/-- The digits of an integer, without the underscores among them: at least one digit, no underscore
at either end and no two in a row. -/
def plainDigits? (digits : List Char) : Option (List Char) :=
  if digits.isEmpty || digits.head? = some '_' || digits.getLast? = some '_' ||
      hasDoubleUnderscore digits then none
  else some (digits.filter (· ≠ '_'))

/-- The sign at the front of a text, and the rest. -/
def takeSign : List Char → Bool × List Char
  | '-' :: rest => (true, rest)
  | '+' :: rest => (false, rest)
  | text => (false, text)

/-- The value of an integer that announces its radix. An underscore may follow the announcement. -/
def radixValue (radix : Radix) (raw : String) : Except Fault Value :=
  let body := (raw.toList.map plain).drop 2
  let body := if body.head? = some '_' then body.drop 1 else body
  let isPart c := radix.isDigit c || c = '_'
  match plainDigits? (body.takeWhile isPart) with
  | some digits =>
    if (body.dropWhile isPart).all isPadding then .ok (.int (positional radix.base digits))
    else .error (.notInteger 0 raw)
  | none => .error (.notInteger 0 raw)

/-- The value of a decimal integer. -/
def decimalValue (raw : String) : Except Fault Value :=
  let (negative, body) := takeSign ((raw.toList.map plain).dropWhile isPadding)
  let isPart c := Char.isDigit c || c = '_'
  match plainDigits? (body.takeWhile isPart) with
  | some digits =>
    if maxDigits < digits.length then .error (.tooLong digits.length)
    else if (body.dropWhile isPart).all isPadding then
      let n : Int := positional 10 digits
      .ok (.int (if negative then -n else n))
    else .error (.notInteger 10 raw)
  | none => .error (.notInteger 10 raw)

/-- The text without its underscores, each of which has to stand between two digits; `previous` is
the character before the text. -/
def withoutUnderscores? (previous : Option Char) : List Char → Option (List Char)
  | [] => some []
  | '_' :: rest =>
    if previous.any Char.isDigit && rest.head?.any Char.isDigit then
      withoutUnderscores? (some '_') rest
    else none
  | c :: rest => (withoutUnderscores? (some c) rest).map (c :: ·)

/-- The exponent that ends a number: nothing, or a letter, a sign and digits. -/
def exponent? : List Char → Option Int
  | [] => some 0
  | c :: rest =>
    let (negative, digits) := takeSign rest
    if (c = 'e' || c = 'E') && !digits.isEmpty && digits.all Char.isDigit then
      let n : Int := positional 10 digits
      some (if negative then -n else n)
    else none

/-- The fractional digits at the front of a text that follow a point, and the rest. -/
def takeFraction : List Char → List Char × List Char
  | '.' :: rest => (rest.takeWhile Char.isDigit, rest.dropWhile Char.isDigit)
  | text => ([], text)

/-- The double that a text writes: digits with perhaps a point, and perhaps an exponent. -/
def double? (text : List Char) : Option Float := do
  let (negative, body) := takeSign text
  let whole := body.takeWhile Char.isDigit
  let (fraction, rest) := takeFraction (body.dropWhile Char.isDigit)
  let digits := whole ++ fraction
  guard !digits.isEmpty
  let exponent ← exponent? rest
  return Double.ofDecimal negative (positional 10 digits) digits.length
    (exponent - fraction.length)

/-- The value of a number with a point or an exponent. -/
def doubleValue (raw : String) : Except Fault Value :=
  let trimmed := ((raw.toList.map plain).dropWhile isPadding).reverse.dropWhile isPadding
  match withoutUnderscores? none trimmed.reverse >>= double? with
  | some x => .ok (.float x)
  | none => .error (.notDecimal raw)

/-- The value of a number literal. -/
def value (raw : String) : Except Fault Value :=
  match Lexeme.radixAt? raw.toList with
  | some radix => radixValue radix raw
  | none =>
    if raw.toList.contains '.' || raw.toList.contains 'e' then doubleValue raw
    else decimalValue raw

end Numeral

/-- The value of a literal: a number, or its text. -/
def literalValue (kind : LiteralKind) (raw : String) : Except Numeral.Fault Value :=
  if kind = .number then Numeral.value raw else .ok (.text raw)

end SignLang
