import Folio.Text.Case
import Folio.Text.Quoted
import Folio.Decimal.Shortest

/-!
Numerals written by people: digits of any script, single underscores between digits, blanks
around. Whole numbers and 64-bit numbers are read from them.
-/
namespace Folio.Decimal

/-- The zeros of the scripts with decimal digits; the nine digits above follow each. -/
def scriptZeros : List Nat := [
  0x30, 0x660, 0x6F0, 0x7C0, 0x966, 0x9E6, 0xA66, 0xAE6, 0xB66, 0xBE6, 0xC66, 0xCE6, 0xD66, 0xDE6,
  0xE50, 0xED0, 0xF20, 0x1040, 0x1090, 0x17E0, 0x1810, 0x1946, 0x19D0, 0x1A80, 0x1A90, 0x1B50,
  0x1BB0, 0x1C40, 0x1C50, 0xA620, 0xA8D0, 0xA900, 0xA9D0, 0xA9F0, 0xAA50, 0xABF0, 0xFF10, 0x104A0,
  0x10D30, 0x11066, 0x110F0, 0x11136, 0x111D0, 0x112F0, 0x11450, 0x114D0, 0x11650, 0x116C0,
  0x11730, 0x118E0, 0x11950, 0x11C50, 0x11D50, 0x11DA0, 0x16A60, 0x16AC0, 0x16B50, 0x1D7CE,
  0x1D7D8, 0x1D7E2, 0x1D7EC, 0x1D7F6, 0x1E140, 0x1E2F0, 0x1E950, 0x1FBF0]

/-- The value of a decimal digit of any script. -/
def digitValue? (c : Rune) : Option Nat :=
  (scriptZeros.find? fun z => z ≤ c.toNat && c.toNat < z + 10).map fun z => c.toNat - z

/-- The numeral with its digits in ASCII; a blank outside ASCII becomes a space, and any other
character outside it one that no numeral holds. -/
def toAscii (c : Rune) : Rune :=
  if c.toNat < 127 then c
  else if Text.isBlank c then ' '
  else match digitValue? c with
    | some d => Rune.digit d
    | none => '?'

/-- The spaces that may surround a numeral: the space and the five controls that move the cursor. -/
def isNumeralSpace (c : Rune) : Bool := c == ' ' || (9 ≤ c.toNat && c.toNat ≤ 13)

/-- The numeral in ASCII without the spaces around it. -/
def normalize (text : Chars) : Chars :=
  Text.dropEnd isNumeralSpace ((text.map toAscii).dropWhile isNumeralSpace)

/-- Removes underscores that stand between two digits; any other underscore makes the numeral
invalid. -/
def joinDigits? : Chars → Option Chars
  | [] => some []
  | c :: '_' :: d :: rest =>
      if c.isDigit && d.isDigit then (joinDigits? (d :: rest)).map (c :: ·) else none
  | c :: rest => if c == '_' || rest == [.of '_'] then none else (joinDigits? rest).map (c :: ·)

/-- The value of a run of digits. -/
def valueOf (s : Chars) : Nat := s.foldl (fun n c => 10 * n + (c.toNat - 48)) 0

/-- Sign and rest of a numeral. -/
def splitSign : Chars → Bool × Chars
  | '-' :: rest => (true, rest)
  | '+' :: rest => (false, rest)
  | s => (false, s)

/-- Why a text is not read as a number. -/
inductive NumeralError where
  /-- The text is not a whole number. -/
  | notWhole (text : Chars)
  /-- The text is not a number. -/
  | notNumber (text : Chars)
  /-- The whole number has more digits than are read. -/
  | tooLong (digits : Nat)
  /-- A whole number lies beyond the 64-bit range. -/
  | tooLarge
  /-- A value of this kind is no number at all. -/
  | wrongKind (kind : Chars)
deriving DecidableEq, Repr

/-- The longest whole number that is read, in digits. -/
def maxDigits : Nat := 4300

/-- The wording of an error. -/
def NumeralError.message : NumeralError → Chars
  | .notWhole text =>
      "invalid literal for int() with base 10: ".runes ++ (Text.quoted text).take 200
  | .notNumber text => "could not convert string to float: ".runes ++ Text.quoted text
  | .tooLong digits =>
      "Exceeds the limit (".runes ++ Text.decimal maxDigits ++
        " digits) for integer string conversion: value has ".runes ++ Text.decimal digits ++
        " digits; use sys.set_int_max_str_digits() to increase the limit".runes
  | .tooLarge => "int too large to convert to float".runes
  | .wrongKind kind =>
      "float() argument must be a string or a real number, not '".runes ++ kind ++ [.of '\'']

/-- Reads a whole number. A run of digits that is too long is refused before what follows it is
looked at. -/
def readWhole (text : Chars) : Except NumeralError Int :=
  let (negative, body) := splitSign (normalize text)
  let isNumeral := fun (c : Rune) => c.isDigit || c == .of '_'
  match joinDigits? (body.takeWhile isNumeral) with
  | none => .error (.notWhole text)
  | some digits =>
      if maxDigits < digits.length then .error (.tooLong digits.length)
      else if digits.isEmpty || !(body.dropWhile isNumeral).isEmpty then .error (.notWhole text)
      else
        let n : Int := valueOf digits
        .ok (if negative then -n else n)

/-- An exponent after its letter: sign and at least one digit. -/
def exponent? : Chars → Option Int
  | [] => some 0
  | c :: rest =>
      if c == 'e' || c == 'E' then
        let (negative, digits) := splitSign rest
        if digits.isEmpty || !digits.all Rune.isDigit then none
        else
          let n : Int := valueOf digits
          some (if negative then -n else n)
      else none

/-- A plain or scientific numeral without its sign. -/
def unsigned? (negative : Bool) (s : Chars) : Option Binary64 :=
  let whole := s.takeWhile Rune.isDigit
  let (fraction, tail) := match s.dropWhile Rune.isDigit with
    | '.' :: rest => (rest.takeWhile Rune.isDigit, rest.dropWhile Rune.isDigit)
    | rest => ([], rest)
  if whole.isEmpty && fraction.isEmpty then none
  else (exponent? tail).map fun e =>
    let digits := whole ++ fraction
    Binary64.ofDecimal negative (valueOf digits) digits.length (e - fraction.length)

/-- Reads a 64-bit number; infinities and the undefined number have names. -/
def readNumber (text : Chars) : Except NumeralError Binary64 :=
  match joinDigits? (normalize text) with
  | none => .error (.notNumber text)
  | some numeral =>
      let (negative, body) := splitSign numeral
      let name := body.map Rune.toLower
      if name == "inf" || name == "infinity" then .ok (.infinite negative)
      else if name == "nan" then .ok .nan
      else match unsigned? negative body with
        | some x => .ok x
        | none => .error (.notNumber text)

example : (readWhole " +1_0\n".runes).toOption = some 10 := by decide
example : (readWhole "1__0".runes).toOption = none := by decide
example : (readNumber "٣".runes).toOption = some (Binary64.ofInt 3) := by decide

end Folio.Decimal
