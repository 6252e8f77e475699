import Folio.Json.Display
import Folio.Decimal.Numeral

/-!
Lengths as they are given: texts with a unit, bare numerals, and numbers. A bare number counts
millimetres.
-/
namespace Folio.Length

open Decimal (NumeralError Binary64)

/-- The text of a whole number in brief, if it is within the 64-bit range. -/
def briefWhole (n : Int) : Except NumeralError Chars :=
  let x := Binary64.ofInt n
  if x.isFinite then .ok x.brief else .error .tooLarge

/-- A length as it is kept: a trimmed text, or a number in brief; `none` for an empty text, `null`,
or a truth value. -/
def stored : Json → Except NumeralError (Option Chars)
  | .null => .ok none
  | .bool _ => .ok none
  | .int n => (briefWhole n).map some
  | .real x => .ok (some x.brief)
  | j =>
      let s := Text.trim j.display
      .ok (if s.isEmpty then none else some s)

/-- Whether the character is a decimal digit of some script. -/
def isDigit (c : Rune) : Bool := (Decimal.digitValue? c).isSome

/-- Whether the text is a numeral without sign and exponent: digits, and more digits after a
point. -/
def isBareNumeral (s : Chars) : Bool :=
  match s.dropWhile isDigit with
  | [] => !s.isEmpty
  | c :: fraction =>
      c == '.' && fraction.length + 1 < s.length && !fraction.isEmpty && fraction.all isDigit

def millimetres (s : Chars) : Chars := s ++ [.of 'm', .of 'm']

/-- A text as a length: bare numerals are millimetres. -/
def ofText (text : Chars) : Option Chars :=
  let s := Text.trim text
  if s.isEmpty then none else some (if isBareNumeral s then millimetres s else s)

/-- A value as a length of a style sheet: numbers and bare numerals are millimetres; any other
value is its trimmed text. -/
def canonical : Json → Except NumeralError (Option Chars)
  | .null => .ok none
  | .bool _ => .ok none
  | .int n => (briefWhole n).map fun s => some (millimetres s)
  | .real x => .ok (some (millimetres x.brief))
  | j => .ok (ofText j.display)

example : ofText " 25 ".runes = some "25mm".runes := by decide
example : ofText "1.".runes = some "1.".runes := by decide

end Folio.Length
