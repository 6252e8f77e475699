import Folio.Text.Blank

/-!
Hexadecimal digits.
-/
namespace Folio.Text

/-- The value of a hexadecimal digit. -/
def hexValue? (c : Rune) : Option Nat :=
  if c.isDigit then some (c.toNat - 48)
  else if 'a' ≤ c && c ≤ 'f' then some (c.toNat - 87)
  else if 'A' ≤ c && c ≤ 'F' then some (c.toNat - 55)
  else none

def isHexDigit (c : Rune) : Bool := (hexValue? c).isSome

/-- The number written in base sixteen. -/
def hexNumber (s : Chars) : Nat := s.foldl (fun n c => 16 * n + (hexValue? c).getD 0) 0

/-- The last `width` digits of `n` in base sixteen. -/
def hex : Nat → Nat → Chars
  | 0, _ => []
  | width + 1, n => hex width (n / 16) ++ [.digit (n % 16)]

end Folio.Text
