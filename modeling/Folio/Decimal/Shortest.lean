import Folio.Text.Blank
import Folio.Decimal.Binary64

/-!
Decimal forms of 64-bit numbers: the fewest digits that read back, and a fixed number of
significant digits. Both end in the same layout, plain inside a window of magnitudes and
scientific outside it.
-/
namespace Folio.Decimal

/-- The decimal number `digits * 10 ^ scale`. -/
structure Digits where
  digits : Nat
  scale : Int
deriving DecidableEq, Repr

/-- The number of decimal digits of `n`, one for zero. -/
def width (n : Nat) : Nat := (Nat.toDigits 10 n).length

/-- The number of digits before the point of `num / den`: the least `k` with
`num / den < 10 ^ k`. `guess` is at most one off. -/
def pointOf (num den : Nat) : Int :=
  let guess : Int := (width num : Int) - (width den : Int)
  if (if 0 ≤ guess then num < den * Nat.pow 10 guess.toNat else num * Nat.pow 10 (-guess).toNat < den)
  then guess else guess + 1

/-- `num / den` in units of the `count`-th digit: the quotient and what is left, both over the
returned denominator. -/
def onGrid (num den : Nat) (point : Int) (count : Nat) : Nat × Nat × Nat :=
  let shift : Int := count - point
  let (n, d) := if 0 ≤ shift then (num * Nat.pow 10 shift.toNat, den)
                else (num, den * Nat.pow 10 (-shift).toNat)
  (n / d, n % d, d)

namespace Binary64

/-- Whether `digits`, read with `count` digits from `point` on, is the number itself. -/
def readsBack (mantissa : Nat) (exponent : Int) (point : Int) (count digits : Nat) : Bool :=
  ofDecimal false digits (count + 1) (point - count) == .finite false mantissa exponent

/-- The digits on the grid of `count` digits that read back, the nearer of two. -/
def digitsAt? (mantissa : Nat) (exponent : Int) (count : Nat) : Option Digits :=
  let (num, den) := ratio mantissa exponent
  let point := pointOf num den
  let (low, rest, unit) := onGrid num den point count
  let lowOk := readsBack mantissa exponent point count low
  let highOk := readsBack mantissa exponent point count (low + 1)
  let highNearer := unit < 2 * rest || (unit == 2 * rest && low % 2 == 1)
  if lowOk && !(highOk && highNearer) then some ⟨low, point - count⟩
  else if highOk then some ⟨low + 1, point - count⟩
  else none

/-- The first grid with digits that read back, tried from `count` digits on. -/
def firstDigits (mantissa : Nat) (exponent : Int) : Nat → Nat → Digits
  | 0, _ => ⟨mantissa, exponent⟩
  | tries + 1, count =>
      match digitsAt? mantissa exponent count with
      | some d => d
      | none => firstDigits mantissa exponent tries (count + 1)

/-- The fewest digits that read back as the positive number; seventeen always do. -/
def shortestDigits (mantissa : Nat) (exponent : Int) : Digits := firstDigits mantissa exponent 17 1

/-- The number rounded to `count` significant digits, a tie to the even last digit. -/
def significant (count mantissa : Nat) (exponent : Int) : Digits :=
  let (num, den) := ratio mantissa exponent
  let point := pointOf num den
  let (low, rest, unit) := onGrid num den point count
  let up := unit < 2 * rest || (unit == 2 * rest && low % 2 == 1)
  ⟨if up then low + 1 else low, point - count⟩

end Binary64

/-- How a decimal number is laid out: plain from `10 ^ lowest` up to below `10 ^ limit`, and
whether a plain whole number keeps a fractional zero. -/
structure Layout where
  lowest : Int
  limit : Int
  keepsPoint : Bool

/-- The full form of a number: plain from a ten-thousandth up to ten quadrillions. -/
def fullLayout : Layout := ⟨-4, 16, true⟩

/-- The brief form of a number: six significant digits, plain below a million. -/
def briefLayout : Layout := ⟨-4, 6, false⟩

/-- The digits of `n` without the zeros at its end, and how many these were. -/
def trimZeros : Nat → Nat → Nat × Nat
  | 0, n => (n, 0)
  | fuel + 1, n =>
      if n != 0 && n % 10 == 0 then
        let (m, k) := trimZeros fuel (n / 10)
        (m, k + 1)
      else (n, 0)

/-- Two digits at least. -/
def exponentText (e : Nat) : Chars :=
  if e < 10 then ['0', Rune.digit e] else Text.decimal e

/-- Lays out a positive number. -/
def layOut (style : Layout) (d : Digits) : Chars :=
  let (digits, zeros) := trimZeros (width d.digits) d.digits
  let scale : Int := d.scale + zeros
  let text : Chars := Text.decimal digits
  let first : Int := scale + text.length - 1
  if style.lowest ≤ first && first < style.limit then
    if 0 ≤ scale then
      text ++ List.replicate scale.toNat (.of '0') ++
        (if style.keepsPoint then [.of '.', .of '0'] else [])
    else if 0 ≤ first then
      text.take (first.toNat + 1) ++ .of '.' :: text.drop (first.toNat + 1)
    else .of '0' :: .of '.' :: List.replicate (-first - 1).toNat (.of '0') ++ text
  else
    let mantissa : Chars := match text with
      | [] => []
      | [c] => [c]
      | c :: rest => c :: .of '.' :: rest
    mantissa ++ .of 'e' :: (if first < 0 then .of '-' else .of '+') :: exponentText first.natAbs

namespace Binary64

/-- Sign, special values and zero, around the form of a positive number. -/
def form (style : Layout) (digits : Nat → Int → Digits) : Binary64 → Chars
  | .nan => "nan".runes
  | .infinite negative => (if negative then [.of '-'] else []) ++ "inf".runes
  | .finite negative mantissa exponent =>
      (if negative then [.of '-'] else []) ++
        (if mantissa == 0 then if style.keepsPoint then "0.0".runes else "0".runes
         else layOut style (digits mantissa exponent))

/-- The fewest digits that read back. -/
def full (x : Binary64) : Chars := form fullLayout shortestDigits x

/-- Six significant digits, without zeros at the end. -/
def brief (x : Binary64) : Chars := form briefLayout (significant 6) x

example : full (ofDecimal false 1 1 (-1)) = "0.1".runes := by decide
example : full (ofDecimal true 5 1 (-324)) = "-5e-324".runes := by decide +kernel
example : brief (ofInt 1234567) = "1.23457e+06".runes := by decide
example : brief (ofDecimal false 125 3 (-1)) = "12.5".runes := by decide

end Binary64
end Folio.Decimal
