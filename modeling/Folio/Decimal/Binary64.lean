/-!
Binary floating-point numbers of 64 bits as exact numbers, and rounding to them: to the nearest,
a tie to the even neighbour.
-/
namespace Folio.Decimal

/-- A number of the 64-bit binary format. A finite one is `mantissa * 2 ^ exponent` with a sign;
its exponent is the least possible or its mantissa has 53 bits, so that equal numbers other than
the two zeros are equal as data. -/
inductive Binary64 where
  | finite (negative : Bool) (mantissa : Nat) (exponent : Int)
  | infinite (negative : Bool)
  | nan
deriving DecidableEq, Repr, Inhabited

namespace Binary64

/-- The exponent of the smallest positive number. -/
def minExponent : Int := -1074

/-- The exponent of the largest finite number. -/
def maxExponent : Int := 971

/-- The quotient rounded to the nearest natural number, a tie to the even one. -/
def roundDiv (num den : Nat) : Nat :=
  let q := num / den
  let r := num % den
  if 2 * r < den then q
  else if den < 2 * r then q + 1
  else if q % 2 == 0 then q else q + 1

/-- `num / den` in units of `2 ^ e`, rounded. -/
def scaled (num den : Nat) (e : Int) : Nat :=
  if e ≤ 0 then roundDiv (num * Nat.pow 2 (-e).toNat) den
  else roundDiv num (den * Nat.pow 2 e.toNat)

/-- The exponent at which the quotient has 53 bits, but never below the least one. -/
def unitExponent (num den : Nat) : Int :=
  let guess : Int := (num.log2 : Int) - (den.log2 : Int) - 52
  let e := if (if guess ≤ 0 then num * Nat.pow 2 (-guess).toNat < den * Nat.pow 2 52
               else num < den * Nat.pow 2 52 * Nat.pow 2 guess.toNat) then guess - 1 else guess
  max e minExponent

/-- The number nearest to `num / den` with the given sign, or the infinity beyond the range. -/
def ofRatio (negative : Bool) (num den : Nat) : Binary64 :=
  if num == 0 then .finite negative 0 minExponent
  else
    let e := unitExponent num den
    let m := scaled num den e
    let (m, e) := if m == Nat.pow 2 53 then (Nat.pow 2 52, e + 1) else (m, e)
    if maxExponent < e then .infinite negative else .finite negative m e

/-- The number nearest to `digits * 10 ^ scale`, where `digits` has at most `width` decimal
digits. Scales far outside the range are answered without computing the power. -/
def ofDecimal (negative : Bool) (digits width : Nat) (scale : Int) : Binary64 :=
  if digits == 0 then .finite negative 0 minExponent
  else if scale + width < -400 then .finite negative 0 minExponent
  else if 400 < scale then .infinite negative
  else if 0 ≤ scale then ofRatio negative (digits * Nat.pow 10 scale.toNat) 1
  else ofRatio negative digits (Nat.pow 10 (-scale).toNat)

/-- The number nearest to an integer. -/
def ofInt (n : Int) : Binary64 := ofRatio (n < 0) n.natAbs 1

/-- Whether the number is finite. -/
def isFinite : Binary64 → Bool
  | .finite .. => true
  | _ => false

/-- Whether the number is one of the two zeros. -/
def isZero : Binary64 → Bool
  | .finite _ 0 _ => true
  | _ => false

/-- The absolute value of a finite number as a quotient. -/
def ratio (mantissa : Nat) (exponent : Int) : Nat × Nat :=
  if 0 ≤ exponent then (mantissa * Nat.pow 2 exponent.toNat, 1)
  else (mantissa, Nat.pow 2 (-exponent).toNat)

def one : Binary64 := .finite false (Nat.pow 2 52) (-52)

example : ofInt 1 = one := by decide
example : ofDecimal false 5 1 (-324) = .finite false 1 minExponent := by decide +kernel
example : ofInt (2 ^ 53 + 1) = ofInt (2 ^ 53) := by decide

end Binary64
end Folio.Decimal
