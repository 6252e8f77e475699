import Folio.Decimal.Binary64

/-!
Arithmetic of 64-bit numbers: each operation is the exact one, rounded once. What has no result is
no number, and no number is less than another or equal to it.
-/
namespace Folio.Decimal.Binary64

/-- The exact value of a finite number. -/
def toRat : Binary64 → Rat
  | .finite negative mantissa exponent =>
      let (num, den) := ratio mantissa exponent
      mkRat (if negative then -num else num) den
  | _ => 0

/-- The number nearest to a fraction, or the infinity beyond the range. -/
def ofRat (q : Rat) : Binary64 := ofRatio (q < 0) q.num.natAbs q.den

/-- The sign of a number. -/
def isNegative : Binary64 → Bool
  | .finite negative _ _ => negative
  | .infinite negative => negative
  | .nan => false

def neg : Binary64 → Binary64
  | .finite negative mantissa exponent => .finite (!negative) mantissa exponent
  | .infinite negative => .infinite (!negative)
  | .nan => .nan

/-- The sum of two numbers. Opposite infinities have none; a sum of zero is negative if both numbers
are. -/
def add : Binary64 → Binary64 → Binary64
  | .nan, _ => .nan
  | _, .nan => .nan
  | .infinite a, .infinite b => if a == b then .infinite a else .nan
  | .infinite a, .finite .. => .infinite a
  | .finite .., .infinite b => .infinite b
  | x@(.finite a ..), y@(.finite b ..) =>
      if x.toRat + y.toRat == 0 then .finite (a && b) 0 minExponent
      else ofRat (x.toRat + y.toRat)

/-- The product of two numbers. A zero and an infinity have none. -/
def mul (x y : Binary64) : Binary64 :=
  let negative := x.isNegative != y.isNegative
  if x == .nan || y == .nan then .nan
  else if x.isFinite && y.isFinite then
    if x.toRat * y.toRat == 0 then .finite negative 0 minExponent else ofRat (x.toRat * y.toRat)
  else if x.isZero || y.isZero then .nan
  else .infinite negative

instance (n : Nat) : OfNat Binary64 n := ⟨ofInt n⟩

instance : Neg Binary64 := ⟨neg⟩

instance : Add Binary64 := ⟨add⟩

instance : Sub Binary64 := ⟨fun x y => x + -y⟩

instance : Mul Binary64 := ⟨mul⟩

/-- Whether one number is less than another. -/
def lt : Binary64 → Binary64 → Bool
  | .nan, _ => false
  | _, .nan => false
  | .infinite a, .infinite b => a && !b
  | .infinite a, .finite .. => a
  | .finite .., .infinite b => !b
  | x@(.finite ..), y@(.finite ..) => x.toRat < y.toRat

/-- Whether one number is at most another. -/
def le (x y : Binary64) : Bool := x != .nan && y != .nan && !lt y x

instance : LT Binary64 := ⟨fun x y => lt x y⟩

instance : LE Binary64 := ⟨fun x y => le x y⟩

instance (x y : Binary64) : Decidable (x < y) := inferInstanceAs (Decidable (lt x y = true))

instance (x y : Binary64) : Decidable (x ≤ y) := inferInstanceAs (Decidable (le x y = true))

example : ofRat (1 / 10) + ofRat (2 / 10) = ofDecimal false 30000000000000004 17 (-17) := by
  decide +kernel
example : (3 : Binary64) - 5 = -2 := by decide +kernel
example : infinite false - infinite false = nan := by decide
example : ¬ (nan ≤ nan) := by decide

end Folio.Decimal.Binary64
