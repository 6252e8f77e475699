import Mathlib.Algebra.Group.Nat.Defs
import Folio.Decimal.Binary64

/-!
The whole numbers in the range of 64-bit numbers: those of an absolute value that is rounded to
less than the power of two above the largest finite number.
-/
namespace Folio.Decimal.Binary64

/-- The least natural number that is not rounded to a finite one: half a unit below the power of
two that comes after the largest finite number. -/
def overflowBound : Nat := 2 ^ 1024 - 2 ^ 970

theorem roundDiv_le_succ (num den : Nat) : roundDiv num den ≤ num / den + 1 := by
  unfold roundDiv
  dsimp only
  repeat' split
  all_goals omega

theorem le_roundDiv (num den : Nat) : num / den ≤ roundDiv num den := by
  unfold roundDiv
  dsimp only
  repeat' split
  all_goals omega

/-- Below an even number of units, a quotient is rounded to that number from half a unit below it
on. -/
theorem roundDiv_eq_iff {num den m : Nat} (hden : 0 < den) (heven : m % 2 = 0)
    (hlt : num < m * den) : roundDiv num den = m ↔ 2 * (m * den) ≤ 2 * num + den := by
  have hdivision := Nat.div_add_mod num den
  have hmod : num % den < den := Nat.mod_lt _ hden
  have hquotient : num / den < m := Nat.div_lt_of_lt_mul (by rwa [Nat.mul_comm])
  have hround := roundDiv_le_succ num den
  by_cases hlast : num / den + 1 = m
  · have hm : m * den = den * (num / den) + den := by
      rw [← hlast, Nat.succ_mul, Nat.mul_comm]
    unfold roundDiv
    simp only [beq_iff_eq]
    repeat' split
    all_goals omega
  · have hless : num / den + 2 ≤ m := by omega
    have hm : (num / den + 2) * den ≤ m * den := Nat.mul_le_mul_right _ hless
    rw [Nat.add_mul, Nat.mul_comm (num / den)] at hm
    omega

/-- A whole number fills 53 bits at the unit that its leading bit suggests. -/
theorem fills_bits {num : Nat} (hnum : num ≠ 0) {guess : Int} (hguess : guess = num.log2 - 52) :
    ¬ (if guess ≤ 0 then num * Nat.pow 2 (-guess).toNat < 1 * Nat.pow 2 52
      else num < 1 * Nat.pow 2 52 * Nat.pow 2 guess.toNat) := by
  have hlow := Nat.log2_self_le hnum
  rw [Nat.one_mul]
  split
  · have hpower : 2 ^ num.log2 * 2 ^ (-guess).toNat = 2 ^ 52 := by
      rw [← Nat.pow_add]
      congr 1
      omega
    have hscaled := Nat.mul_le_mul_right (2 ^ (-guess).toNat) hlow
    exact Nat.not_lt.2 (Nat.le_trans (Nat.le_of_eq hpower.symm) hscaled)
  · have hpower : 2 ^ 52 * 2 ^ guess.toNat = 2 ^ num.log2 := by
      rw [← Nat.pow_add]
      congr 1
      omega
    exact Nat.not_lt.2 (Nat.le_trans (Nat.le_of_eq hpower) hlow)

/-- The unit of a whole number is the one at which it has 53 bits. -/
theorem unitExponent_one {num : Nat} (hnum : num ≠ 0) :
    unitExponent num 1 = (num.log2 : Int) - 52 := by
  have hone : Nat.log2 1 = 0 := by decide
  have hguess : (num.log2 : Int) - (Nat.log2 1 : Nat) - 52 = num.log2 - 52 := by
    rw [hone]
    omega
  have hmin : minExponent = -1074 := rfl
  rw [unitExponent, if_neg (fills_bits hnum hguess), hguess, hmin]
  omega

/-- A whole number is rounded to a finite one if the exponent of its unit is one, and the next
exponent too if it is rounded up to a power of two. -/
theorem isFinite_ofRatio_one (negative : Bool) {num : Nat} (hnum : num ≠ 0) :
    (ofRatio negative num 1).isFinite ↔
      if scaled num 1 ((num.log2 : Int) - 52) = 2 ^ 53 then num.log2 ≤ 1022
      else num.log2 ≤ 1023 := by
  have hpower : Nat.pow 2 53 = 2 ^ 53 := rfl
  have hmax : maxExponent = 971 := rfl
  have hfinite : ∀ (c : Prop) [Decidable c] (m : Nat) (e : Int),
      (if c then infinite negative else finite negative m e).isFinite ↔ ¬ c := by
    intro c _ m e
    by_cases hc : c
    · rw [if_pos hc]
      exact iff_of_false Bool.false_ne_true (not_not_intro hc)
    · rw [if_neg hc]
      exact iff_of_true rfl hc
  rw [ofRatio, unitExponent_one hnum, hpower, hmax]
  simp only [beq_iff_eq, if_neg hnum]
  split <;> dsimp only <;> rw [hfinite] <;> omega

/-- A number of 53 bits at its unit is rounded up to the next power of two from half a unit below it
on. -/
theorem scaled_eq_iff {num k : Nat} (hlt : num < 2 ^ (k + 54)) :
    scaled num 1 (k + 1 : Nat) = 2 ^ 53 ↔ 2 ^ (k + 54) ≤ num + 2 ^ k := by
  have hunit : 1 * Nat.pow 2 (k + 1) = 2 * 2 ^ k := (Nat.one_mul _).trans Nat.pow_succ'
  have htop : 2 ^ 53 * (2 * 2 ^ k) = 2 ^ (k + 54) := by
    rw [← Nat.pow_succ', ← Nat.pow_add, Nat.add_comm 53]
  have heven : 2 ^ 53 % 2 = 0 := rfl
  rw [← htop] at hlt ⊢
  have hpos : 0 < 2 * 2 ^ k := Nat.mul_pos (by decide) (Nat.two_pow_pos k)
  rw [scaled, if_neg (by omega), Int.toNat_natCast, hunit, roundDiv_eq_iff hpos heven hlt]
  omega

/-- A natural number is rounded to a finite number if it is below the bound. -/
theorem isFinite_ofRatio_one_iff (negative : Bool) (num : Nat) :
    (ofRatio negative num 1).isFinite ↔ num < overflowBound := by
  by_cases hnum : num = 0
  · subst hnum
    exact iff_of_true rfl (by decide +kernel)
  have hless {k : Nat} (h : num.log2 < k) : num < 2 ^ k := (Nat.log2_lt hnum).1 h
  have hmore {k : Nat} (h : k ≤ num.log2) : 2 ^ k ≤ num := (Nat.le_log2 hnum).1 h
  have hbelow : 2 ^ 1023 ≤ overflowBound := by decide +kernel
  have habove : overflowBound + 2 ^ 970 = 2 ^ (970 + 54) := by decide +kernel
  rw [isFinite_ofRatio_one negative hnum]
  rcases Nat.lt_trichotomy num.log2 1023 with hlow | hlast | hhigh
  · have hlt := Nat.lt_of_lt_of_le (hless hlow) hbelow
    split <;> exact iff_of_true (by omega) hlt
  · have hlt : num < 2 ^ (970 + 54) := hless (by omega)
    have hunit : (num.log2 : Int) - 52 = (970 + 1 : Nat) := by omega
    have hup : scaled num 1 (970 + 1 : Nat) = 2 ^ 53 ↔ overflowBound ≤ num := by
      rw [scaled_eq_iff (k := 970) hlt, ← habove]
      generalize 2 ^ 970 = half
      exact Nat.add_le_add_iff_right
    rw [hunit, ← Nat.not_le, ← hup]
    split
    · exact iff_of_false (by omega) (not_not_intro ‹_›)
    · exact iff_of_true (by omega) ‹_›
  · have hle : 2 ^ (970 + 54) ≤ num := hmore (by omega)
    rw [← habove] at hle
    split <;> exact iff_of_false (by omega) (by omega)

/-- A whole number is within the range if its absolute value is below the bound. -/
theorem isFinite_ofInt_iff (n : Int) : (ofInt n).isFinite ↔ n.natAbs < overflowBound :=
  isFinite_ofRatio_one_iff (n < 0) n.natAbs

end Folio.Decimal.Binary64
