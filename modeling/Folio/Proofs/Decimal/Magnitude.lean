import Mathlib.Algebra.Order.Field.Power
import Mathlib.Algebra.Order.Ring.Rat
import Mathlib.Tactic.FieldSimp
import Mathlib.Tactic.Linarith
import Mathlib.Tactic.NormNum
import Mathlib.Tactic.Positivity
import Mathlib.Tactic.Ring
import Folio.Decimal.Shortest
import Folio.Proofs.Decimal.Range

/-!
The place of the first digit of a number that is rounded to some significant digits. It is at a
place or above exactly if the number is not more than half a unit of its last digit below the power
of ten of the place.
-/
namespace Folio.Decimal

section Width

variable {n k : Nat}

theorem width_le_iff (hk : 0 < k) : width n ≤ k ↔ n < 10 ^ k :=
  Nat.length_toDigits_le_iff (by decide) hk

theorem width_pos (n : Nat) : 0 < width n := List.length_pos_of_ne_nil Nat.toDigits_ne_nil

theorem lt_pow_width (n : Nat) : n < 10 ^ width n := (width_le_iff (width_pos n)).1 (Nat.le_refl _)

theorem pow_le_of_lt_width (hn : n ≠ 0) (hk : k < width n) : 10 ^ k ≤ n := by
  cases k with
  | zero => exact Nat.pos_of_ne_zero hn
  | succ k =>
      rw [← Nat.not_lt, ← width_le_iff (Nat.succ_pos k)]
      exact Nat.not_le.2 hk

theorem width_eq_succ (hlow : 10 ^ k ≤ n) (hhigh : n < 10 ^ (k + 1)) : width n = k + 1 := by
  have hle := (width_le_iff (Nat.succ_pos k)).2 hhigh
  cases k with
  | zero => exact Nat.le_antisymm hle (width_pos n)
  | succ k =>
      have hnot := mt (width_le_iff (Nat.succ_pos k)).1 (Nat.not_lt.2 hlow)
      omega

end Width

section Point

variable {num den : Nat}

/-- The comparison of a quotient with a power of ten, in natural numbers. -/
theorem div_lt_zpow_iff (num : Nat) (hden : 0 < den) (k : Int) :
    (if 0 ≤ k then num < den * Nat.pow 10 k.toNat else num * Nat.pow 10 (-k).toNat < den) ↔
      (num : ℚ) / den < 10 ^ k := by
  have hpos : (0 : ℚ) < den := Nat.cast_pos.2 hden
  rw [div_lt_iff₀ hpos]
  split
  · rename_i hk
    obtain ⟨n, rfl⟩ := Int.eq_ofNat_of_zero_le hk
    rw [Int.toNat_natCast, zpow_natCast, mul_comm]
    exact_mod_cast Iff.rfl
  · rename_i hk
    obtain ⟨n, hn⟩ := Int.eq_ofNat_of_zero_le (Int.neg_nonneg_of_nonpos (Int.le_of_not_le hk))
    obtain rfl : k = -n := by omega
    have hpower : (0 : ℚ) < 10 ^ n := by positivity
    rw [neg_neg, Int.toNat_natCast, zpow_neg, zpow_natCast, inv_mul_eq_div, lt_div_iff₀ hpower]
    exact_mod_cast Iff.rfl

theorem cast_lt_zpow_width (n : Nat) : (n : ℚ) < 10 ^ (width n : Int) := by
  rw [zpow_natCast]
  exact_mod_cast lt_pow_width n

theorem zpow_width_le_cast {n : Nat} (hn : 0 < n) : (10 : ℚ) ^ ((width n : Int) - 1) ≤ n := by
  have hwidth := width_pos n
  have hexponent : (width n : Int) - 1 = (width n - 1 : Nat) := by omega
  rw [hexponent, zpow_natCast]
  exact_mod_cast pow_le_of_lt_width (Nat.ne_of_gt hn) (by omega)

/-- A quotient is below the power of ten of its point, and not below the one before. -/
theorem pointOf_bounds (hnum : 0 < num) (hden : 0 < den) :
    (10 : ℚ) ^ (pointOf num den - 1) ≤ num / den ∧ (num : ℚ) / den < 10 ^ pointOf num den := by
  have hten : (10 : ℚ) ≠ 0 := by norm_num
  have hpos : (0 : ℚ) < den := Nat.cast_pos.2 hden
  rw [pointOf]
  set guess : Int := (width num : Int) - width den with hguess
  have hbelow : (num : ℚ) / den < 10 ^ (guess + 1) := by
    rw [div_lt_iff₀ hpos]
    calc (num : ℚ) < 10 ^ (width num : Int) := cast_lt_zpow_width num
      _ = 10 ^ (guess + 1) * 10 ^ ((width den : Int) - 1) := by
        rw [← zpow_add₀ hten]
        congr 1
        omega
      _ ≤ 10 ^ (guess + 1) * den := by
        gcongr
        exact zpow_width_le_cast hden
  have habove : (10 : ℚ) ^ (guess - 1) ≤ num / den := by
    rw [le_div_iff₀ hpos]
    calc (10 : ℚ) ^ (guess - 1) * den ≤ 10 ^ (guess - 1) * 10 ^ (width den : Int) := by
          gcongr
          exact (cast_lt_zpow_width den).le
      _ = 10 ^ ((width num : Int) - 1) := by
        rw [← zpow_add₀ hten]
        congr 1
        omega
      _ ≤ num := zpow_width_le_cast hnum
  have hcompare := div_lt_zpow_iff num hden guess
  by_cases hless : (num : ℚ) / den < 10 ^ guess
  · rw [if_pos (hcompare.2 hless)]
    exact ⟨habove, hless⟩
  · rw [if_neg (mt hcompare.1 hless), add_sub_cancel_right]
    exact ⟨not_lt.1 hless, hbelow⟩

theorem exists_onGrid (num : Nat) (hden : 0 < den) (point : Int) (count : Nat) :
    ∃ n d : Nat, 0 < d ∧ onGrid num den point count = (n / d, n % d, d) ∧
      (n : ℚ) / d = num / den * 10 ^ (count - point) := by
  have hpos : (den : ℚ) ≠ 0 := Nat.cast_ne_zero.2 (Nat.ne_of_gt hden)
  unfold onGrid
  dsimp only
  generalize (count : Int) - point = shift
  by_cases hshift : 0 ≤ shift
  · obtain ⟨k, rfl⟩ := Int.eq_ofNat_of_zero_le hshift
    rw [if_pos hshift]
    refine ⟨num * 10 ^ k, den, hden, rfl, ?_⟩
    rw [zpow_natCast]
    push_cast
    ring
  · obtain ⟨k, hk⟩ := Int.eq_ofNat_of_zero_le (Int.neg_nonneg_of_nonpos (Int.le_of_not_le hshift))
    rw [if_neg hshift]
    refine ⟨num, den * 10 ^ k, by positivity, by rw [hk]; rfl, ?_⟩
    obtain rfl : shift = -k := by omega
    rw [zpow_neg, zpow_natCast]
    push_cast
    field_simp

end Point

/-- The exponent of the first digit. -/
def Digits.first (d : Digits) : Int := d.scale + width d.digits - 1

namespace Binary64

/-- The absolute value of a finite number. -/
def magnitude (mantissa : Nat) (exponent : Int) : ℚ := mantissa * 2 ^ exponent

section Significant

variable {mantissa : Nat} {exponent : Int} {count : Nat}

theorem ratio_eq (mantissa : Nat) (exponent : Int) : 0 < (ratio mantissa exponent).2 ∧
    ((ratio mantissa exponent).1 : ℚ) / (ratio mantissa exponent).2 =
      magnitude mantissa exponent := by
  unfold ratio magnitude
  by_cases hexponent : 0 ≤ exponent
  · obtain ⟨k, rfl⟩ := Int.eq_ofNat_of_zero_le hexponent
    rw [if_pos hexponent]
    refine ⟨Nat.one_pos, ?_⟩
    simp
  · obtain ⟨k, hk⟩ :=
      Int.eq_ofNat_of_zero_le (Int.neg_nonneg_of_nonpos (Int.le_of_not_le hexponent))
    obtain rfl : exponent = -k := by omega
    rw [if_neg hexponent]
    refine ⟨Nat.two_pow_pos _, ?_⟩
    simp [div_eq_mul_inv]

theorem ratio_num_pos (hmantissa : 0 < mantissa) (exponent : Int) : 0 < (ratio mantissa exponent).1 := by
  unfold ratio
  split
  · exact Nat.mul_pos hmantissa (Nat.two_pow_pos _)
  · exact hmantissa

/-- The digits are the number in units of the last one, rounded, a tie to the even neighbour. -/
theorem exists_significant (hmantissa : 0 < mantissa) (exponent : Int) (count : Nat) :
    ∃ (point : Int) (n d : Nat), 0 < d ∧
      significant (count + 1) mantissa exponent = ⟨roundDiv n d, point - count⟩ ∧
      magnitude mantissa exponent = n / d * 10 ^ (point - count) ∧
      (10 : ℚ) ^ point ≤ magnitude mantissa exponent ∧
      magnitude mantissa exponent < 10 ^ (point + 1) := by
  have hten : (10 : ℚ) ≠ 0 := by norm_num
  obtain ⟨hden, hratio⟩ := ratio_eq mantissa exponent
  have hbounds := pointOf_bounds (ratio_num_pos hmantissa exponent) hden
  obtain ⟨n, d, hd, hgrid, hquotient⟩ := exists_onGrid (ratio mantissa exponent).1 hden
    (pointOf (ratio mantissa exponent).1 (ratio mantissa exponent).2) (count + 1)
  rw [hratio] at hbounds hquotient
  generalize hpoint : pointOf (ratio mantissa exponent).1 (ratio mantissa exponent).2 = point at *
  refine ⟨point - 1, n, d, hd, ?_, ?_, hbounds.1, by rw [sub_add_cancel]; exact hbounds.2⟩
  · have hscale : point - ((count + 1 : Nat) : Int) = point - 1 - count := by
      push_cast
      ring
    rw [significant, roundDiv]
    dsimp only
    rw [hpoint, hgrid, hscale]
    congr 1
    simp only [Bool.or_eq_true, Bool.and_eq_true, beq_iff_eq, decide_eq_true_eq]
    repeat' split
    all_goals omega
  · have hscale : ((count + 1 : Nat) : Int) - point + (point - 1 - count) = 0 := by
      push_cast
      ring
    rw [hquotient, mul_assoc, ← zpow_add₀ hten, hscale, zpow_zero, mul_one]

/-- A quotient of `count` digits has one more when it is rounded to a power of ten. -/
theorem width_roundDiv {n d : Nat} (hd : 0 < d) (hlow : 10 ^ count * d ≤ n)
    (hhigh : n < 10 ^ (count + 1) * d) : width (roundDiv n d) =
      if 2 * (10 ^ (count + 1) * d) ≤ 2 * n + d then count + 2 else count + 1 := by
  have hpower : 10 ^ (count + 1) = 10 ^ count * 10 := pow_succ 10 count
  have htop := roundDiv_eq_iff hd (by omega : 10 ^ (count + 1) % 2 = 0) hhigh
  have hquotient : 10 ^ count ≤ n / d := (Nat.le_div_iff_mul_le hd).2 hlow
  have hless : n / d < 10 ^ (count + 1) := (Nat.div_lt_iff_lt_mul hd).2 hhigh
  have hat := le_roundDiv n d
  have hnext := roundDiv_le_succ n d
  split
  · rename_i hround
    rw [htop.2 hround]
    exact width_eq_succ (Nat.le_refl _) (Nat.pow_lt_pow_succ (by decide))
  · rename_i hround
    have hne := mt htop.1 hround
    exact width_eq_succ (by omega) (by omega)

/-- The first digit is the one before the point, or one higher if all digits are nines and the
number is rounded up. -/
theorem exists_first_significant (hmantissa : 0 < mantissa) (exponent : Int) (count : Nat) :
    ∃ point : Int, (10 : ℚ) ^ point ≤ magnitude mantissa exponent ∧
      magnitude mantissa exponent < 10 ^ (point + 1) ∧
      (significant (count + 1) mantissa exponent).first =
        if (10 ^ (count + 1) - 1 / 2 : ℚ) * 10 ^ (point - count) ≤ magnitude mantissa exponent
        then point + 1 else point := by
  obtain ⟨point, n, d, hd, hdigits, hmagnitude, hlow, hhigh⟩ :=
    exists_significant hmantissa exponent count
  refine ⟨point, hlow, hhigh, ?_⟩
  have hten : (10 : ℚ) ≠ 0 := by norm_num
  have hpos : (0 : ℚ) < d := Nat.cast_pos.2 hd
  have hunit : (0 : ℚ) < 10 ^ (point - count) := by positivity
  have hscaled : ∀ k : Nat, (10 : ℚ) ^ (point - count + k) = 10 ^ k * 10 ^ (point - count) := by
    intro k
    rw [zpow_add₀ hten, zpow_natCast, mul_comm]
  have hpoint : (10 : ℚ) ^ point = 10 ^ count * 10 ^ (point - count) := by
    rw [← hscaled, sub_add_cancel]
  have hnext : (10 : ℚ) ^ (point + 1) = 10 ^ (count + 1) * 10 ^ (point - count) := by
    rw [← hscaled]
    congr 1
    push_cast
    ring
  rw [hmagnitude] at hlow hhigh ⊢
  rw [hpoint, mul_le_mul_iff_left₀ hunit, le_div_iff₀ hpos] at hlow
  rw [hnext, mul_lt_mul_iff_left₀ hunit, div_lt_iff₀ hpos] at hhigh
  have hround : (10 ^ (count + 1) - 1 / 2 : ℚ) * 10 ^ (point - count) ≤
      n / d * 10 ^ (point - count) ↔ 2 * (10 ^ (count + 1) * d) ≤ 2 * n + d := by
    have hcast : 2 * (10 ^ (count + 1) * d) ≤ 2 * n + d ↔
        (2 * (10 ^ (count + 1) * d) : ℚ) ≤ 2 * n + d := by exact_mod_cast Iff.rfl
    rw [mul_le_mul_iff_left₀ hunit, le_div_iff₀ hpos, hcast]
    constructor <;> intro h <;> linarith
  have hwidth : width (roundDiv n d) =
      if 2 * (10 ^ (count + 1) * d) ≤ 2 * n + d then count + 2 else count + 1 :=
    width_roundDiv hd (by exact_mod_cast hlow) (by exact_mod_cast hhigh)
  rw [hdigits, Digits.first, hwidth]
  dsimp only
  by_cases hup : 2 * (10 ^ (count + 1) * d) ≤ 2 * n + d
  · rw [if_pos hup, if_pos (hround.2 hup)]
    push_cast
    ring
  · rw [if_neg hup, if_neg (mt hround.1 hup)]
    push_cast
    ring

/-- The first digit is at a place or above it if the number is not more than half a unit of its last
digit below the power of ten of the place. -/
theorem le_first_significant_iff (hmantissa : 0 < mantissa) (exponent : Int) (count : Nat)
    (k : Int) : k ≤ (significant (count + 1) mantissa exponent).first ↔
      (10 ^ (count + 1) - 1 / 2 : ℚ) * 10 ^ (k - 1 - count) ≤ magnitude mantissa exponent := by
  obtain ⟨point, hlow, hhigh, hfirst⟩ := exists_first_significant hmantissa exponent count
  have hten : (10 : ℚ) ≠ 0 := by norm_num
  have hunit : (0 : ℚ) < 10 ^ (k - 1 - count) := by positivity
  have hscaled : (10 : ℚ) ^ (k - 1) = 10 ^ count * 10 ^ (k - 1 - count) := by
    rw [← zpow_natCast, ← zpow_add₀ hten, add_sub_cancel]
  rcases lt_trichotomy k (point + 1) with hless | rfl | hmore
  · have hleft : k ≤ (significant (count + 1) mantissa exponent).first := by
      rw [hfirst]
      split <;> omega
    refine iff_of_true hleft ?_
    calc (10 ^ (count + 1) - 1 / 2 : ℚ) * 10 ^ (k - 1 - count)
        ≤ 10 ^ (count + 1) * 10 ^ (k - 1 - count) := by
          gcongr
          linarith
      _ = 10 ^ (k - 1) * 10 := by
          rw [hscaled]
          ring
      _ = 10 ^ k := by rw [← zpow_add_one₀ hten, sub_add_cancel]
      _ ≤ 10 ^ point := zpow_le_zpow_right₀ (by norm_num) (by omega)
      _ ≤ magnitude mantissa exponent := hlow
  · rw [hfirst, add_sub_cancel_right]
    split
    · exact iff_of_true (le_refl _) ‹_›
    · exact iff_of_false (by omega) ‹_›
  · have hleft : ¬ k ≤ (significant (count + 1) mantissa exponent).first := by
      rw [hfirst]
      split <;> omega
    refine iff_of_false hleft (not_le.2 ?_)
    have hone : (1 : ℚ) ≤ 10 ^ count := one_le_pow₀ (by norm_num)
    calc magnitude mantissa exponent < 10 ^ (point + 1) := hhigh
      _ ≤ 10 ^ (k - 1) := zpow_le_zpow_right₀ (by norm_num) (by omega)
      _ = 10 ^ count * 10 ^ (k - 1 - count) := hscaled
      _ ≤ (10 ^ (count + 1) - 1 / 2) * 10 ^ (k - 1 - count) := by
          gcongr
          rw [pow_succ]
          linarith

end Significant

end Binary64

end Folio.Decimal
