import Folio.Decimal.Arithmetic
import Folio.Proofs.Decimal.Magnitude

/-!
Rounding to 64-bit numbers keeps the order, and leaves a number that is one as it is. A fraction is
a number of units, rounded; the unit grows with the fraction, and a fraction with a larger unit is
rounded to more than any one with a smaller unit.
-/
namespace Folio.Decimal.Binary64

section Quotient

variable {num den num' den' : Nat}

/-- A rounded quotient is half a unit away at most, and even if it is half a unit away. -/
theorem roundDiv_near (num : Nat) (hden : 0 < den) :
    2 * (roundDiv num den * den) ≤ 2 * num + den ∧
      2 * num ≤ 2 * (roundDiv num den * den) + den ∧
      (2 * (roundDiv num den * den) = 2 * num + den → roundDiv num den % 2 = 0) ∧
      (2 * num = 2 * (roundDiv num den * den) + den → roundDiv num den % 2 = 0) := by
  have hdivision := Nat.div_add_mod num den
  have hmod : num % den < den := Nat.mod_lt _ hden
  have hsucc : (num / den + 1) * den = den * (num / den) + den := by
    rw [Nat.succ_mul, Nat.mul_comm]
  have hself : num / den * den = den * (num / den) := Nat.mul_comm _ _
  unfold roundDiv
  simp only [beq_iff_eq]
  repeat' split
  all_goals simp only [hself, hsucc]; omega

/-- A larger quotient is not rounded to less. -/
theorem roundDiv_mono (hden : 0 < den) (hden' : 0 < den')
    (hle : (num : ℚ) / den ≤ num' / den') : roundDiv num den ≤ roundDiv num' den' := by
  obtain ⟨hhigh, -, htie, -⟩ := roundDiv_near num hden
  obtain ⟨-, hlow, -, htie'⟩ := roundDiv_near num' hden'
  by_contra hless
  have hnext : roundDiv num' den' + 1 ≤ roundDiv num den := Nat.lt_of_not_le hless
  generalize roundDiv num den = m at *
  generalize roundDiv num' den' = m' at *
  have hd : (0 : ℚ) < den := Nat.cast_pos.2 hden
  have hd' : (0 : ℚ) < den' := Nat.cast_pos.2 hden'
  have hhigh' : (m : ℚ) - 1 / 2 ≤ num / den := by
    rw [le_div_iff₀ hd]
    have : (2 * (m * den) : ℚ) ≤ 2 * num + den := by exact_mod_cast hhigh
    linarith
  have hlow' : (num' : ℚ) / den' ≤ m' + 1 / 2 := by
    rw [div_le_iff₀ hd']
    have : (2 * num' : ℚ) ≤ 2 * (m' * den') + den' := by exact_mod_cast hlow
    linarith
  have hstep : (m' : ℚ) + 1 ≤ m := by exact_mod_cast hnext
  have hhalf : (num : ℚ) / den = m - 1 / 2 := by linarith
  have hhalf' : (num' : ℚ) / den' = m' + 1 / 2 := by linarith
  have hneighbours : m = m' + 1 := by
    have : (m : ℚ) = m' + 1 := by linarith
    exact_mod_cast this
  rw [div_eq_iff hd.ne'] at hhalf
  rw [div_eq_iff hd'.ne'] at hhalf'
  have heven := htie (by
    have : (2 * (m * den) : ℚ) = 2 * num + den := by linarith
    exact_mod_cast this)
  have heven' := htie' (by
    have : (2 * num' : ℚ) = 2 * (m' * den') + den' := by linarith
    exact_mod_cast this)
  omega

theorem roundDiv_mul_right (n : Nat) (hden : 0 < den) : roundDiv (n * den) den = n := by
  simp [roundDiv, Nat.mul_div_cancel _ hden, hden]

end Quotient

section Units

variable {num den num' den' : Nat}

/-- The fraction in units of a power of two is the quotient of two natural numbers. -/
theorem exists_scaled (num : Nat) (hden : 0 < den) (e : Int) : ∃ n d : Nat, 0 < d ∧
    scaled num den e = roundDiv n d ∧ (n : ℚ) / d = num / den / 2 ^ e := by
  have hpos : (den : ℚ) ≠ 0 := Nat.cast_ne_zero.2 (Nat.ne_of_gt hden)
  unfold scaled
  by_cases he : e ≤ 0
  · obtain ⟨k, hk⟩ := Int.eq_ofNat_of_zero_le (Int.neg_nonneg_of_nonpos he)
    obtain rfl : e = -k := by omega
    refine ⟨num * 2 ^ k, den, hden, by rw [if_pos he, hk]; rfl, ?_⟩
    rw [zpow_neg, zpow_natCast, div_inv_eq_mul]
    push_cast
    ring
  · obtain ⟨k, rfl⟩ := Int.eq_ofNat_of_zero_le (Int.le_of_not_le he)
    refine ⟨num, den * 2 ^ k, by positivity, by rw [if_neg he]; rfl, ?_⟩
    rw [zpow_natCast]
    push_cast
    field_simp

/-- The comparison of a fraction with a power of two, in natural numbers. -/
theorem div_lt_two_zpow_iff (num : Nat) (hden : 0 < den) (guess : Int) :
    (if guess ≤ 0 then num * Nat.pow 2 (-guess).toNat < den * Nat.pow 2 52
      else num < den * Nat.pow 2 52 * Nat.pow 2 guess.toNat) ↔
      (num : ℚ) / den < 2 ^ (guess + 52) := by
  have hpos : (0 : ℚ) < den := Nat.cast_pos.2 hden
  have hpower : (2 : ℚ) ^ (guess + 52) = 2 ^ guess * 2 ^ 52 := by
    rw [zpow_add₀ two_ne_zero]
    norm_num
  rw [hpower, div_lt_iff₀ hpos]
  split
  · rename_i hguess
    obtain ⟨n, hn⟩ := Int.eq_ofNat_of_zero_le (Int.neg_nonneg_of_nonpos hguess)
    obtain rfl : guess = -n := by omega
    have htwo : (0 : ℚ) < 2 ^ n := by positivity
    rw [neg_neg, Int.toNat_natCast, zpow_neg, zpow_natCast, mul_assoc, inv_mul_eq_div,
      lt_div_iff₀ htwo, mul_comm (2 ^ 52 : ℚ)]
    exact_mod_cast Iff.rfl
  · rename_i hguess
    obtain ⟨n, rfl⟩ := Int.eq_ofNat_of_zero_le (Int.le_of_not_le hguess)
    rw [Int.toNat_natCast, zpow_natCast, mul_comm (2 ^ n * 2 ^ 52 : ℚ), mul_comm (2 ^ n : ℚ),
      ← mul_assoc]
    exact_mod_cast Iff.rfl

/-- At its unit a fraction has 53 bits at most, and no fewer unless the unit is the least one. -/
theorem unitExponent_bounds (hnum : 0 < num) (hden : 0 < den) :
    minExponent ≤ unitExponent num den ∧ (num : ℚ) / den < 2 ^ (unitExponent num den + 53) ∧
      (unitExponent num den = minExponent ∨
        (2 : ℚ) ^ (unitExponent num den + 52) ≤ num / den) := by
  have htwo : (2 : ℚ) ≠ 0 := two_ne_zero
  have hpos : (0 : ℚ) < den := Nat.cast_pos.2 hden
  have hnumLow : (2 : ℚ) ^ (num.log2 : Int) ≤ num := by
    rw [zpow_natCast]
    exact_mod_cast Nat.log2_self_le (Nat.ne_of_gt hnum)
  have hnumHigh : (num : ℚ) < 2 ^ ((num.log2 : Int) + 1) := by
    have : num < 2 ^ (num.log2 + 1) := Nat.lt_log2_self
    rw [← Nat.cast_succ, zpow_natCast]
    exact_mod_cast this
  have hdenLow : (2 : ℚ) ^ (den.log2 : Int) ≤ den := by
    rw [zpow_natCast]
    exact_mod_cast Nat.log2_self_le (Nat.ne_of_gt hden)
  have hdenHigh : (den : ℚ) < 2 ^ ((den.log2 : Int) + 1) := by
    have : den < 2 ^ (den.log2 + 1) := Nat.lt_log2_self
    rw [← Nat.cast_succ, zpow_natCast]
    exact_mod_cast this
  rw [unitExponent]
  set guess : Int := (num.log2 : Int) - (den.log2 : Int) - 52 with hguess
  have hbelow : (num : ℚ) / den < 2 ^ (guess + 53) := by
    rw [div_lt_iff₀ hpos]
    calc (num : ℚ) < 2 ^ ((num.log2 : Int) + 1) := hnumHigh
      _ = 2 ^ (guess + 53) * 2 ^ (den.log2 : Int) := by
        rw [← zpow_add₀ htwo]
        congr 1
        omega
      _ ≤ 2 ^ (guess + 53) * den := by gcongr
  have habove : (2 : ℚ) ^ (guess + 51) ≤ num / den := by
    rw [le_div_iff₀ hpos]
    calc (2 : ℚ) ^ (guess + 51) * den ≤ 2 ^ (guess + 51) * 2 ^ ((den.log2 : Int) + 1) := by
          gcongr
      _ = 2 ^ (num.log2 : Int) := by
        rw [← zpow_add₀ htwo]
        congr 1
        omega
      _ ≤ num := hnumLow
  have hcompare := div_lt_two_zpow_iff num hden guess
  by_cases hless : (num : ℚ) / den < 2 ^ (guess + 52)
  · rw [if_pos (hcompare.2 hless)]
    refine ⟨le_max_right _ _, hless.trans_le ?_, ?_⟩
    · exact zpow_le_zpow_right₀ one_le_two (by omega)
    · rcases le_total (guess - 1) minExponent with hmin | hmin
      · exact Or.inl (max_eq_right hmin)
      · rw [max_eq_left hmin]
        refine Or.inr (le_trans (le_of_eq ?_) habove)
        congr 1
        omega
  · rw [if_neg (mt hcompare.1 hless)]
    refine ⟨le_max_right _ _, hbelow.trans_le ?_, ?_⟩
    · exact zpow_le_zpow_right₀ one_le_two (by omega)
    · rcases le_total guess minExponent with hmin | hmin
      · exact Or.inl (max_eq_right hmin)
      · rw [max_eq_left hmin]
        exact Or.inr (not_lt.1 hless)

/-- A fraction rounded to a whole number of its units, without a bound for the result. -/
def rounded (num den : Nat) : ℚ :=
  scaled num den (unitExponent num den) * 2 ^ unitExponent num den

/-- The unit of a larger fraction is not smaller. -/
theorem unitExponent_mono (hnum : 0 < num) (hden : 0 < den) (hnum' : 0 < num') (hden' : 0 < den')
    (hle : (num : ℚ) / den ≤ num' / den') : unitExponent num den ≤ unitExponent num' den' := by
  obtain ⟨-, -, hlow⟩ := unitExponent_bounds hnum hden
  obtain ⟨hmin, hhigh, -⟩ := unitExponent_bounds hnum' hden'
  rcases hlow with hleast | hlow
  · rwa [hleast]
  · by_contra hless
    have hpowers : (2 : ℚ) ^ (unitExponent num' den' + 53) ≤ 2 ^ (unitExponent num den + 52) :=
      zpow_le_zpow_right₀ one_le_two (by omega)
    linarith

/-- Rounded to units of its own, a fraction is between two powers of two. -/
theorem scaled_bounds (hnum : 0 < num) (hden : 0 < den) :
    scaled num den (unitExponent num den) ≤ 2 ^ 53 ∧
      (unitExponent num den = minExponent ∨ 2 ^ 52 ≤ scaled num den (unitExponent num den)) := by
  obtain ⟨-, hhigh, hlow⟩ := unitExponent_bounds hnum hden
  obtain ⟨n, d, hd, hscaled, hquotient⟩ := exists_scaled num hden (unitExponent num den)
  have hpower : ∀ k : Nat, (2 : ℚ) ^ (unitExponent num den + k) =
      2 ^ k * 2 ^ unitExponent num den := by
    intro k
    rw [zpow_add₀ two_ne_zero, zpow_natCast, mul_comm]
  have hunit : (0 : ℚ) < 2 ^ unitExponent num den := by positivity
  have hwhole : ∀ k : Nat, roundDiv k 1 = k := fun k => by
    simpa using roundDiv_mul_right k Nat.one_pos
  rw [hscaled]
  refine ⟨?_, hlow.imp_right fun hlow => ?_⟩
  · rw [← hwhole (2 ^ 53)]
    refine roundDiv_mono hd Nat.one_pos ?_
    rw [hquotient, div_le_iff₀ hunit, Nat.cast_one, div_one, Nat.cast_pow, Nat.cast_ofNat]
    exact hhigh.le.trans_eq (hpower 53)
  · rw [← hwhole (2 ^ 52)]
    refine roundDiv_mono Nat.one_pos hd ?_
    rw [hquotient, le_div_iff₀ hunit, Nat.cast_one, div_one, Nat.cast_pow, Nat.cast_ofNat]
    exact (hpower 52).symm.trans_le hlow

/-- A larger fraction is not rounded to less. -/
theorem rounded_mono (hnum : 0 < num) (hden : 0 < den) (hnum' : 0 < num') (hden' : 0 < den')
    (hle : (num : ℚ) / den ≤ num' / den') : rounded num den ≤ rounded num' den' := by
  have hunits := unitExponent_mono hnum hden hnum' hden' hle
  obtain ⟨hhigh, -⟩ := scaled_bounds hnum hden
  obtain ⟨hmin, -, -⟩ := unitExponent_bounds hnum hden
  obtain ⟨-, hlow⟩ := scaled_bounds hnum' hden'
  rw [rounded, rounded]
  rcases hunits.eq_or_lt with hequal | hless
  · rw [hequal]
    obtain ⟨n, d, hd, hscaled, hquotient⟩ := exists_scaled num hden (unitExponent num' den')
    obtain ⟨n', d', hd', hscaled', hquotient'⟩ := exists_scaled num' hden' (unitExponent num' den')
    have hmono : roundDiv n d ≤ roundDiv n' d' := by
      refine roundDiv_mono hd hd' ?_
      rw [hquotient, hquotient']
      gcongr
    rw [hscaled, hscaled']
    gcongr
  · replace hlow := hlow.resolve_left (by omega)
    calc (scaled num den (unitExponent num den) : ℚ) * 2 ^ unitExponent num den
        ≤ 2 ^ 53 * 2 ^ unitExponent num den := by
          gcongr
          exact_mod_cast hhigh
      _ = 2 ^ 52 * 2 ^ (unitExponent num den + 1) := by
          rw [zpow_add_one₀ two_ne_zero]
          ring
      _ ≤ 2 ^ 52 * 2 ^ unitExponent num' den' := by
          gcongr
          · exact one_le_two
          · omega
      _ ≤ scaled num' den' (unitExponent num' den') * 2 ^ unitExponent num' den' := by
          gcongr
          exact_mod_cast hlow

/-- A fraction of 53 bits in some unit, not below the least one, is not changed by rounding. -/
theorem rounded_eq_self (hnum : 0 < num) (hden : 0 < den) {m : Nat} {e : Int}
    (hm : m ≤ 2 ^ 53) (he : minExponent ≤ e) (hvalue : (num : ℚ) / den = m * 2 ^ e) :
    rounded num den = num / den := by
  obtain ⟨-, -, hlow⟩ := unitExponent_bounds hnum hden
  obtain ⟨n, d, hd, hscaled, hquotient⟩ := exists_scaled num hden (unitExponent num den)
  have hunit : (2 : ℚ) ^ unitExponent num den ≠ 0 := by positivity
  obtain ⟨k, hk⟩ : ∃ k : Nat, (num : ℚ) / den = k * 2 ^ unitExponent num den := by
    by_cases hsmall : unitExponent num den ≤ e
    · obtain ⟨j, hj⟩ := Int.eq_ofNat_of_zero_le (Int.sub_nonneg_of_le hsmall)
      refine ⟨m * 2 ^ j, ?_⟩
      rw [hvalue, show e = j + unitExponent num den by omega, zpow_add₀ two_ne_zero, zpow_natCast]
      push_cast
      ring
    · replace hlow := hlow.resolve_left (by omega)
      have hbound : (num : ℚ) / den ≤ 2 ^ 53 * 2 ^ e := by
        rw [hvalue]
        gcongr
        exact_mod_cast hm
      have hexponent : unitExponent num den = e + 1 := by
        have hpowers : (2 : ℚ) ^ (unitExponent num den + 52) ≤ 2 ^ (e + 53) := by
          refine hlow.trans (hbound.trans_eq ?_)
          rw [zpow_add₀ two_ne_zero, mul_comm]
          norm_num
        have := (zpow_le_zpow_iff_right₀ one_lt_two).1 hpowers
        omega
      refine ⟨2 ^ 52, le_antisymm ?_ ?_⟩
      · refine hbound.trans_eq ?_
        rw [hexponent, zpow_add_one₀ two_ne_zero]
        push_cast
        ring
      · refine le_trans (le_of_eq ?_) hlow
        rw [zpow_add₀ two_ne_zero, mul_comm]
        norm_num
  have hwhole : n = k * d := by
    have hdpos : (d : ℚ) ≠ 0 := Nat.cast_ne_zero.2 (Nat.ne_of_gt hd)
    rw [hk, mul_div_assoc, div_self hunit, mul_one, div_eq_iff hdpos] at hquotient
    exact_mod_cast hquotient
  rw [rounded, hscaled, hwhole, roundDiv_mul_right k hd, hk]

end Units

end Folio.Decimal.Binary64
