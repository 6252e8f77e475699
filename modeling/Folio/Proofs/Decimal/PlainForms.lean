import Folio.Proofs.Decimal.BareNumerals
import Folio.Proofs.Decimal.Magnitude

/-!
Which numbers have a form without sign and exponent. Where six digits are written, these are the
zero and the numbers from half a unit of the sixth digit below a ten-thousandth up to half a unit
below a million. A sign stands before every negative number, and the negative zero.
-/
namespace Folio.Decimal

open Length (isBareNumeral isDigit)

section Zeros

variable {n : Nat}

theorem width_div_ten (hn : n ≠ 0) (hzero : n % 10 = 0) : width n = width (n / 10) + 1 := by
  have hle : 10 ≤ n := by omega
  rw [width, Nat.toDigits_of_base_le (by decide) hle, List.length_append]
  rfl

/-- The zeros at the end are counted. -/
theorem width_trimZeros (fuel n : Nat) :
    width (trimZeros fuel n).1 + (trimZeros fuel n).2 = width n := by
  induction fuel generalizing n with
  | zero => rfl
  | succ fuel ih =>
      rw [trimZeros]
      split
      · rename_i hmore
        simp only [Bool.and_eq_true, bne_iff_ne, beq_iff_eq] at hmore
        rw [width_div_ten hmore.1 hmore.2, ← ih (n / 10)]
        rfl
      · rfl

end Zeros

section Layouts

variable {text : Chars}

theorem isDigit_replicate (n : Nat) : ∀ c ∈ List.replicate n (Rune.of '0'), isDigit c := by
  intro c hc
  rw [List.eq_of_mem_replicate hc]
  decide

/-- Digits with zeros after them, and a fractional zero or none. -/
theorem isBareNumeral_whole (hne : text ≠ []) (hdigits : ∀ c ∈ text, isDigit c) (zeros : Nat)
    (keepsPoint : Bool) : isBareNumeral
      (text ++ List.replicate zeros (.of '0') ++ if keepsPoint then [.of '.', .of '0'] else []) := by
  have hwhole : text ++ List.replicate zeros (.of '0') ≠ [] := by simp [hne]
  have hall := List.forall_mem_append.2 ⟨hdigits, isDigit_replicate zeros⟩
  cases keepsPoint with
  | false =>
      rw [if_neg Bool.false_ne_true, List.append_nil]
      exact Length.isBareNumeral_of_digits hwhole hall
  | true =>
      exact Length.isBareNumeral_point hwhole hall (List.cons_ne_nil _ _)
        (List.forall_mem_singleton.2 (by decide))

/-- Digits with a point between two of them. -/
theorem isBareNumeral_split (hdigits : ∀ c ∈ text, isDigit c) {n : Nat}
    (hn : n + 1 < text.length) :
    isBareNumeral (text.take (n + 1) ++ .of '.' :: text.drop (n + 1)) := by
  have hbefore : text.take (n + 1) ≠ [] := by
    rw [Ne, List.take_eq_nil_iff, ← List.length_eq_zero_iff]
    omega
  have hafter : text.drop (n + 1) ≠ [] := by
    rw [Ne, List.drop_eq_nil_iff]
    omega
  exact Length.isBareNumeral_point hbefore (fun c hc => hdigits c (List.mem_of_mem_take hc)) hafter
    fun c hc => hdigits c (List.mem_of_mem_drop hc)

/-- Digits after a point and zeros. -/
theorem isBareNumeral_small (hne : text ≠ []) (hdigits : ∀ c ∈ text, isDigit c) (zeros : Nat) :
    isBareNumeral (.of '0' :: .of '.' :: List.replicate zeros (.of '0') ++ text) := by
  have hzero : ∀ c ∈ [Rune.of '0'], isDigit c := List.forall_mem_singleton.2 (by decide)
  exact Length.isBareNumeral_point (List.cons_ne_nil _ _) hzero (by simp [hne])
    (List.forall_mem_append.2 ⟨isDigit_replicate zeros, hdigits⟩)

/-- A number is laid out without an exponent if its first digit is inside the window. -/
theorem isBareNumeral_layOut_iff (style : Layout) (d : Digits) :
    isBareNumeral (layOut style d) ↔ style.lowest ≤ d.first ∧ d.first < style.limit := by
  have hwidth := width_trimZeros (width d.digits) d.digits
  unfold layOut
  dsimp only
  generalize (trimZeros (width d.digits) d.digits).1 = digits at *
  generalize (trimZeros (width d.digits) d.digits).2 = zeros at *
  have hfirst : d.scale + zeros + (Text.decimal digits).length - 1 = d.first := by
    rw [Digits.first, ← hwidth, width, Text.decimal, List.length_map]
    push_cast
    ring
  rw [hfirst]
  have hne : Text.decimal digits ≠ [] := Text.decimal_ne_nil digits
  have hdigits : ∀ c ∈ Text.decimal digits, isDigit c := fun c hc =>
    Length.isDigit_of_mem_decimal hc
  generalize Text.decimal digits = text at *
  split
  · rename_i hinside
    simp only [Bool.and_eq_true, decide_eq_true_eq] at hinside
    refine iff_of_true ?_ hinside
    split
    · exact isBareNumeral_whole hne hdigits _ _
    · split
      · exact isBareNumeral_split hdigits (by omega)
      · exact isBareNumeral_small hne hdigits _
  · rename_i houtside
    simp only [Bool.and_eq_true, decide_eq_true_eq] at houtside
    refine iff_of_false (Bool.eq_false_iff.1 ?_) houtside
    exact Length.not_isBareNumeral_of_mem (c := 'e') (by simp) (by decide) (by decide)

end Layouts

namespace Binary64

/-- The number has a brief form without sign and exponent: it has no sign, and it is zero, or a
number that is rounded to six digits from a ten-thousandth up to below a million. -/
inductive IsPlain : Binary64 → Prop
  | zero (exponent : Int) : IsPlain (.finite false 0 exponent)
  | within {mantissa : Nat} {exponent : Int}
      (hlow : (0.00009999995 : ℚ) ≤ magnitude mantissa exponent)
      (hhigh : magnitude mantissa exponent < 999999.5) : IsPlain (.finite false mantissa exponent)

section Brief

variable {mantissa : Nat} {exponent : Int}

theorem isPlain_iff (hmantissa : 0 < mantissa) : IsPlain (.finite false mantissa exponent) ↔
    0.00009999995 ≤ magnitude mantissa exponent ∧ magnitude mantissa exponent < 999999.5 := by
  constructor
  · intro h
    cases h with
    | zero => contradiction
    | within hlow hhigh => exact ⟨hlow, hhigh⟩
  · rintro ⟨hlow, hhigh⟩
    exact .within hlow hhigh

theorem isBareNumeral_layOut_significant_iff (hmantissa : 0 < mantissa) (exponent : Int) :
    isBareNumeral (layOut briefLayout (significant 6 mantissa exponent)) ↔
      IsPlain (.finite false mantissa exponent) := by
  have hlow := le_first_significant_iff hmantissa exponent 5 (-4)
  have hhigh := le_first_significant_iff hmantissa exponent 5 6
  have hlowest : (10 ^ (5 + 1) - 1 / 2 : ℚ) * 10 ^ (-4 - 1 - (5 : Nat) : Int) = 0.00009999995 := by
    norm_num
  have hlimit : (10 ^ (5 + 1) - 1 / 2 : ℚ) * 10 ^ (6 - 1 - (5 : Nat) : Int) = 999999.5 := by
    norm_num
  rw [hlowest] at hlow
  rw [hlimit] at hhigh
  rw [isBareNumeral_layOut_iff, isPlain_iff hmantissa, ← hlow, ← not_le (a := (999999.5 : ℚ)),
    ← hhigh, not_le]
  rfl

/-- The brief form of a number is a numeral without sign and exponent if the number is plain. -/
theorem isBareNumeral_brief_iff (x : Binary64) : isBareNumeral x.brief ↔ x.IsPlain := by
  cases x with
  | nan =>
      refine iff_of_false (by decide) ?_
      rintro ⟨⟩
  | infinite negative =>
      refine iff_of_false ?_ ?_
      · cases negative <;> decide
      · rintro ⟨⟩
  | finite negative mantissa exponent =>
      cases negative with
      | true =>
          refine iff_of_false (Bool.eq_false_iff.1 ?_) ?_
          · exact Length.not_isBareNumeral_of_mem (c := '-') List.mem_cons_self (by decide)
              (by decide)
          · rintro ⟨⟩
      | false =>
          rcases Nat.eq_zero_or_pos mantissa with rfl | hmantissa
          · exact iff_of_true rfl (.zero exponent)
          · have hform : brief (.finite false mantissa exponent) =
                layOut briefLayout (significant 6 mantissa exponent) := by
              rw [brief, form, beq_false_of_ne (Nat.ne_of_gt hmantissa)]
              rfl
            rw [hform]
            exact isBareNumeral_layOut_significant_iff hmantissa exponent

end Brief

end Binary64

end Folio.Decimal
