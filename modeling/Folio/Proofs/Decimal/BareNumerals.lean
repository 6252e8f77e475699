import Mathlib.Data.List.TakeWhile
import Folio.Length
import Folio.Proofs.Decimal.Printing
import Folio.Proofs.Text.Lowered

/-!
Numerals without sign and exponent: they are made of digits, with at most one point between two.
-/
namespace Folio.Length

section Characters

variable {s whole fraction : Chars} {c : Rune}

/-- The digits of a printed number are decimal digits. -/
theorem isDigit_of_char (h : c.isDigit) : isDigit c := by
  have hascii : c.toNat < 128 :=
    Nat.lt_of_le_of_lt (Decimal.toNat_of_isDigit h).2 (by decide)
  exact Text.ascii_forall (P := fun c => c.isDigit → isDigit c) (by decide +kernel) hascii h

theorem isDigit_of_mem_decimal {n : Nat} (hc : c ∈ Text.decimal n) : isDigit c :=
  isDigit_of_char (Text.isDigit_of_mem_decimal hc)

theorem isBareNumeral_of_digits (hne : s ≠ []) (h : ∀ c ∈ s, isDigit c) : isBareNumeral s := by
  have hrest : s.dropWhile isDigit = [] := List.dropWhile_eq_nil_iff.2 h
  rw [isBareNumeral, hrest]
  simpa using hne

theorem isBareNumeral_point (hwhole : whole ≠ []) (hdigits : ∀ c ∈ whole, isDigit c)
    (hfraction : fraction ≠ []) (hmore : ∀ c ∈ fraction, isDigit c) :
    isBareNumeral (whole ++ .of '.' :: fraction) := by
  have hpoint : isDigit '.' = false := by decide
  have hrest : (whole ++ .of '.' :: fraction).dropWhile isDigit = .of '.' :: fraction := by
    rw [List.dropWhile_append_of_pos hdigits, List.dropWhile_cons, hpoint]
    rfl
  have hlength := List.length_pos_iff.2 hwhole
  rw [isBareNumeral, hrest]
  simp only [List.length_append, List.length_cons, Bool.and_eq_true, beq_self_eq_true,
    decide_eq_true_eq, List.all_eq_true, Bool.not_eq_true', List.isEmpty_eq_false_iff, true_and]
  exact ⟨⟨by omega, hfraction⟩, hmore⟩

theorem isDigit_or_point_of_mem (h : isBareNumeral s) (hc : c ∈ s) : isDigit c ∨ c = '.' := by
  unfold isBareNumeral at h
  rw [← List.takeWhile_append_dropWhile (p := isDigit) (l := s), List.mem_append] at hc
  rcases hc with hwhole | hrest
  · exact Or.inl (List.all_eq_true.1 List.all_takeWhile c hwhole)
  · split at h
    · rename_i hnil
      rw [hnil] at hrest
      exact absurd hrest List.not_mem_nil
    · rename_i d fraction hcons
      simp only [Bool.and_eq_true, beq_iff_eq, List.all_eq_true] at h
      rw [hcons] at hrest
      rcases List.mem_cons.1 hrest with rfl | hfraction
      · exact Or.inr h.1.1.1
      · exact Or.inl (h.2 c hfraction)

/-- Any other character keeps a text from being such a numeral. -/
theorem not_isBareNumeral_of_mem (hc : c ∈ s) (hdigit : isDigit c = false) (hpoint : c ≠ '.') :
    isBareNumeral s = false := by
  rw [← Bool.not_eq_true]
  intro h
  rcases isDigit_or_point_of_mem h hc with hyes | rfl
  · rw [hdigit] at hyes
    contradiction
  · contradiction

end Characters

end Folio.Length
