import Folio.Proofs.Text.Pieces
import Folio.Decimal.Shortest

/-!
The forms of numbers are words: they have characters, and none of these is blank. This needs
nothing of the digits themselves.
-/
namespace Folio.Decimal

open Text (IsWord isBlank)

theorem toNat_of_isDigit {c : Rune} (h : c.isDigit) : 48 ≤ c.toNat ∧ c.toNat ≤ 57 := by
  simpa only [Rune.isDigit, Bool.and_eq_true, decide_eq_true_eq] using h

theorem isBlank_of_isDigit {c : Rune} (h : c.isDigit) : isBlank c = false := by
  obtain ⟨hlow, hhigh⟩ := toNat_of_isDigit h
  simp only [isBlank, Bool.or_eq_false_iff, Bool.and_eq_false_iff, decide_eq_false_iff_not,
    beq_eq_false_iff_ne]
  omega

theorem isWord_decimal (n : Nat) : IsWord isBlank (Text.decimal n) :=
  ⟨Text.decimal_ne_nil n, fun _ hc => isBlank_of_isDigit (Text.isDigit_of_mem_decimal hc)⟩

theorem isWord_exponentText (e : Nat) : IsWord isBlank (exponentText e) := by
  rw [exponentText]
  split
  · rename_i hlt
    have hall : ∀ e < 10, IsWord isBlank [.of '0', Rune.digit e] := by decide
    exact hall e hlt
  · exact isWord_decimal e

/-- Pieces of words, and the marks between them, join to a word if one of them has characters. -/
theorem isWord_append_cons (before : Chars) {after : Chars} {c : Rune}
    (hbefore : ∀ d ∈ before, isBlank d = false) (hc : isBlank c = false)
    (hafter : ∀ d ∈ after, isBlank d = false) : IsWord isBlank (before ++ c :: after) :=
  ⟨List.append_ne_nil_of_right_ne_nil before (List.cons_ne_nil c after),
    List.forall_mem_append.2 ⟨hbefore, List.forall_mem_cons.2 ⟨hc, hafter⟩⟩⟩

theorem isWord_layOut (style : Layout) (d : Digits) : IsWord isBlank (layOut style d) := by
  unfold layOut
  dsimp only
  have htext := isWord_decimal (trimZeros (width d.digits) d.digits).1
  generalize Text.decimal (trimZeros (width d.digits) d.digits).1 = text at *
  have hzeros : ∀ n, ∀ c ∈ List.replicate n (Rune.of '0'), isBlank c = false := by
    intro n c hc
    rw [List.eq_of_mem_replicate hc]
    rfl
  split
  · split
    · refine ⟨by simp [htext.1], List.forall_mem_append.2
        ⟨List.forall_mem_append.2 ⟨htext.2, hzeros _⟩, ?_⟩⟩
      cases style.keepsPoint with
      | false => exact List.forall_mem_nil _
      | true => exact List.forall_mem_cons.2 ⟨rfl, List.forall_mem_singleton.2 rfl⟩
    · split
      · exact isWord_append_cons _ (fun c hc => htext.2 c (List.mem_of_mem_take hc)) rfl
          fun c hc => htext.2 c (List.mem_of_mem_drop hc)
      · exact isWord_append_cons ['0'] (List.forall_mem_singleton.2 rfl) rfl
          (List.forall_mem_append.2 ⟨hzeros _, htext.2⟩)
  · refine isWord_append_cons _ ?_ rfl (List.forall_mem_cons.2 ⟨?_, (isWord_exponentText _).2⟩)
    · cases text with
      | nil => exact htext.2
      | cons c rest =>
          cases rest with
          | nil => exact htext.2
          | cons d rest =>
              obtain ⟨hfirst, hrest⟩ := List.forall_mem_cons.1 htext.2
              exact List.forall_mem_cons.2 ⟨hfirst, List.forall_mem_cons.2 ⟨rfl, hrest⟩⟩
    · split <;> rfl

namespace Binary64

/-- Every form of a number is a word. -/
theorem isWord_form (style : Layout) (digits : Nat → Int → Digits) (x : Binary64) :
    IsWord isBlank (form style digits x) := by
  have hsigned : ∀ (negative : Bool) {s : Chars}, IsWord isBlank s →
      IsWord isBlank ((if negative then [.of '-'] else []) ++ s) := by
    intro negative s hs
    cases negative with
    | false => exact hs
    | true => exact isWord_append_cons [] (List.forall_mem_nil _) rfl hs.2
  cases x with
  | nan =>
      change IsWord isBlank "nan".runes
      decide
  | infinite negative => exact hsigned negative (by decide)
  | finite negative mantissa exponent =>
      apply hsigned negative
      split
      · cases style.keepsPoint <;> decide
      · exact isWord_layOut style (digits mantissa exponent)

end Binary64

end Folio.Decimal
