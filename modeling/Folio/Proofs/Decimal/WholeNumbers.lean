import Mathlib.Data.List.Induction
import Folio.Decimal.Numeral
import Folio.Proofs.Decimal.Printing
import Folio.Proofs.Text.Lowered
import Folio.Proofs.Text.Trimming

/-!
Whole numbers as they are read from digits. A run of the ten common digits is read as the number it
denotes as long as it is not too long; a character that is no digit keeps a text from being read.
-/
namespace Folio.Decimal

/-- A run of common digits, and the number that it denotes. -/
inductive Numeral : Chars → Nat → Prop
  | digit {d : Nat} (hd : d < 10) : Numeral [Rune.digit d] d
  | more {s : Chars} {n d : Nat} (h : Numeral s n) (hd : d < 10) :
      Numeral (s ++ [Rune.digit d]) (10 * n + d)

section Digits

variable {s : Chars} {c : Rune} {n : Nat}

theorem digitChar_of_lt {d : Nat} (hd : d < 10) :
    (Rune.digit d).isDigit ∧ (Rune.digit d).toNat - 48 = d := by
  have hall : ∀ d < 10, (Rune.digit d).isDigit ∧ (Rune.digit d).toNat - 48 = d := by decide
  exact hall d hd

/-- Every common digit is the digit of a number below ten. -/
theorem digitChar_toNat (h : c.isDigit) : Rune.digit (c.toNat - 48) = c := by
  have hsmall : c.toNat < 128 := Nat.lt_of_le_of_lt (toNat_of_isDigit h).2 (by decide)
  exact Text.ascii_forall (P := fun c => c.isDigit → Rune.digit (c.toNat - 48) = c)
    (by decide +kernel) hsmall h

theorem valueOf_append_singleton (s : Chars) (c : Rune) :
    valueOf (s ++ [c]) = 10 * valueOf s + (c.toNat - 48) := by
  rw [valueOf, List.foldl_append]
  rfl

theorem Numeral.valueOf_eq (h : Numeral s n) : valueOf s = n := by
  induction h with
  | @digit d hd =>
      have hvalue := valueOf_append_singleton [] (Rune.digit d)
      rw [(digitChar_of_lt hd).2] at hvalue
      simpa [valueOf] using hvalue
  | more _ hd ih => rw [valueOf_append_singleton, ih, (digitChar_of_lt hd).2]

theorem Numeral.ne_nil (h : Numeral s n) : s ≠ [] := by
  cases h with
  | digit hd => exact List.cons_ne_nil _ _
  | more h hd => exact List.append_ne_nil_of_right_ne_nil _ (List.cons_ne_nil _ _)

theorem Numeral.isDigit (h : Numeral s n) : ∀ c ∈ s, c.isDigit := by
  induction h with
  | digit hd => exact List.forall_mem_singleton.2 (digitChar_of_lt hd).1
  | more _ hd ih =>
      exact List.forall_mem_append.2 ⟨ih, List.forall_mem_singleton.2 (digitChar_of_lt hd).1⟩

/-- A run of common digits denotes its value. -/
theorem numeral_valueOf (hne : s ≠ []) (h : ∀ c ∈ s, c.isDigit) : Numeral s (valueOf s) := by
  induction s using List.reverseRecOn with
  | nil => exact absurd rfl hne
  | append_singleton s c ih =>
      obtain ⟨hs, hc⟩ := List.forall_mem_append.1 h
      replace hc := List.forall_mem_singleton.1 hc
      have hd : c.toNat - 48 < 10 := by
        have hrange := toNat_of_isDigit hc
        omega
      rw [← digitChar_toNat hc, valueOf_append_singleton, (digitChar_of_lt hd).2]
      cases s with
      | nil => simpa [valueOf] using Numeral.digit hd
      | cons first s => exact (ih (List.cons_ne_nil first s) hs).more hd

theorem numeral_iff : Numeral s n ↔ s ≠ [] ∧ (∀ c ∈ s, c.isDigit) ∧ valueOf s = n := by
  constructor
  · exact fun h => ⟨h.ne_nil, h.isDigit, h.valueOf_eq⟩
  · rintro ⟨hne, hdigits, rfl⟩
    exact numeral_valueOf hne hdigits

end Digits

section Reading

variable {s : Chars} {c : Rune}

/-- The character of a numeral that stands for one that no numeral holds. -/
def foreignMark : Rune := '?'

/-- The character is a common digit, or one that no numeral holds. -/
def DigitOrForeign (c : Rune) : Prop := c.isDigit ∨ toAscii c = foreignMark

theorem toAscii_of_isDigit (h : c.isDigit) : toAscii c = c := by
  have hsmall : c.toNat < 127 := Nat.lt_of_le_of_lt (toNat_of_isDigit h).2 (by decide)
  rw [toAscii, if_pos hsmall]

theorem not_isNumeralSpace_of_isDigit (h : c.isDigit) : isNumeralSpace c = false := by
  have hrange := toNat_of_isDigit h
  have hspace : c ≠ ' ' := by
    rintro rfl
    exact absurd hrange.1 (by decide)
  simp only [isNumeralSpace, beq_false_of_ne hspace, Bool.false_or, Bool.and_eq_false_iff,
    decide_eq_false_iff_not]
  omega

theorem DigitOrForeign.not_isNumeralSpace (h : DigitOrForeign c) :
    isNumeralSpace (toAscii c) = false := by
  rcases h with hdigit | hforeign
  · rw [toAscii_of_isDigit hdigit]
    exact not_isNumeralSpace_of_isDigit hdigit
  · rw [hforeign]
    rfl

/-- Nothing is taken off at the ends of a text without spaces. -/
theorem normalize_eq_map (h : ∀ c ∈ s, DigitOrForeign c) : normalize s = s.map toAscii := by
  have hplain : ∀ c ∈ s.map toAscii, isNumeralSpace c = false :=
    List.forall_mem_map.2 fun c hc => (h c hc).not_isNumeralSpace
  rw [normalize, Text.dropWhile_eq_self fun c hc => hplain c (List.mem_of_mem_head? hc),
    Text.dropEnd_eq_self fun c hc => hplain c (List.mem_of_getLast? hc)]

/-- There is no sign before a digit or a foreign character. -/
theorem splitSign_map (h : ∀ c ∈ s, DigitOrForeign c) :
    splitSign (s.map toAscii) = (false, s.map toAscii) := by
  cases s with
  | nil => rfl
  | cons c s =>
      have hsign : ∀ sign : Rune, sign.isDigit = false → sign ≠ foreignMark → toAscii c ≠ sign := by
        intro sign hnone hmark heq
        rcases (List.forall_mem_cons.1 h).1 with hdigit | hforeign
        · rw [← toAscii_of_isDigit hdigit, heq, hnone] at hdigit
          contradiction
        · exact hmark (heq.symm.trans hforeign)
      rw [List.map_cons]
      unfold splitSign
      split
      · rename_i heq
        exact absurd (List.cons.inj heq).1 (hsign '-' (by decide) (by decide))
      · rename_i heq
        exact absurd (List.cons.inj heq).1 (hsign '+' (by decide) (by decide))
      · rfl

theorem ne_underscore_of_isDigit (h : c.isDigit) : c ≠ '_' := by
  rintro rfl
  exact absurd h (by decide)

theorem joinDigits?_of_digits (h : ∀ c ∈ s, c.isDigit) : joinDigits? s = some s := by
  induction s with
  | nil => rfl
  | cons c s ih =>
      obtain ⟨hc, hs⟩ := List.forall_mem_cons.1 h
      unfold joinDigits?
      split
      · contradiction
      · rename_i heq
        obtain ⟨-, rfl⟩ := List.cons.inj heq
        exact absurd rfl (ne_underscore_of_isDigit (hs '_' List.mem_cons_self))
      · rename_i d rest _ heq
        obtain ⟨rfl, rfl⟩ := List.cons.inj heq
        have hlast : s ≠ [.of '_'] := by
          rintro rfl
          exact ne_underscore_of_isDigit (hs '_' List.mem_cons_self) rfl
        rw [beq_false_of_ne (ne_underscore_of_isDigit hc), beq_false_of_ne hlast, ih hs]
        rfl

/-- What begins or goes on with a digit is exactly what is a digit. -/
theorem DigitOrForeign.isNumeral_eq (h : DigitOrForeign c) :
    ((toAscii c).isDigit || toAscii c == '_') = c.isDigit := by
  rcases h with hdigit | hforeign
  · rw [toAscii_of_isDigit hdigit, hdigit, Bool.true_or]
  · cases hc : c.isDigit with
    | false =>
        rw [hforeign]
        rfl
    | true =>
        rw [toAscii_of_isDigit hc] at hforeign
        rw [hforeign] at hc
        contradiction

/-- The digits at the start of the text, and what follows them, are those of its numeral. -/
theorem span_map_toAscii (h : ∀ c ∈ s, DigitOrForeign c) :
    (s.map toAscii).takeWhile (fun c => c.isDigit || c == .of '_') = s.takeWhile Rune.isDigit ∧
      (s.map toAscii).dropWhile (fun c => c.isDigit || c == .of '_') =
        (s.dropWhile Rune.isDigit).map toAscii := by
  induction s with
  | nil => exact ⟨rfl, rfl⟩
  | cons c s ih =>
      obtain ⟨hc, hs⟩ := List.forall_mem_cons.1 h
      obtain ⟨htake, hdrop⟩ := ih hs
      rw [List.map_cons, List.takeWhile_cons, List.dropWhile_cons, hc.isNumeral_eq,
        List.takeWhile_cons, List.dropWhile_cons]
      cases hdigit : c.isDigit with
      | false => exact ⟨rfl, rfl⟩
      | true => exact ⟨congrArg₂ List.cons (toAscii_of_isDigit hdigit) htake, hdrop⟩

/-- What a text of digits and foreign characters is read as: the digits before the first foreign
character decide whether it is too long, and any foreign character that it is no number. -/
theorem readWhole_eq (h : ∀ c ∈ s, DigitOrForeign c) : readWhole s =
    if maxDigits < (s.takeWhile Rune.isDigit).length then
      .error (.tooLong (s.takeWhile Rune.isDigit).length)
    else if (s.takeWhile Rune.isDigit).isEmpty || !(s.dropWhile Rune.isDigit).isEmpty then
      .error (.notWhole s)
    else .ok (valueOf (s.takeWhile Rune.isDigit)) := by
  have hdigits : ∀ c ∈ s.takeWhile Rune.isDigit, c.isDigit :=
    fun c hc => List.all_eq_true.1 List.all_takeWhile c hc
  obtain ⟨htake, hdrop⟩ := span_map_toAscii h
  rw [readWhole, normalize_eq_map h, splitSign_map h]
  dsimp only
  rw [htake, hdrop, joinDigits?_of_digits hdigits, List.isEmpty_map]
  rfl

/-- A numeral is read as the number it denotes, unless it is too long. -/
theorem Numeral.readWhole_eq {n : Nat} (h : Numeral s n) : readWhole s =
    if maxDigits < s.length then .error (.tooLong s.length) else .ok n := by
  have htake : s.takeWhile Rune.isDigit = s := List.takeWhile_eq_self_iff.2 h.isDigit
  have hdrop : s.dropWhile Rune.isDigit = [] := List.dropWhile_eq_nil_iff.2 h.isDigit
  rw [Decimal.readWhole_eq fun c hc => Or.inl (h.isDigit c hc), htake, hdrop, h.valueOf_eq,
    List.isEmpty_eq_false_iff.2 h.ne_nil]
  rfl

/-- A foreign character keeps a text from being read. -/
theorem exists_error_of_foreign (h : ∀ c ∈ s, DigitOrForeign c) (hc : c ∈ s)
    (hforeign : c.isDigit = false) : ∃ e, readWhole s = .error e := by
  have hdrop : s.dropWhile Rune.isDigit ≠ [] := fun hnil => by
    rw [List.dropWhile_eq_nil_iff.1 hnil c hc] at hforeign
    contradiction
  rw [readWhole_eq h, List.isEmpty_eq_false_iff.2 hdrop, Bool.not_false, Bool.or_true, if_pos rfl]
  split
  · exact ⟨_, rfl⟩
  · exact ⟨_, rfl⟩

end Reading

end Folio.Decimal
