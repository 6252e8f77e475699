import Folio.Proofs.Markup.EscapedValues
import Folio.Proofs.Sanitize.Restoring

/-!
Values of a sanitized fragment as they are written: between quotes that they do not hold, and
escaped so that they are read again as they were.
-/
namespace Folio.Sanitize

/-- One character of a value as it is written; only between double quotes the double quote is
escaped. -/
def valueChar (quote c : Rune) : Chars :=
  if c == '&' then "&amp;".runes
  else if c == '<' then "&lt;".runes
  else if c == '"' && quote == '"' then "&quot;".runes
  else [c]

theorem valueChar_of_ne {c : Rune} (quote : Rune) (hamp : c ≠ '&') (hangle : c ≠ '<') :
    valueChar quote c = if c == '"' && quote == '"' then "&quot;".runes else [c] := by
  rw [valueChar, beq_false_of_ne hamp, if_neg Bool.false_ne_true, beq_false_of_ne hangle,
    if_neg Bool.false_ne_true]

/-- Between single quotes the double quote stays. -/
theorem valueChar_single_of_ne {c : Rune} (hamp : c ≠ '&') (hangle : c ≠ '<') :
    valueChar '\'' c = [c] := by
  have hquote : ((.of '\'' : Rune) == .of '"') = false := by decide
  rw [valueChar_of_ne '\'' hamp hangle, hquote, Bool.and_false, if_neg Bool.false_ne_true]

theorem escaped_eq_flatMap (value : Chars) :
    Text.replaceAll ['<'] "&lt;".runes (Text.replaceAll ['&'] "&amp;".runes value) =
      value.flatMap (valueChar '\'') := by
  rw [Text.replaceAll_singleton, Text.replaceAll_singleton, List.flatMap_assoc]
  congr 1
  funext c
  by_cases hamp : c = '&'
  · rw [hamp]
    decide
  · rw [beq_false_of_ne hamp, if_neg Bool.false_ne_true, List.flatMap_singleton]
    by_cases hangle : c = '<'
    · rw [hangle]
      decide
    · rw [valueChar_single_of_ne hamp hangle, beq_false_of_ne hangle, if_neg Bool.false_ne_true]

theorem quoted_eq_flatMap (value : Chars) :
    Text.replaceAll ['"'] "&quot;".runes (value.flatMap (valueChar '\'')) =
      value.flatMap (valueChar '"') := by
  rw [Text.replaceAll_singleton, List.flatMap_assoc]
  congr 1
  funext c
  by_cases hamp : c = '&'
  · rw [hamp]
    decide
  · by_cases hangle : c = '<'
    · rw [hangle]
      decide
    · have hquote : ((.of '"' : Rune) == .of '"') = true := by decide
      rw [valueChar_single_of_ne hamp hangle, valueChar_of_ne '"' hamp hangle, hquote,
        Bool.and_true, List.flatMap_singleton]

/-- The value between its quotes, character by character. -/
theorem quoteValue_snd (value : Chars) :
    (quoteValue value).2 = value.flatMap (valueChar (quoteValue value).1) := by
  unfold quoteValue
  rw [escaped_eq_flatMap]
  dsimp only
  split
  · rfl
  · exact quoted_eq_flatMap value

theorem quoteValue_fst (value : Chars) :
    (quoteValue value).1 = '"' ∨ (quoteValue value).1 = '\'' := by
  unfold quoteValue
  dsimp only
  split
  · exact Or.inr rfl
  · exact Or.inl rfl

/-- The quote around a value is no character of an escaped ampersand. -/
theorem quoteValue_fst_not_mem (value : Chars) : (quoteValue value).1 ∉ "&amp;".runes := by
  rcases quoteValue_fst value with hquote | hquote
  · rw [hquote]
    decide
  · rw [hquote]
    decide

theorem quote_not_mem_valueChar (c : Rune) : .of '"' ∉ valueChar '"' c := by
  unfold valueChar
  split
  · decide
  · split
    · decide
    · split
      · decide
      · rename_i hquote
        rw [List.mem_singleton]
        rintro rfl
        exact hquote (by decide)

/-- The quote around a value does not stand in it. -/
theorem quoteValue_not_mem (value : Chars) : (quoteValue value).1 ∉ (quoteValue value).2 := by
  unfold quoteValue
  rw [escaped_eq_flatMap]
  dsimp only
  split
  · rename_i hquotes
    simpa using (Bool.and_eq_true_iff.1 hquotes).2
  · rw [quoted_eq_flatMap, List.mem_flatMap]
    rintro ⟨c, -, hc⟩
    exact quote_not_mem_valueChar c hc

section Marks

variable {value : Chars} {d : Rune}

/-- A mark that needs no escape stands in the written value if it stands in the value. -/
theorem mem_flatMap_valueChar (hamp : d ≠ '&') (hangle : d ≠ '<') (hd : d ∈ value) :
    d ∈ value.flatMap (valueChar '\'') := by
  refine List.mem_flatMap.2 ⟨d, hd, ?_⟩
  rw [valueChar_single_of_ne hamp hangle]
  exact List.mem_singleton_self d

/-- Every other mark of a written value stands in the value. -/
theorem mem_of_mem_valueChar {quote c : Rune} (h : d ∈ valueChar quote c)
    (hd : d ∉ "&amp;&lt;&quot;".runes) : c = d := by
  have hmark : ∀ mark : Chars, mark ⊆ "&amp;&lt;&quot;".runes → d ∈ mark → c = d :=
    fun mark hsub hmem => absurd (hsub hmem) hd
  unfold valueChar at h
  split at h
  · exact hmark _ (by decide) h
  · split at h
    · exact hmark _ (by decide) h
    · split at h
      · exact hmark _ (by decide) h
      · exact (List.mem_singleton.1 h).symm

theorem not_mem_quoteValue (h : d ∉ value) (hd : d ∉ "&amp;&lt;&quot;".runes) :
    d ∉ (quoteValue value).2 := by
  rw [quoteValue_snd]
  intro hmem
  obtain ⟨c, hc, hwritten⟩ := List.mem_flatMap.1 hmem
  exact h (mem_of_mem_valueChar hwritten hd ▸ hc)

/-- The quotes are double ones unless only single ones are free. -/
theorem quoteValue_fst_of_mem (h : .of '"' ∈ value → .of '\'' ∈ value) :
    (quoteValue value).1 = '"' := by
  unfold quoteValue
  rw [escaped_eq_flatMap]
  dsimp only
  split
  · rename_i hquotes
    rw [Bool.and_eq_true, List.contains_iff_mem, Bool.not_eq_true', ← Bool.not_eq_true,
      List.contains_iff_mem] at hquotes
    obtain ⟨hdouble, hsingle⟩ := hquotes
    obtain ⟨c, hc, hwritten⟩ := List.mem_flatMap.1 hdouble
    obtain rfl : c = '"' := mem_of_mem_valueChar hwritten (by decide)
    exact absurd (mem_flatMap_valueChar (by decide) (by decide) (h hc)) hsingle
  · rfl

end Marks

/-- A character stays as it is, or is written as a reference that is read as the character. -/
theorem writes_valueChar (quote c : Rune) : Markup.Writes (valueChar quote c) c := by
  unfold valueChar
  split
  · rename_i hamp
    rw [beq_iff_eq.1 hamp]
    exact Markup.Writes.of_name (by decide) fun rest => rfl
  · rename_i hamp
    split
    · rename_i hangle
      rw [beq_iff_eq.1 hangle]
      exact Markup.Writes.of_name (by decide) fun rest => rfl
    · split
      · rename_i hquote
        rw [beq_iff_eq.1 (Bool.and_eq_true_iff.1 hquote).1]
        exact Markup.Writes.of_name (by decide) fun rest => rfl
      · exact Or.inl ⟨fun heq => hamp (beq_iff_eq.2 heq), rfl⟩

/-- A value that is written is read again. -/
theorem decodeValue_quoteValue (value : Chars) :
    Markup.decodeValue (quoteValue value).2 = .ok value := by
  rw [quoteValue_snd]
  exact Markup.decodeValue_written (writes_valueChar _) value

end Folio.Sanitize
