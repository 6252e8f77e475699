import Folio.Proofs.Text.Lowered
import Folio.Proofs.Markup.WrittenTags

/-!
Names of attributes that are spelled in another way, character by character. As long as the
characters at which a name ends stay what they are, and no other one becomes one of them, the new
spelling is a name exactly if the old one is. Lower case is such a spelling.
-/
namespace Folio.Markup

/-- Each character of the first text is written as some characters in the second: one at which a
name ends as itself, and any other one as characters at which no name ends. -/
inductive Respells : Chars → Chars → Prop
  | nil : Respells [] []
  | mark {c : Rune} {s t : Chars} (hc : endsAttributeName c) (hlater : Respells s t) :
      Respells (c :: s) (c :: t)
  | other {c d : Rune} {more s t : Chars} (hc : endsAttributeName c = false)
      (himage : ∀ e ∈ d :: more, endsAttributeName e = false) (hlater : Respells s t) :
      Respells (c :: s) (d :: more ++ t)

section Names

variable {c : Rune} {s t : Chars}

theorem attributeName_cons : AttributeName (c :: s) ↔
    Text.isBlank c = false ∧ c ≠ '/' ∧ c ≠ '>' ∧ ∀ d ∈ s, endsAttributeName d = false := by
  constructor
  · rintro ⟨first, letters, heq, hfirst⟩
    obtain ⟨rfl, rfl⟩ := List.cons.inj heq
    exact hfirst
  · exact fun h => ⟨c, s, rfl, h⟩

/-- A character at which no name ends may begin one. -/
theorem begins_of_not_ends (hc : endsAttributeName c = false) :
    Text.isBlank c = false ∧ c ≠ '/' ∧ c ≠ '>' := by
  simp only [endsAttributeName, Bool.or_eq_false_iff, beq_eq_false_iff_ne] at hc
  exact ⟨hc.1.1.1, hc.1.1.2, hc.2⟩

theorem Respells.plain_iff (h : Respells s t) :
    (∀ d ∈ t, endsAttributeName d = false) ↔ ∀ c ∈ s, endsAttributeName c = false := by
  induction h with
  | nil => exact Iff.rfl
  | mark _ _ ih => rw [List.forall_mem_cons, List.forall_mem_cons, ih]
  | other hc himage _ ih =>
      rw [List.forall_mem_append, ih]
      refine Iff.trans ?_ List.forall_mem_cons.symm
      exact ⟨fun h => ⟨hc, h.2⟩, fun h => ⟨himage, h.2⟩⟩

/-- The new spelling is the name of an attribute exactly if the old one is. -/
theorem Respells.attributeName_iff (h : Respells s t) : AttributeName t ↔ AttributeName s := by
  cases h with
  | nil => exact Iff.rfl
  | mark _ hlater => rw [attributeName_cons, attributeName_cons, hlater.plain_iff]
  | other hc himage hlater =>
      obtain ⟨hd, hmore⟩ := List.forall_mem_cons.1 himage
      rw [List.cons_append, attributeName_cons, attributeName_cons, List.forall_mem_append,
        hlater.plain_iff]
      have hold := begins_of_not_ends hc
      have hnew := begins_of_not_ends hd
      constructor
      · rintro ⟨-, -, -, -, hletters⟩
        exact ⟨hold.1, hold.2.1, hold.2.2, hletters⟩
      · rintro ⟨-, -, -, hletters⟩
        exact ⟨hnew.1, hnew.2.1, hnew.2.2, hmore, hletters⟩

end Names

section Lower

variable {c : Rune}

theorem isTagMark_of_endsAttributeName (h : endsAttributeName c) : Text.isTagMark c := by
  simp only [endsAttributeName, Bool.or_eq_true] at h
  simp only [Text.isTagMark, Bool.or_eq_true]
  rcases h with ((h | h) | h) | h <;> simp [h]

/-- A character at which a name ends is its own lower case form. -/
theorem lowerChar_of_endsAttributeName (h : endsAttributeName c) :
    c ≠ 'Σ' ∧ Text.lowerChar c = [c] := by
  simp only [endsAttributeName, Bool.or_eq_true, beq_iff_eq] at h
  rcases h with ((hblank | rfl) | rfl) | rfl
  · exact Text.blank_forall (P := fun c => c ≠ .of 'Σ' ∧ Text.lowerChar c = [c]) (by decide) hblank
  all_goals decide

/-- No other character has one of these among its lower case form. -/
theorem not_ends_of_mem_lowerChar (hc : endsAttributeName c = false) (hsigma : c ≠ 'Σ') :
    ∀ d ∈ Text.lowerChar c, endsAttributeName d = false := by
  intro d hd
  rw [Bool.eq_false_iff]
  intro hends
  have hlower := Text.lowerOf_of_mem_lowerChar hd hsigma
  obtain rfl := hlower.mark (isTagMark_of_endsAttributeName hends)
  rw [hc] at hends
  contradiction

theorem exists_lowerChar_eq_cons (c : Rune) : ∃ d more, Text.lowerChar c = d :: more := by
  unfold Text.lowerChar
  split
  · exact ⟨_, _, rfl⟩
  · split
    · exact ⟨_, _, rfl⟩
    · split <;> exact ⟨_, _, rfl⟩

/-- Lower case is another spelling. -/
theorem respells_lower (s : Chars) : Respells s (Text.lower s) := by
  have hgo : ∀ before, Respells s (Text.lowerGo before s) := by
    induction s with
    | nil => exact fun _ => .nil
    | cons c s ih =>
        intro before
        rw [Text.lowerGo]
        by_cases hends : endsAttributeName c
        · obtain ⟨hsigma, hlower⟩ := lowerChar_of_endsAttributeName hends
          rw [beq_false_of_ne hsigma, if_neg Bool.false_ne_true, hlower]
          exact .mark hends (ih _)
        · have hplain : endsAttributeName c = false := Bool.eq_false_iff.2 hends
          by_cases hsigma : c = 'Σ'
          · rw [if_pos (beq_iff_eq.2 hsigma)]
            split
            · exact .other hplain (List.forall_mem_singleton.2 (by decide)) (ih _)
            · exact .other hplain (List.forall_mem_singleton.2 (by decide)) (ih _)
          · have himage := not_ends_of_mem_lowerChar hplain hsigma
            obtain ⟨d, more, heq⟩ := exists_lowerChar_eq_cons c
            rw [heq] at himage
            rw [beq_false_of_ne hsigma, if_neg Bool.false_ne_true, heq]
            exact .other hplain himage (ih _)
  exact hgo []

theorem attributeName_lower_iff {name : Chars} :
    AttributeName (Text.lower name) ↔ AttributeName name :=
  (respells_lower name).attributeName_iff

end Lower

end Folio.Markup
