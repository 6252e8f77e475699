import Mathlib.Data.List.TakeWhile
import Folio.Text.Blank

/-!
Runs of characters at the beginning of a text, and what is left after them, when the text goes on.
-/
namespace Folio.Text

variable {p : Rune → Bool} {c : Rune} {s : Chars}

theorem length_takeWhile_ne (hc : c ∈ s) (hp : p c = false) : (s.takeWhile p).length ≠ s.length := by
  intro hlength
  have hall := (List.takeWhile_prefix p).eq_of_length hlength
  have hpc := List.mem_takeWhile_imp (hall ▸ hc)
  rw [hp] at hpc
  contradiction

/-- A run that ends inside the text is the same when the text goes on. -/
theorem takeWhile_append_of_mem (hc : c ∈ s) (hp : p c = false) (t : Chars) :
    (s ++ t).takeWhile p = s.takeWhile p := by
  rw [List.takeWhile_append, if_neg (length_takeWhile_ne hc hp)]

theorem mem_dropWhile (hc : c ∈ s) (hp : p c = false) : c ∈ s.dropWhile p := by
  rw [← List.takeWhile_append_dropWhile (p := p) (l := s), List.mem_append] at hc
  rcases hc with htake | hdrop
  · have hpc := List.mem_takeWhile_imp htake
    rw [hp] at hpc
    contradiction
  · exact hdrop

theorem dropWhile_append_of_mem (hc : c ∈ s) (hp : p c = false) (t : Chars) :
    (s ++ t).dropWhile p = s.dropWhile p ++ t := by
  have hne := List.ne_nil_of_mem (mem_dropWhile hc hp)
  rw [List.dropWhile_append, if_neg (by simpa using hne)]

/-- To drop as many characters as there are in the run is to drop the run. -/
theorem drop_length_takeWhile (p : Rune → Bool) (s : Chars) :
    s.drop (s.takeWhile p).length = s.dropWhile p := by
  induction s with
  | nil => rfl
  | cons c s ih =>
      rw [List.takeWhile_cons, List.dropWhile_cons]
      split
      · exact ih
      · rfl

/-- A run does not go beyond a character that ends it. -/
theorem takeWhile_append_of_neg (hp : p c = false) (s t : Chars) :
    (s ++ c :: t).takeWhile p = s.takeWhile p := by
  induction s with
  | nil => exact List.takeWhile_cons_of_neg (Bool.eq_false_iff.1 hp)
  | cons d s ih => rw [List.cons_append, List.takeWhile_cons, List.takeWhile_cons, ih]

theorem dropWhile_append_of_neg (hp : p c = false) (s t : Chars) :
    (s ++ c :: t).dropWhile p = s.dropWhile p ++ c :: t := by
  induction s with
  | nil => exact List.dropWhile_cons_of_neg (Bool.eq_false_iff.1 hp)
  | cons d s ih =>
      rw [List.cons_append, List.dropWhile_cons, List.dropWhile_cons]
      split
      · exact ih
      · rfl

end Folio.Text
