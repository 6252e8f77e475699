import Folio.Proofs.Text.Pieces
import Folio.Proofs.Text.Runs

/-!
Texts without blanks at their ends: trimming makes them, and leaves them as they are.
-/
namespace Folio.Text

variable {p : Rune → Bool} {s : Chars}

theorem not_head_dropWhile (p : Rune → Bool) (s : Chars) :
    ∀ c ∈ (s.dropWhile p).head?, p c = false := by
  intro c hc
  have hall := List.head?_dropWhile_not p s
  rw [Option.mem_def.1 hc] at hall
  simpa using hall

theorem dropWhile_eq_self (h : ∀ c ∈ s.head?, p c = false) : s.dropWhile p = s := by
  cases s with
  | nil => rfl
  | cons c s => rw [List.dropWhile_cons, h c rfl, if_neg Bool.false_ne_true]

theorem dropEnd_eq_self (h : ∀ c ∈ s.getLast?, p c = false) : dropEnd p s = s := by
  rw [dropEnd, dropWhile_eq_self, List.reverse_reverse]
  rwa [List.head?_reverse]

theorem not_last_dropEnd (p : Rune → Bool) (s : Chars) :
    ∀ c ∈ (dropEnd p s).getLast?, p c = false := by
  rw [dropEnd, List.getLast?_reverse]
  exact not_head_dropWhile p s.reverse

theorem prefix_dropEnd (p : Rune → Bool) (s : Chars) : dropEnd p s <+: s := by
  have hsuffix := (List.dropWhile_suffix p (l := s.reverse)).reverse
  rwa [List.reverse_reverse] at hsuffix

/-- The text has no white space at its ends. -/
structure Trimmed (s : Chars) : Prop where
  first : ∀ c ∈ s.head?, isBlank c = false
  last : ∀ c ∈ s.getLast?, isBlank c = false

theorem trimmed_trim (s : Chars) : Trimmed (trim s) := by
  refine ⟨fun c hc => ?_, not_last_dropEnd _ _⟩
  obtain ⟨rest, hrest⟩ := List.head?_eq_some_iff.1 hc
  have hstart := prefix_dropEnd isBlank (trimLeft s)
  rw [← trim, hrest] at hstart
  obtain ⟨more, hmore⟩ := hstart
  refine not_head_dropWhile isBlank s c ?_
  rw [← trimLeft, ← hmore]
  rfl

theorem Trimmed.trim_eq (h : Trimmed s) : trim s = s := by
  rw [trim, trimLeft, dropWhile_eq_self h.first]
  exact dropEnd_eq_self h.last

theorem trimLeft_suffix (s : Chars) : trimLeft s <:+ s := List.dropWhile_suffix _

theorem trim_isInfix (s : Chars) : trim s <:+: s :=
  (prefix_dropEnd _ _).isInfix.trans (trimLeft_suffix s).isInfix

/-- What is trimmed at the end is blank. -/
theorem exists_trimLeft_eq_append (s : Chars) :
    ∃ blanks, trimLeft s = trim s ++ blanks ∧ ∀ c ∈ blanks, isBlank c := by
  refine ⟨((trimLeft s).reverse.takeWhile isBlank).reverse, ?_, fun c hc => ?_⟩
  · rw [trim, dropEnd, ← List.reverse_append, List.takeWhile_append_dropWhile,
      List.reverse_reverse]
  · exact List.mem_takeWhile_imp (List.mem_reverse.1 hc)

theorem mem_of_mem_trim {c : Rune} (h : c ∈ trim s) : c ∈ s := (trim_isInfix s).subset h

theorem length_trim_le (s : Chars) : (trim s).length ≤ s.length := (trim_isInfix s).length_le

/-- Only the blanks before a character that is none are dropped. -/
theorem trimLeft_append_of_neg {c : Rune} (hc : isBlank c = false) (s t : Chars) :
    trimLeft (s ++ c :: t) = trimLeft s ++ c :: t :=
  dropWhile_append_of_neg hc s t

theorem IsWord.trimmed (h : IsWord isBlank s) : Trimmed s :=
  ⟨fun c hc => h.2 c (List.mem_of_head? hc), fun c hc => h.2 c (List.mem_of_getLast? hc)⟩

theorem mem_trim {c : Rune} (hc : c ∈ s) (h : isBlank c = false) : c ∈ trim s :=
  List.mem_reverse.2 (mem_dropWhile (List.mem_reverse.2 (mem_dropWhile hc h)) h)

/-- Something is left of a text with a character that is not blank. -/
theorem trim_ne_nil (h : isBlankText s = false) : trim s ≠ [] := by
  obtain ⟨c, hc, hblank⟩ := List.all_eq_false.1 h
  exact List.ne_nil_of_mem (mem_trim hc (Bool.eq_false_iff.2 hblank))

end Folio.Text
