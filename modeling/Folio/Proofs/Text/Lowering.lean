import Folio.Text.Case
import Folio.Text.Search

/-!
Words in the lower case of a text. What is in lower case inside a piece of a text is so inside the
text: only a sigma depends on what stands around it, and its two forms can be told as one.
-/
namespace Folio.Text

variable {pat s u : Chars}

theorem occurs_iff : occurs pat s ↔ pat <:+: s := by
  induction s with
  | nil => rw [occurs, List.isEmpty_iff, List.infix_nil]
  | cons c s ih => rw [occurs, Bool.or_eq_true, List.isPrefixOf_iff_prefix, ih, List.infix_cons_iff]

/-- One form for both small sigmas. -/
def settleSigma (c : Rune) : Rune := if c = 'ς' then 'σ' else c

/-- Lower case of one character, told without its neighbours. -/
def lowerAlone (c : Rune) : Chars := (if c == 'Σ' then [.of 'σ'] else lowerChar c).map settleSigma

theorem map_settleSigma_lower (s : Chars) : (lower s).map settleSigma = s.flatMap lowerAlone := by
  have hgo : ∀ before, (lowerGo before s).map settleSigma = s.flatMap lowerAlone := by
    induction s with
    | nil => exact fun _ => rfl
    | cons c s ih =>
        intro before
        rw [lowerGo, List.map_append, ih, List.flatMap_cons]
        congr 1
        rw [lowerAlone]
        split
        · split <;> rfl
        · rfl
  exact hgo []

theorem settleSigma_eq_self {c : Rune} (h : settleSigma c ≠ 'σ') : settleSigma c = c := by
  unfold settleSigma at *
  split at h
  · exact absurd rfl h
  · rename_i hne
    exact if_neg hne

theorem map_settleSigma_eq_self (h : .of 'σ' ∉ s.map settleSigma) : s.map settleSigma = s := by
  have hall : ∀ c ∈ s, settleSigma c = c := fun c hc =>
    settleSigma_eq_self fun heq => h (heq ▸ List.mem_map_of_mem hc)
  exact (List.map_congr_left hall).trans (List.map_id s)

/-- The text has neither form of the small sigma. -/
def NoSigma (s : Chars) : Prop := .of 'σ' ∉ s ∧ .of 'ς' ∉ s

instance (s : Chars) : Decidable (NoSigma s) := instDecidableAnd

theorem map_settleSigma_of_noSigma (h : NoSigma s) : s.map settleSigma = s := by
  have hall : ∀ c ∈ s, settleSigma c = c := by
    intro c hc
    apply if_neg
    rintro rfl
    exact h.2 hc
  exact (List.map_congr_left hall).trans (List.map_id s)

/-- A text without sigmas is found in lower case if it is found with their two forms told as one. -/
theorem infix_lower_iff (hpat : NoSigma pat) :
    pat <:+: lower s ↔ pat <:+: s.flatMap lowerAlone := by
  rw [← map_settleSigma_lower]
  constructor
  · intro h
    have hmap := h.map settleSigma
    rwa [map_settleSigma_of_noSigma hpat] at hmap
  · rintro ⟨before, after, heq⟩
    obtain ⟨front, after', hs, hfront, -⟩ := List.map_eq_append_iff.1 heq.symm
    obtain ⟨before', mid, rfl, -, hmid⟩ := List.map_eq_append_iff.1 hfront
    have hsame : mid.map settleSigma = mid := map_settleSigma_eq_self (hmid ▸ hpat.1)
    rw [hs, ← hmid, hsame]
    exact List.infix_append before' mid after'

/-- Likewise at the beginning of the text. -/
theorem prefix_lower_iff (hpat : NoSigma pat) :
    pat <+: lower s ↔ pat <+: s.flatMap lowerAlone := by
  rw [← map_settleSigma_lower]
  constructor
  · intro h
    have hmap := h.map settleSigma
    rwa [map_settleSigma_of_noSigma hpat] at hmap
  · rintro ⟨after, heq⟩
    obtain ⟨front, after', hs, hfront, -⟩ := List.map_eq_append_iff.1 heq.symm
    have hsame : front.map settleSigma = front := map_settleSigma_eq_self (hfront ▸ hpat.1)
    rw [hs, ← hfront, hsame]
    exact List.prefix_append front after'

/-- What is in lower case inside a piece of a text is so inside the text. -/
theorem infix_lower_of_infix (hpat : NoSigma pat) (hu : u <:+: s) (h : pat <:+: lower u) :
    pat <:+: lower s := by
  rw [infix_lower_iff hpat] at h ⊢
  obtain ⟨before, after, rfl⟩ := hu
  rw [List.flatMap_append, List.flatMap_append]
  exact h.trans (List.infix_append _ _ _)

theorem lowerAlone_ne_nil (c : Rune) : lowerAlone c ≠ [] := by
  rw [lowerAlone, ne_eq, List.map_eq_nil_iff]
  split
  · exact List.cons_ne_nil _ _
  · unfold lowerChar
    split
    · exact List.cons_ne_nil _ _
    · split
      · exact List.cons_ne_nil _ _
      · split <;> exact List.cons_ne_nil _ _

/-- The code points of the blank characters. -/
def blankCodes : List Nat :=
  List.range' 9 5 ++ List.range' 28 5 ++ [0x85, 0xA0, 0x1680] ++ List.range' 0x2000 11 ++
    [0x2028, 0x2029, 0x202F, 0x205F, 0x3000]

theorem toNat_mem_blankCodes {c : Rune} (hc : isBlank c) : c.toNat ∈ blankCodes := by
  simp only [isBlank, Bool.or_eq_true, Bool.and_eq_true, decide_eq_true_eq, beq_iff_eq] at hc
  simp only [blankCodes, List.mem_append, List.mem_range'_1, List.mem_cons, List.not_mem_nil,
    or_false]
  omega

/-- A property of all blank characters, checked one by one. -/
theorem blank_forall {P : Rune → Prop} (h : ∀ n ∈ blankCodes, P (Rune.ofNat n)) {c : Rune}
    (hc : isBlank c) : P c := by
  have hcode := h c.toNat (toNat_mem_blankCodes hc)
  rwa [Rune.ofNat_toNat] at hcode

/-- A blank has no case. -/
theorem lowerAlone_of_isBlank {c : Rune} (hc : isBlank c) : lowerAlone c = [c] :=
  blank_forall (P := fun c => lowerAlone c = [c]) (by decide) hc

end Folio.Text
