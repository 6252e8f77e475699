import Folio.Proofs.Resource.References

/-!
The image candidates that are looked at: one for each piece between commas. What stands after the
address in a piece makes no difference, nor does a comma that only separates.
-/
namespace Folio.Resource

variable {s t value : Chars}

theorem isForeign_comma : isForeign ',' ∧ Text.isBlank ',' = false := by decide

/-- An external address is told by what stands before its first space. -/
theorem isExternal_takeWhile (s : Chars) :
    isExternal ((Text.trim s).takeWhile (· != .of ' ')) = isExternal s := by
  have htrim : isExternal (Text.trim s) = isExternal s := by
    rw [isExternal, isExternal, (Text.trimmed_trim s).trim_eq]
  rw [← htrim]
  generalize hbody : Text.trim s = body
  have hfirst := hbody ▸ (Text.trimmed_trim s).first
  have hstarts (run : Chars) (hrun : run <+: body) : Text.trimLeft run = run := by
    refine Text.dropWhile_eq_self fun c hc => hfirst c ?_
    obtain ⟨rest, rfl⟩ := List.head?_eq_some_iff.1 hc
    obtain ⟨more, rfl⟩ := hrun
    rfl
  rw [Bool.eq_iff_iff, isExternal_iff, isExternal_iff, hstarts _ (List.takeWhile_prefix _),
    hstarts _ (List.prefix_refl _)]
  nth_rewrite 2 [← List.takeWhile_append_dropWhile (p := (· != .of ' ')) (l := body)]
  cases hafter : body.dropWhile (· != .of ' ') with
  | nil => rw [List.append_nil]
  | cons c after =>
      have hspace : (c != ' ') = false := by
        refine Text.not_head_dropWhile (· != .of ' ') body c ?_
        rw [hafter]
        rfl
      rw [bne_eq_false_iff_eq] at hspace
      rw [hspace, beginsOutside_append_cons (by decide)]

/-- A candidate leaves the document if a piece between commas does. -/
theorem hasExternalCandidate_iff :
    hasExternalCandidate value ↔ ∃ piece ∈ Text.splitOn ',' value, isExternal piece := by
  simp only [hasExternalCandidate, candidates, List.any_map, List.any_eq_true, Function.comp_apply,
    isExternal_takeWhile]

theorem hasExternalCandidate_of_not_mem (h : .of ',' ∉ s) :
    hasExternalCandidate s = isExternal s := by
  rw [Bool.eq_iff_iff, hasExternalCandidate_iff, Text.splitOn_of_not_mem h]
  simp

theorem splitOn_append_cons (c : Rune) (s t : Chars) :
    Text.splitOn c (s ++ c :: t) = Text.splitOn c s ++ Text.splitOn c t := by
  induction s with
  | nil => exact Text.splitOn_append List.not_mem_nil t
  | cons d s ih =>
      obtain ⟨piece, pieces, hsplit⟩ := Text.exists_splitOn_eq_cons c s
      rw [List.cons_append, Text.splitOn, Text.splitOn, ih, hsplit]
      dsimp only [List.cons_append]
      split <;> rfl

/-- The pieces on the two sides of a comma are looked at apart. -/
theorem hasExternalCandidate_append_comma (s t : Chars) :
    hasExternalCandidate (s ++ .of ',' :: t) =
      (hasExternalCandidate s || hasExternalCandidate t) := by
  rw [Bool.eq_iff_iff, Bool.or_eq_true, hasExternalCandidate_iff, hasExternalCandidate_iff,
    hasExternalCandidate_iff, splitOn_append_cons]
  simp only [List.mem_append, or_and_right, exists_or]

/-- An external address is that of the first candidate it is read as. -/
theorem hasExternalCandidate_of_isExternal (h : isExternal value) : hasExternalCandidate value := by
  obtain ⟨hforeign, hblank⟩ := isForeign_comma
  by_cases hmem : .of ',' ∈ value
  · obtain ⟨first, rest, rfl, hfirst⟩ := List.eq_append_cons_of_mem hmem
    rw [isExternal_append_cons hforeign hblank] at h
    rw [hasExternalCandidate_append_comma, hasExternalCandidate_of_not_mem hfirst, h, Bool.true_or]
  · rwa [hasExternalCandidate_of_not_mem hmem]

end Folio.Resource
