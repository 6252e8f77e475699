import Folio.Proofs.Outcomes
import Folio.Proofs.Text.Pieces
import Folio.Sanitize.Fragment

/-!
The parts of a sanitized text when the references in values are restored. Each part is written as
it is, or with its references restored, and restoring adds no character but those of an escaped
ampersand.
-/
namespace Folio.Sanitize

section References

variable {d : Rune} {s name piece after out : Chars}

theorem mem_of_mem_ampersandPieces (hpiece : piece ∈ (ampersandPieces s).2) (hd : d ∈ piece) :
    d ∈ s := by
  rw [ampersandPieces] at hpiece
  split at hpiece
  · exact absurd hpiece List.not_mem_nil
  · rename_i hsplit
    refine Text.mem_of_mem_splitOn (c := '&') ?_ hd
    rw [hsplit]
    exact List.mem_cons_of_mem _ hpiece

theorem mem_of_mem_ampersandPieces_fst (hd : d ∈ (ampersandPieces s).1) : d ∈ s := by
  rw [ampersandPieces] at hd
  split at hd
  · exact absurd hd List.not_mem_nil
  · rename_i hsplit
    refine Text.mem_of_mem_splitOn (c := '&') ?_ hd
    rw [hsplit]
    exact List.mem_cons_self

/-- The name of a reference stands in the text, the number sign of a number too. -/
theorem mem_of_mem_referenceName? (h : referenceName? s = some name) (hd : d ∈ name) : d ∈ s := by
  cases s with
  | nil => contradiction
  | cons c rest =>
      dsimp only [referenceName?] at h
      split at h
      · rename_i hsign
        rw [Option.ite_none_right_eq_some] at h
        obtain rfl := Option.some.inj h.2
        rcases List.mem_append.1 hd with hmark | hdigit
        · rcases List.mem_cons.1 hmark with rfl | hmark
          · rw [beq_iff_eq.1 hsign]
            exact List.mem_cons_self
          · exact List.mem_cons_of_mem c
              ((List.takeWhile_sublist _).mem (List.mem_of_mem_take hmark))
        · exact List.mem_cons_of_mem c
            (List.mem_of_mem_drop ((List.takeWhile_sublist _).mem hdigit))
      · split at h
        · obtain rfl := Option.some.inj h
          exact (List.takeWhile_sublist _).mem hd
        · contradiction

theorem mem_of_splitReference?_eq_some (h : splitReference? s = some (name, after)) :
    (∀ c ∈ name, c ∈ s) ∧ ∀ c ∈ after, c ∈ s := by
  rw [splitReference?, Option.map_eq_some_iff] at h
  obtain ⟨found, hfound, heq⟩ := h
  obtain ⟨rfl, rfl⟩ := Prod.mk.inj heq
  exact ⟨fun c hc => mem_of_mem_referenceName? hfound hc, fun c hc => List.mem_of_mem_drop hc⟩

/-- The characters of a piece that is written anew are those of the piece, and those of an escaped
ampersand. -/
theorem mem_of_mem_writePiece
    (h : writePiece (fun name _ => .of '&' :: name ++ [.of ';']) ("&amp;".runes ++ ·) piece = .ok out)
    (hd : d ∈ out) : d ∈ piece ∨ d ∈ "&amp;".runes := by
  have hunknown : d ∈ "&amp;".runes ++ piece → d ∈ piece ∨ d ∈ "&amp;".runes :=
    fun hmem => (List.mem_append.1 hmem).symm
  rw [writePiece] at h
  split at h
  · obtain rfl := Except.ok.inj h
    exact hunknown hd
  · rename_i name after hsplit
    obtain ⟨hname, hafter⟩ := mem_of_splitReference?_eq_some hsplit
    obtain ⟨value?, -, rfl⟩ := exists_of_map_eq_ok h
    cases value? with
    | none => exact hunknown hd
    | some value =>
        rcases List.mem_append.1 hd with hreference | hrest
        · rcases List.mem_append.1 hreference with hopen | hclose
          · rcases List.mem_cons.1 hopen with rfl | hmem
            · exact Or.inr (by decide)
            · exact Or.inl (hname d hmem)
          · obtain rfl := List.mem_singleton.1 hclose
            exact Or.inr (by decide)
        · exact Or.inl (hafter d hrest)

end References

/-- A part with its references restored. -/
def restore (part : Chars) : Except LongNumeral Chars :=
  escapeAmpersands (Text.replaceAll "&amp;".runes ['&'] part)

section Restore

variable {d : Rune} {s out : Chars}

theorem mem_of_mem_escapeAmpersands (h : escapeAmpersands s = .ok out) (hd : d ∈ out) :
    d ∈ s ∨ d ∈ "&amp;".runes := by
  rw [escapeAmpersands, mapReferences] at h
  obtain ⟨texts, hpieces, rfl⟩ := exists_of_map_eq_ok h
  rcases List.mem_append.1 hd with hhead | hlater
  · exact Or.inl (mem_of_mem_ampersandPieces_fst hhead)
  · obtain ⟨text, htext, hmem⟩ := List.mem_flatten.1 hlater
    obtain ⟨piece, hpiece, hwritten⟩ := exists_of_mem_mapM hpieces htext
    exact (mem_of_mem_writePiece hwritten hmem).imp_left (mem_of_mem_ampersandPieces hpiece)

theorem mem_of_mem_restore (h : restore s = .ok out) (hd : d ∈ out) :
    d ∈ s ∨ d ∈ "&amp;".runes := by
  rcases mem_of_mem_escapeAmpersands h hd with hmem | hmem
  · refine (Text.mem_of_mem_replaceAll hmem).imp_right fun hnew => ?_
    obtain rfl := List.mem_singleton.1 hnew
    decide
  · exact Or.inr hmem

theorem restore_of_not_mem (hs : .of '&' ∉ s) : restore s = .ok s := by
  have hplain : Text.replaceAll "&amp;".runes ['&'] s = s :=
    Text.replaceAll_of_not_mem "amp;".runes hs
  rw [restore, hplain, escapeAmpersands, mapReferences, ampersandPieces,
    Text.splitOn_of_not_mem hs]
  exact congrArg Except.ok (List.append_nil s)

end Restore

/-- The part is written as it is, or with its references restored. -/
def WrittenAs (part written : Chars) : Prop := written = part ∨ restore part = .ok written

theorem WrittenAs.eq_of_not_mem {part written : Chars} (h : WrittenAs part written)
    (hpart : .of '&' ∉ part) : written = part := by
  rcases h with heq | hrestore
  · exact heq
  · rw [restore_of_not_mem hpart] at hrestore
    exact (Except.ok.inj hrestore).symm

theorem WrittenAs.not_mem {part written : Chars} {d : Rune} (h : WrittenAs part written)
    (hpart : d ∉ part) (hd : d ∉ "&amp;".runes) : d ∉ written := by
  intro hmem
  rcases h with rfl | hrestore
  · exact hpart hmem
  · exact (mem_of_mem_restore hrestore hmem).elim hpart hd

section Parts

variable {inTag atValue : Bool} {part out : Chars} {parts : List Chars}

/-- From what follows the first part: it is written, and the other parts after it. -/
theorem eq_append_of_bind {later : Except LongNumeral Chars} {written : Chars}
    (h : (do return written ++ (← later)) = Except.ok out) :
    ∃ after, later = .ok after ∧ out = written ++ after := by
  obtain ⟨after, hafter, h⟩ := exists_of_bind_eq_ok h
  exact ⟨after, hafter, (Except.ok.inj h).symm⟩

/-- Outside of tags, and where no value comes, a part is written as it is. -/
theorem exists_rest_of_not_atValue (hstate : inTag = false ∨ atValue = false)
    (h : restoreReferences inTag atValue (part :: parts) = .ok out) :
    ∃ inTag' atValue' after, restoreReferences inTag' atValue' parts = .ok after ∧
      out = part ++ after := by
  cases inTag with
  | false =>
      rw [restoreReferences] at h
      exact ⟨_, _, eq_append_of_bind h⟩
  | true =>
      obtain rfl : atValue = false := hstate.resolve_left (by decide)
      rw [restoreReferences] at h
      split at h
      · exact ⟨_, _, eq_append_of_bind h⟩
      · rw [Bool.false_and, if_neg Bool.false_ne_true] at h
        exact ⟨_, _, eq_append_of_bind h⟩

/-- A part and the parts after it, whatever came before. -/
theorem exists_written (h : restoreReferences inTag atValue (part :: parts) = .ok out) :
    ∃ inTag' atValue' written after, WrittenAs part written ∧
      restoreReferences inTag' atValue' parts = .ok after ∧ out = written ++ after := by
  by_cases hstate : inTag = false ∨ atValue = false
  · obtain ⟨inTag', atValue', after, hafter, heq⟩ := exists_rest_of_not_atValue hstate h
    exact ⟨inTag', atValue', part, after, Or.inl rfl, hafter, heq⟩
  · rw [not_or, Bool.not_eq_false, Bool.not_eq_false] at hstate
    obtain ⟨rfl, rfl⟩ := hstate
    rw [restoreReferences] at h
    split at h
    · obtain ⟨after, hafter, heq⟩ := eq_append_of_bind h
      exact ⟨_, _, part, after, Or.inl rfl, hafter, heq⟩
    · split at h
      · obtain ⟨written, hwritten, h⟩ := exists_of_bind_eq_ok h
        obtain ⟨after, hafter, heq⟩ := eq_append_of_bind h
        exact ⟨_, _, written, after, Or.inr hwritten, hafter, heq⟩
      · obtain ⟨after, hafter, heq⟩ := eq_append_of_bind h
        exact ⟨_, _, part, after, Or.inl rfl, hafter, heq⟩

/-- A part without ampersands stays as it is. -/
theorem exists_rest_of_not_mem (hpart : .of '&' ∉ part)
    (h : restoreReferences inTag atValue (part :: parts) = .ok out) :
    ∃ inTag' atValue' after, restoreReferences inTag' atValue' parts = .ok after ∧
      out = part ++ after := by
  obtain ⟨inTag', atValue', written, after, hwritten, hafter, heq⟩ := exists_written h
  rw [hwritten.eq_of_not_mem hpart] at heq
  exact ⟨inTag', atValue', after, hafter, heq⟩

/-- After a space no value comes. -/
theorem exists_rest_of_space (h : restoreReferences inTag atValue ([' '] :: parts) = .ok out) :
    ∃ inTag' atValue' after, (inTag' = false ∨ atValue' = false) ∧
      restoreReferences inTag' atValue' parts = .ok after ∧ out = .of ' ' :: after := by
  cases inTag with
  | false =>
      rw [restoreReferences] at h
      exact ⟨false, atValue, (eq_append_of_bind h).imp fun after => And.intro (Or.inl rfl)⟩
  | true =>
      rw [restoreReferences, if_neg (by decide)] at h
      cases atValue with
      | false => exact ⟨true, false, (eq_append_of_bind h).imp fun after => And.intro (Or.inr rfl)⟩
      | true =>
          rw [if_pos (by decide)] at h
          obtain ⟨written, hwritten, h⟩ := exists_of_bind_eq_ok h
          obtain rfl : [.of ' '] = written :=
            Except.ok.inj ((restore_of_not_mem (by decide)).symm.trans hwritten)
          exact ⟨true, false, (eq_append_of_bind h).imp fun after => And.intro (Or.inr rfl)⟩

end Parts

end Folio.Sanitize
