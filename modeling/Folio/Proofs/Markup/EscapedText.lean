import Folio.Proofs.Markup.EscapedValues
import Folio.Proofs.Markup.Readings

/-!
Escaped text between tags. Whatever the text is, it is read as texts and references up to the next
tag, and what they stand for is the text.
-/
namespace Folio.Markup

/-- The events are texts and references, and the text is what they stand for. -/
inductive Spells : List Event → Chars → Prop
  | nil : Spells [] []
  | text (content : Chars) {events : List Event} {s : Chars} (hlater : Spells events s) :
      Spells (.text content :: events) (content ++ s)
  | reference {r : Reference} {content : Chars} {events : List Event} {s : Chars}
      (h : Builder.referenceText r = .ok content) (hlater : Spells events s) :
      Spells (.reference r :: events) (content ++ s)

section Escaped

variable {c : Rune} {run s : Chars}

/-- The name of a mark is read as a reference to it, which ends by itself. -/
theorem step_markName : ∀ m ∈ markNames, ∃ r, Builder.referenceText r = .ok [m.1] ∧
    ∀ rest, step false none (.of '&' :: (m.2 ++ rest)) = .ok (.go [.reference r] none rest) := by
  simp only [markNames, List.forall_mem_cons]
  exact ⟨⟨.name "amp".runes, by decide, fun rest => rfl⟩,
    ⟨.name "lt".runes, by decide, fun rest => rfl⟩,
    ⟨.name "gt".runes, by decide, fun rest => rfl⟩,
    ⟨.name "quot".runes, by decide, fun rest => rfl⟩,
    ⟨.hexadecimal "27".runes, by decide, fun rest => rfl⟩, List.forall_mem_nil _⟩

theorem isTextChar_of_not_mark (h : c ∉ markNames.map Prod.fst) : isTextChar c := by
  have hangle : .of '<' ∈ markNames.map Prod.fst := by decide
  have hamp : .of '&' ∈ markNames.map Prod.fst := by decide
  simp only [isTextChar, Bool.and_eq_true, bne_iff_ne]
  exact ⟨fun heq => h (heq ▸ hangle), fun heq => h (heq ▸ hamp)⟩

/-- A run of characters that stand for themselves, up to a mark. -/
theorem reads_run (hrun : run.all isTextChar) (hc : isTextChar c = false) (s : Chars) :
    ∃ events, Reads none (run ++ c :: s) events none (c :: s) ∧
      ∀ more text, Spells more text → Spells (events ++ more) (run ++ text) := by
  cases run with
  | nil => exact ⟨[], .done none _, fun _ _ h => h⟩
  | cons d run =>
      have hstep : step false none (d :: run ++ c :: s) =
          .ok (.go [.text (d :: run)] none (c :: s)) := by
        rw [List.cons_append, step_text (List.all_eq_true.1 hrun d List.mem_cons_self),
          ← List.cons_append, Text.takeWhile_append_of_neg hc, Text.dropWhile_append_of_neg hc,
          List.takeWhile_eq_self_iff.2 (List.all_eq_true.1 hrun),
          List.dropWhile_eq_nil_iff.2 (List.all_eq_true.1 hrun), List.nil_append]
      exact ⟨[.text (d :: run)], .step hstep (.done none _), fun _ _ h => .text (d :: run) h⟩

/-- An escaped text after a run of characters that stand for themselves. The run is what a step has
still to read when the text is taken character by character. -/
theorem reads_run_escape (hrun : run.all isTextChar) (text rest : Chars) :
    ∃ events, Reads none (run ++ (escape text ++ .of '<' :: rest)) events none (.of '<' :: rest) ∧
      Spells events (run ++ text) := by
  induction text generalizing run with
  | nil =>
      obtain ⟨events, hreads, hspells⟩ := reads_run hrun (c := '<') (by decide) rest
      have hempty := hspells [] [] .nil
      rw [List.append_nil] at hempty
      exact ⟨events, hreads, hempty⟩
  | cons c text ih =>
      have hcons : escape (c :: text) = escapeChar c ++ escape text := List.flatMap_cons
      rcases escapeChar_cases c with ⟨hplain, hsame⟩ | ⟨name, hname, hescaped⟩
      · have hc := isTextChar_of_not_mark hplain
        have hmore : (run ++ [c]).all isTextChar := by simp [hrun, hc]
        obtain ⟨events, hreads, hspells⟩ := ih hmore
        refine ⟨events, ?_, by simpa using hspells⟩
        rw [hcons, hsame]
        simpa using hreads
      · obtain ⟨r, hreference, hstep⟩ := step_markName _ hname
        obtain ⟨later, hlater, hspells⟩ := @ih [] rfl
        obtain ⟨events, hreads, hjoin⟩ := reads_run hrun (c := '&') (by decide)
          (name ++ (escape text ++ .of '<' :: rest))
        refine ⟨events ++ .reference r :: later, ?_, hjoin _ _ (.reference hreference hspells)⟩
        rw [hcons, hescaped, List.append_assoc]
        exact hreads.trans (.step (hstep _) hlater)

/-- An escaped text up to a tag. -/
theorem reads_escape (text rest : Chars) :
    ∃ events, Reads none (escape text ++ .of '<' :: rest) events none (.of '<' :: rest) ∧
      Spells events text :=
  @reads_run_escape [] rfl text rest

end Escaped

end Folio.Markup
