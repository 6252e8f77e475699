import Folio.Proofs.Markup.Acceptance
import Folio.Proofs.Markup.RawText
import Folio.Proofs.Markup.UnquotedText

/-!
Texts with an end tag after them. What a pass reads of a text it reads in the same way when an end
tag follows, up to what it leaves of the text; so the text with its end tag is refused only for what
is left.
-/
namespace Folio.Markup

section References

variable {s after : Chars} {r : Reference}

theorem numberEnd?_ne_nil {text : Chars} {number : Reference}
    (h : numberEnd? number text = some (r, after)) : text ≠ [] := by
  rintro rfl
  contradiction

/-- A reference by number that ends inside the text. -/
theorem numericReference?_some_append (h : numericReference? s = some (r, after)) (t : Chars) :
    numericReference? (s ++ t) = some (r, after ++ t) := by
  cases s with
  | nil => contradiction
  | cons x s =>
      rw [numericReference?_cons] at h
      rw [List.cons_append, numericReference?_cons, ← List.cons_append]
      split at h
      · rename_i hx
        obtain ⟨htake, hdrop⟩ := takeWhile_append_of_ne_nil (numberEnd?_ne_nil h) t
        rw [if_pos hx, htake, hdrop]
        exact numberEnd?_append h t
      · rename_i hx
        obtain ⟨hmark, h⟩ := Option.ite_none_right_eq_some.1 h
        obtain ⟨hdigits, h⟩ := Option.ite_none_left_eq_some.1 h
        obtain ⟨htake, hdrop⟩ := takeWhile_append_of_ne_nil (numberEnd?_ne_nil h) t
        rw [if_neg hx, if_pos hmark, htake, hdrop, if_neg hdigits]
        exact numberEnd?_append h t

theorem numberEnd?_none_append {number : Reference} {text : Chars} (hne : text ≠ [])
    (h : numberEnd? number text = none) (t : Chars) : numberEnd? number (text ++ t) = none := by
  obtain ⟨c, text, rfl⟩ := List.exists_cons_of_ne_nil hne
  rw [numberEnd?] at h
  have hhex : Text.isHexDigit c := by
    by_contra hnot
    rw [if_neg hnot] at h
    contradiction
  exact if_pos hhex

/-- A reference by number is not completed after a semicolon. -/
theorem numericReference?_none_append (h : numericReference? s = none) (hs : .of ';' ∈ s)
    (t : Chars) : numericReference? (s ++ t) = none := by
  have hdigit : Rune.isDigit ';' = false := by decide
  have hhex : Text.isHexDigit ';' = false := by decide
  cases s with
  | nil => contradiction
  | cons x s =>
      rw [numericReference?_cons] at h
      rw [List.cons_append, numericReference?_cons, ← List.cons_append]
      split at h
      · rename_i hx
        have hrun := List.ne_nil_of_mem (Text.mem_dropWhile hs hdigit)
        obtain ⟨htake, hdrop⟩ := takeWhile_append_of_ne_nil hrun t
        rw [if_pos hx, htake, hdrop]
        exact numberEnd?_none_append hrun h t
      · rename_i hx
        rw [if_neg hx]
        split at h
        · rename_i hmark
          have hlater : .of ';' ∈ s := by
            refine (List.mem_cons.1 hs).resolve_left ?_
            rintro rfl
            exact absurd hmark (by decide)
          have hrun := List.ne_nil_of_mem (Text.mem_dropWhile hlater hhex)
          obtain ⟨htake, hdrop⟩ := takeWhile_append_of_ne_nil hrun t
          rw [if_pos hmark, htake, hdrop]
          split at h
          · rename_i hempty
            exact if_pos hempty
          · rename_i hempty
            rw [if_neg hempty]
            exact numberEnd?_none_append hrun h t
        · rename_i hmark
          exact if_neg hmark

theorem namedReference?_of_ne_nil {first : Rune} {more : Chars} (hfirst : first.isAlpha)
    (hmore : more.dropWhile isNameRun ≠ []) : namedReference? (first :: more) =
      some (.name (first :: more.takeWhile isNameRun),
        dropSemicolon (more.dropWhile isNameRun)) := by
  have hne : more.drop (more.takeWhile isNameRun).length ≠ [] := by
    rwa [Text.drop_length_takeWhile]
  dsimp only [namedReference?]
  rw [hfirst, Bool.not_true, if_neg Bool.false_ne_true]
  split
  · rename_i hnil
    exact absurd hnil hne
  · rw [← Text.drop_length_takeWhile]
    rfl

/-- A named reference that more text may complete is the end of the text. -/
theorem namedReference?_some_append (h : namedReference? s = some (r, after)) (t : Chars) :
    namedReference? (s ++ t) = some (r, after ++ t) ∨ isAcceptable (.of '&' :: s) := by
  cases s with
  | nil => contradiction
  | cons first more =>
      have hfirst : first.isAlpha := by
        by_contra hnot
        simp [namedReference?, hnot] at h
      by_cases hrun : more.dropWhile isNameRun = []
      · refine Or.inr ?_
        have hname : ∀ c ∈ first :: more, isNameRun c := by
          refine List.forall_mem_cons.2 ⟨?_, List.dropWhile_eq_nil_iff.1 hrun⟩
          rw [isNameRun, Rune.isAlphanum, hfirst]
          rfl
        have hmarks : .of '<' ∉ first :: more ∧ .of '&' ∉ first :: more :=
          ⟨fun hmem => absurd (hname _ hmem) (by decide), fun hmem => absurd (hname _ hmem) (by decide)⟩
        have hlater := isAcceptable_append hmarks (rfl : isAcceptable [] = true)
        rw [List.append_nil] at hlater
        have hnumber : first ≠ '#' := by
          rintro rfl
          exact absurd hfirst (by decide)
        rw [isAcceptable, hlater, beginsRefused]
        · rfl
        · intro rest heq
          exact absurd (List.cons.inj heq).1 (by decide)
        · intro rest heq
          exact hnumber (List.cons.inj (List.cons.inj heq).2).1
      · obtain ⟨htake, hdrop⟩ := takeWhile_append_of_ne_nil hrun t
        have hmore : (more ++ t).dropWhile isNameRun ≠ [] := by
          rw [hdrop]
          exact List.append_ne_nil_of_left_ne_nil hrun t
        rw [namedReference?_of_ne_nil hfirst hrun] at h
        obtain ⟨rfl, rfl⟩ := Prod.mk.inj (Option.some.inj h)
        rw [List.cons_append, namedReference?_of_ne_nil hfirst hmore, htake, hdrop,
          dropSemicolon_append hrun]
        exact Or.inl rfl

end References

/-- The end tag of an element that is no raw text. -/
structure IsEndTag (e : Chars) : Prop where
  starts : ∃ t, e = .of '<' :: .of '/' :: t
  unquoted : Unquoted e
  acceptable : isAcceptable e
  passed : ∀ name, isRawText name → NoEnd (rawClose? name) e []

section Steps

variable {e s rest : Chars} {events : List Event} {raw raw' : Option Chars}

theorem step_angle_append (he : IsEndTag e)
    (h : stepAngle false s = .ok (.go events raw' rest)) :
    stepAngle false (s ++ e) = .ok (.go events raw' (rest ++ e)) := by
  cases s with
  | nil => cases h
  | cons c inside =>
      by_cases hletter : c.isAlpha
      · rw [stepAngle_letter hletter] at h
        obtain ⟨reading, hreading, hgo⟩ := exists_of_map_eq_ok h
        rw [List.cons_append, stepAngle_letter hletter, ← List.cons_append]
        cases reading with
        | unfinished => contradiction
        | tag tag after =>
            obtain ⟨rfl, rfl, rfl⟩ := Step.go.inj hgo
            rw [readStartTag_append_of_ne hreading nofun he.unquoted]
            rfl
        | broken after =>
            obtain ⟨rfl, rfl, rfl⟩ := Step.go.inj hgo
            have hsuffix : rest <:+ c :: inside := eq_of_broken hreading ▸ suffix_tagAttributes _
            rw [readStartTag_append_of_ne hreading nofun he.unquoted]
            simp only [Except.map, TagReading.append, tagStep, take_sub_length_append hsuffix]
      · by_cases hmark : c ∈ [.of '/', .of '?', .of '!']
        · rw [stepAngle_mark hmark] at h
          obtain ⟨found, hfound, hgo⟩ := exists_of_map_eq_ok h
          obtain ⟨rfl, rfl⟩ := orUnfinished_eq_go hgo.symm
          rw [List.cons_append, stepAngle_mark hmark, (construct?_complete hfound).2]
          rfl
        · rw [stepAngle_other hletter hmark] at h
          obtain ⟨rfl, rfl, rfl⟩ := Step.go.inj (Except.ok.inj h)
          rw [List.cons_append, stepAngle_other hletter hmark]

/-- A reference in text; one that the end of the text ends is followed by nothing. -/
theorem step_ampersand_append (h : stepAmpersand false s = .go events raw' rest) (t : Chars) :
    stepAmpersand false (s ++ t) = .go events raw' (rest ++ t) ∨ isAcceptable (.of '&' :: s) := by
  cases s with
  | nil => contradiction
  | cons c more =>
      by_cases hnumber : c = '#'
      · subst hnumber
        rw [stepAmpersand_number] at h
        split at h
        · rename_i r after hreference
          obtain ⟨rfl, rfl, rfl⟩ := Step.go.inj h
          rw [List.cons_append, stepAmpersand_number, numericReference?_some_append hreference]
          exact Or.inl rfl
        · split at h <;> contradiction
      · rw [stepAmpersand_of_ne hnumber] at h
        rw [List.cons_append, stepAmpersand_of_ne hnumber, ← List.cons_append]
        split at h
        · rename_i r after hreference
          obtain ⟨rfl, rfl, rfl⟩ := Step.go.inj h
          refine (namedReference?_some_append hreference t).imp_left fun hmore => ?_
          rw [hmore]
        · rename_i hreference
          split at h
          · contradiction
          · rename_i hletter
            obtain ⟨rfl, rfl, rfl⟩ := Step.go.inj h
            have hnone : namedReference? (c :: more ++ t) = none := by
              simp [namedReference?, hletter]
            rw [hnone]
            exact Or.inl (if_neg hletter)

/-- Raw text, or the end tag after it. -/
theorem stepRaw_append {name : Chars} (hname : isRawText name)
    (h : stepRaw name s = .go events raw' rest) (t : Chars) :
    stepRaw name (s ++ t) = .go events raw' (rest ++ t) := by
  have hclose := endsAtAngle_rawEnd? hname
  unfold stepRaw at h
  split at h
  · contradiction
  · rename_i after hupTo
    have hafter := (List.suffix_cons (.of '>') after).trans (hclose.suffix_upTo? hupTo)
    dsimp only at h
    rw [stepRaw, hclose.upTo?_append hupTo]
    dsimp only
    rw [take_sub_length_append hafter]
    split at h
    · rename_i hplain
      obtain ⟨rfl, rfl, rfl⟩ := Step.go.inj h
      exact if_pos hplain
    · rename_i hplain
      obtain ⟨rfl, rfl, rfl⟩ := Step.go.inj h
      exact if_neg hplain
  · rename_i content after hne hupTo
    obtain ⟨rfl, rfl, rfl⟩ := Step.go.inj h
    obtain ⟨last, rfl⟩ := eq_append_of_upTo? hupTo
    have hdrop : (content ++ last ++ t).drop content.length =
        (content ++ last).drop content.length ++ t := by
      rw [List.append_assoc, List.drop_left, List.drop_left]
    rw [stepRaw, hclose.upTo?_append hupTo]
    split
    · contradiction
    · rename_i heq
      exact absurd (Prod.mk.inj (Option.some.inj heq)).1 hne
    · rename_i heq
      obtain ⟨rfl, -⟩ := Prod.mk.inj (Option.some.inj heq)
      rw [hdrop]

/-- A step that goes on does so in the same way with an end tag after the text, unless nothing that
is left of the text may be refused. -/
theorem step_append (hraw : ∀ name ∈ raw, isRawText name) (he : IsEndTag e)
    (h : step false raw s = .ok (.go events raw' rest)) :
    step false raw (s ++ e) = .ok (.go events raw' (rest ++ e)) ∨ raw = none ∧ isAcceptable s := by
  cases raw with
  | some name =>
      exact Or.inl (congrArg Except.ok (stepRaw_append (hraw name rfl) (Except.ok.inj h) e))
  | none =>
      cases s with
      | nil => cases h
      | cons c s =>
          by_cases hangle : c = '<'
          · subst hangle
            exact Or.inl (step_angle_append he h)
          · by_cases hamp : c = '&'
            · subst hamp
              refine (step_ampersand_append (Except.ok.inj h) e).imp (fun hmore => ?_) (⟨rfl, ·⟩)
              exact congrArg Except.ok hmore
            · obtain ⟨t, rfl⟩ := he.starts
              have hstop : isTextChar '<' = false := by decide
              have hstep : ∀ u, step false none (c :: u) = .ok (.go
                  [.text ((c :: u).takeWhile isTextChar)] none ((c :: u).dropWhile isTextChar)) := by
                intro u
                dsimp only [step]
                rw [beq_false_of_ne hangle, beq_false_of_ne hamp]
                rfl
              rw [hstep] at h
              obtain ⟨rfl, rfl, rfl⟩ := Step.go.inj (Except.ok.inj h)
              refine Or.inl ?_
              rw [List.cons_append, hstep, ← List.cons_append,
                Text.takeWhile_append_of_neg hstop, Text.dropWhile_append_of_neg hstop]

theorem eq_of_orUnfinished {inside : Chars} (found : Option (List Event × Chars))
    (h : orUnfinished false inside found = .stop events rest) :
    events = [] ∧ rest = .of '<' :: inside := by
  cases found with
  | some pair => contradiction
  | none =>
      obtain ⟨rfl, rfl⟩ := Step.stop.inj h
      exact ⟨rfl, rfl⟩

/-- What is not finished in angles is left. -/
theorem stepAngle_stop (h : stepAngle false s = .ok (.stop events rest)) :
    events = [] ∧ rest = .of '<' :: s := by
  cases s with
  | nil =>
      obtain ⟨rfl, rfl⟩ := Step.stop.inj (Except.ok.inj h)
      exact ⟨rfl, rfl⟩
  | cons d inside =>
      by_cases hletter : d.isAlpha
      · rw [stepAngle_letter hletter] at h
        obtain ⟨reading, -, hgo⟩ := exists_of_map_eq_ok h
        cases reading with
        | tag _ _ => contradiction
        | broken _ => contradiction
        | unfinished => exact eq_of_orUnfinished none hgo.symm
      · by_cases hmark : d ∈ [.of '/', .of '?', .of '!']
        · rw [stepAngle_mark hmark] at h
          obtain ⟨found, -, hgo⟩ := exists_of_map_eq_ok h
          exact eq_of_orUnfinished found hgo.symm
        · rw [stepAngle_other hletter hmark] at h
          cases h

/-- A reference that is not finished is left, and of a number that is none its mark is taken,
whatever follows. -/
theorem stepAmpersand_stop (h : stepAmpersand false s = .stop events rest) :
    events = [] ∧ rest = .of '&' :: s ∨ events = [.text ['&', '#']] ∧ s = .of '#' :: rest ∧
      ∀ t, stepAmpersand false (s ++ t) = .stop events (rest ++ t) := by
  cases s with
  | nil =>
      obtain ⟨rfl, rfl⟩ := Step.stop.inj h
      exact Or.inl ⟨rfl, rfl⟩
  | cons d s =>
      by_cases hd : d = '#'
      · subst hd
        rw [stepAmpersand_number] at h
        split at h
        · contradiction
        · rename_i hnone
          split at h
          · rename_i hsemicolon
            obtain ⟨rfl, rfl⟩ := Step.stop.inj h
            have hmem := List.contains_iff_mem.1 hsemicolon
            refine Or.inr ⟨rfl, rfl, fun t => ?_⟩
            rw [List.cons_append, stepAmpersand_number, numericReference?_none_append hnone hmem,
              if_pos (List.contains_iff_mem.2 (List.mem_append_left t hmem))]
          · obtain ⟨rfl, rfl⟩ := Step.stop.inj h
            exact Or.inl ⟨rfl, rfl⟩
      · rw [stepAmpersand_of_ne hd] at h
        split at h
        · contradiction
        · split at h
          · obtain ⟨rfl, rfl⟩ := Step.stop.inj h
            exact Or.inl ⟨rfl, rfl⟩
          · contradiction

/-- Where a pass stops, the text is left, or what follows the mark of a number that is none. -/
theorem step_stop (h : step false none s = .ok (.stop events rest)) :
    events = [] ∧ rest = s ∨ events = [.text ['&', '#']] ∧ s = .of '&' :: .of '#' :: rest ∧
      ∀ t, step false none (s ++ t) = .ok (.stop events (rest ++ t)) := by
  cases s with
  | nil =>
      obtain ⟨rfl, rfl⟩ := Step.stop.inj (Except.ok.inj h)
      exact Or.inl ⟨rfl, rfl⟩
  | cons c s =>
      by_cases hangle : c = '<'
      · subst hangle
        exact Or.inl (stepAngle_stop h)
      · by_cases hamp : c = '&'
        · subst hamp
          rcases stepAmpersand_stop (Except.ok.inj h) with hleft | ⟨hevents, hnumber, hmore⟩
          · exact Or.inl hleft
          · refine Or.inr ⟨hevents, congrArg (.of '&' :: ·) hnumber, fun t => ?_⟩
            exact congrArg Except.ok (hmore t)
        · dsimp only [step] at h
          rw [beq_false_of_ne hangle, beq_false_of_ne hamp] at h
          cases h

end Steps

/-- What is left of a text is read to its end: nothing in it may be refused, or it is raw text
without an end tag. -/
structure Finishes (raw : Option Chars) (s : Chars) : Prop where
  rawText : ∀ name ∈ raw, isRawText name
  rest : isAcceptable s ∨ ∃ name ∈ raw, NoEnd (rawClose? name) s []

section Pass

variable {e s : Chars} {raw : Option Chars} {scan : Scan}

/-- Raw text without an end tag stays raw text. -/
theorem exists_pass_rawText {name : Chars} (hname : isRawText name) (final : Bool) (fuel : Nat)
    (h : NoEnd (rawClose? name) s []) : ∃ scan, pass final fuel (some name) s = .ok scan ∧
      (∀ event ∈ scan.events, event.IsShort) ∧ Finishes scan.raw scan.rest := by
  have hraw : ∀ n ∈ some name, isRawText n := fun n hn => Option.some.inj hn ▸ hname
  induction fuel generalizing s with
  | zero => exact ⟨_, rfl, short_nil, hraw, Or.inr ⟨name, rfl, h⟩⟩
  | succ fuel ih =>
      cases s with
      | nil => exact ⟨_, rfl, short_nil, hraw, Or.inr ⟨name, rfl, h⟩⟩
      | cons c s =>
          have hstep : step final (some name) (c :: s) = .ok (stepRaw name (c :: s)) := rfl
          have hread := rawStep_stepRaw hname (c :: s)
          rw [pass, hstep]
          generalize stepRaw name (c :: s) = done at hread
          cases hread with
          | stop _ => exact ⟨_, rfl, short_nil, hraw, Or.inr ⟨name, rfl, h⟩⟩
          | close hclose =>
              have hnone := h.1
              rw [List.append_nil, hclose] at hnone
              contradiction
          | @text run rest hs hrun hnone =>
              obtain ⟨scan, hscan, hshort, hleft⟩ := ih (h.suffix ⟨run, hs.symm⟩)
              dsimp only
              rw [hscan]
              exact ⟨_, rfl, List.forall_mem_cons.2 ⟨trivial, hshort⟩, hleft⟩

/-- A pass over what finishes succeeds, and what it leaves finishes. -/
theorem Finishes.exists_pass (h : Finishes raw s) (final : Bool) (fuel : Nat) :
    ∃ scan, pass final fuel raw s = .ok scan ∧ (∀ event ∈ scan.events, event.IsShort) ∧
      Finishes scan.raw scan.rest := by
  rcases h.rest with hacceptable | ⟨name, hname, hnone⟩
  · obtain ⟨scan, hscan, hsuffix, hshort, hraw⟩ := Markup.exists_pass final fuel h.rawText hacceptable
    exact ⟨scan, hscan, hshort, hraw, Or.inl (isAcceptable_of_suffix hacceptable hsuffix)⟩
  · obtain rfl : raw = some name := hname
    exact exists_pass_rawText (h.rawText name rfl) final fuel hnone

/-- What finishes does so with an end tag after it. -/
theorem Finishes.append (h : Finishes raw s) (he : IsEndTag e) : Finishes raw (s ++ e) := by
  refine ⟨h.rawText, h.rest.imp (fun hacceptable => ?_) ?_⟩
  · obtain ⟨t, rfl⟩ := he.starts
    exact isAcceptable_append_endTag hacceptable he.acceptable
  · rintro ⟨name, hname, hnone⟩
    have hraw := h.rawText name hname
    refine ⟨name, hname, noEnd_append.2 ⟨?_, he.passed name hraw⟩⟩
    obtain ⟨t, rfl⟩ := he.starts
    exact noEnd_raw hraw hnone _

theorem Finishes.pass_append (h : Finishes raw s) (he : IsEndTag e) (more : Nat)
    (events : List Event) : ∃ scan, pass false more raw (s ++ e) = .ok scan ∧
      (∀ event ∈ scan.events, event ∈ events ∨ event.IsShort) ∧ Finishes scan.raw scan.rest := by
  obtain ⟨scan, hscan, hshort, hlater⟩ := (h.append he).exists_pass false more
  exact ⟨scan, hscan, fun event hevent => Or.inr (hshort event hevent), hlater⟩

/-- A pass over a text with an end tag after it goes as over the text, up to what it leaves of it. -/
theorem pass_append (he : IsEndTag e) {fuel more : Nat} (hraw : ∀ name ∈ raw, isRawText name)
    (hfuel : s.length < fuel) (hmore : (s ++ e).length < more)
    (h : pass false fuel raw s = .ok scan) (hleft : scan.raw = none → isAcceptable scan.rest) :
    ∃ scan', pass false more raw (s ++ e) = .ok scan' ∧
      (∀ event ∈ scan'.events, event ∈ scan.events ∨ event.IsShort) ∧
      Finishes scan'.raw scan'.rest := by
  induction fuel generalizing raw s scan more with
  | zero => exact absurd hfuel (Nat.not_lt_zero _)
  | succ fuel ih =>
      cases s with
      | nil => exact Finishes.pass_append ⟨hraw, Or.inl rfl⟩ he more _
      | cons c s =>
          obtain ⟨more, rfl⟩ : ∃ less, more = less + 1 := ⟨more - 1, by omega⟩
          obtain ⟨events, rest, hstep, rfl⟩ | ⟨events, raw', rest, later, hstep, hlater, rfl⟩ :=
            pass_cons_cases h
          · cases raw with
            | some name =>
                have hname := hraw name rfl
                have hread := rawStep_stepRaw hname (c :: s)
                rw [Except.ok.inj hstep] at hread
                cases hread with
                | stop hnone => exact Finishes.pass_append ⟨hraw, Or.inr ⟨name, rfl, hnone⟩⟩ he _ _
            | none =>
                have hacceptable : isAcceptable rest := hleft rfl
                rcases step_stop hstep with ⟨-, rfl⟩ | ⟨-, -, happend⟩
                · exact Finishes.pass_append ⟨hraw, Or.inl hacceptable⟩ he _ _
                · have hrest : Finishes none rest := ⟨hraw, Or.inl hacceptable⟩
                  rw [List.cons_append, pass, ← List.cons_append, happend]
                  exact ⟨_, rfl, fun event hevent => Or.inl hevent, hrest.append he⟩
          · rcases step_append hraw he hstep with happend | ⟨rfl, hacceptable⟩
            · have hlocal := local_step hraw hstep
              have hshorter := hlocal.shorter
              have hlength : (rest ++ e).length < more := by
                simp only [List.length_append] at hmore ⊢
                omega
              obtain ⟨scan', hscan, hevents, hfinish⟩ :=
                ih hlocal.rawText (by omega) hlength hlater hleft
              rw [List.cons_append, pass, ← List.cons_append, happend]
              dsimp only
              rw [hscan]
              refine ⟨_, rfl, fun event hevent => ?_, hfinish⟩
              rcases List.mem_append.1 hevent with hhere | hthere
              · exact Or.inl (List.mem_append_left _ hhere)
              · exact (hevents event hthere).imp_left (List.mem_append_right _)
            · exact Finishes.pass_append ⟨hraw, Or.inl hacceptable⟩ he _ _

end Pass

/-- The end of a text that its first pass leaves unread, as more text could complete it. Raw text
without an end tag is none: no end tag of another element completes it. -/
def unfinishedEnd (s : Chars) : Chars :=
  match pass false (s.length + 1) none s with
  | .ok ⟨_, none, rest⟩ => rest
  | _ => []

/-- The text is read as a start tag whatever follows it, and its element is no raw text. -/
structure Opens (o : Chars) (tag : StartTag) : Prop where
  nonempty : o ≠ []
  step : ∀ t, step false none (o ++ t) = .ok (.go [.start tag] none t)

section Enclosed

variable {o e s : Chars} {tag : StartTag} {events : List Event}

theorem isShort_of_event {b b' : Builder} {event : Event} (h : b.event event = .ok b') :
    event.IsShort := by
  cases event with
  | reference r =>
      cases r with
      | decimal digits =>
          by_contra hlong
          have herror : b.event (.reference (.decimal digits)) = .error (.longNumeral digits.length) := by
            rw [Builder.event, Builder.referenceText, decimalNumber,
              if_pos (Nat.lt_of_not_le hlong)]
            rfl
          rw [herror] at h
          contradiction
      | hexadecimal digits => exact trivial
      | name text => exact trivial
  | _ => exact trivial

/-- Events that build a tree have no too long references. -/
theorem isShort_of_foldlM {b b' : Builder} (h : events.foldlM Builder.event b = .ok b') :
    ∀ event ∈ events, event.IsShort := by
  induction events generalizing b with
  | nil => exact short_nil
  | cons event events ih =>
      rw [List.foldlM_cons] at h
      obtain ⟨next, hnext, hlater⟩ := exists_of_bind_eq_ok h
      exact List.forall_mem_cons.2 ⟨isShort_of_event hnext, ih hlater⟩

/-- The first pass over a text begins with its start tag. -/
theorem Opens.pass_eq (h : Opens o tag) (t : Chars) (fuel : Nat) :
    pass false (fuel + 1) none (o ++ t) =
      (pass false fuel none t).map fun later =>
        { later with events := .start tag :: later.events } := by
  have hstep := h.step t
  obtain ⟨c, o, rfl⟩ := List.exists_cons_of_ne_nil h.nonempty
  rw [List.cons_append, pass, ← List.cons_append, hstep]
  dsimp only
  cases pass false fuel none t <;> rfl

/-- The events of a text begin with its start tag. -/
theorem Opens.exists_events (h : Opens o tag) {t : Chars} (hread : readEvents (o ++ t) = .ok events) :
    ∃ later, events = .start tag :: later := by
  obtain ⟨first, last, hfirst, -, rfl⟩ := exists_passes_of_readEvents hread
  rw [h.pass_eq] at hfirst
  obtain ⟨scan, -, rfl⟩ := exists_of_map_eq_ok hfirst
  exact ⟨_, rfl⟩

/-- The events of a text that is read have no too long references. -/
theorem exists_readEvents_of_read (h : (Node.read s).isOk) :
    ∃ events, readEvents s = .ok events ∧ ∀ event ∈ events, event.IsShort := by
  obtain ⟨nodes, hnodes⟩ := exists_of_isOk h
  rw [Node.read] at hnodes
  split at hnodes
  · contradiction
  · rename_i events hevents
    obtain ⟨built, hfold, -⟩ := exists_of_map_eq_ok hnodes
    exact ⟨events, hevents, isShort_of_foldlM hfold⟩

/-- A text is read whose first pass succeeds, without too long references, and leaves what
finishes. -/
theorem Finishes.isOk_read {scan : Scan} (h : Finishes scan.raw scan.rest)
    (hscan : pass false (s.length + 1) none s = .ok scan)
    (hshort : ∀ event ∈ scan.events, event.IsShort) : (Node.read s).isOk := by
  obtain ⟨last, hlast, hlater, -⟩ := h.exists_pass true (scan.rest.length + 1)
  have hall : ∀ event ∈ scan.events ++ last.events ++
      (if last.raw.isSome || last.rest.isEmpty then [] else [.text last.rest]),
      event.IsShort := by
    intro event hevent
    rcases List.mem_append.1 hevent with hread | htail
    · exact (List.mem_append.1 hread).elim (hshort event) (hlater event)
    · rw [List.mem_ite_nil_left, List.mem_singleton] at htail
      rw [htail.2]
      exact trivial
  obtain ⟨built, hbuilt⟩ := exists_foldlM hall .empty
  rw [Node.read, readEvents, hscan]
  dsimp only
  rw [hlast]
  dsimp only
  rw [Node.ofEvents, hbuilt]
  rfl

/-- A text that is read is read between a start tag and an end tag as well, unless what is left
unfinished at its end may be refused. -/
theorem Opens.isOk_read (ho : Opens o tag) (he : IsEndTag e) (hread : (Node.read s).isOk)
    (hleft : isAcceptable (unfinishedEnd s)) : (Node.read (o ++ s ++ e)).isOk := by
  obtain ⟨events, hevents, hshort⟩ := exists_readEvents_of_read hread
  obtain ⟨first, last, hfirst, -, rfl⟩ := exists_passes_of_readEvents hevents
  have hrest : first.raw = none → isAcceptable first.rest := by
    intro hnone
    obtain ⟨inside, raw, rest⟩ := first
    obtain rfl : raw = none := hnone
    rw [unfinishedEnd, hfirst] at hleft
    exact hleft
  have hmore : (s ++ e).length < (o ++ s ++ e).length := by
    have hpos := List.length_pos_iff.2 ho.nonempty
    simp only [List.length_append]
    omega
  obtain ⟨scan, hscan, hwithin, hfinish⟩ :=
    pass_append he rawText_none (Nat.lt_succ_self _) hmore hfirst hrest
  have hopened : pass false ((o ++ s ++ e).length + 1) none (o ++ s ++ e) =
      .ok { scan with events := .start tag :: scan.events } := by
    rw [List.append_assoc, ho.pass_eq, ← List.append_assoc, hscan]
    rfl
  refine Finishes.isOk_read ?_ hopened (List.forall_mem_cons.2 ⟨trivial, fun event hevent => ?_⟩)
  · exact hfinish
  refine (hwithin event hevent).elim (fun hold => hshort event ?_) id
  exact List.mem_append_left _ (List.mem_append_left _ hold)

end Enclosed

end Folio.Markup
