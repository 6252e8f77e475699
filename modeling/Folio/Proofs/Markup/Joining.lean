import Folio.Proofs.Markup.Constructs
import Folio.Proofs.Markup.TaggedText

/-!
Joining texts. A text that a pass reads completely, whose quotes are closed and which ends with an
end tag, is read in the same way at the start of any other text, and what is read after it is what
that other text is read as by itself.
-/
namespace Folio.Markup

/-- The last event, if there is one, is an end tag. -/
def EndsInClose (events : List Event) : Prop :=
  ∀ event ∈ events.getLast?, ∃ name, event = Event.close name

theorem EndsInClose.later {events later : List Event} (h : EndsInClose (events ++ later)) :
    EndsInClose later := by
  intro event hevent
  exact h event (by rw [List.getLast?_append, hevent, Option.some_or]; rfl)

/-- Every quote that begins a value of the start tag at the start of the text is closed; inside
raw text there are no tags. -/
def opensClosed : Option Chars → Chars → Bool
  | none, '<' :: c :: rest => !c.isAlpha || tagClosed (c :: rest)
  | _, _ => true

/-- What a step reads does not depend on what comes after the text, if the construct ends inside
the text and its quotes are closed. -/
structure Local (raw : Option Chars) (s : Chars) (events : List Event) (raw' : Option Chars)
    (rest : Chars) : Prop where
  suffix : rest <:+ s
  shorter : rest.length < s.length
  rawText : ∀ name ∈ raw', isRawText name
  angle : EndsInClose events → .of '>' ∈ s
  append (hclosed : opensClosed raw s) (hend : .of '>' ∈ rest ∨ EndsInClose events) (t : Chars) :
    step false raw (s ++ t) = .ok (.go events raw' (rest ++ t))

namespace Local

variable {raw raw' : Option Chars} {s rest : Chars} {events : List Event}

/-- The construct ends with `>`. -/
theorem of_angle (hsuffix : .of '>' :: rest <:+ s) (hraw : ∀ name ∈ raw', isRawText name)
    (happend : opensClosed raw s → ∀ t, step false raw (s ++ t) = .ok (.go events raw' (rest ++ t))) :
    Local raw s events raw' rest where
  suffix := (List.suffix_cons _ _).trans hsuffix
  shorter := hsuffix.length_le
  rawText := hraw
  angle _ := hsuffix.subset List.mem_cons_self
  append hclosed _ := happend hclosed

/-- The construct is no tag, and may go on where the text ends. -/
theorem of_ne_close {event : Event} (hevent : ∀ name, event ≠ .close name) (hsuffix : rest <:+ s)
    (hshorter : rest.length < s.length) (hraw : ∀ name ∈ raw', isRawText name)
    (happend : opensClosed raw s → .of '>' ∈ rest → ∀ t,
      step false raw (s ++ t) = .ok (.go [event] raw' (rest ++ t))) :
    Local raw s [event] raw' rest := by
  have hnot : ¬ EndsInClose [event] := fun h =>
    (h event rfl).elim fun name hname => hevent name hname
  exact ⟨hsuffix, hshorter, hraw, fun h => absurd h hnot,
    fun hclosed hend => happend hclosed (hend.resolve_right hnot)⟩

end Local

/-- No raw text follows. -/
theorem rawText_none : ∀ name ∈ (none : Option Chars), isRawText name := fun _ h => nomatch h

section References

variable {s after : Chars} {r : Reference}

theorem dropSemicolon_append (hs : s ≠ []) (t : Chars) :
    dropSemicolon (s ++ t) = dropSemicolon s ++ t := by
  obtain ⟨c, s, rfl⟩ := List.exists_cons_of_ne_nil hs
  rw [List.cons_append]
  by_cases hc : c = ';'
  · rw [hc]
    rfl
  · simp [dropSemicolon, hc]

/-- The end of a number: its digits are followed by a character that is no hexadecimal digit. -/
def numberEnd? (r : Reference) : Chars → Option (Reference × Chars)
  | [] => none
  | c :: after => if Text.isHexDigit c then none else some (r, dropSemicolon (c :: after))

theorem numberEnd?_append {number : Reference} (h : numberEnd? number s = some (r, after))
    (t : Chars) : numberEnd? number (s ++ t) = some (r, after ++ t) := by
  cases s with
  | nil => contradiction
  | cons c s =>
      rw [numberEnd?, Option.ite_none_left_eq_some] at h
      obtain ⟨rfl, rfl⟩ := Prod.mk.inj (Option.some.inj h.2)
      rw [List.cons_append, numberEnd?, if_neg h.1, ← List.cons_append,
        dropSemicolon_append (List.cons_ne_nil c s)]

theorem numericReference?_cons (x : Rune) (s : Chars) : numericReference? (x :: s) =
    if x.isDigit then
      numberEnd? (.decimal ((x :: s).takeWhile Rune.isDigit)) ((x :: s).dropWhile Rune.isDigit)
    else if x == 'x' || x == 'X' then
      if (s.takeWhile Text.isHexDigit).isEmpty then none
      else numberEnd? (.hexadecimal (s.takeWhile Text.isHexDigit)) (s.dropWhile Text.isHexDigit)
    else none := by
  have hfinish : ∀ r after, (match after with
      | [] => none
      | c :: _ => if Text.isHexDigit c then none else some (r, dropSemicolon after)) =
      numberEnd? r after := by
    intro r after
    cases after <;> rfl
  rw [← Text.drop_length_takeWhile, ← Text.drop_length_takeWhile, ← hfinish, ← hfinish]
  rfl

theorem numericReference?_append (h : numericReference? s = some (r, after)) (hs : .of '>' ∈ s)
    (t : Chars) : numericReference? (s ++ t) = some (r, after ++ t) := by
  have hdigit : Rune.isDigit '>' = false := by decide
  have hhex : Text.isHexDigit '>' = false := by decide
  cases s with
  | nil => contradiction
  | cons x s =>
      rw [numericReference?_cons] at h
      rw [List.cons_append, numericReference?_cons, ← List.cons_append]
      split at h
      · rename_i hx
        rw [if_pos hx, Text.takeWhile_append_of_mem hs hdigit, Text.dropWhile_append_of_mem hs hdigit]
        exact numberEnd?_append h t
      · rename_i hx
        split at h
        · rename_i hmark
          have hlater : .of '>' ∈ s := by
            refine (List.mem_cons.1 hs).resolve_left ?_
            rintro rfl
            exact absurd hmark (by decide)
          rw [Option.ite_none_left_eq_some] at h
          rw [if_neg hx, if_pos hmark, Text.takeWhile_append_of_mem hlater hhex,
            Text.dropWhile_append_of_mem hlater hhex, if_neg h.1]
          exact numberEnd?_append h.2 t
        · contradiction

/-- A name that does not end the text is the whole run of its characters. -/
theorem namedReference?_cons {first : Rune} {more : Chars} (hfirst : first.isAlpha)
    (hmore : .of '>' ∈ more) : namedReference? (first :: more) =
      some (.name (first :: more.takeWhile isNameRun),
        dropSemicolon (more.dropWhile isNameRun)) := by
  have hrun : isNameRun '>' = false := by decide
  have hne : more.drop (more.takeWhile isNameRun).length ≠ [] := by
    rw [Text.drop_length_takeWhile]
    exact List.ne_nil_of_mem (Text.mem_dropWhile hmore hrun)
  dsimp only [namedReference?]
  rw [hfirst, Bool.not_true, if_neg Bool.false_ne_true]
  split
  · rename_i hnil
    exact absurd hnil hne
  · rw [← Text.drop_length_takeWhile]
    rfl

theorem namedReference?_append (h : namedReference? s = some (r, after)) (hs : .of '>' ∈ s)
    (t : Chars) : namedReference? (s ++ t) = some (r, after ++ t) := by
  cases s with
  | nil => contradiction
  | cons first more =>
      have hrun : isNameRun '>' = false := by decide
      by_cases hfirst : first.isAlpha
      · have hmore : .of '>' ∈ more := by
          refine (List.mem_cons.1 hs).resolve_left ?_
          rintro rfl
          exact absurd hfirst (by decide)
        rw [namedReference?_cons hfirst hmore] at h
        rw [List.cons_append, namedReference?_cons hfirst (List.mem_append_left t hmore),
          Text.takeWhile_append_of_mem hmore hrun, Text.dropWhile_append_of_mem hmore hrun,
          dropSemicolon_append (List.ne_nil_of_mem (Text.mem_dropWhile hmore hrun))]
        obtain ⟨rfl, rfl⟩ := Prod.mk.inj (Option.some.inj h)
        rfl
      · simp [namedReference?, hfirst] at h

theorem Skips.suffix {rest : Chars} (h : Skips s rest) : rest <:+ s := by
  obtain ⟨before, -, rfl⟩ := h
  exact List.suffix_append before rest

end References

section Steps

variable {s rest : Chars} {events : List Event} {raw : Option Chars}

theorem stepAmpersand_number (s : Chars) : stepAmpersand false (.of '#' :: s) =
    match numericReference? s with
    | some (r, after) => .go [.reference r] none after
    | none =>
        if s.contains ';' then .stop [.text ['&', '#']] s else .stop [] (.of '&' :: .of '#' :: s) :=
  rfl

theorem stepAmpersand_of_ne {c : Rune} (hc : c ≠ '#') (s : Chars) :
    stepAmpersand false (c :: s) = match namedReference? (c :: s) with
      | some (r, after) => .go [.reference r] none after
      | none =>
          if c.isAlpha then .stop [] (.of '&' :: c :: s) else .go [.text ['&']] none (c :: s) := by
  unfold stepAmpersand
  split
  · contradiction
  · rename_i heq
    exact absurd (List.cons.inj heq).1 hc
  · rename_i heq
    obtain ⟨rfl, rfl⟩ := List.cons.inj heq
    rfl

theorem local_stepAmpersand (h : stepAmpersand false s = .go events raw rest) :
    Local none (.of '&' :: s) events raw rest := by
  cases s with
  | nil => contradiction
  | cons c s =>
      by_cases hc : c = '#'
      · subst hc
        rw [stepAmpersand_number] at h
        split at h
        · rename_i r after hreference
          obtain ⟨rfl, rfl, rfl⟩ := Step.go.inj h
          have hsuffix := (skips_of_numericReference? hreference).suffix
          refine .of_ne_close (fun name => nofun)
            ((hsuffix.trans (List.suffix_cons _ s)).trans (List.suffix_cons _ _)) ?_ rawText_none
            fun _ hafter t => ?_
          · have hlength := hsuffix.length_le
            simp only [List.length_cons]
            omega
          · have hmore := numericReference?_append hreference (hsuffix.subset hafter) t
            change Except.ok (stepAmpersand false (.of '#' :: (s ++ t))) = _
            rw [stepAmpersand_number, hmore]
        · split at h <;> contradiction
      · rw [stepAmpersand_of_ne hc] at h
        split at h
        · rename_i r after hreference
          obtain ⟨rfl, rfl, rfl⟩ := Step.go.inj h
          have hsuffix := (skips_of_namedReference? hreference).suffix
          refine .of_ne_close (fun name => nofun) (hsuffix.trans (List.suffix_cons _ _))
            (Nat.lt_succ_of_le hsuffix.length_le) rawText_none fun _ hafter t => ?_
          have hmore := namedReference?_append hreference (hsuffix.subset hafter) t
          change Except.ok (stepAmpersand false (c :: (s ++ t))) = _
          rw [stepAmpersand_of_ne hc, ← List.cons_append, hmore]
        · split at h
          · contradiction
          · rename_i hnone halpha
            obtain ⟨rfl, rfl, rfl⟩ := Step.go.inj h
            refine .of_ne_close (fun name => nofun) (List.suffix_cons _ _)
              (Nat.lt_succ_self _) rawText_none fun _ hafter t => ?_
            have hletter : namedReference? (c :: (s ++ t)) = none := by
              simp [namedReference?, halpha]
            change Except.ok (stepAmpersand false (c :: (s ++ t))) = _
            rw [stepAmpersand_of_ne hc, hletter, if_neg halpha]
            rfl

/-- A construct that a pass goes on after is complete. -/
theorem orUnfinished_eq_go {found : Option (List Event × Chars)}
    (h : orUnfinished false s found = .go events raw rest) :
    found = some (events, rest) ∧ raw = none := by
  cases found with
  | none => contradiction
  | some pair =>
      obtain ⟨hevents, hraw, hrest⟩ := Step.go.inj h
      exact ⟨congrArg some (Prod.ext hevents hrest), hraw.symm⟩

theorem take_sub_length_append (hsuffix : rest <:+ s) (t : Chars) :
    (s ++ t).take ((s ++ t).length - (rest ++ t).length) = s.take (s.length - rest.length) := by
  have hlength := hsuffix.length_le
  rw [List.length_append, List.length_append, Nat.add_sub_add_right,
    List.take_append_of_le_length (Nat.sub_le _ _)]

/-- A start tag, or a text that looks like one. -/
theorem local_startTag {c : Rune} (hc : c.isAlpha)
    (h : stepAngle false (c :: s) = .ok (.go events raw rest)) :
    Local none (.of '<' :: c :: s) events raw rest := by
  rw [stepAngle_letter hc] at h
  obtain ⟨reading, hreading, hgo⟩ := exists_of_map_eq_ok h
  have hclosed : opensClosed none (.of '<' :: c :: s) → tagClosed (c :: s) := by
    intro hclosed
    simpa [opensClosed, hc] using hclosed
  have hangle : ∀ t, step false none (.of '<' :: c :: s ++ t) = stepAngle false (c :: (s ++ t)) :=
    fun t => rfl
  cases reading with
  | tag tag after =>
      obtain ⟨rfl, rfl, rfl⟩ := Step.go.inj hgo
      have hsuffix := suffix_of_tag hreading
      refine .of_angle ((hsuffix.trans (suffix_tagAttributes _)).trans (List.suffix_cons _ _)) ?_
        fun hopens t => ?_
      · intro name hname
        simp only [Option.mem_def, Option.ite_none_right_eq_some, Bool.and_eq_true] at hname
        rw [← Option.some.inj hname.2]
        exact hname.1.2
      · rw [hangle, stepAngle_letter hc, ← List.cons_append, readStartTag_append hreading
          (hsuffix.subset List.mem_cons_self) (hclosed hopens)]
        rfl
  | broken after =>
      obtain ⟨rfl, rfl, rfl⟩ := Step.go.inj hgo
      have heq := eq_of_broken hreading
      have hsuffix : rest <:+ c :: s := heq ▸ suffix_tagAttributes (c :: s)
      refine .of_ne_close (fun name => nofun) (hsuffix.trans (List.suffix_cons _ _))
        (Nat.lt_succ_of_le hsuffix.length_le) rawText_none fun hopens hafter t => ?_
      rw [hangle, stepAngle_letter hc, ← List.cons_append, readStartTag_append hreading (heq ▸ hafter)
        (hclosed hopens)]
      have htake := take_sub_length_append hsuffix t
      simp only [Except.map, TagReading.append, tagStep, htake]
  | unfinished => contradiction

theorem local_stepAngle (h : stepAngle false s = .ok (.go events raw rest)) :
    Local none (.of '<' :: s) events raw rest := by
  cases s with
  | nil => cases h
  | cons c inside =>
      have hangle : ∀ t, step false none (.of '<' :: c :: inside ++ t) =
          stepAngle false (c :: (inside ++ t)) := fun t => rfl
      by_cases hletter : c.isAlpha
      · exact local_startTag hletter h
      · by_cases hmark : c ∈ [.of '/', .of '?', .of '!']
        · rw [stepAngle_mark hmark] at h
          obtain ⟨found, hfound, hgo⟩ := exists_of_map_eq_ok h
          obtain ⟨rfl, rfl⟩ := orUnfinished_eq_go hgo.symm
          obtain ⟨hsuffix, happend⟩ := construct?_complete hfound
          refine .of_angle ((hsuffix.trans (List.suffix_cons c _)).trans (List.suffix_cons _ _))
            rawText_none fun _ t => ?_
          rw [hangle, stepAngle_mark hmark, happend]
          rfl
        · rw [stepAngle_other hletter hmark] at h
          obtain ⟨rfl, rfl, rfl⟩ := Step.go.inj (Except.ok.inj h)
          refine .of_ne_close (fun name => nofun) (List.suffix_cons _ _) (Nat.lt_succ_self _)
            rawText_none fun _ _ t => ?_
          rw [hangle, stepAngle_other hletter hmark]
          rfl

theorem eq_append_of_upTo? {close? : Chars → Option Chars} {content after : Chars}
    (h : upTo? close? s = some (content, after)) : ∃ last, s = content ++ last := by
  induction s generalizing content after with
  | nil => contradiction
  | cons c s ih =>
      rw [upTo?] at h
      split at h
      · rw [← (Prod.mk.inj (Option.some.inj h)).1]
        exact ⟨c :: s, rfl⟩
      · obtain ⟨⟨run, last⟩, hrun, heq⟩ := Option.map_eq_some_iff.1 h
        rw [← (Prod.mk.inj heq).1]
        obtain ⟨more, rfl⟩ := ih hrun
        exact ⟨more, rfl⟩

theorem local_stepRaw {name : Chars} (hname : isRawText name)
    (h : stepRaw name s = .go events raw rest) : Local (some name) s events raw rest := by
  have hclose := endsAtAngle_rawEnd? hname
  have hraw : ∀ n ∈ some name, isRawText n := fun n hn => Option.some.inj hn ▸ hname
  have hstep : ∀ t, step false (some name) (s ++ t) = .ok (stepRaw name (s ++ t)) := fun t => rfl
  unfold stepRaw at h
  split at h
  · contradiction
  · rename_i after hupTo
    have hsuffix := hclose.suffix_upTo? hupTo
    have hafter := (List.suffix_cons (.of '>') after).trans hsuffix
    have htag := take_sub_length_append hafter
    dsimp only at h
    split at h
    · rename_i hplain
      obtain ⟨rfl, rfl, rfl⟩ := Step.go.inj h
      refine .of_angle hsuffix rawText_none fun _ t => ?_
      rw [hstep, stepRaw, hclose.upTo?_append hupTo]
      dsimp only
      rw [htag, if_pos hplain]
    · rename_i hplain
      obtain ⟨rfl, rfl, rfl⟩ := Step.go.inj h
      refine .of_angle hsuffix hraw fun _ t => ?_
      rw [hstep, stepRaw, hclose.upTo?_append hupTo]
      dsimp only
      rw [htag, if_neg hplain]
  · rename_i content after hne hupTo
    obtain ⟨rfl, rfl, rfl⟩ := Step.go.inj h
    have hcontent : content ≠ [] := hne
    obtain ⟨last, rfl⟩ := eq_append_of_upTo? hupTo
    have hdrop : (content ++ last).drop content.length = last := List.drop_left
    rw [hdrop]
    refine .of_ne_close (fun name => nofun) (List.suffix_append _ _) ?_ hraw fun _ _ t => ?_
    · rw [List.length_append]
      exact Nat.lt_add_of_pos_left (List.length_pos_iff.2 hcontent)
    · have hmore : (content ++ last ++ t).drop content.length = last ++ t := by
        rw [List.append_assoc, List.drop_left]
      rw [hstep, stepRaw, hclose.upTo?_append hupTo]
      split
      · contradiction
      · rename_i heq
        exact absurd (Prod.mk.inj (Option.some.inj heq)).1 hcontent
      · rename_i heq
        obtain ⟨rfl, -⟩ := Prod.mk.inj (Option.some.inj heq)
        rw [hmore]

/-- The characters of a run of text. -/
def isTextChar (c : Rune) : Bool := c != '<' && c != '&'

theorem local_textRun {c : Rune} (hangle : c ≠ '<') (hamp : c ≠ '&') :
    Local none (c :: s) [.text ((c :: s).takeWhile isTextChar)] none
      ((c :: s).dropWhile isTextChar) := by
  have hc : isTextChar c = true := by simp [isTextChar, hangle, hamp]
  have hstep : ∀ u, step false none (c :: u) = .ok (.go
      [.text ((c :: u).takeWhile isTextChar)] none ((c :: u).dropWhile isTextChar)) := by
    intro u
    dsimp only [step]
    rw [beq_false_of_ne hangle, beq_false_of_ne hamp]
    rfl
  refine .of_ne_close (fun name => nofun) (List.dropWhile_suffix _) ?_ rawText_none
    fun _ hrest t => ?_
  · rw [List.dropWhile_cons, if_pos hc]
    exact Nat.lt_succ_of_le (List.dropWhile_suffix _).length_le
  · have hne : (c :: s).dropWhile isTextChar ≠ [] := List.ne_nil_of_mem hrest
    have hstop : ∃ d ∈ c :: s, isTextChar d = false := by
      by_contra hnone
      refine hne (List.dropWhile_eq_nil_iff.2 fun d hd => ?_)
      by_contra hp
      exact hnone ⟨d, hd, Bool.eq_false_iff.2 hp⟩
    obtain ⟨d, hd, hp⟩ := hstop
    rw [List.cons_append, hstep, ← List.cons_append, Text.takeWhile_append_of_mem hd hp,
      Text.dropWhile_append_of_mem hd hp]

/-- One step of a pass. -/
theorem local_step {raw' : Option Chars} (hraw : ∀ name ∈ raw, isRawText name)
    (h : step false raw s = .ok (.go events raw' rest)) : Local raw s events raw' rest := by
  cases raw with
  | some name => exact local_stepRaw (hraw name rfl) (Except.ok.inj h)
  | none =>
      cases s with
      | nil => cases h
      | cons c s =>
          by_cases hangle : c = '<'
          · subst hangle
            exact local_stepAngle h
          · by_cases hamp : c = '&'
            · subst hamp
              exact local_stepAmpersand (Except.ok.inj h)
            · dsimp only [step] at h
              rw [beq_false_of_ne hangle, beq_false_of_ne hamp, if_neg Bool.false_ne_true,
                if_neg Bool.false_ne_true] at h
              obtain ⟨rfl, rfl, rfl⟩ := Step.go.inj (Except.ok.inj h)
              exact local_textRun hangle hamp

/-- Where a pass stops, something is left. -/
theorem ne_nil_of_stop (hs : s ≠ []) (h : step false raw s = .ok (.stop events rest)) :
    rest ≠ [] := by
  have hunfinished : ∀ {inside found}, orUnfinished false inside found = .stop events rest →
      rest ≠ [] := by
    intro inside found h
    cases found with
    | some pair => contradiction
    | none =>
        rw [← (Step.stop.inj h).2]
        exact List.cons_ne_nil _ _
  obtain ⟨c, s, rfl⟩ := List.exists_cons_of_ne_nil hs
  cases raw with
  | some name =>
      replace h := Except.ok.inj h
      unfold stepRaw at h
      split at h
      · rw [← (Step.stop.inj h).2]
        exact List.cons_ne_nil _ _
      · dsimp only at h
        split at h <;> contradiction
      · contradiction
  | none =>
      dsimp only [step] at h
      split at h
      · cases s with
        | nil =>
            rw [← (Step.stop.inj (Except.ok.inj h)).2]
            exact List.cons_ne_nil _ _
        | cons d inside =>
            by_cases hletter : d.isAlpha
            · rw [stepAngle, if_pos hletter] at h
              obtain ⟨reading, -, hgo⟩ := exists_of_map_eq_ok h
              cases reading with
              | tag _ _ => contradiction
              | broken _ => contradiction
              | unfinished => exact hunfinished hgo.symm
            · by_cases hmark : d ∈ [.of '/', .of '?', .of '!']
              · rw [stepAngle_mark hmark] at h
                obtain ⟨found, -, hgo⟩ := exists_of_map_eq_ok h
                exact hunfinished hgo.symm
              · rw [stepAngle_other hletter hmark] at h
                cases h
      · split at h
        · replace h := Except.ok.inj h
          cases s with
          | nil =>
              rw [← (Step.stop.inj h).2]
              exact List.cons_ne_nil _ _
          | cons d s =>
              by_cases hd : d = '#'
              · subst hd
                rw [stepAmpersand_number] at h
                split at h
                · contradiction
                · split at h
                  · rename_i hsemicolon
                    rw [← (Step.stop.inj h).2]
                    rintro rfl
                    contradiction
                  · rw [← (Step.stop.inj h).2]
                    exact List.cons_ne_nil _ _
              · rw [stepAmpersand_of_ne hd] at h
                split at h
                · contradiction
                · split at h
                  · rw [← (Step.stop.inj h).2]
                    exact List.cons_ne_nil _ _
                  · contradiction
        · cases h

end Steps

/-- The steps of a pass from a text to what is left of it. -/
inductive Reads : Option Chars → Chars → List Event → Option Chars → Chars → Prop
  | done (raw : Option Chars) (s : Chars) : Reads raw s [] raw s
  | step {raw raw' raw'' : Option Chars} {s rest last : Chars} {events more : List Event}
      (h : step false raw s = .ok (.go events raw' rest))
      (hlater : Reads raw' rest more raw'' last) : Reads raw s (events ++ more) raw'' last

/-- Every quote that begins a value of a start tag is closed, in all steps of a pass. -/
def quotesClosed : Nat → Option Chars → Chars → Bool
  | 0, _, _ => true
  | fuel + 1, raw, s =>
      opensClosed raw s && match step false raw s with
        | .ok (.go _ raw' rest) => quotesClosed fuel raw' rest
        | _ => true

section Pass

variable {raw raw' raw'' : Option Chars} {s rest last : Chars} {events more : List Event}

theorem Reads.trans (h : Reads raw s events raw' rest) (hlater : Reads raw' rest more raw'' last) :
    Reads raw s (events ++ more) raw'' last := by
  induction h with
  | done raw s => exact hlater
  | step h _ ih =>
      rw [List.append_assoc]
      exact .step h (ih hlater)

/-- A pass takes the steps that there are, one at least for each character. -/
theorem Reads.pass (h : Reads raw s events raw' []) (hraw : ∀ name ∈ raw, isRawText name)
    {fuel : Nat} (hfuel : s.length < fuel) :
    Markup.pass false fuel raw s = .ok ⟨events, raw', []⟩ := by
  generalize hnil : ([] : Chars) = last at h
  induction h generalizing fuel with
  | done raw s =>
      subst hnil
      cases fuel <;> rfl
  | @step raw raw' raw'' s rest last events more h _ ih =>
      have hlocal := local_step hraw h
      have hshorter := hlocal.shorter
      obtain ⟨fuel, rfl⟩ : ∃ less, fuel = less + 1 := ⟨fuel - 1, by omega⟩
      obtain ⟨c, s, rfl⟩ := List.exists_cons_of_ne_nil (List.ne_nil_of_length_pos
        (Nat.lt_of_le_of_lt (Nat.zero_le _) hshorter))
      rw [Markup.pass, h]
      dsimp only
      rw [ih hlocal.rawText (by omega) hnil]

theorem Reads.readEvents (h : Reads none s events none []) : Markup.readEvents s = .ok events := by
  rw [Markup.readEvents, h.pass rawText_none (Nat.lt_succ_self _)]
  dsimp only
  rw [Markup.pass]
  simp

theorem Reads.of_pass {fuel : Nat}
    (h : Markup.pass false fuel raw s = .ok ⟨events, raw', []⟩) :
    Reads raw s events raw' [] := by
  induction fuel generalizing raw s events with
  | zero =>
      obtain ⟨rfl, rfl, rfl⟩ := Scan.mk.inj (Except.ok.inj h)
      exact .done _ _
  | succ fuel ih =>
      cases s with
      | nil =>
          obtain ⟨rfl, rfl, -⟩ := Scan.mk.inj (Except.ok.inj h)
          exact .done _ _
      | cons c s =>
          obtain ⟨found, rest, hstep, hscan⟩ | ⟨found, after, rest, later, hstep, hlater, hscan⟩ :=
            pass_cons_cases h
          · exact absurd (Scan.mk.inj hscan).2.2.symm
              (ne_nil_of_stop (List.cons_ne_nil c s) hstep)
          · obtain ⟨more, last, left⟩ := later
            obtain ⟨rfl, rfl, rfl⟩ := Scan.mk.inj hscan
            exact .step hstep (ih hlater)

theorem Reads.events_nil (h : Reads raw [] events raw' last)
    (hraw : ∀ name ∈ raw, isRawText name) : events = [] := by
  cases h with
  | done _ _ => rfl
  | step hnone _ => exact absurd (local_step hraw hnone).shorter (Nat.not_lt_zero _)

/-- A text that is read completely, and ends with an end tag, has a `>`. -/
theorem Reads.angle (h : Reads raw s events raw' []) (hraw : ∀ name ∈ raw, isRawText name)
    (hs : s ≠ []) (hend : EndsInClose events) : .of '>' ∈ s := by
  generalize hnil : ([] : Chars) = last at h
  induction h with
  | done raw s => exact absurd hnil.symm hs
  | @step raw raw' raw'' s rest last events more h hlater ih =>
      have hlocal := local_step hraw h
      cases rest with
      | nil =>
          rw [hlater.events_nil hlocal.rawText, List.append_nil] at hend
          exact hlocal.angle hend
      | cons d rest =>
          exact hlocal.suffix.subset (ih hlocal.rawText (List.cons_ne_nil d rest) hend.later hnil)

/-- Reading goes on after a text that ends with an end tag, and whose quotes are closed. -/
theorem Reads.append (h : Reads raw s events raw' []) (hraw : ∀ name ∈ raw, isRawText name)
    (hend : EndsInClose events) {fuel : Nat} (hfuel : s.length < fuel)
    (hclosed : quotesClosed fuel raw s) (t : Chars) : Reads raw (s ++ t) events raw' t := by
  generalize hnil : ([] : Chars) = last at h
  induction h generalizing fuel with
  | done raw s =>
      subst hnil
      exact .done raw t
  | @step raw raw' raw'' s rest last events more h hlater ih =>
      subst hnil
      have hlocal := local_step hraw h
      have hshorter := hlocal.shorter
      obtain ⟨fuel, rfl⟩ : ∃ less, fuel = less + 1 := ⟨fuel - 1, by omega⟩
      rw [quotesClosed, h, Bool.and_eq_true] at hclosed
      have hangle : .of '>' ∈ rest ∨ EndsInClose events := by
        cases rest with
        | nil =>
            rw [hlater.events_nil hlocal.rawText, List.append_nil] at hend
            exact Or.inr hend
        | cons d rest =>
            exact Or.inl (hlater.angle hlocal.rawText (List.cons_ne_nil d rest) hend.later)
      exact .step (hlocal.append hclosed.1 hangle t)
        (ih hlocal.rawText hend.later (by omega) hclosed.2 rfl)

end Pass

end Folio.Markup
