import Folio.Proofs.Markup.WrittenTags
import Folio.Proofs.Outcomes

/-!
Texts of written tags. Whatever the characters between the tags are, references among them, the
events of such a text have no start tags but those that were written.
-/
namespace Folio.Markup

/-- A text of tags as they are written, with characters between them that begin no tag; `p` holds
of the start tags. -/
inductive Tagged (p : Chars → List QuotedAttribute → Prop) : Chars → Prop
  | nil : Tagged p []
  | char {c : Rune} {rest : Chars} (hc : c ≠ '<') (hrest : Tagged p rest) : Tagged p (c :: rest)
  | start {name : Chars} {attrs : List QuotedAttribute} {rest : Chars} (hname : isTagName name)
      (hattrs : ∀ a ∈ attrs, a.Sound) (hp : p name attrs) (hrest : Tagged p rest) :
      Tagged p (.of '<' :: (name ++ (attrs.flatMap QuotedAttribute.text ++ .of '>' :: rest)))
  | close {name rest : Chars} (hname : isTagName name) (hrest : Tagged p rest) :
      Tagged p (.of '<' :: .of '/' :: (name ++ .of '>' :: rest))

/-- The second text is the first one without some characters before it that begin no tag. -/
def Skips (s rest : Chars) : Prop := ∃ before, .of '<' ∉ before ∧ s = before ++ rest

namespace Skips

variable {s rest after : Chars}

theorem refl (s : Chars) : Skips s s := ⟨[], List.not_mem_nil, rfl⟩

theorem trans (h : Skips s rest) (h' : Skips rest after) : Skips s after := by
  obtain ⟨before, hbefore, rfl⟩ := h
  obtain ⟨more, hmore, rfl⟩ := h'
  refine ⟨before ++ more, ?_, (List.append_assoc _ _ _).symm⟩
  rw [List.mem_append]
  exact fun h => h.elim hbefore hmore

theorem cons {c : Rune} (hc : c ≠ '<') (h : Skips s rest) : Skips (c :: s) rest := by
  obtain ⟨before, hbefore, rfl⟩ := h
  refine ⟨c :: before, ?_, rfl⟩
  rw [List.mem_cons]
  exact fun h => h.elim (fun heq => hc heq.symm) hbefore

theorem not_mem_takeWhile {p : Rune → Bool} (hp : p '<' = false) (s : Chars) :
    .of '<' ∉ s.takeWhile p := by
  intro hmem
  have hrun := List.all_takeWhile (p := p) (l := s)
  rw [List.all_eq_true] at hrun
  have htag := hrun '<' hmem
  rw [hp] at htag
  contradiction

theorem dropWhile {p : Rune → Bool} (hp : p '<' = false) (s : Chars) :
    Skips s (s.dropWhile p) :=
  ⟨s.takeWhile p, not_mem_takeWhile hp s, List.takeWhile_append_dropWhile.symm⟩

/-- Less than a run of characters that begin no tag is dropped. -/
theorem drop_of_le {p : Rune → Bool} (hp : p '<' = false) {n : Nat}
    (hn : n ≤ (s.takeWhile p).length) : Skips s (s.drop n) := by
  refine ⟨s.take n, fun hmem => ?_, (List.take_append_drop n s).symm⟩
  have hshort : s.take n = (s.takeWhile p).take n := by
    rw [← List.takeWhile_append_dropWhile (p := p) (l := s), List.take_append_of_le_length hn]
    simp
  rw [hshort] at hmem
  exact not_mem_takeWhile hp s (List.mem_of_mem_take hmem)

theorem dropSemicolon (s : Chars) : Skips s (dropSemicolon s) := by
  unfold Markup.dropSemicolon
  split
  · exact cons (by decide) (refl _)
  · exact refl _

end Skips

section Tagged

variable {p : Chars → List QuotedAttribute → Prop}

theorem Tagged.tail {c : Rune} {rest : Chars} (h : Tagged p (c :: rest)) (hc : c ≠ '<') :
    Tagged p rest := by
  generalize heq : c :: rest = s at h
  cases h with
  | nil => contradiction
  | char _ hrest =>
      rw [(List.cons.inj heq).2]
      exact hrest
  | start => exact absurd (List.cons.inj heq).1 hc
  | close => exact absurd (List.cons.inj heq).1 hc

theorem Tagged.append {s rest : Chars} (h : Tagged p rest) (hs : .of '<' ∉ s) :
    Tagged p (s ++ rest) := by
  induction s with
  | nil => exact h
  | cons c s ih =>
      obtain ⟨hc, htail⟩ := not_or.1 (mt List.mem_cons.2 hs)
      exact .char (Ne.symm hc) (ih htail)

theorem Tagged.skips {s rest : Chars} (h : Tagged p s) (hs : Skips s rest) : Tagged p rest := by
  obtain ⟨before, hbefore, rfl⟩ := hs
  induction before with
  | nil => exact h
  | cons c before ih =>
      have hc : c ≠ '<' := by
        rintro rfl
        exact hbefore List.mem_cons_self
      exact ih (fun hmem => hbefore (List.mem_cons_of_mem c hmem)) (h.tail hc)

end Tagged

theorem skips_of_numericReference? {rest after : Chars} {r : Reference}
    (h : numericReference? rest = some (r, after)) : Skips rest after := by
  cases rest with
  | nil => contradiction
  | cons x hexRest =>
      dsimp only [numericReference?] at h
      split at h
      · split at h
        · contradiction
        · rw [Option.ite_none_left_eq_some] at h
          rw [← (Prod.mk.inj (Option.some.inj h.2)).2]
          have hdigits : Rune.isDigit '<' = false := by decide
          exact (Skips.drop_of_le hdigits (Nat.le_refl _)).trans (Skips.dropSemicolon _)
      · split at h
        · rename_i hx
          rw [Option.ite_none_left_eq_some] at h
          have hne : x ≠ '<' := by
            rintro rfl
            exact absurd hx (by decide)
          have hdigits : Text.isHexDigit '<' = false := by decide
          refine Skips.cons hne ?_
          obtain ⟨-, h⟩ := h
          split at h
          · contradiction
          · rw [Option.ite_none_left_eq_some] at h
            rw [← (Prod.mk.inj (Option.some.inj h.2)).2]
            exact (Skips.drop_of_le hdigits (Nat.le_refl _)).trans (Skips.dropSemicolon _)
        · contradiction

theorem ne_of_isAlpha {c : Rune} (hc : c.isAlpha) : c ≠ '<' := by
  rintro rfl
  exact absurd hc (by decide)

theorem length_dropEnd_le (p : Rune → Bool) (s : Chars) : (Text.dropEnd p s).length ≤ s.length := by
  rw [Text.dropEnd, List.length_reverse, ← @List.length_reverse _ s]
  exact (List.dropWhile_sublist p).length_le

/-- The characters of a name of a reference in text. -/
def isNameRun (c : Rune) : Bool := c.isAlphanum || (c == '-' || c == '.')

theorem skips_of_namedReference? {rest after : Chars} {r : Reference}
    (h : namedReference? rest = some (r, after)) : Skips rest after := by
  cases rest with
  | nil => contradiction
  | cons first more =>
      dsimp only [namedReference?] at h
      split at h
      · contradiction
      · rename_i hfirst
        have hne : first ≠ '<' := ne_of_isAlpha (by simpa using hfirst)
        split at h
        · split at h
          · contradiction
          · rw [← (Prod.mk.inj (Option.some.inj h)).2]
            have hname : isNameRun '<' = false := by decide
            refine (Skips.drop_of_le (p := isNameRun) hname ?_).cons hne
            exact Nat.le_trans (Nat.sub_le _ _) (length_dropEnd_le _ _)
        · rw [← (Prod.mk.inj (Option.some.inj h)).2]
          have hname : isNameRun '<' = false := by decide
          exact ((Skips.drop_of_le (p := isNameRun) hname (Nat.le_refl _)).cons hne).trans
            (Skips.dropSemicolon _)

theorem startTags_append (first second : List Event) :
    startTags (first ++ second) = startTags first ++ startTags second :=
  List.filterMap_append

/-- A step that reads no tag: it drops characters that begin none. -/
def Step.Plain (s : Chars) : Step → Prop
  | .go events raw rest => startTags events = [] ∧ raw = none ∧ Skips s rest
  | .stop events rest => startTags events = [] ∧ Skips s rest

theorem plain_stepAmpersand (final : Bool) (rest : Chars) :
    (stepAmpersand final rest).Plain (.of '&' :: rest) := by
  have hamp : Rune.of '&' ≠ .of '<' := by decide
  unfold stepAmpersand
  split
  · exact ⟨rfl, Skips.refl _⟩
  · rename_i digits
    split
    · rename_i r after hreference
      exact ⟨rfl, rfl,
        ((skips_of_numericReference? hreference).cons (by decide)).cons hamp⟩
    · split
      · exact ⟨rfl, ((Skips.refl digits).cons (by decide)).cons hamp⟩
      · exact ⟨rfl, Skips.refl _⟩
  · rename_i c more _
    split
    · rename_i r after hreference
      exact ⟨rfl, rfl, (skips_of_namedReference? hreference).cons hamp⟩
    · split
      · split
        · exact ⟨rfl, (Skips.refl _).cons hamp⟩
        · exact ⟨rfl, Skips.refl _⟩
      · exact ⟨rfl, rfl, (Skips.refl _).cons hamp⟩

/-- The steps of a pass: it ends with this one, or goes on after it. -/
theorem pass_cons_cases {final : Bool} {fuel : Nat} {raw : Option Chars} {c : Rune} {s : Chars}
    {scan : Scan} (h : pass final (fuel + 1) raw (c :: s) = .ok scan) :
    (∃ events rest, step final raw (c :: s) = .ok (.stop events rest) ∧
        scan = ⟨events, raw, rest⟩) ∨
      ∃ events raw' rest later, step final raw (c :: s) = .ok (.go events raw' rest) ∧
        pass final fuel raw' rest = .ok later ∧
        scan = ⟨events ++ later.events, later.raw, later.rest⟩ := by
  rw [pass] at h
  cases hstep : step final raw (c :: s) with
  | error e =>
      rw [hstep] at h
      contradiction
  | ok done =>
      rw [hstep] at h
      cases done with
      | stop events rest => exact Or.inl ⟨events, rest, rfl, (Except.ok.inj h).symm⟩
      | go events raw' rest =>
          dsimp only at h
          cases hlater : pass final fuel raw' rest with
          | error e =>
              rw [hlater] at h
              contradiction
          | ok later =>
              rw [hlater] at h
              exact Or.inr ⟨events, raw', rest, later, rfl, hlater, (Except.ok.inj h).symm⟩

/-- The passes over a text, and the text that is left after them. -/
theorem exists_passes_of_readEvents {s : Chars} {events : List Event}
    (h : readEvents s = .ok events) :
    ∃ first last, pass false (s.length + 1) none s = .ok first ∧
      pass true (first.rest.length + 1) first.raw first.rest = .ok last ∧
      events = first.events ++ last.events ++
        if last.raw.isSome || last.rest.isEmpty then [] else [.text last.rest] := by
  unfold readEvents at h
  split at h
  · contradiction
  · rename_i first hfirst
    split at h
    · contradiction
    · rename_i last hlast
      exact ⟨first, last, hfirst, hlast, (Except.ok.inj h).symm⟩

section Pass

variable {p : Chars → List QuotedAttribute → Prop}

/-- The start tag was written, with a name and attributes of which `p` holds. -/
def StartTag.Written (p : Chars → List QuotedAttribute → Prop) (tag : StartTag) : Prop :=
  ∃ name attrs, p name attrs ∧ tag.name = Text.lower name ∧ readAttributes attrs = .ok tag.attrs

/-- A step in a text of written tags goes on in such a text, and reports no other start tags. -/
def Step.Sound (p : Chars → List QuotedAttribute → Prop) : Step → Prop
  | .go events raw rest =>
      (∀ tag ∈ startTags events, tag.Written p) ∧ raw = none ∧ Tagged p rest
  | .stop events rest => (∀ tag ∈ startTags events, tag.Written p) ∧ Tagged p rest

theorem Step.Plain.sound {s : Chars} {done : Step} (h : done.Plain s) (hs : Tagged p s) :
    done.Sound p := by
  have hnone : ∀ events : List Event, startTags events = [] →
      ∀ tag ∈ startTags events, tag.Written p := by
    intro events hevents tag htag
    rw [hevents] at htag
    exact absurd htag List.not_mem_nil
  cases done with
  | go events raw rest => exact ⟨hnone events h.1, h.2.1, hs.skips h.2.2⟩
  | stop events rest => exact ⟨hnone events h.1, hs.skips h.2⟩

theorem sound_stepAngle_start {name : Chars} {attrs : List QuotedAttribute} {rest : Chars}
    (hname : isTagName name) (hattrs : ∀ a ∈ attrs, a.Sound) (hp : p name attrs)
    (hrest : Tagged p rest) {final : Bool} {done : Step}
    (hstep : stepAngle final (name ++ (attrs.flatMap QuotedAttribute.text ++ .of '>' :: rest)) =
      .ok done) : done.Sound p := by
  rw [stepAngle_written hname hattrs] at hstep
  obtain ⟨read, hattributes, rfl⟩ := exists_of_map_eq_ok hstep
  refine ⟨fun tag htag => ?_, rfl, hrest⟩
  obtain rfl := List.mem_singleton.1 htag
  exact ⟨name, attrs, hp, rfl, hattributes⟩

theorem sound_stepAngle_close {name rest : Chars} (hname : isTagName name)
    (hrest : Tagged p rest) {final : Bool} {done : Step}
    (hstep : stepAngle final (.of '/' :: (name ++ .of '>' :: rest)) = .ok done) : done.Sound p := by
  rw [stepAngle_writtenEnd hname] at hstep
  obtain rfl := Except.ok.inj hstep
  exact ⟨fun tag htag => absurd htag List.not_mem_nil, rfl, hrest⟩

/-- One step. -/
theorem Tagged.step {final : Bool} {c : Rune} {s : Chars} {done : Step} (h : Tagged p (c :: s))
    (hstep : Markup.step final none (c :: s) = .ok done) : done.Sound p := by
  dsimp only [Markup.step] at hstep
  split at hstep
  · rename_i hangle
    obtain rfl : c = '<' := by simpa using hangle
    generalize heq : .of '<' :: s = whole at h
    cases h with
    | nil => contradiction
    | char hc _ => exact absurd (List.cons.inj heq).1.symm hc
    | start hname hattrs hp hrest =>
        rw [(List.cons.inj heq).2] at hstep
        exact sound_stepAngle_start hname hattrs hp hrest hstep
    | close hname hrest =>
        rw [(List.cons.inj heq).2] at hstep
        exact sound_stepAngle_close hname hrest hstep
  · split at hstep
    · rename_i hamp
      obtain rfl : c = '&' := by simpa using hamp
      obtain rfl := Except.ok.inj hstep
      exact (plain_stepAmpersand final s).sound h
    · obtain rfl := Except.ok.inj hstep
      have htext : Step.Plain (c :: s) (.go
          [.text ((c :: s).takeWhile fun d => d != .of '<' && d != .of '&')] none
          ((c :: s).dropWhile fun d => d != .of '<' && d != .of '&')) :=
        ⟨rfl, rfl, Skips.dropWhile (by decide) _⟩
      exact htext.sound h

/-- A pass over a text of written tags. -/
theorem Tagged.pass {final : Bool} {fuel : Nat} {s : Chars} {scan : Scan} (h : Tagged p s)
    (hpass : Markup.pass final fuel none s = .ok scan) :
    (∀ tag ∈ startTags scan.events, tag.Written p) ∧ scan.raw = none ∧ Tagged p scan.rest := by
  induction fuel generalizing s scan with
  | zero =>
      obtain rfl := Except.ok.inj hpass
      exact ⟨fun tag htag => absurd htag List.not_mem_nil, rfl, h⟩
  | succ fuel ih =>
      cases s with
      | nil =>
          obtain rfl := Except.ok.inj hpass
          exact ⟨fun tag htag => absurd htag List.not_mem_nil, rfl, h⟩
      | cons c s =>
          obtain ⟨events, rest, hstep, rfl⟩ | ⟨events, raw, rest, later, hstep, hlater, rfl⟩ :=
            pass_cons_cases hpass
          · obtain ⟨hevents, hrest⟩ := h.step hstep
            exact ⟨hevents, rfl, hrest⟩
          · obtain ⟨hevents, rfl, hrest⟩ := h.step hstep
            obtain ⟨hmore, hraw, hleft⟩ := ih hrest hlater
            refine ⟨fun tag htag => ?_, hraw, hleft⟩
            rw [startTags_append, List.mem_append] at htag
            exact htag.elim (hevents tag) (hmore tag)

/-- The start tags of a text of written tags are tags that were written. -/
theorem Tagged.startTags_readEvents {s : Chars} {events : List Event} (h : Tagged p s)
    (hread : readEvents s = .ok events) : ∀ tag ∈ startTags events, tag.Written p := by
  obtain ⟨first, last, hfirst, hlast, rfl⟩ := exists_passes_of_readEvents hread
  obtain ⟨hevents, hraw, hrest⟩ := h.pass hfirst
  rw [hraw] at hlast
  obtain ⟨hmore, -, -⟩ := hrest.pass hlast
  intro tag htag
  rw [startTags_append, startTags_append, List.mem_append, List.mem_append] at htag
  rcases htag with (htag | htag) | htag
  · exact hevents tag htag
  · exact hmore tag htag
  · split at htag <;> exact absurd htag List.not_mem_nil

end Pass

end Folio.Markup
