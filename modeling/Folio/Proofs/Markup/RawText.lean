import Folio.Proofs.Markup.Joining

/-!
Where a construct ends. A text in which nothing ends, with the end of the construct after it, is
read up to there; of an end tag inside raw text this holds as well, though what only looks like one
to the matcher is read as text.
-/
namespace Folio.Markup

/-- Nothing ends at a place in `s` when `t` follows it. -/
def NoEnd (close? : Chars → Option Chars) : Chars → Chars → Prop
  | [], _ => True
  | c :: s, t => close? (c :: (s ++ t)) = none ∧ NoEnd close? s t

section NoEnd

variable {close? : Chars → Option Chars} {s t u content after : Chars}

theorem noEnd_append : NoEnd close? (s ++ t) u ↔ NoEnd close? s (t ++ u) ∧ NoEnd close? t u := by
  induction s with
  | nil => exact (iff_of_eq (true_and _)).symm
  | cons c s ih =>
      rw [List.cons_append, NoEnd, NoEnd, ih, List.append_assoc]
      exact and_assoc.symm

theorem upTo?_append_of_noEnd (h : NoEnd close? s t) : upTo? close? (s ++ t) =
    (upTo? close? t).map fun found => (s ++ found.1, found.2) := by
  induction s with
  | nil => exact Option.map_id'.symm
  | cons c s ih =>
      rw [List.cons_append, upTo?, h.1]
      dsimp only
      rw [ih h.2, Option.map_map]
      rfl

/-- What is read up to an end. -/
theorem exists_end_of_upTo? (h : upTo? close? s = some (content, after)) :
    ∃ t, s = content ++ t ∧ close? t = some after ∧ NoEnd close? content t := by
  induction s generalizing content with
  | nil => contradiction
  | cons c s ih =>
      rw [upTo?] at h
      cases hc : close? (c :: s) with
      | some last =>
          rw [hc] at h
          obtain ⟨rfl, rfl⟩ := Prod.mk.inj (Option.some.inj h)
          exact ⟨c :: s, rfl, hc, trivial⟩
      | none =>
          rw [hc] at h
          obtain ⟨⟨run, last⟩, hrun, heq⟩ := Option.map_eq_some_iff.1 h
          obtain ⟨rfl, rfl⟩ := Prod.mk.inj heq
          obtain ⟨t, rfl, hend, hnone⟩ := ih hrun
          exact ⟨t, rfl, hend, hc, hnone⟩

theorem upTo?_of_end (h : NoEnd close? content t) (hend : close? t = some after) (ht : t ≠ []) :
    upTo? close? (content ++ t) = some (content, after) := by
  obtain ⟨c, t, rfl⟩ := List.exists_cons_of_ne_nil ht
  rw [upTo?_append_of_noEnd h, upTo?, hend]
  exact congrArg (fun s => some (s, after)) (List.append_nil content)

theorem upTo?_eq_none_iff : upTo? close? s = none ↔ NoEnd close? s [] := by
  induction s with
  | nil => exact iff_of_true rfl trivial
  | cons c s ih =>
      rw [upTo?, NoEnd, List.append_nil]
      cases close? (c :: s) with
      | some after => simp
      | none => simp [ih]

instance (close? : Chars → Option Chars) (s : Chars) : Decidable (NoEnd close? s []) :=
  decidable_of_iff (upTo? close? s = none) upTo?_eq_none_iff

/-- An end that is cut off with the text after it is an end. -/
theorem EndsAtAngle.noEnd_nil (hclose : EndsAtAngle close?) (h : NoEnd close? s t) :
    NoEnd close? s [] := by
  induction s with
  | nil => trivial
  | cons c s ih =>
      refine ⟨?_, ih h.2⟩
      rw [List.append_nil]
      cases hc : close? (c :: s) with
      | none => rfl
      | some after =>
          have hmem : .of '>' ∈ c :: s := (hclose.suffix hc).subset List.mem_cons_self
          have happend := hclose.append hmem t
          rw [hc, List.cons_append, h.1] at happend
          contradiction

/-- Nothing ends in a text without `>`. -/
theorem EndsAtAngle.noEnd_of_not_mem (hclose : EndsAtAngle close?) (hs : .of '>' ∉ s) :
    NoEnd close? s [] := by
  rw [← upTo?_eq_none_iff]
  cases h : upTo? close? s with
  | none => rfl
  | some found => exact absurd ((hclose.suffix_upTo? h).subset List.mem_cons_self) hs

theorem NoEnd.suffix (h : NoEnd close? s []) (ht : t <:+ s) : NoEnd close? t [] := by
  obtain ⟨run, rfl⟩ := ht
  exact (noEnd_append.1 h).2

theorem NoEnd.mono {other? : Chars → Option Chars} (hother : ∀ s, close? s = none → other? s = none)
    (h : NoEnd close? s t) : NoEnd other? s t := by
  induction s with
  | nil => trivial
  | cons c s ih => exact ⟨hother _ h.1, ih h.2⟩

/-- What follows the text completes no end that begins in it. -/
theorem NoEnd.append (h : NoEnd close? s [])
    (ht : ∀ c s, close? (c :: s) = none → close? (c :: (s ++ t)) = none) : NoEnd close? s t := by
  induction s with
  | nil => trivial
  | cons c s ih =>
      have hc := h.1
      rw [List.append_nil] at hc
      exact ⟨ht c s hc, ih h.2⟩

end NoEnd

section Ends

variable {s t : Chars} {c : Rune}

theorem blanksAngle?_append (h : blanksAngle? s = none) (hblank : Text.isBlank c = false)
    (hc : c ≠ '>') (t : Chars) : blanksAngle? (s ++ c :: t) = none := by
  rw [blanksAngle?, Text.dropWhile_append_of_neg hblank]
  rw [blanksAngle?] at h
  cases hrun : s.dropWhile Text.isBlank with
  | nil => simp [angle?, hc]
  | cons d run =>
      rw [hrun] at h
      have hd : d ≠ '>' := fun heq => by simp [angle?, heq] at h
      simp [angle?, hd]

theorem commentEnd?_dashes (s : Chars) : commentEnd? (.of '-' :: .of '-' :: s) = blanksAngle? s :=
  congrFun commentEnd?_eq _

theorem commentEnd?_of_ne (hc : c ≠ '-') (s : Chars) : commentEnd? (c :: s) = none := by
  simp [commentEnd?, hc]

theorem commentEnd?_dash_of_ne (hc : c ≠ '-') (s : Chars) :
    commentEnd? (.of '-' :: c :: s) = none := by
  simp [commentEnd?, hc]

/-- The end of a comment completes none that begins before it. -/
theorem noEnd_comment (h : NoEnd commentEnd? s []) (t : Chars) :
    NoEnd commentEnd? s (.of '-' :: .of '-' :: t) := by
  refine h.append fun c s hc => ?_
  have hblank : Text.isBlank '-' = false := by decide
  by_cases hfirst : c = '-'
  · subst hfirst
    cases s with
    | nil => exact blanksAngle?_append (s := []) rfl hblank (by decide) t
    | cons d s =>
        by_cases hsecond : d = '-'
        · subst hsecond
          rw [commentEnd?_dashes] at hc
          rw [List.cons_append, commentEnd?_dashes]
          exact blanksAngle?_append hc hblank (by decide) _
        · exact commentEnd?_dash_of_ne hsecond _
  · exact commentEnd?_of_ne hfirst _

theorem officeEnd?_bracket (s : Chars) : officeEnd? (.of ']' :: s) = blanksAngle? s :=
  congrFun officeEnd?_eq _

theorem officeEnd?_of_ne (hc : c ≠ ']') (s : Chars) : officeEnd? (c :: s) = none := by
  simp [officeEnd?, hc]

theorem sectionEnd?_of_ne (hc : c ≠ ']') (s : Chars) : sectionEnd? (c :: s) = none := by
  simp [sectionEnd?, hc]

/-- The end of a marked section completes none that begins before it. -/
theorem noEnd_section (h : NoEnd sectionEnd? s []) (t : Chars) :
    NoEnd sectionEnd? s (.of ']' :: .of ']' :: t) := by
  refine h.append fun c s hc => ?_
  have hblank : Text.isBlank ']' = false := by decide
  by_cases hfirst : c = ']'
  · subst hfirst
    rw [sectionEnd?] at hc ⊢
    rw [Text.dropWhile_append_of_neg hblank]
    cases hrun : s.dropWhile Text.isBlank with
    | nil => exact blanksAngle?_append (s := []) rfl hblank (by decide) t
    | cons d run =>
        rw [hrun] at hc
        by_cases hsecond : d = ']'
        · subst hsecond
          rw [officeEnd?_bracket] at hc
          rw [List.cons_append, officeEnd?_bracket]
          exact blanksAngle?_append hc hblank (by decide) _
        · exact officeEnd?_of_ne hsecond _
  · exact sectionEnd?_of_ne hfirst _

/-- Where a marked section ends, one of an office document ends a bracket later. -/
theorem noEnd_section_of_office (h : NoEnd officeEnd? s []) : NoEnd sectionEnd? s [] := by
  induction s with
  | nil => trivial
  | cons c s ih =>
      refine ⟨?_, ih h.2⟩
      by_cases hc : c = ']'
      · subst hc
        rw [List.append_nil, sectionEnd?]
        have hrest := h.2.suffix (List.dropWhile_suffix Text.isBlank)
        cases hrun : s.dropWhile Text.isBlank with
        | nil => rfl
        | cons d run =>
            rw [hrun] at hrest
            have hd := hrest.1
            rwa [List.append_nil] at hd
      · exact sectionEnd?_of_ne hc _

end Ends

/-- What follows the end tag of the raw text element at the start of the text. The name in the tag
must be the one of the element: some letters only look like those of the name to a matcher that
folds case. -/
def rawClose? (name s : Chars) : Option Chars :=
  (rawEnd? name s).filter fun after =>
    plainName? ((s.take (s.length - after.length)).drop 2).dropLast == some name

section RawText

variable {name s t rest after content : Chars}

theorem rawEnd?_of_ne {c : Rune} (hc : c ≠ '<') (s : Chars) : rawEnd? name (c :: s) = none := by
  simp [rawEnd?, hc]

theorem rawEnd?_of_rawClose? (h : rawClose? name s = some after) : rawEnd? name s = some after :=
  (Option.filter_eq_some_iff.1 h).1

theorem rawClose?_of_rawEnd? (h : rawEnd? name s = none) : rawClose? name s = none := by
  rw [rawClose?, h]
  rfl

theorem endsAtAngle_rawClose? (hname : isRawText name) : EndsAtAngle (rawClose? name) := by
  have hend := endsAtAngle_rawEnd? hname
  refine ⟨fun {s after} h => hend.suffix (rawEnd?_of_rawClose? h), fun {s} hs t => ?_⟩
  rw [rawClose?, rawClose?, hend.append hs]
  cases h : rawEnd? name s with
  | none => rfl
  | some after =>
      have hafter := (List.suffix_cons _ _).trans (hend.suffix h)
      rw [Option.map_some, Option.filter_some, Option.filter_some, take_sub_length_append hafter]
      split <;> rfl

theorem skips_of_dropWord? {pattern : Chars} (hpattern : .of '<' ∉ pattern)
    (h : Text.dropWord? pattern s = some after) : Skips s after := by
  induction pattern generalizing s with
  | nil =>
      rw [Text.dropWord?] at h
      exact Option.some.inj h ▸ Skips.refl _
  | cons p pattern ih =>
      obtain ⟨hp, hlater⟩ := List.ne_and_not_mem_of_not_mem_cons hpattern
      cases s with
      | nil => contradiction
      | cons c s =>
          rw [Text.dropWord?, Option.ite_none_right_eq_some] at h
          refine .cons ?_ (ih hlater h.2)
          rintro rfl
          have hsame := h.1
          have hlower : Rune.toLower '<' = '<' := by decide
          simp [Text.sameLetter, hlower, hp] at hsame

/-- An end tag begins with `<`, and has no other in it. -/
theorem exists_of_rawEnd? (hname : isRawText name) (h : rawEnd? name s = some after) :
    ∃ rest, s = .of '<' :: rest ∧ Skips rest after := by
  have hletters : .of '<' ∉ name := by
    have hall : ∀ n ∈ rawTextElements, .of '<' ∉ n := by decide
    exact hall name (List.contains_iff_mem.1 hname)
  have hblank : Text.isBlank '<' = false := by decide
  unfold rawEnd? at h
  split at h
  · rename_i rest
    split at h
    · rename_i word hword
      split at h
      · rename_i last hlast
        have hblanks : Skips word (.of '>' :: last) := hlast ▸ Skips.dropWhile hblank word
        have hangle : Skips (.of '>' :: last) last := .cons (by decide) (.refl last)
        obtain rfl := Option.some.inj h
        exact ⟨_, rfl, .cons (by decide) ((Skips.dropWhile hblank rest).trans
          ((skips_of_dropWord? hletters hword).trans (hblanks.trans hangle)))⟩
      · contradiction
    · contradiction
  · contradiction

/-- No end tag begins in a text without `<`. -/
theorem noEnd_of_not_mem (hs : .of '<' ∉ s) (t : Chars) : NoEnd (rawClose? name) s t := by
  induction s with
  | nil => trivial
  | cons c s ih =>
      obtain ⟨hc, hlater⟩ := List.ne_and_not_mem_of_not_mem_cons hs
      exact ⟨rawClose?_of_rawEnd? (rawEnd?_of_ne (Ne.symm hc) _), ih hlater⟩

/-- What begins with `<` completes no end tag that begins before it. -/
theorem noEnd_raw (hname : isRawText name) (h : NoEnd (rawClose? name) s []) (t : Chars) :
    NoEnd (rawClose? name) s (.of '<' :: t) := by
  have hclose := endsAtAngle_rawClose? hname
  refine h.append fun c s hc => ?_
  cases hlong : rawClose? name (c :: (s ++ .of '<' :: t)) with
  | none => rfl
  | some after =>
      obtain ⟨rest, heq, before, hbefore, hsplit⟩ :=
        exists_of_rawEnd? hname (rawEnd?_of_rawClose? hlong)
      obtain ⟨rfl, rfl⟩ := List.cons.inj heq
      have hinside : ∃ last, s = before ++ last := by
        rcases List.append_eq_append_iff.1 hsplit with ⟨last, hlast, hafter⟩ | ⟨last, hlast, -⟩
        · cases last with
          | nil => exact ⟨[], by rw [hlast, List.append_nil, List.append_nil]⟩
          | cons d last =>
              obtain ⟨rfl, -⟩ := List.cons.inj hafter
              exact absurd (hlast ▸ List.mem_append_right s List.mem_cons_self) hbefore
        · exact ⟨last, hlast⟩
      obtain ⟨last, rfl⟩ := hinside
      obtain ⟨run, hrun⟩ := hclose.suffix hlong
      have htag : run ++ [.of '>'] = .of '<' :: before := by
        rw [hsplit, List.append_cons, ← List.cons_append] at hrun
        exact List.append_cancel_right hrun
      have hmem : .of '>' ∈ .of '<' :: (before ++ last) := by
        rw [← List.cons_append, ← htag]
        exact List.mem_append_left _ (List.mem_append_right _ List.mem_cons_self)
      have happend := hclose.append hmem (.of '<' :: t)
      rw [hc, List.cons_append, hlong] at happend
      contradiction

/-- What a step does in raw text: it ends the pass, reads the end tag, or passes over some text in
which no end tag begins. -/
inductive RawStep (name s : Chars) : Step → Prop
  | stop (h : NoEnd (rawClose? name) s []) : RawStep name s (.stop [] s)
  | close {after : Chars} (h : rawClose? name s = some after) :
      RawStep name s (.go [.close name] none after)
  | text {run rest : Chars} (hs : s = run ++ rest) (hrun : run ≠ [])
      (h : NoEnd (rawClose? name) run rest) : RawStep name s (.go [.text run] (some name) rest)

theorem rawStep_stepRaw (hname : isRawText name) (s : Chars) : RawStep name s (stepRaw name s) := by
  have hnone : ∀ {s t}, NoEnd (rawEnd? name) s t → NoEnd (rawClose? name) s t :=
    NoEnd.mono fun s => rawClose?_of_rawEnd?
  unfold stepRaw
  split
  · rename_i hupTo
    exact .stop (hnone (upTo?_eq_none_iff.1 hupTo))
  · rename_i after hupTo
    obtain ⟨t, rfl, hend, -⟩ := exists_end_of_upTo? hupTo
    dsimp only
    obtain ⟨rest, rfl, before, hbefore, rfl⟩ := exists_of_rawEnd? hname hend
    split
    · rename_i hplain
      exact .close (Option.filter_eq_some_iff.2 ⟨hend, hplain⟩)
    · rename_i hplain
      have htag : (.of '<' :: (before ++ after)).take
          ((.of '<' :: (before ++ after)).length - after.length) = .of '<' :: before := by
        rw [← List.cons_append, List.length_append, Nat.add_sub_cancel, List.take_left]
      rw [htag] at hplain ⊢
      refine .text (List.cons_append).symm (List.cons_ne_nil _ _) ⟨?_, noEnd_of_not_mem hbefore _⟩
      rw [rawClose?, hend, Option.filter_some, htag, if_neg hplain]
  · rename_i content after hne hupTo
    obtain ⟨t, rfl, -, hcontent⟩ := exists_end_of_upTo? hupTo
    rw [List.drop_left]
    exact .text rfl hne (hnone hcontent)

theorem rawStep_step {final : Bool} {done : Step} (hname : isRawText name)
    (h : step final (some name) s = .ok done) : RawStep name s done :=
  Except.ok.inj h ▸ rawStep_stepRaw hname s

end RawText

end Folio.Markup
