import Folio.Proofs.Resource.Candidates
import Folio.Proofs.Resource.SourceSets
import Folio.Proofs.Resource.WrittenAddresses
import Folio.Resource.Fragment

/-!
What the pieces between commas say of a set of image candidates as the HTML standard reads it. No
external candidate is missed; one is told that is none where a comma stands inside an address, and
where the standard drops a candidate.
-/
namespace Folio.Resource

section Candidates

variable {s t value rest : Chars} {ds : List Chars} {c : Candidate}

theorem isExternal_cons_of_isBlank {b : Rune} (hb : Text.isBlank b) (s : Chars) :
    isExternal (b :: s) = isExternal s := by
  rw [Bool.eq_iff_iff, isExternal_iff, isExternal_iff, Text.trimLeft,
    List.dropWhile_cons_of_pos hb, Text.trimLeft]

/-- What separates candidates makes no difference. -/
theorem hasExternalCandidate_cons {b : Rune} (hb : isSeparator b) (s : Chars) :
    hasExternalCandidate (b :: s) = hasExternalCandidate s := by
  rw [isSeparator, Bool.or_eq_true] at hb
  by_cases hcomma : b = ','
  · rw [hcomma]
    exact hasExternalCandidate_append_comma [] s
  · have hspace := hb.resolve_right fun heq => hcomma (eq_of_beq heq)
    obtain ⟨piece, pieces, hsplit⟩ := Text.exists_splitOn_eq_cons ',' s
    have hgrown : Text.splitOn ',' (b :: s) = (b :: piece) :: pieces := by
      rw [Text.splitOn, hsplit]
      exact if_neg (mt eq_of_beq hcomma)
    rw [Bool.eq_iff_iff, hasExternalCandidate_iff, hasExternalCandidate_iff, hgrown, hsplit]
    simp only [List.mem_cons, exists_eq_or_imp,
      isExternal_cons_of_isBlank (isBlank_of_isSpace hspace)]

theorem hasExternalCandidate_dropWhile (s : Chars) :
    hasExternalCandidate (s.dropWhile isSeparator) = hasExternalCandidate s := by
  induction s with
  | nil => rfl
  | cons b s ih =>
      rw [List.dropWhile_cons]
      split
      · rename_i hb
        rw [ih, hasExternalCandidate_cons hb]
      · rfl

/-- The text of a candidate is read apart from what follows it. -/
theorem hasExternalCandidate_append (h : t = [] ∨ ∃ front, s = front ++ [.of ',']) :
    hasExternalCandidate (s ++ t) = (hasExternalCandidate s || hasExternalCandidate t) := by
  rcases h with rfl | ⟨front, rfl⟩
  · rw [List.append_nil]
    exact (Bool.or_false _).symm
  · rw [List.append_assoc, List.singleton_append, hasExternalCandidate_append_comma,
      hasExternalCandidate_append_comma]
    exact congrArg (· || _) (Bool.or_false _).symm

/-- Commas after the address make no difference. -/
theorem hasExternalCandidate_dropEnd (s : Chars) :
    hasExternalCandidate (Text.dropEnd (· == .of ',') s) = hasExternalCandidate s := by
  have hcommas : ∀ c ∈ (s.reverse.takeWhile (· == .of ',')).reverse, c = ',' := by
    intro c hc
    have hcomma := List.mem_takeWhile_imp (List.mem_reverse.1 hc)
    exact eq_of_beq hcomma
  have hs : Text.dropEnd (· == .of ',') s ++ (s.reverse.takeWhile (· == .of ',')).reverse = s := by
    rw [Text.dropEnd, ← List.reverse_append, List.takeWhile_append_dropWhile,
      List.reverse_reverse]
  nth_rewrite 2 [← hs]
  generalize (s.reverse.takeWhile (· == .of ',')).reverse = commas at hcommas
  cases commas with
  | nil => rw [List.append_nil]
  | cons c commas =>
      obtain ⟨rfl, hlater⟩ := List.forall_mem_cons.1 hcommas
      have hnone : commas.dropWhile isSeparator = [] := by
        refine List.dropWhile_eq_nil_iff.2 fun c hc => ?_
        rw [hlater c hc]
        decide
      rw [hasExternalCandidate_append_comma, ← hasExternalCandidate_dropWhile commas, hnone]
      exact (Bool.or_false _).symm

/-- What stands after the address of a candidate: descriptors, with a space before them. -/
structure IsTail (t : Chars) : Prop where
  space : ∀ b ∈ t.head?, Text.isSpace b
  noComma : .of ',' ∉ t
  number : ∀ b ∈ (Text.trimLeft t).head?, startsNumber b

/-- The descriptors that are read after a space, if they are plain. -/
theorem readDescriptors_tail (h : readDescriptors false [] (s.dropWhile Text.isSpace) = (ds, rest))
    (hs : ∀ b ∈ s.head?, Text.isSpace b) :
    ∃ tail, (s = tail ∧ rest = [] ∨ s = tail ++ .of ',' :: rest) ∧
      ((∀ d ∈ ds, IsPlain d) → IsTail tail) := by
  obtain ⟨text, hends, hplain⟩ := readDescriptors_sound h
  have hgap := List.takeWhile_append_dropWhile (p := Text.isSpace) (l := s)
  have hspaces : ∀ b ∈ s.takeWhile Text.isSpace, Text.isSpace b := fun b => List.mem_takeWhile_imp
  generalize s.takeWhile Text.isSpace = gap at hgap hspaces
  have htext : s = gap ++ text ∧ rest = [] ∨ s = gap ++ text ++ .of ',' :: rest := by
    rw [← hgap]
    rcases hends with ⟨heq, hnil⟩ | heq
    · exact Or.inl ⟨by rw [heq], hnil⟩
    · exact Or.inr (by rw [heq, List.append_assoc])
  refine ⟨gap ++ text, htext, fun hall => ?_⟩
  obtain ⟨hcomma, hnumber⟩ := hplain rfl hall
  refine ⟨fun b hb => hs b ?_, ?_, ?_⟩
  · obtain ⟨more, hmore⟩ := List.head?_eq_some_iff.1 hb
    rcases htext with ⟨heq, -⟩ | heq
    · rw [heq, hmore]
      rfl
    · rw [heq, hmore]
      rfl
  · refine mt List.mem_append.1 (not_or.2 ⟨fun hmem => ?_, hcomma⟩)
    exact absurd (hspaces _ hmem) (by decide)
  · rw [Text.trimLeft, List.dropWhile_append_of_pos fun b hb => isBlank_of_isSpace (hspaces b hb)]
    exact hnumber rfl

theorem isExternal_append_tail (h : IsTail t) (s : Chars) : isExternal (s ++ t) = isExternal s := by
  rw [Bool.eq_iff_iff, isExternal_iff, isExternal_iff, Text.trimLeft, List.dropWhile_append]
  split
  · rename_i hempty
    rw [Text.trimLeft, List.isEmpty_iff.1 hempty]
    refine iff_of_false ?_ not_beginsOutside_nil
    have hnumber := h.number
    rw [Text.trimLeft] at hnumber
    cases hbody : t.dropWhile Text.isBlank with
    | nil => exact not_beginsOutside_nil
    | cons b body =>
        rw [hbody] at hnumber
        have hforeign := (foreign_of_startsNumber (hnumber b rfl)).1
        exact mt (beginsOutside_append_cons hforeign [] body).1 not_beginsOutside_nil
  · cases t with
    | nil => rw [List.append_nil, Text.trimLeft]
    | cons b t =>
        have hblank := isBlank_of_isSpace (h.space b rfl)
        exact beginsOutside_append_cons (isForeign_of_isBlank hblank) _ _

/-- The descriptors of a candidate make no difference. -/
theorem hasExternalCandidate_append_tail (h : IsTail t) (s : Chars) :
    hasExternalCandidate (s ++ t) = hasExternalCandidate s := by
  have hlast {last : Chars} (hnone : .of ',' ∉ last) :
      hasExternalCandidate (last ++ t) = hasExternalCandidate last := by
    rw [hasExternalCandidate_of_not_mem hnone, hasExternalCandidate_of_not_mem
      (mt List.mem_append.1 (not_or.2 ⟨hnone, h.noComma⟩)), isExternal_append_tail h]
  by_cases hmem : .of ',' ∈ s.reverse
  · obtain ⟨last, front, heq, hnone⟩ := List.eq_append_cons_of_mem hmem
    obtain rfl : s = front.reverse ++ .of ',' :: last.reverse := by
      rw [← List.reverse_reverse s, heq]
      simp
    rw [List.append_assoc, List.cons_append, hasExternalCandidate_append_comma,
      hasExternalCandidate_append_comma, hlast (mt List.mem_reverse.1 hnone)]
  · exact hlast (mt List.mem_reverse.2 hmem)

theorem nextCandidate?_none (h : nextCandidate? s = none) : hasExternalCandidate s = false := by
  rw [nextCandidate?] at h
  dsimp only at h
  split at h
  · rename_i hempty
    rw [← hasExternalCandidate_dropWhile, List.isEmpty_iff.1 hempty]
    rfl
  · split at h <;> exact absurd h (Option.some_ne_none _)

/-- How the text of a candidate is made up of its address and its descriptors. -/
structure IsNext (s : Chars) (c : Candidate) (rest : Chars) : Prop where
  text : s.dropWhile isSeparator = c.source ++ rest
  ends : rest = [] ∨ ∃ front, c.source = front ++ [.of ',']
  nonempty : c.source ≠ []
  kept (h : c.isKept) : hasExternalCandidate c.source = hasExternalCandidate c.url

theorem isNext_of_nextCandidate? (h : nextCandidate? s = some (c, rest)) : IsNext s c rest := by
  rw [nextCandidate?] at h
  dsimp only at h
  generalize hbody : s.dropWhile isSeparator = body at h
  have hparts := List.takeWhile_append_dropWhile (p := fun c => !Text.isSpace c) (l := body)
  have hafter := Text.not_head_dropWhile (fun c => !Text.isSpace c) body
  generalize body.takeWhile (fun c => !Text.isSpace c) = run at h hparts
  generalize body.dropWhile (fun c => !Text.isSpace c) = after at h hparts hafter
  obtain ⟨hne, hread⟩ := Option.ite_none_left_eq_some.1 h
  split at hread
  · rename_i hcomma
    obtain ⟨rfl, rfl⟩ := Prod.mk.inj (Option.some.inj hread)
    have hfront := List.dropLast_append_getLast? (Rune.of ',') (eq_of_beq hcomma)
    refine ⟨hbody.trans hparts.symm, Or.inr ⟨_, hfront.symm⟩, ?_, fun _ => ?_⟩
    · rw [← hfront]
      simp
    · exact (hasExternalCandidate_dropEnd run).symm
  · obtain ⟨rfl, rfl⟩ := Prod.mk.inj (Option.some.inj hread)
    obtain ⟨tail, hends, htail⟩ := readDescriptors_tail
      (rfl : readDescriptors false [] (after.dropWhile Text.isSpace) = (_, _))
      fun b hb => by simpa using hafter b hb
    have hkeeps {source : Chars} (hkept : Candidate.isKept ⟨run, _, source⟩) : IsTail tail :=
      htail (isPlain_of_isKept hkept)
    rcases hends with ⟨heq, hnil⟩ | heq
    · have hsource : between body [] = body := by
        rw [← List.append_nil (between body []), between_append List.nil_suffix]
      rw [hnil, hsource]
      refine ⟨hbody.trans (List.append_nil body).symm, Or.inl rfl, fun hempty => ?_, ?_⟩
      · exact hne (List.isEmpty_iff.2 hempty)
      · intro hkept
        rw [← hparts, heq]
        exact hasExternalCandidate_append_tail (hkeeps hkept) run
    · generalize (readDescriptors false [] (after.dropWhile Text.isSpace)).2 = rest at heq ⊢
      have hwhole : run ++ tail ++ [.of ','] ++ rest = body := by
        rw [← hparts, heq]
        simp
      have hsource : between body rest = run ++ tail ++ [.of ','] := by
        rw [← hwhole, between_append_left]
      rw [hsource]
      refine ⟨hbody.trans hwhole.symm, Or.inr ⟨_, rfl⟩, by simp, fun hkept => ?_⟩
      have hends := hasExternalCandidate_append_comma (run ++ tail) []
      rw [hasExternalCandidate_append_tail (hkeeps hkept)] at hends
      exact hends.trans (Bool.or_false _)

/-- A set has an external candidate if the text of one of its candidates has one. -/
theorem hasExternalCandidate_eq_any (value : Chars) : hasExternalCandidate value =
    (readCandidates value).any fun c => hasExternalCandidate c.source := by
  have hgo (fuel : Nat) (s : Chars) (hfuel : s.length < fuel) : hasExternalCandidate s =
      (readCandidatesGo fuel s).any fun c => hasExternalCandidate c.source := by
    induction fuel generalizing s with
    | zero => exact absurd hfuel (Nat.not_lt_zero _)
    | succ fuel ih =>
        rw [readCandidatesGo]
        cases hnext : nextCandidate? s with
        | none => exact nextCandidate?_none hnext
        | some next =>
            obtain ⟨c, rest⟩ := next
            have h := isNext_of_nextCandidate? hnext
            have hshort : rest.length < s.length := by
              have hbody := (List.dropWhile_suffix isSeparator (l := s)).length_le
              rw [h.text, List.length_append] at hbody
              have hpos := List.length_pos_of_ne_nil h.nonempty
              omega
            rw [← hasExternalCandidate_dropWhile, h.text, hasExternalCandidate_append h.ends,
              ih rest (by omega)]
            rfl
  exact hgo _ value (Nat.lt_succ_self _)

/-- Each candidate is the next one of a part of the text. -/
theorem exists_isNext (hc : c ∈ readCandidates value) : ∃ s rest, IsNext s c rest := by
  have hgo (fuel : Nat) (s : Chars) (hmem : c ∈ readCandidatesGo fuel s) :
      ∃ s rest, IsNext s c rest := by
    induction fuel generalizing s with
    | zero => exact absurd hmem List.not_mem_nil
    | succ fuel ih =>
        rw [readCandidatesGo] at hmem
        cases hnext : nextCandidate? s with
        | none =>
            rw [hnext] at hmem
            exact absurd hmem List.not_mem_nil
        | some next =>
            obtain ⟨first, rest⟩ := next
            rw [hnext] at hmem
            rcases List.mem_cons.1 hmem with rfl | hlater
            · exact ⟨s, rest, isNext_of_nextCandidate? hnext⟩
            · exact ih rest hlater
  exact hgo _ value hc

/-- A kept candidate is told from its address. -/
theorem source_of_isKept (hc : c ∈ readCandidates value) (hkept : c.isKept) :
    hasExternalCandidate c.source = hasExternalCandidate c.url := by
  obtain ⟨s, rest, hnext⟩ := exists_isNext hc
  exact hnext.kept hkept

/-- A set of images without an external candidate stays among the attributes. -/
theorem mem_stripAttributes_srcset (h : hasExternalCandidate value = false)
    {attrs : List (Chars × Chars)} (hmem : ("srcset".runes, value) ∈ attrs) :
    ("srcset".runes, value) ∈ stripAttributes attrs := by
  have hinside : isExternalAttribute "srcset".runes value = false := by
    rw [isExternalAttribute, if_pos (beq_self_eq_true _), h, Bool.and_false]
  exact List.mem_filter.2 ⟨List.mem_map.2 ⟨_, hmem, rfl⟩, congrArg (!·) hinside⟩

/-- A set of image candidates is told to be external exactly if a piece of the address of a
candidate that is kept is, or the text of one that is not kept has an external piece. So no external
candidate is missed. If all are kept and no address has a comma, none is told that is not, and the
attribute stays where none is external. -/
theorem hasExternalCandidate_iff_readCandidates (value : Chars) :
    (hasExternalCandidate value ↔
      (∃ c ∈ readCandidates value, c.isKept ∧ ∃ piece ∈ Text.splitOn ',' c.url, isExternal piece) ∨
      ∃ c ∈ readCandidates value, ¬ c.isKept ∧ hasExternalCandidate c.source) ∧
    ((∃ c ∈ readCandidates value, c.isKept ∧ isExternal c.url) → hasExternalCandidate value) ∧
    ((∀ c ∈ readCandidates value, c.isKept ∧ .of ',' ∉ c.url) →
      (hasExternalCandidate value ↔ ∃ c ∈ readCandidates value, c.isKept ∧ isExternal c.url) ∧
      ((∀ c ∈ readCandidates value, ¬ isExternal c.url) → ∀ attrs,
        ("srcset".runes, value) ∈ attrs → ("srcset".runes, value) ∈ stripAttributes attrs)) := by
  have hany : hasExternalCandidate value ↔
      ∃ c ∈ readCandidates value, hasExternalCandidate c.source := by
    rw [hasExternalCandidate_eq_any, List.any_eq_true]
  refine ⟨?_, ?_, fun hall => ?_⟩
  · rw [hany]
    constructor
    · rintro ⟨c, hc, hsource⟩
      by_cases hkept : c.isKept
      · rw [source_of_isKept hc hkept, hasExternalCandidate_iff] at hsource
        exact Or.inl ⟨c, hc, hkept, hsource⟩
      · exact Or.inr ⟨c, hc, hkept, hsource⟩
    · rintro (⟨c, hc, hkept, hpiece⟩ | ⟨c, hc, -, hsource⟩)
      · rw [← hasExternalCandidate_iff, ← source_of_isKept hc hkept] at hpiece
        exact ⟨c, hc, hpiece⟩
      · exact ⟨c, hc, hsource⟩
  · rintro ⟨c, hc, hkept, hexternal⟩
    refine hany.2 ⟨c, hc, ?_⟩
    rw [source_of_isKept hc hkept]
    exact hasExternalCandidate_of_isExternal hexternal
  · have hiff : hasExternalCandidate value ↔
        ∃ c ∈ readCandidates value, c.isKept ∧ isExternal c.url := by
      rw [hany]
      refine exists_congr fun c => and_congr_right fun hc => ?_
      obtain ⟨hkept, hcomma⟩ := hall c hc
      rw [source_of_isKept hc hkept, hasExternalCandidate_of_not_mem hcomma]
      exact (and_iff_right hkept).symm
    refine ⟨hiff, fun hinside attrs hmem => ?_⟩
    have hnone : hasExternalCandidate value = false := by
      rw [Bool.eq_false_iff, ne_eq, hiff]
      rintro ⟨c, hc, -, hexternal⟩
      exact hinside c hc hexternal
    exact mem_stripAttributes_srcset hnone hmem

/-- A data address without a comma, and an image from outside. -/
def mixedSet : Chars := "data:image/svg+xml;utf8 1x, //evil.example/b.png 2x".runes

theorem hasExternalCandidate_iff_readCandidates_mixedSet : hasExternalCandidate mixedSet :=
  ((hasExternalCandidate_iff_readCandidates mixedSet).2.2 (by decide +kernel)).1.2
    (by decide +kernel)

/-- A set of one data address, in which two slashes follow a comma. -/
def dataSet : Chars := "data:image/png;base64,//8AAA 1x".runes

/-- A comma inside an address is taken for the end of a candidate. -/
theorem not_hasExternalCandidate_iff_readCandidates : ¬ ∀ value, hasExternalCandidate value ↔
    ∃ c ∈ readCandidates value, c.isKept ∧ isExternal c.url := by
  intro hall
  have htold : hasExternalCandidate dataSet := by decide +kernel
  exact absurd ((hall dataSet).1 htold) (by decide +kernel)

end Candidates

end Folio.Resource
