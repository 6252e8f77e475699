import Folio.Proofs.Text.Lowering

/-!
Texts in lower case. Lowering them again changes nothing, and none of the characters that markup is
made of comes from lowering another one.
-/
namespace Folio.Text

/-- A blank, or one of the marks that stand in tags. -/
def isTagMark (c : Rune) : Bool := isBlank c || c == '/' || c == '>' || c == '=' || c == '\x00'

/-- The code points that the run is mapped to: the first and the last. -/
def CaseRun.low (r : CaseRun) : Nat := ((r.first : Int) + r.shift).toNat

def CaseRun.high (r : CaseRun) : Nat := ((r.last : Int) + r.shift).toNat

/-- The images of the run are characters: not in ASCII but for the letter k, not the dotted capital
i, and no blanks. -/
def CaseRun.sound (r : CaseRun) : Bool :=
  (128 ≤ r.low || r.low == 107 && r.high == 107) &&
    (r.high < 0xD800 || 0xE000 ≤ r.low && r.high < 0x110000) &&
    (0x130 :: blankCodes).all fun n => n < r.low || r.high < n

/-- No code point between `low` and `high`, in steps of `step`, is in the run. -/
def CaseRun.misses (step low high : Nat) (r : CaseRun) : Bool :=
  Nat.blt high r.first || (Nat.blt r.last low || (Nat.beq r.step 2 &&
    ((Nat.beq step 2 || Nat.beq low high) && Nat.beq ((low + r.first) % 2) 1)))

theorem sound_lowerRuns : ∀ r ∈ lowerRuns, r.sound := by decide +kernel

theorem positive_lowerRuns : ∀ r ∈ lowerRuns, -(r.first : Int) ≤ r.shift := by decide +kernel

/-- The images of the runs lie between the runs. -/
theorem misses_lowerRuns :
    ∀ r ∈ lowerRuns, lowerRuns.all (CaseRun.misses r.step r.low r.high) := by
  decide +kernel

section Runs

variable {n m : Nat}

/-- What a code point is mapped to lies among the images of its run. -/
theorem exists_run_of_apply? (h : CaseRun.apply? lowerRuns n = some m) :
    ∃ r ∈ lowerRuns, r.low ≤ m ∧ m ≤ r.high ∧ (r.step = 2 → (m + r.low) % 2 = 0) := by
  obtain ⟨r, hfind, hm⟩ := Option.map_eq_some_iff.1 h
  have hmem := List.mem_of_find?_eq_some hfind
  have hpositive := positive_lowerRuns r hmem
  have hin := List.find?_some hfind
  simp only [Bool.and_eq_true, decide_eq_true_eq, beq_iff_eq] at hin
  refine ⟨r, hmem, ?_, ?_, fun hstep => ?_⟩
  · unfold CaseRun.low
    omega
  · unfold CaseRun.high
    omega
  · unfold CaseRun.low
    rw [hstep] at hin
    omega

theorem apply?_eq_none_of_misses (h : ∀ q ∈ lowerRuns, ¬ (q.first ≤ m ∧ m ≤ q.last ∧
    (m - q.first) % q.step = 0)) : CaseRun.apply? lowerRuns m = none := by
  unfold CaseRun.apply?
  rw [Option.map_eq_none_iff, List.find?_eq_none]
  intro q hq hin
  simp only [Bool.and_eq_true, decide_eq_true_eq, beq_iff_eq, and_assoc] at hin
  exact h q hq hin

/-- A lower case form has none of its own. -/
theorem apply?_apply? (h : CaseRun.apply? lowerRuns n = some m) :
    CaseRun.apply? lowerRuns m = none := by
  obtain ⟨r, hr, hlow, hhigh, hparity⟩ := exists_run_of_apply? h
  refine apply?_eq_none_of_misses fun q hq hin => ?_
  have hmisses := List.all_eq_true.1 (misses_lowerRuns r hr) q hq
  simp only [CaseRun.misses, Bool.or_eq_true, Bool.and_eq_true, Nat.blt_eq, Nat.beq_eq] at hmisses
  rcases hmisses with hbelow | habove | ⟨hstep, hsame, hodd⟩
  · omega
  · omega
  · rw [hstep] at hin
    rcases hsame with htwo | hone
    · have heven := hparity htwo
      omega
    · omega

end Runs

section Characters

variable {c d : Rune} {s : Chars}

/-- A property of all characters below a code point, checked one by one. -/
theorem below_forall {P : Rune → Prop} {bound : Nat} (h : ∀ n ∈ List.range bound, P (Rune.ofNat n))
    (hc : c.toNat < bound) : P c := by
  have hcode := h c.toNat (List.mem_range.2 hc)
  rwa [Rune.ofNat_toNat] at hcode

/-- A property of all characters of ASCII. -/
theorem ascii_forall {P : Rune → Prop} (h : ∀ n ∈ List.range 128, P (Rune.ofNat n))
    (hc : c.toNat < 128) : P c :=
  below_forall h hc

/-- Beyond ASCII no character has a capital that counts. -/
theorem toLower_of_not_ascii (h : ¬ c.toNat < 128) : c.toLower = c := by
  have hupper : ¬ c.isUpper := by
    simp only [Rune.isUpper, Bool.and_eq_true, decide_eq_true_eq]
    omega
  rw [Rune.toLower, if_neg hupper]

/-- The character is its own lower case form, and that of no tag mark but itself. -/
structure LowerOf (c d : Rune) : Prop where
  ne_sigma : d ≠ 'Σ'
  lower : lowerChar d = [d]
  mark (hd : isTagMark d) : c = d

instance (c d : Rune) : Decidable (LowerOf c d) :=
  decidable_of_iff (d ≠ 'Σ' ∧ lowerChar d = [d] ∧ (isTagMark d → c = d))
    ⟨fun ⟨hne, hlower, hmark⟩ => ⟨hne, hlower, hmark⟩, fun h => ⟨h.ne_sigma, h.lower, h.mark⟩⟩

/-- A character in lower case that is no tag mark may come from any character. -/
theorem LowerOf.of_not_mark (hsigma : d ≠ 'Σ') (hlower : lowerChar d = [d])
    (hmark : ¬ isTagMark d) : LowerOf c d :=
  ⟨hsigma, hlower, fun hd => absurd hd hmark⟩

theorem lowerOf_toLower (hc : c.toNat < 128) : LowerOf c c.toLower :=
  ascii_forall (P := fun c => LowerOf c c.toLower) (by decide +kernel) hc

/-- The image of a code point in a run is a character. -/
theorem CaseRun.toNat_image {r : CaseRun} {m : Nat} (h : r.sound) (hlow : r.low ≤ m)
    (hhigh : m ≤ r.high) : (Rune.ofNat m).toNat = m := by
  simp only [CaseRun.sound, Bool.and_eq_true, Bool.or_eq_true, decide_eq_true_eq] at h
  refine Rune.toNat_ofNat ?_
  omega

theorem CaseRun.avoids_of_sound {r : CaseRun} {n : Nat} (h : r.sound)
    (hn : n ∈ 0x130 :: blankCodes) : n < r.low ∨ r.high < n := by
  rw [CaseRun.sound, Bool.and_eq_true, List.all_eq_true] at h
  simpa only [Bool.or_eq_true, decide_eq_true_eq] using h.2 n hn

/-- No blank is an image of a run, and the other marks are in ASCII. -/
theorem CaseRun.not_isTagMark_image {r : CaseRun} {m : Nat} (h : r.sound) (hlow : r.low ≤ m)
    (hhigh : m ≤ r.high) (hbeyond : 128 ≤ m) : ¬ isTagMark (Rune.ofNat m) := by
  intro hmark
  have hcode : (Rune.ofNat m).toNat < 128 ∨ (Rune.ofNat m).toNat ∈ blankCodes := by
    simp only [isTagMark, Bool.or_eq_true, beq_iff_eq, or_assoc] at hmark
    rcases hmark with hblank | heq | heq | heq | heq
    · exact Or.inr (toNat_mem_blankCodes hblank)
    all_goals
      rw [heq]
      exact Or.inl (by decide)
  rw [CaseRun.toNat_image h hlow hhigh] at hcode
  rcases hcode with hascii | hblank
  · omega
  · have hmiss := CaseRun.avoids_of_sound h (List.mem_cons_of_mem _ hblank)
    omega

theorem lowerOf_of_apply? {n m : Nat} (h : CaseRun.apply? lowerRuns n = some m) :
    LowerOf c (Rune.ofNat m) := by
  obtain ⟨r, hr, hlow, hhigh, -⟩ := exists_run_of_apply? h
  have hsound := sound_lowerRuns r hr
  have hascii : 128 ≤ r.low ∨ r.low = 107 ∧ r.high = 107 := by
    simp only [CaseRun.sound, Bool.and_eq_true, Bool.or_eq_true, decide_eq_true_eq,
      beq_iff_eq] at hsound
    exact hsound.1.1
  rcases hascii with hbeyond | ⟨hk, hk'⟩
  · have hnone := apply?_apply? h
    have hnat := CaseRun.toNat_image hsound hlow hhigh
    have hdotted := CaseRun.avoids_of_sound hsound List.mem_cons_self
    refine .of_not_mark (fun hsigma => ?_) ?_
      (CaseRun.not_isTagMark_image hsound hlow hhigh (Nat.le_trans hbeyond hlow))
    · rw [hsigma] at hnat
      rw [← hnat] at hnone
      exact absurd hnone (by decide)
    · rw [lowerChar, hnat, if_neg (by omega), beq_false_of_ne (by omega),
        if_neg Bool.false_ne_true, hnone]
  · obtain rfl : m = 107 := by omega
    exact .of_not_mark (by decide) (by decide) (by decide)

theorem lowerOf_of_mem_lowerChar (hd : d ∈ lowerChar c) (hc : c ≠ 'Σ') : LowerOf c d := by
  unfold lowerChar at hd
  split at hd
  · rename_i hascii
    rw [List.mem_singleton.1 hd]
    exact lowerOf_toLower hascii
  · rename_i hascii
    split at hd
    · have hall : ∀ e ∈ [.of 'i', .of '\u0307'], LowerOf c e := by
        rw [List.forall_mem_cons, List.forall_mem_singleton]
        exact ⟨.of_not_mark (by decide) (by decide) (by decide),
          .of_not_mark (by decide) (by decide) (by decide)⟩
      exact hall d hd
    · rename_i hdotted
      split at hd
      · rename_i hrun
        rw [List.mem_singleton.1 hd]
        exact lowerOf_of_apply? hrun
      · rename_i hnone
        rw [List.mem_singleton.1 hd]
        exact ⟨hc, by rw [lowerChar, if_neg hascii, if_neg hdotted, hnone], fun _ => rfl⟩

theorem exists_of_mem_lowerGo {before : Chars} (hd : d ∈ lowerGo before s) :
    ∃ c ∈ s, LowerOf c d := by
  induction s generalizing before with
  | nil => exact absurd hd List.not_mem_nil
  | cons c s ih =>
      rw [lowerGo, List.mem_append] at hd
      rcases hd with hhere | hlater
      · refine ⟨c, List.mem_cons_self, ?_⟩
        split at hhere
        · have hsigmas : LowerOf c 'ς' ∧ LowerOf c 'σ' :=
            ⟨.of_not_mark (by decide) (by decide) (by decide),
              .of_not_mark (by decide) (by decide) (by decide)⟩
          split at hhere
          · exact List.mem_singleton.1 hhere ▸ hsigmas.1
          · exact List.mem_singleton.1 hhere ▸ hsigmas.2
        · rename_i hsigma
          exact lowerOf_of_mem_lowerChar hhere fun heq => hsigma (by rw [heq]; rfl)
      · obtain ⟨e, he, hlower⟩ := ih hlater
        exact ⟨e, List.mem_cons_of_mem c he, hlower⟩

/-- Every character of a text in lower case comes from one of the text. -/
theorem exists_of_mem_lower (hd : d ∈ lower s) : ∃ c ∈ s, LowerOf c d :=
  exists_of_mem_lowerGo hd

/-- A tag mark in lower case stands in the text itself. -/
theorem mem_of_mem_lower (hd : d ∈ lower s) (hmark : isTagMark d) : d ∈ s := by
  obtain ⟨c, hc, hlower⟩ := exists_of_mem_lower hd
  exact hlower.mark hmark ▸ hc

/-- A text of characters that are in lower case is in lower case. -/
theorem lower_eq_self (h : ∀ c ∈ s, c ≠ 'Σ' ∧ lowerChar c = [c]) : lower s = s := by
  have hgo : ∀ before, lowerGo before s = s := by
    induction s with
    | nil => exact fun _ => rfl
    | cons c s ih =>
        obtain ⟨hc, hlater⟩ := List.forall_mem_cons.1 h
        intro before
        rw [lowerGo, beq_false_of_ne hc.1, if_neg Bool.false_ne_true, hc.2, ih hlater]
        rfl
  exact hgo []

/-- A text in lower case stays as it is in lower case. -/
theorem lower_lower (s : Chars) : lower (lower s) = lower s :=
  lower_eq_self fun _ hd =>
    (exists_of_mem_lower hd).elim fun _ h => ⟨h.2.ne_sigma, h.2.lower⟩

end Characters

end Folio.Text
