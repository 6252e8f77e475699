import Folio.Text.Blank
import Folio.Text.Search

/-!
Texts in pieces: what is replaced in a text and what is not, the pieces between separators, and
words with single spaces, which are the same words when the text is split again.
-/
namespace Folio.Text

section Search

variable {c d : Rune} {s pat new : Chars}

theorem mem_of_mem_replaceGo {skip : Nat} (h : d ∈ replaceGo pat new skip s) :
    d ∈ s ∨ d ∈ new := by
  induction s generalizing skip with
  | nil =>
      rw [replaceGo] at h
      exact absurd h List.not_mem_nil
  | cons e s ih =>
      have hlater : ∀ {skip : Nat}, d ∈ replaceGo pat new skip s → d ∈ e :: s ∨ d ∈ new :=
        fun hmem => (ih hmem).imp_left (List.mem_cons_of_mem e)
      cases skip with
      | succ skip => exact hlater h
      | zero =>
          rw [replaceGo] at h
          split at h
          · exact (List.mem_append.1 h).elim Or.inr hlater
          · rcases List.mem_cons.1 h with rfl | hmem
            · exact Or.inl List.mem_cons_self
            · exact hlater hmem

theorem mem_of_mem_replaceAll (h : d ∈ replaceAll pat new s) : d ∈ s ∨ d ∈ new :=
  mem_of_mem_replaceGo h

theorem replaceAll_of_not_mem (pat : Chars) (hs : c ∉ s) : replaceAll (c :: pat) new s = s := by
  induction s with
  | nil => rfl
  | cons e s ih =>
      obtain ⟨hne, htail⟩ := not_or.1 (mt List.mem_cons.2 hs)
      have hhead : (c :: pat).isPrefixOf (e :: s) = false := by
        rw [List.isPrefixOf, beq_false_of_ne hne, Bool.false_and]
      rw [replaceAll, replaceGo, hhead, if_neg Bool.false_ne_true]
      exact congrArg (e :: ·) (ih htail)

theorem replaceAll_singleton (c : Rune) (new s : Chars) :
    replaceAll [c] new s = s.flatMap fun e => if e == c then new else [e] := by
  induction s with
  | nil => rfl
  | cons e s ih =>
      have hhead : [c].isPrefixOf (e :: s) = (c == e) := by
        rw [List.isPrefixOf, List.isPrefixOf, Bool.and_true]
      rw [replaceAll, replaceGo, hhead, List.flatMap_cons, ← ih]
      by_cases heq : e = c
      · rw [heq, beq_self_eq_true, if_pos rfl, if_pos rfl]
        rfl
      · rw [beq_false_of_ne heq, beq_false_of_ne (Ne.symm heq), if_neg Bool.false_ne_true,
          if_neg Bool.false_ne_true]
        rfl

/-- Before the first separator, text goes into the first piece. -/
theorem splitOn_append_of_not_mem {run first : Chars} {pieces : List Chars} (hrun : c ∉ run)
    (h : splitOn c s = first :: pieces) : splitOn c (run ++ s) = (run ++ first) :: pieces := by
  induction run with
  | nil => exact h
  | cons d run ih =>
      obtain ⟨hd, hlater⟩ := List.ne_and_not_mem_of_not_mem_cons hrun
      rw [List.cons_append, splitOn, ih hlater]
      dsimp only
      rw [beq_false_of_ne (Ne.symm hd), if_neg Bool.false_ne_true]
      rfl

theorem splitOn_of_not_mem (hs : c ∉ s) : splitOn c s = [s] := by
  have h := splitOn_append_of_not_mem hs (rfl : splitOn c [] = [[]])
  rwa [List.append_nil] at h

theorem exists_splitOn_eq_cons (c : Rune) (s : Chars) : ∃ piece pieces,
    splitOn c s = piece :: pieces := by
  cases s with
  | nil => exact ⟨[], [], rfl⟩
  | cons e s =>
      rw [splitOn]
      split
      · exact ⟨[e], [], rfl⟩
      · split
        · exact ⟨_, _, rfl⟩
        · exact ⟨_, _, rfl⟩

/-- The first piece begins the text, and the others stand in it. -/
theorem splitOn_sound {first : Chars} {pieces : List Chars} (h : splitOn c s = first :: pieces) :
    first <+: s ∧ ∀ piece ∈ pieces, piece <:+: s := by
  induction s generalizing first pieces with
  | nil =>
      obtain ⟨rfl, rfl⟩ := List.cons.inj h
      exact ⟨List.prefix_refl _, fun _ hpiece => absurd hpiece List.not_mem_nil⟩
  | cons e s ih =>
      obtain ⟨head, tail, hsplit⟩ := exists_splitOn_eq_cons c s
      obtain ⟨hhead, htail⟩ := ih hsplit
      rw [splitOn, hsplit] at h
      dsimp only at h
      split at h
      · obtain ⟨rfl, rfl⟩ := List.cons.inj h
        refine ⟨List.nil_prefix, List.forall_mem_cons.2 ⟨?_, fun piece hpiece => ?_⟩⟩
        · exact hhead.isInfix.trans (List.suffix_cons e s).isInfix
        · exact (htail piece hpiece).trans (List.suffix_cons e s).isInfix
      · obtain ⟨rfl, rfl⟩ := List.cons.inj h
        exact ⟨(List.prefix_cons_inj e).2 hhead,
          fun piece hpiece => (htail piece hpiece).trans (List.suffix_cons e s).isInfix⟩

theorem splitOn_isInfix {piece : Chars} (h : piece ∈ splitOn c s) : piece <:+: s := by
  obtain ⟨first, pieces, hsplit⟩ := exists_splitOn_eq_cons c s
  obtain ⟨hfirst, hpieces⟩ := splitOn_sound hsplit
  rw [hsplit, List.mem_cons] at h
  rcases h with rfl | hlater
  · exact hfirst.isInfix
  · exact hpieces piece hlater

theorem mem_of_mem_splitOn {piece : Chars} (hpiece : piece ∈ splitOn c s) (hd : d ∈ piece) :
    d ∈ s :=
  (splitOn_isInfix hpiece).subset hd

/-- A piece that ends with its separator is the first one. -/
theorem splitOn_append (hs : c ∉ s) (rest : Chars) :
    splitOn c (s ++ c :: rest) = s :: splitOn c rest := by
  have hfirst : splitOn c (c :: rest) = [] :: splitOn c rest := by
    obtain ⟨piece, pieces, hsplit⟩ := exists_splitOn_eq_cons c rest
    rw [splitOn, hsplit]
    dsimp only
    rw [if_pos (beq_self_eq_true c)]
  have h := splitOn_append_of_not_mem hs hfirst
  rwa [List.append_nil] at h

end Search

/-- A word has characters, and none of them separates words. -/
def IsWord (sep : Rune → Bool) (word : Chars) : Prop := word ≠ [] ∧ ∀ c ∈ word, sep c = false

instance {sep : Rune → Bool} {word : Chars} : Decidable (IsWord sep word) :=
  decidable_of_iff (word ≠ [] ∧ word.all fun c => !sep c) (by simp [IsWord])

section Words

variable {sep : Rune → Bool} {s word : Chars} {ws : List Chars}

theorem isWord_reverse (hne : ¬ word.isEmpty = true) (hword : ∀ c ∈ word, sep c = false) :
    IsWord sep word.reverse := by
  constructor
  · intro hnil
    rw [List.reverse_eq_nil_iff] at hnil
    rw [hnil] at hne
    exact hne rfl
  · intro c hc
    exact hword c (List.mem_reverse.1 hc)

theorem isWord_of_mem_wordsGo (hword : ∀ c ∈ word, sep c = false) {w : Chars}
    (hw : w ∈ wordsGo sep word s) : IsWord sep w := by
  induction s generalizing word with
  | nil =>
      rw [wordsGo] at hw
      split at hw
      · exact absurd hw List.not_mem_nil
      · rename_i hne
        rw [List.mem_singleton.1 hw]
        exact isWord_reverse hne hword
  | cons c s ih =>
      have hnil : ∀ d ∈ ([] : Chars), sep d = false := fun d hd => absurd hd List.not_mem_nil
      rw [wordsGo] at hw
      split at hw
      · split at hw
        · exact ih hnil hw
        · rename_i hne
          rcases List.mem_cons.1 hw with rfl | hlater
          · exact isWord_reverse hne hword
          · exact ih hnil hlater
      · rename_i hc
        refine ih (fun d hd => ?_) hw
        rcases List.mem_cons.1 hd with rfl | hold
        · exact Bool.eq_false_iff.2 hc
        · exact hword d hold

theorem isWord_of_mem_wordsBy {w : Chars} (hw : w ∈ wordsBy sep s) : IsWord sep w :=
  isWord_of_mem_wordsGo (fun _ hc => absurd hc List.not_mem_nil) hw

/-- The word under way grows by characters that separate nothing. -/
theorem wordsGo_append {run : Chars} (hrun : ∀ c ∈ run, sep c = false) (rest : Chars) :
    wordsGo sep word (run ++ rest) = wordsGo sep (run.reverse ++ word) rest := by
  induction run generalizing word with
  | nil => rfl
  | cons c run ih =>
      rw [List.cons_append, wordsGo, hrun c List.mem_cons_self, if_neg Bool.false_ne_true,
        ih fun d hd => hrun d (List.mem_cons_of_mem c hd), List.reverse_cons, List.append_assoc]
      rfl

theorem wordsBy_append (hsep : sep ' ') (hword : IsWord sep word) (rest : Chars) :
    wordsBy sep (word ++ .of ' ' :: rest) = word :: wordsBy sep rest := by
  have hne : ¬ word.reverse.isEmpty = true := by
    rw [List.isEmpty_iff, List.reverse_eq_nil_iff]
    exact hword.1
  rw [wordsBy, wordsGo_append hword.2, List.append_nil, wordsGo, if_pos hsep, if_neg hne,
    List.reverse_reverse]
  rfl

theorem wordsBy_word (hword : IsWord sep word) : wordsBy sep word = [word] := by
  have hgo : wordsGo sep [] (word ++ []) = wordsGo sep (word.reverse ++ []) [] :=
    wordsGo_append hword.2 []
  have hne : ¬ word.reverse.isEmpty = true := by
    rw [List.isEmpty_iff, List.reverse_eq_nil_iff]
    exact hword.1
  rw [List.append_nil, List.append_nil] at hgo
  rw [wordsBy, hgo, wordsGo, if_neg hne, List.reverse_reverse]

/-- Words with single spaces are the same words when the text is split again. -/
theorem wordsBy_spaced (hsep : sep ' ') (hws : ∀ w ∈ ws, IsWord sep w) :
    wordsBy sep (spaced ws) = ws := by
  induction ws with
  | nil => rfl
  | cons first ws ih =>
      have hfirst := hws first List.mem_cons_self
      have ih := ih fun w hw => hws w (List.mem_cons_of_mem first hw)
      cases ws with
      | nil =>
          rw [spaced, List.intercalate_singleton]
          exact wordsBy_word hfirst
      | cons second ws =>
          have hspaced : spaced (first :: second :: ws) =
              first ++ .of ' ' :: spaced (second :: ws) := by
            simp [spaced, List.intercalate]
          rw [hspaced, wordsBy_append hsep hfirst, ih]

end Words

end Folio.Text
