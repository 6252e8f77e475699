import Folio.Proofs.Resource.References

/-!
When no reference to the outside survives the stripping of a style sheet. After the imports are
stripped, a reference survives where nothing is found, and in a mention that is kept; no other
reference comes to be when addresses are replaced.
-/
namespace Folio.Resource

section Replaced

variable {find? : Chars → Option Mention} {new s : Chars} {c : Rune} {m : Mention}

/-- How long the reading may go on does not matter, if it may for the whole text. -/
theorem replaceMentions_fuel (hf : Finds find? new) {fuel fuel' : Nat} (h : s.length < fuel)
    (h' : s.length < fuel') :
    replaceMentions find? new fuel s = replaceMentions find? new fuel' s := by
  induction fuel generalizing s fuel' with
  | zero => exact absurd h (Nat.not_lt_zero _)
  | succ fuel ih =>
      obtain ⟨fuel', rfl⟩ := Nat.exists_eq_succ_of_ne_zero (Nat.ne_zero_of_lt h')
      cases s with
      | nil => rfl
      | cons c s =>
          rw [List.length_cons, Nat.succ_lt_succ_iff] at h h'
          rw [replaceMentions, replaceMentions]
          cases hfind : find? (c :: s) with
          | none =>
              dsimp only
              rw [ih h h']
          | some m =>
              have hlength := hf.length_eq hfind
              have hlonger := hf.longer hfind
              rw [List.length_cons] at hlength
              have hrest : replaceMentions find? new fuel m.rest =
                  replaceMentions find? new fuel' m.rest := ih (by omega) (by omega)
              dsimp only
              rw [hrest]

/-- The text with all mentions of external addresses replaced. -/
def replaced (find? : Chars → Option Mention) (new s : Chars) : Chars :=
  replaceMentions find? new (s.length + 1) s

theorem replaced_of_none (h : find? (c :: s) = none) :
    replaced find? new (c :: s) = c :: replaced find? new s := by
  rw [replaced, replaceMentions, h]
  rfl

theorem replaced_of_some (hf : Finds find? new) (h : find? s = some m) :
    replaced find? new s =
      (if isExternal m.url then new else m.text) ++ replaced find? new m.rest := by
  have hlength := hf.length_eq h
  have hlonger := hf.longer h
  cases s with
  | nil =>
      rw [List.length_nil] at hlength
      omega
  | cons c s =>
      rw [replaced, replaceMentions, h]
      dsimp only
      rw [replaced, replaceMentions_fuel hf (by omega) (Nat.lt_succ_self _)]

theorem replaced_of_clean (hf : Finds find? new) (h : Clean find? s) : replaced find? new s = s :=
  replaceMentions_of_clean hf h (Nat.lt_succ_self _)

end Replaced

theorem stripImports_eq (s : Chars) : stripImports s = replaced import? [] s := rfl

theorem stripUrls_eq (s : Chars) : stripUrls s = replaced url? "none".runes s := rfl

/-- A text that cannot leave the document would not be changed anyway. -/
theorem stripCss_eq (s : Chars) : stripCss s = stripUrls (stripImports s) := by
  rw [stripCss]
  split
  · rfl
  · rename_i hleaves
    rw [stripImports_eq, replaced_of_clean finds_import (clean_of_not_mayLeave finds_import hleaves),
      stripUrls_eq, replaced_of_clean finds_url (clean_of_not_mayLeave finds_url hleaves)]

section Surviving

variable {s t u : Chars} {c : Rune} {m : Mention}

/-- Read from left to right, no reference to the outside stands where no address is found, and none
in a mention that is kept. -/
inductive Caught : Chars → Prop
  | nil : Caught []
  | skip {c : Rune} {s : Chars} (hnone : url? (c :: s) = none)
      (hpoints : pointsOutside (c :: s) = false) (hs : Caught s) : Caught (c :: s)
  | replaced {s : Chars} {m : Mention} (hsome : url? s = some m) (hurl : isExternal m.url)
      (hrest : Caught m.rest) : Caught s
  | kept {s : Chars} {m : Mention} (hsome : url? s = some m) (hurl : isExternal m.url = false)
      (htext : Inward m.text) (hrest : Caught m.rest) : Caught s

theorem url?_nil : url? [] = none := rfl

theorem caught_iff_of_none (h : url? (c :: s) = none) :
    Caught (c :: s) ↔ pointsOutside (c :: s) = false ∧ Caught s := by
  constructor
  · intro hcaught
    cases hcaught with
    | skip _ hpoints hs => exact ⟨hpoints, hs⟩
    | replaced hsome => rw [h] at hsome; contradiction
    | kept hsome => rw [h] at hsome; contradiction
  · exact fun hboth => .skip h hboth.1 hboth.2

theorem caught_iff_of_some (h : url? s = some m) :
    Caught s ↔ (isExternal m.url = false → Inward m.text) ∧ Caught m.rest := by
  constructor
  · intro hcaught
    cases hcaught with
    | nil => rw [url?_nil] at h; contradiction
    | skip hnone => rw [h] at hnone; contradiction
    | replaced hsome hurl hrest =>
        obtain rfl := Option.some.inj (h.symm.trans hsome)
        refine ⟨fun hlocal => ?_, hrest⟩
        rw [hlocal] at hurl
        contradiction
    | kept hsome hurl htext hrest =>
        obtain rfl := Option.some.inj (h.symm.trans hsome)
        exact ⟨fun _ => htext, hrest⟩
  · rintro ⟨htext, hrest⟩
    cases hurl : isExternal m.url with
    | true => exact .replaced h hurl hrest
    | false => exact .kept h hurl (htext hurl) hrest

theorem caught_of_quiet (hs : quiet s) : Caught s := by
  induction s with
  | nil => exact .nil
  | cons c s ih =>
      obtain ⟨hhead, hlater⟩ := quiet_cons_iff.1 hs
      exact .skip (startsWith_url.none (hhead _ startsWith_url.mem))
        (pointsOutside_of_no_word hhead) (ih hlater)

theorem toLower_eq_u (h : c.toLower = 'u') : c = 'u' ∨ c = 'U' := by
  unfold Rune.toLower at h
  split at h
  · right
    rename_i hupper
    rw [Rune.isUpper, Bool.and_eq_true, decide_eq_true_eq, decide_eq_true_eq] at hupper
    have hnat := congrArg Rune.toNat h
    rw [Rune.toNat_ofNat (by omega)] at hnat
    exact Rune.toNat_inj.1 (Nat.add_right_cancel (hnat : _ = Rune.toNat 'U' + 32))
  · exact Or.inl h

theorem endsReference_of_sameLetter (h : Text.sameLetter 'u' c) : endsReference c := by
  have hlower : c.toLower = 'u' := by simpa [Text.sameLetter] using h
  rcases toLower_eq_u hlower with rfl | rfl <;> decide

/-- A mention of an address ends what is read of a reference before it. -/
theorem endsReference_of_url? (h : url? (c :: s) = some m) : endsReference c := by
  apply endsReference_of_sameLetter
  by_contra hother
  have hnone : Text.dropWord? "url(".runes (c :: s) = none := if_neg hother
  rw [startsWith_url.none hnone] at h
  contradiction

/-- A mention of an address ends with its parenthesis. -/
theorem exists_text_of_url? (h : url? s = some m) : ∃ front, m.text = front ++ [.of ')'] := by
  rw [url?_eq] at h
  obtain ⟨⟨url, rest⟩, hfound, rfl⟩ := Option.map_eq_some_iff.1 h
  obtain ⟨body, hword, haddress⟩ := Option.bind_eq_some_iff.1 hfound
  obtain ⟨before, rfl, -⟩ := exists_of_dropWord? hword
  have hclosed := ((urlAddress?_sound haddress).2.trans (Text.trimLeft_suffix body)).trans
    (List.suffix_append before body)
  obtain ⟨front, hfront⟩ := hclosed
  refine ⟨front, ?_⟩
  have hsplit : between (before ++ body) rest ++ rest = front ++ [.of ')'] ++ rest := by
    rw [between_append ((List.suffix_cons _ rest).trans ⟨front, hfront⟩), ← hfront,
      List.append_assoc]
    rfl
  exact List.append_cancel_right hsplit

/-- What is read of a reference from its first character on is not changed when the addresses
after this character are replaced. -/
theorem pointsOutside_append_stripUrls (hu : u ≠ []) (s : Chars) :
    pointsOutside (u ++ stripUrls s) = pointsOutside (u ++ s) := by
  induction s generalizing u with
  | nil => rfl
  | cons c s ih =>
      cases hfind : url? (c :: s) with
      | none =>
          have hlonger : u ++ [c] ≠ [] := List.append_ne_nil_of_right_ne_nil u (List.cons_ne_nil c [])
          rw [stripUrls_eq, replaced_of_none hfind, ← stripUrls_eq, List.append_cons, ih hlonger,
            ← List.append_cons]
      | some m =>
          have hends := endsReference_of_url? hfind
          rw [pointsOutside_append_cons hends hu, stripUrls_eq, replaced_of_some finds_url hfind]
          split
          · exact pointsOutside_append_cons (by decide) hu _
          · have hsplit := finds_url.split hfind
            have hlonger := finds_url.longer hfind
            obtain ⟨d, text, htext⟩ := List.exists_cons_of_length_pos (Nat.zero_lt_of_lt hlonger)
            rw [htext, List.cons_append, List.cons.injEq] at hsplit
            rw [htext, hsplit.1, List.cons_append]
            exact pointsOutside_append_cons hends hu _

theorem inward_none_append (t : Chars) : Inward ("none".runes ++ t) ↔ Inward t := by
  have hletters : ∀ c s, isLater c → (Inward (c :: s) ↔ Inward s) := by
    intro c s hc
    rw [inward_cons_iff, pointsOutside_of_no_word fun _ hword => dropWord?_of_isLater hc hword s]
    exact and_iff_right rfl
  change Inward (.of 'n' :: .of 'o' :: .of 'n' :: .of 'e' :: t) ↔ Inward t
  rw [hletters _ _ (by decide), hletters _ _ (by decide), hletters _ _ (by decide),
    hletters _ _ (by decide)]

/-- When the external addresses of a text are replaced, no reference to the outside is left if and
only if all of them were caught. -/
theorem inward_stripUrls_iff (s : Chars) : Inward (stripUrls s) ↔ Caught s := by
  induction hn : s.length using Nat.strongRecOn generalizing s with
  | ind n ih =>
      cases s with
      | nil => exact iff_of_true inward_nil .nil
      | cons c s =>
          rw [List.length_cons] at hn
          cases hfind : url? (c :: s) with
          | none =>
              have hpoints := pointsOutside_append_stripUrls (List.cons_ne_nil c []) s
              rw [caught_iff_of_none hfind, stripUrls_eq, replaced_of_none hfind, ← stripUrls_eq,
                inward_cons_iff, ih s.length (by omega) s rfl]
              rw [List.singleton_append, List.singleton_append] at hpoints
              rw [hpoints]
          | some m =>
              have hlength := finds_url.length_eq hfind
              have hlonger := finds_url.longer hfind
              rw [List.length_cons] at hlength
              rw [caught_iff_of_some hfind, ← ih m.rest.length (by omega) m.rest rfl, stripUrls_eq,
                replaced_of_some finds_url hfind, ← stripUrls_eq]
              cases hurl : isExternal m.url with
              | true =>
                  rw [if_pos rfl, inward_none_append]
                  simp
              | false =>
                  obtain ⟨front, hfront⟩ := exists_text_of_url? hfind
                  rw [if_neg Bool.false_ne_true, hfront, List.append_assoc, List.singleton_append,
                    inward_append_cons_iff (by decide) (by decide)]
                  simp

end Surviving

end Folio.Resource
