import Folio.Proofs.Text.Lowering
import Folio.Proofs.Text.Trimming
import Folio.Resource.Stylesheet

/-!
Style sheets from which nothing is taken away. They are those in which no mention leads outside,
read from left to right: what replaces a mention is shorter than it, so a style sheet that keeps
its length keeps its mentions.
-/
namespace Folio.Resource

section Leaving

variable {s url : Chars}

/-- The words that begin the addresses from outside. -/
def leavingWords : List Chars := ["http:", "https:", "//"].map String.runes

theorem mayLeave_iff : mayLeave s ↔ ∃ word ∈ leavingWords, word <:+: Text.lower s := by
  simp [mayLeave, leavingWords, Text.occurs_iff, or_assoc]

/-- A text may leave the document if it has an external address inside. -/
theorem mayLeave_of_isInfix (h : url <:+: s) (hurl : isExternal url) : mayLeave s := by
  have hwords : ∀ word ∈ leavingWords, Text.NoSigma word := by decide
  have hword : ∃ word ∈ leavingWords, word <+: Text.lower (Text.trim url) := by
    simp only [isExternal, Bool.or_eq_true, List.isPrefixOf_iff_prefix] at hurl
    rcases hurl with (hhttp | hhttps) | hslashes
    · exact ⟨"http:".runes, by decide, List.IsPrefix.trans (by decide) hhttp⟩
    · exact ⟨"https:".runes, by decide, List.IsPrefix.trans (by decide) hhttps⟩
    · exact ⟨"//".runes, by decide, hslashes⟩
  obtain ⟨word, hmem, hlower⟩ := hword
  exact mayLeave_iff.2 ⟨word, hmem, Text.infix_lower_of_infix (hwords word hmem)
    ((Text.trim_isInfix url).trans h) hlower.isInfix⟩

end Leaving

section Replacing

variable {find? : Chars → Option Mention} {new s : Chars} {c : Rune} {m : Mention}

/-- What `find?` finds begins the text, has its address inside, and is longer than what it is
replaced by. -/
structure Finds (find? : Chars → Option Mention) (new : Chars) : Prop where
  split : ∀ {s m}, find? s = some m → m.text ++ m.rest = s
  within : ∀ {s m}, find? s = some m → m.url <:+: s
  longer : ∀ {s m}, find? s = some m → new.length < m.text.length

/-- No mention in the text leads outside, when it is read from left to right. -/
inductive Clean (find? : Chars → Option Mention) : Chars → Prop where
  | nil : Clean find? []
  | skip {c : Rune} {s : Chars} (hnone : find? (c :: s) = none) (hs : Clean find? s) :
      Clean find? (c :: s)
  | keep {c : Rune} {s : Chars} {m : Mention} (hsome : find? (c :: s) = some m)
      (hurl : isExternal m.url = false) (hrest : Clean find? m.rest) : Clean find? (c :: s)

theorem clean_iff_of_none (h : find? (c :: s) = none) :
    Clean find? (c :: s) ↔ Clean find? s := by
  constructor
  · intro hclean
    cases hclean with
    | skip _ hs => exact hs
    | keep hsome => rw [h] at hsome; contradiction
  · exact .skip h

theorem clean_iff_of_some (h : find? (c :: s) = some m) :
    Clean find? (c :: s) ↔ isExternal m.url = false ∧ Clean find? m.rest := by
  constructor
  · intro hclean
    cases hclean with
    | skip hnone => rw [h] at hnone; contradiction
    | keep hsome hurl hrest =>
        obtain rfl := Option.some.inj (h.symm.trans hsome)
        exact ⟨hurl, hrest⟩
  · exact fun hboth => .keep h hboth.1 hboth.2

theorem Finds.length_eq (hf : Finds find? new) (h : find? s = some m) :
    s.length = m.text.length + m.rest.length := by
  rw [← hf.split h, List.length_append]

/-- Replacing does not make a text longer, and leaves the length only of a clean one. -/
theorem length_replaceMentions (hf : Finds find? new) {fuel : Nat} (hfuel : s.length < fuel) :
    (replaceMentions find? new fuel s).length ≤ s.length ∧
    ((replaceMentions find? new fuel s).length = s.length → Clean find? s) := by
  induction fuel generalizing s with
  | zero => exact absurd hfuel (Nat.not_lt_zero _)
  | succ fuel ih =>
      cases s with
      | nil => exact ⟨Nat.le_refl _, fun _ => .nil⟩
      | cons c s =>
          rw [replaceMentions]
          cases hfind : find? (c :: s) with
          | none =>
              obtain ⟨hle, hclean⟩ := ih (s := s) (Nat.lt_of_succ_lt_succ hfuel)
              dsimp only
              rw [List.length_cons, List.length_cons]
              exact ⟨Nat.succ_le_succ hle, fun heq => .skip hfind (hclean (Nat.succ.inj heq))⟩
          | some m =>
              have hlength := hf.length_eq hfind
              have hlonger := hf.longer hfind
              obtain ⟨hle, hclean⟩ := ih (s := m.rest) (by omega)
              dsimp only
              rw [List.length_append, hlength]
              cases hurl : isExternal m.url with
              | true =>
                  rw [if_pos rfl]
                  exact ⟨by omega, fun heq => by omega⟩
              | false =>
                  rw [if_neg Bool.false_ne_true]
                  exact ⟨by omega, fun heq => .keep hfind hurl (hclean (by omega))⟩

theorem replaceMentions_of_clean (hf : Finds find? new) (h : Clean find? s) {fuel : Nat}
    (hfuel : s.length < fuel) : replaceMentions find? new fuel s = s := by
  induction h generalizing fuel with
  | nil => cases fuel <;> rfl
  | skip hnone _ ih =>
      obtain ⟨fuel, rfl⟩ := Nat.exists_eq_succ_of_ne_zero (Nat.ne_zero_of_lt hfuel)
      rw [replaceMentions, hnone]
      dsimp only
      rw [ih (Nat.lt_of_succ_lt_succ hfuel)]
  | keep hsome hurl _ ih =>
      obtain ⟨fuel, rfl⟩ := Nat.exists_eq_succ_of_ne_zero (Nat.ne_zero_of_lt hfuel)
      have hlength := hf.length_eq hsome
      have hlonger := hf.longer hsome
      rw [replaceMentions, hsome]
      dsimp only
      rw [hurl, if_neg Bool.false_ne_true, ih (by omega), hf.split hsome]

/-- A text is clean if all addresses that may be found in it stay inside. -/
theorem clean_of_local (hf : Finds find? new)
    (h : ∀ t m, t <:+ s → find? t = some m → isExternal m.url = false) : Clean find? s := by
  induction hn : s.length using Nat.strongRecOn generalizing s with
  | ind n ih =>
      cases s with
      | nil => exact .nil
      | cons c s =>
          cases hfind : find? (c :: s) with
          | none =>
              refine .skip hfind (ih s.length (by rw [← hn]; exact Nat.lt_succ_self _) ?_ rfl)
              exact fun t m ht => h t m (ht.trans (List.suffix_cons c s))
          | some m =>
              have hlength := hf.length_eq hfind
              have hlonger := hf.longer hfind
              have hsuffix : m.rest <:+ c :: s := ⟨m.text, hf.split hfind⟩
              refine .keep hfind (h _ m (List.suffix_refl _) hfind)
                (ih m.rest.length (by omega) ?_ rfl)
              exact fun t m' ht => h t m' (ht.trans hsuffix)

/-- A text that cannot leave the document mentions no external address. -/
theorem clean_of_not_mayLeave (hf : Finds find? new) (h : ¬ mayLeave s) : Clean find? s := by
  apply clean_of_local hf
  intro t m ht hfind
  rw [← Bool.not_eq_true]
  intro hurl
  exact h (mayLeave_of_isInfix ((hf.within hfind).trans ht.isInfix) hurl)

end Replacing

section Addresses

/-- The address of an import after its word and the blanks, and what follows it. -/
def importAddress? (body : Chars) : Option (Chars × Chars) :=
  ((Text.dropWord? "url(".runes body).bind fun inside =>
    importUrl? (Text.trimLeft inside)).orElse fun _ => importUrl? body

/-- What follows an import after its address, from the semicolon on. -/
def afterImport (after : Chars) : Chars := (after.dropWhile (· != .of ';')).drop 1

/-- The address of an import, and what follows it. -/
def imported? (s : Chars) : Option (Chars × Chars) :=
  (Text.dropWord? "@import".runes s).bind fun afterWord =>
    if (Text.trimLeft afterWord).length == afterWord.length then none
    else importAddress? (Text.trimLeft afterWord)

theorem import?_eq (s : Chars) : import? s = (imported? s).map fun found =>
    ⟨found.1, between s (afterImport found.2), afterImport found.2⟩ := by
  rw [import?, imported?, Option.map_bind]
  congr 1
  funext afterWord
  dsimp only [Function.comp]
  split
  · rfl
  · rw [Option.map_eq_bind]
    rfl

/-- An address between quotes that are closed before the parenthesis, and what follows it. -/
def quotedUrl? : Chars → Option (Chars × Chars)
  | [] => none
  | c :: inside =>
      if isQuote c then lineUrl? (fun t => (Text.dropPrefix? [c] t).bind closeParen?) inside
      else none

/-- The address inside `url(…)` after the blanks, and what follows it. -/
def urlAddress? (body : Chars) : Option (Chars × Chars) :=
  (quotedUrl? body).orElse fun _ => lineUrl? closeParen? body

/-- The address of `url(…)`, and what follows it. -/
def addressed? (s : Chars) : Option (Chars × Chars) :=
  (Text.dropWord? "url(".runes s).bind fun afterName => urlAddress? (Text.trimLeft afterName)

theorem url?_eq (s : Chars) : url? s = (addressed? s).map fun found =>
    ⟨found.1, between s found.2, found.2⟩ := by
  rw [url?, addressed?, Option.map_bind]
  congr 1
  funext afterName
  dsimp only [Function.comp]
  rw [Option.map_eq_bind]
  cases Text.trimLeft afterName <;> rfl

end Addresses

section Finding

variable {s rest url : Chars} {close? : Chars → Option Chars}

theorem between_append (h : rest <:+ s) : between s rest ++ rest = s := by
  obtain ⟨front, rfl⟩ := h
  rw [between, List.length_append, Nat.add_sub_cancel, List.take_left]

/-- Reading a word takes as many characters as the word has. -/
theorem exists_of_dropWord? {word : Chars} (h : Text.dropWord? word s = some rest) :
    ∃ front, s = front ++ rest ∧ front.length = word.length := by
  induction word generalizing s with
  | nil => exact ⟨[], (Option.some.inj h), rfl⟩
  | cons p word ih =>
      cases s with
      | nil => contradiction
      | cons c s =>
          rw [Text.dropWord?, Option.ite_none_right_eq_some] at h
          obtain ⟨front, rfl, hlength⟩ := ih h.2
          exact ⟨c :: front, rfl, congrArg (· + 1) hlength⟩

/-- A mention that is read after a word. -/
theorem finds_of_dropWord? {find? : Chars → Option Mention} {word new : Chars}
    (hlonger : new.length ≤ word.length)
    (h : ∀ {s m}, find? s = some m → ∃ body, Text.dropWord? word s = some body ∧
      m.text = between s m.rest ∧ m.url <:+: body ∧ m.rest <:+ body ∧
        m.rest.length < body.length) : Finds find? new := by
  have hsplit : ∀ {s m}, find? s = some m → m.text ++ m.rest = s ∧ m.url <:+: s ∧
      new.length < m.text.length := by
    intro s m hfind
    obtain ⟨body, hword, htext, hurl, hrest, hless⟩ := h hfind
    obtain ⟨front, rfl, hlength⟩ := exists_of_dropWord? hword
    have hbody : body <:+ front ++ body := List.suffix_append front body
    have hwhole : m.text ++ m.rest = front ++ body := by
      rw [htext]
      exact between_append (hrest.trans hbody)
    have hlengths := congrArg List.length hwhole
    rw [List.length_append, List.length_append] at hlengths
    exact ⟨hwhole, hurl.trans hbody.isInfix, by omega⟩
  exact ⟨fun hfind => (hsplit hfind).1, fun hfind => (hsplit hfind).2.1,
    fun hfind => (hsplit hfind).2.2⟩

/-- The text without a quote at its beginning. -/
def afterQuote : Chars → Chars
  | [] => []
  | c :: s => if isQuote c then s else c :: s

theorem afterQuote_suffix (s : Chars) : afterQuote s <:+ s := by
  cases s with
  | nil => exact List.suffix_refl _
  | cons c s =>
      rw [afterQuote]
      split
      · exact List.suffix_cons c s
      · exact List.suffix_refl _

/-- The address of an import begins after its quote, and what follows it ends the text. -/
theorem importUrl?_sound (h : importUrl? s = some (url, rest)) :
    url <+: afterQuote s ∧ rest <:+ s := by
  unfold importUrl? at h
  split at h
  · contradiction
  · rename_i c tail
    dsimp only at h
    have hbody := afterQuote_suffix (c :: tail)
    rw [afterQuote] at hbody ⊢
    generalize (if isQuote c then tail else c :: tail) = body at h hbody ⊢
    have hurl : body.takeWhile isImportChar <+: body := List.takeWhile_prefix _
    have hafter : body.drop (body.takeWhile isImportChar).length <:+ c :: tail :=
      (List.drop_suffix _ _).trans hbody
    rw [Option.ite_none_left_eq_some] at h
    obtain ⟨-, h⟩ := h
    split at h
    · split at h
      · rename_i d after heq
        rw [Option.ite_none_right_eq_some] at h
        obtain ⟨rfl, rfl⟩ := Prod.mk.inj (Option.some.inj h.2)
        rw [heq] at hafter
        exact ⟨hurl, (List.suffix_cons d after).trans hafter⟩
      · contradiction
    · obtain ⟨rfl, rfl⟩ := Prod.mk.inj (Option.some.inj h)
      exact ⟨hurl, hafter⟩

theorem importAddress?_sound (h : importAddress? s = some (url, rest)) :
    url <:+: s ∧ rest <:+ s := by
  rw [importAddress?, Option.orElse_eq_or, Option.or_eq_some_iff] at h
  rcases h with hinside | ⟨-, hplain⟩
  · obtain ⟨inside, hword, hurl⟩ := Option.bind_eq_some_iff.1 hinside
    obtain ⟨front, rfl, -⟩ := exists_of_dropWord? hword
    have hsuffix := (Text.trimLeft_suffix inside).trans (List.suffix_append front inside)
    obtain ⟨hinner, hrest⟩ := importUrl?_sound hurl
    have hquote := (afterQuote_suffix (Text.trimLeft inside)).trans hsuffix
    exact ⟨hinner.isInfix.trans hquote.isInfix, hrest.trans hsuffix⟩
  · obtain ⟨hinner, hrest⟩ := importUrl?_sound hplain
    exact ⟨hinner.isInfix.trans (afterQuote_suffix s).isInfix, hrest⟩

theorem afterImport_suffix (after : Chars) : afterImport after <:+ after :=
  (List.drop_suffix _ _).trans (List.dropWhile_suffix _)

theorem finds_import : Finds import? [] := by
  have hlonger : ([] : Chars).length ≤ "@import".runes.length := Nat.zero_le _
  apply finds_of_dropWord? hlonger
  intro s m h
  rw [import?_eq] at h
  obtain ⟨⟨url, after⟩, hfound, rfl⟩ := Option.map_eq_some_iff.1 h
  obtain ⟨body, hword, hbody⟩ := Option.bind_eq_some_iff.1 hfound
  obtain ⟨hblank, haddress⟩ := Option.ite_none_left_eq_some.1 hbody
  obtain ⟨hurl, hafter⟩ := importAddress?_sound haddress
  have htrim := Text.trimLeft_suffix body
  have hrest := (afterImport_suffix after).trans hafter
  refine ⟨body, hword, rfl, hurl.trans htrim.isInfix, hrest.trans htrim, ?_⟩
  have hne : (Text.trimLeft body).length ≠ body.length := fun heq => hblank (beq_iff_eq.2 heq)
  exact Nat.lt_of_le_of_lt hrest.length_le (Nat.lt_of_le_of_ne htrim.length_le hne)

/-- What ends an address is a closing parenthesis in the text. -/
def Closes (close? : Chars → Option Chars) : Prop :=
  ∀ {t rest}, close? t = some rest → .of ')' :: rest <:+ t

theorem closes_closeParen : Closes closeParen? := by
  intro t rest h
  unfold closeParen? at h
  split at h
  · rename_i after heq
    obtain rfl := Option.some.inj h
    exact heq ▸ Text.trimLeft_suffix t
  · contradiction

theorem closes_quote (quote : Rune) :
    Closes fun t => (Text.dropPrefix? [quote] t).bind closeParen? := by
  intro t rest h
  obtain ⟨after, hquote, hclose⟩ := Option.bind_eq_some_iff.1 h
  cases t with
  | nil => contradiction
  | cons c t =>
      rw [Text.dropPrefix?, Option.ite_none_right_eq_some] at hquote
      obtain rfl := Option.some.inj hquote.2
      exact (closes_closeParen hclose).trans (List.suffix_cons c t)

theorem lineUrl?_sound (hclose : Closes close?) (h : lineUrl? close? s = some (url, rest)) :
    url <+: s ∧ .of ')' :: rest <:+ s := by
  induction s generalizing url with
  | nil => contradiction
  | cons c s ih =>
      rw [lineUrl?] at h
      split at h
      · rename_i after hafter
        obtain ⟨rfl, rfl⟩ := Prod.mk.inj (Option.some.inj h)
        exact ⟨List.nil_prefix, hclose hafter⟩
      · rw [Option.ite_none_left_eq_some] at h
        obtain ⟨-, h⟩ := h
        obtain ⟨⟨tail, after⟩, htail, heq⟩ := Option.map_eq_some_iff.1 h
        obtain ⟨rfl, rfl⟩ := Prod.mk.inj heq
        obtain ⟨hstart, hsuffix⟩ := ih htail
        exact ⟨(List.prefix_cons_inj c).2 hstart, hsuffix.trans (List.suffix_cons c s)⟩

theorem urlAddress?_sound (h : urlAddress? s = some (url, rest)) :
    (url <+: afterQuote s ∨ url <+: s) ∧ .of ')' :: rest <:+ s := by
  rw [urlAddress?, Option.orElse_eq_or, Option.or_eq_some_iff] at h
  rcases h with hquoted | ⟨-, hplain⟩
  · cases s with
    | nil => contradiction
    | cons c s =>
        rw [quotedUrl?, Option.ite_none_right_eq_some] at hquoted
        obtain ⟨hurl, hrest⟩ := lineUrl?_sound (closes_quote c) hquoted.2
        rw [afterQuote, if_pos hquoted.1]
        exact ⟨Or.inl hurl, hrest.trans (List.suffix_cons c s)⟩
  · obtain ⟨hurl, hrest⟩ := lineUrl?_sound closes_closeParen hplain
    exact ⟨Or.inr hurl, hrest⟩

theorem finds_url : Finds url? "none".runes := by
  have hlonger : "none".runes.length ≤ "url(".runes.length := by decide
  apply finds_of_dropWord? hlonger
  intro s m h
  rw [url?_eq] at h
  obtain ⟨⟨url, rest⟩, hfound, rfl⟩ := Option.map_eq_some_iff.1 h
  obtain ⟨body, hword, haddress⟩ := Option.bind_eq_some_iff.1 hfound
  obtain ⟨hurl, hclosed⟩ := urlAddress?_sound haddress
  have htrim := Text.trimLeft_suffix body
  have hparen := hclosed.trans htrim
  have hinside : url <:+: Text.trimLeft body := by
    rcases hurl with hquoted | hplain
    · exact hquoted.isInfix.trans (afterQuote_suffix _).isInfix
    · exact hplain.isInfix
  exact ⟨body, hword, rfl, hinside.trans htrim.isInfix, (List.suffix_cons _ rest).trans hparen,
    hparen.length_le⟩

end Finding

/-- From a style sheet nothing is taken away if and only if no import and no other address in it
leads outside. -/
theorem stripCss_eq_self_iff {s : Chars} :
    stripCss s = s ↔ Clean import? s ∧ Clean url? s := by
  have hfuel : ∀ t : Chars, t.length < t.length + 1 := fun t => Nat.lt_succ_self _
  have himports := length_replaceMentions finds_import (hfuel s)
  constructor
  · intro h
    by_cases hleaves : mayLeave s
    · rw [stripCss, if_pos hleaves, stripUrls, stripImports] at h
      have hurls := length_replaceMentions finds_url
        (hfuel (replaceMentions import? [] (s.length + 1) s))
      rw [h] at hurls
      have hclean : Clean import? s := himports.2 (Nat.le_antisymm himports.1 hurls.1)
      rw [replaceMentions_of_clean finds_import hclean (hfuel s)] at hurls
      exact ⟨hclean, hurls.2 rfl⟩
    · exact ⟨clean_of_not_mayLeave finds_import hleaves, clean_of_not_mayLeave finds_url hleaves⟩
  · rintro ⟨himport, hurl⟩
    rw [stripCss, stripUrls, stripImports, replaceMentions_of_clean finds_import himport (hfuel s),
      replaceMentions_of_clean finds_url hurl (hfuel s), ite_self]

end Folio.Resource
