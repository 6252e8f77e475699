import Folio.Proofs.Resource.Mentions

/-!
Style sheets in pieces. What is mentioned before a semicolon does not depend on what comes after
it, if no parenthesis is closed on the rest of the line. So a style sheet whose own text mentions
nothing is stripped of nothing if and only if the values between its colons and semicolons are.
-/
namespace Folio.Resource

/-- Nothing is taken away from the text. -/
def Fixed (s : Chars) : Prop := stripCss s = s

instance (s : Chars) : Decidable (Fixed s) := instDecidableEqList _ _

/-- The words that begin a mention. -/
def mentionWords : List Chars := [['@', 'i', 'm', 'p', 'o', 'r', 't'], ['u', 'r', 'l', '(']]

/-- No mention begins in the text. -/
def quiet : Chars → Bool
  | [] => true
  | c :: s => (mentionWords.all fun word => (Text.dropWord? word (c :: s)).isNone) && quiet s

/-- The character matches no letter of a word that begins a mention. -/
def isMark (c : Rune) : Bool :=
  mentionWords.all fun word => word.all fun letter => !Text.sameLetter letter c

/-- No parenthesis is closed on the rest of the line. -/
def leavesOpen (s : Chars) : Prop := lineUrl? closeParen? s = none

section Reading

variable {c : Rune} {p : Rune → Bool} {t u word : Chars} {close? : Chars → Option Chars}

theorem dropWord?_append_cons (hc : word.all fun letter => !Text.sameLetter letter c) (u t : Chars) :
    Text.dropWord? word (u ++ c :: t) = (Text.dropWord? word u).map (· ++ c :: t) := by
  induction word generalizing u with
  | nil => rfl
  | cons letter word ih =>
      rw [List.all_cons, Bool.and_eq_true] at hc
      cases u with
      | nil =>
          have hletter : Text.sameLetter letter c = false := by simpa using hc.1
          exact if_neg (Bool.eq_false_iff.1 hletter)
      | cons d u =>
          rw [List.cons_append, Text.dropWord?, Text.dropWord?]
          split
          · exact ih hc.2 u
          · rfl

/-- The address of an import before a semicolon. -/
theorem importUrl?_append (u t : Chars) :
    importUrl? (u ++ .of ';' :: t) =
      (importUrl? u).map fun found => (found.1, found.2 ++ .of ';' :: t) := by
  cases u with
  | nil => rfl
  | cons c u =>
      have hbody : (if isQuote c then u ++ .of ';' :: t else c :: (u ++ .of ';' :: t)) =
          (if isQuote c then u else c :: u) ++ .of ';' :: t := by
        split <;> rfl
      rw [List.cons_append, importUrl?, importUrl?, hbody]
      generalize (if isQuote c then u else c :: u) = body
      have hdrop : (body ++ .of ';' :: t).drop (body.takeWhile isImportChar).length =
          body.drop (body.takeWhile isImportChar).length ++ .of ';' :: t :=
        List.drop_append_of_le_length (List.takeWhile_prefix _).length_le
      rw [Text.takeWhile_append_of_neg (by decide), hdrop]
      split
      · rfl
      · cases hquote : isQuote c with
        | false => rfl
        | true =>
            have hc : (';' == c) = false := by
              apply beq_false_of_ne
              rintro rfl
              exact absurd hquote (by decide)
            cases body.drop (body.takeWhile isImportChar).length with
            | nil =>
                rw [List.nil_append, if_pos rfl]
                dsimp only
                rw [hc]
                rfl
            | cons d after =>
                rw [List.cons_append, if_pos rfl, if_pos rfl]
                dsimp only
                split <;> rfl

theorem importAddress?_append (u t : Chars) : importAddress? (u ++ .of ';' :: t) =
    (importAddress? u).map fun found => (found.1, found.2 ++ .of ';' :: t) := by
  have hword : "url(".runes.all fun letter => !Text.sameLetter letter ';' := by decide
  rw [importAddress?, importAddress?, Option.orElse_eq_or, Option.orElse_eq_or, Option.map_or,
    dropWord?_append_cons hword, importUrl?_append]
  congr 1
  cases Text.dropWord? "url(".runes u with
  | none => rfl
  | some inside =>
      rw [Option.map_some, Option.bind_some, Option.bind_some, Text.trimLeft_append_of_neg (by decide),
        importUrl?_append]

/-- An import goes up to its own semicolon, or else up to the one that comes next. -/
theorem afterImport_append (u t : Chars) :
    afterImport (u ++ .of ';' :: t) = afterImport u ++ .of ';' :: t ∨
      afterImport u = [] ∧ afterImport (u ++ .of ';' :: t) = t := by
  induction u with
  | nil => exact Or.inr ⟨rfl, rfl⟩
  | cons c u ih =>
      by_cases hc : c = ';'
      · subst hc
        exact Or.inl rfl
      · have hskip : ∀ s, afterImport (c :: s) = afterImport s := by
          intro s
          rw [afterImport, List.dropWhile_cons_of_pos (by simpa using hc)]
          rfl
        rw [List.cons_append, hskip, hskip]
        exact ih

theorem closeParen?_eq_some_iff {s rest : Chars} :
    closeParen? s = some rest ↔ Text.trimLeft s = .of ')' :: rest := by
  unfold closeParen?
  constructor
  · intro h
    split at h
    · rename_i heq
      rw [heq, Option.some.inj h]
    · contradiction
  · intro h
    rw [h]
    rfl

theorem closeParen?_append_cons (hc : Text.isBlank c = false) (hne : c ≠ ')') (u t : Chars) :
    closeParen? (u ++ c :: t) = (closeParen? u).map (· ++ c :: t) := by
  apply Option.ext
  intro rest
  rw [closeParen?_eq_some_iff, Text.trimLeft_append_of_neg hc, Option.map_eq_some_iff]
  simp only [closeParen?_eq_some_iff]
  cases Text.trimLeft u with
  | nil => simp [hne]
  | cons d inside => simp [and_assoc, eq_comm]

theorem closeParen?_append (u t : Chars) :
    closeParen? (u ++ .of ';' :: t) = (closeParen? u).map (· ++ .of ';' :: t) :=
  closeParen?_append_cons (by decide) (by decide) u t

theorem dropPrefix?_singleton (quote c : Rune) (t : Chars) :
    Text.dropPrefix? [quote] (c :: t) = if quote == c then some t else none := rfl

theorem closeQuote?_append {quote : Rune} (hquote : isQuote quote) (u t : Chars) :
    (Text.dropPrefix? [quote] (u ++ .of ';' :: t)).bind closeParen? =
      ((Text.dropPrefix? [quote] u).bind closeParen?).map (· ++ .of ';' :: t) := by
  cases u with
  | nil =>
      have hne : quote ≠ ';' := by
        rintro rfl
        exact absurd hquote (by decide)
      rw [List.nil_append, dropPrefix?_singleton, beq_false_of_ne hne]
      rfl
  | cons c u =>
      rw [List.cons_append, dropPrefix?_singleton, dropPrefix?_singleton]
      split
      · exact closeParen?_append u t
      · rfl

theorem lineUrl?_cons_eq_none_iff : lineUrl? close? (c :: t) = none ↔
    close? (c :: t) = none ∧ (c = '\n' ∨ lineUrl? close? t = none) := by
  rw [lineUrl?]
  cases close? (c :: t) with
  | some after => simp
  | none => simp [Decidable.or_iff_not_imp_left]

/-- An address on a line is read alike before a semicolon, if it cannot be closed after it. -/
theorem lineUrl?_append
    (hclose : ∀ u, close? (u ++ .of ';' :: t) = (close? u).map (· ++ .of ';' :: t))
    (hnil : close? [] = none) (ht : lineUrl? close? t = none) (u : Chars) :
    lineUrl? close? (u ++ .of ';' :: t) =
      (lineUrl? close? u).map fun found => (found.1, found.2 ++ .of ';' :: t) := by
  induction u with
  | nil =>
      have hmark : close? (.of ';' :: t) = none := (hclose []).trans (by rw [hnil]; rfl)
      exact lineUrl?_cons_eq_none_iff.2 ⟨hmark, Or.inr ht⟩
  | cons c u ih =>
      rw [List.cons_append, lineUrl?, ← List.cons_append, hclose, lineUrl?]
      cases close? (c :: u) with
      | some after => rfl
      | none =>
          rw [Option.map_none]
          dsimp only
          split
          · rfl
          · rw [ih, Option.map_map, Option.map_map]
            rfl

theorem closeParen?_of_leavesOpen (h : leavesOpen t) : closeParen? t = none := by
  cases t with
  | nil => rfl
  | cons c t => exact (lineUrl?_cons_eq_none_iff.1 h).1

/-- Where no parenthesis is closed, none is closed after a quote. -/
theorem lineUrl?_quote_of_leavesOpen {quote : Rune} (hquote : isQuote quote) (h : leavesOpen t) :
    lineUrl? (fun t => (Text.dropPrefix? [quote] t).bind closeParen?) t = none := by
  induction t with
  | nil => rfl
  | cons c t ih =>
      obtain ⟨-, hline⟩ := lineUrl?_cons_eq_none_iff.1 h
      refine lineUrl?_cons_eq_none_iff.2 ⟨?_, hline.imp_right ih⟩
      rw [dropPrefix?_singleton]
      split
      · rename_i heq
        have hopen : leavesOpen t := by
          apply hline.resolve_left
          rintro rfl
          rw [beq_iff_eq.1 heq] at hquote
          exact absurd hquote (by decide)
        exact closeParen?_of_leavesOpen hopen
      · rfl

/-- The address inside `url(…)` before a semicolon. -/
theorem urlAddress?_append (ht : leavesOpen t) (u : Chars) : urlAddress? (u ++ .of ';' :: t) =
    (urlAddress? u).map fun found => (found.1, found.2 ++ .of ';' :: t) := by
  have hplain := lineUrl?_append (fun u => closeParen?_append u t) rfl ht
  have hquoted : quotedUrl? (u ++ .of ';' :: t) =
      (quotedUrl? u).map fun found => (found.1, found.2 ++ .of ';' :: t) := by
    cases u with
    | nil => rfl
    | cons c u =>
        rw [List.cons_append, quotedUrl?, quotedUrl?]
        split
        · rename_i hquote
          exact lineUrl?_append (closeQuote?_append hquote · t) rfl
            (lineUrl?_quote_of_leavesOpen hquote ht) u
        · rfl
  rw [urlAddress?, urlAddress?, Option.orElse_eq_or, Option.orElse_eq_or, Option.map_or, hquoted,
    hplain]

end Reading

section Separating

variable {find? : Chars → Option Mention} {word new u t : Chars} {c : Rune}

/-- A semicolon ends what is found before it, whatever `t` comes after it. -/
structure Breaks (find? : Chars → Option Mention) (t : Chars) : Prop where
  none : ∀ {u}, find? u = none → find? (u ++ .of ';' :: t) = none
  some : ∀ {u m}, find? u = some m → ∃ m', find? (u ++ .of ';' :: t) = some m' ∧ m'.url = m.url ∧
    (m'.rest = m.rest ++ .of ';' :: t ∨ m.rest = [] ∧ m'.rest = t)

/-- A mention that is read after a word, from the address that follows it. -/
theorem breaks_of_address (address? : Chars → Option (Chars × Chars))
    (text : Chars → Chars → Chars) (rest : Chars → Chars)
    (hfind : ∀ u, find? u = (address? u).map fun found => ⟨found.1, text u found.2, rest found.2⟩)
    (haddress : ∀ u, address? (u ++ .of ';' :: t) =
      (address? u).map fun found => (found.1, found.2 ++ .of ';' :: t))
    (hrest : ∀ after, rest (after ++ .of ';' :: t) = rest after ++ .of ';' :: t ∨
      rest after = [] ∧ rest (after ++ .of ';' :: t) = t) : Breaks find? t := by
  constructor
  · intro u h
    rw [hfind, Option.map_eq_none_iff] at h
    rw [hfind, haddress, h]
    rfl
  · intro u m h
    rw [hfind] at h
    obtain ⟨⟨url, after⟩, hfound, rfl⟩ := Option.map_eq_some_iff.1 h
    refine ⟨⟨url, text (u ++ .of ';' :: t) (after ++ .of ';' :: t),
      rest (after ++ .of ';' :: t)⟩, ?_, rfl,
      hrest after⟩
    rw [hfind, haddress, hfound]
    rfl

/-- An import before a semicolon is the same whatever comes after it. -/
theorem breaks_import (t : Chars) : Breaks import? t := by
  have hword : "@import".runes.all fun letter => !Text.sameLetter letter ';' := by decide
  apply breaks_of_address imported? (fun s after => between s (afterImport after)) afterImport
  · exact import?_eq
  · intro u
    rw [imported?, imported?, dropWord?_append_cons hword, Option.map_bind, Option.bind_map]
    congr 1
    funext afterWord
    have hlength : ((Text.trimLeft (afterWord ++ .of ';' :: t)).length ==
        (afterWord ++ .of ';' :: t).length) =
        ((Text.trimLeft afterWord).length == afterWord.length) := by
      rw [Text.trimLeft_append_of_neg (by decide), List.length_append, List.length_append,
        Bool.eq_iff_iff, beq_iff_eq, beq_iff_eq, Nat.add_right_cancel_iff]
    dsimp only [Function.comp]
    rw [hlength, Text.trimLeft_append_of_neg (by decide), importAddress?_append]
    split <;> rfl
  · exact fun after => afterImport_append after t

/-- An address before a semicolon is the same whatever comes after it, if no parenthesis is closed
on the rest of the line. -/
theorem breaks_url (ht : leavesOpen t) : Breaks url? t := by
  have hword : "url(".runes.all fun letter => !Text.sameLetter letter ';' := by decide
  apply breaks_of_address addressed? between id
  · exact url?_eq
  · intro u
    rw [addressed?, addressed?, dropWord?_append_cons hword, Option.map_bind, Option.bind_map]
    congr 1
    funext afterName
    dsimp only [Function.comp]
    rw [Text.trimLeft_append_of_neg (by decide), urlAddress?_append ht]
  · exact fun _ => Or.inl rfl

/-- A text with a semicolon is clean if it is clean before the semicolon and after it. -/
theorem clean_append (hf : Finds find? new) (ht : Breaks find? t) (u : Chars) :
    Clean find? (u ++ .of ';' :: t) ↔ Clean find? u ∧ Clean find? t := by
  have hnil : find? [] = none := by
    rw [Option.eq_none_iff_forall_ne_some]
    intro m hm
    have hlength := hf.length_eq hm
    have hlonger := hf.longer hm
    rw [List.length_nil] at hlength
    omega
  induction hn : u.length using Nat.strongRecOn generalizing u with
  | ind n ih =>
      cases u with
      | nil =>
          rw [List.nil_append, clean_iff_of_none (ht.none hnil)]
          exact (and_iff_right .nil).symm
      | cons c u =>
          rw [List.length_cons] at hn
          cases hfind : find? (c :: u) with
          | none =>
              have hnone := ht.none hfind
              rw [List.cons_append] at hnone
              rw [List.cons_append, clean_iff_of_none hnone, clean_iff_of_none hfind]
              exact ih u.length (by omega) u rfl
          | some m =>
              obtain ⟨m', hfind', hurl, hrest⟩ := ht.some hfind
              have hlength := hf.length_eq hfind
              have hlonger := hf.longer hfind
              rw [List.length_cons] at hlength
              rw [List.cons_append] at hfind'
              rw [List.cons_append, clean_iff_of_some hfind', clean_iff_of_some hfind, hurl,
                and_assoc]
              apply and_congr_right
              intro _
              rcases hrest with hlater | ⟨hend, hlater⟩
              · rw [hlater]
                exact ih m.rest.length (by omega) m.rest rfl
              · rw [hlater, hend]
                exact (and_iff_right .nil).symm

end Separating

section Quiet

variable {find? : Chars → Option Mention} {word u t : Chars} {c : Rune}

/-- What `find?` finds begins with the word. -/
structure StartsWith (find? : Chars → Option Mention) (word : Chars) : Prop where
  mem : word ∈ mentionWords
  none : ∀ {s}, Text.dropWord? word s = none → find? s = none

theorem startsWith_import : StartsWith import? "@import".runes :=
  ⟨by decide, fun {s} h => by rw [import?_eq, imported?, h]; rfl⟩

theorem startsWith_url : StartsWith url? "url(".runes :=
  ⟨by decide, fun {s} h => by rw [url?_eq, addressed?, h]; rfl⟩

theorem quiet_cons_iff : quiet (c :: u) ↔
    (∀ word ∈ mentionWords, Text.dropWord? word (c :: u) = none) ∧ quiet u := by
  simp only [quiet, Bool.and_eq_true, List.all_eq_true, Option.isNone_iff_eq_none]

theorem clean_of_quiet (hf : StartsWith find? word) (hu : quiet u) : Clean find? u := by
  induction u with
  | nil => exact .nil
  | cons d u ih =>
      obtain ⟨hhead, hlater⟩ := quiet_cons_iff.1 hu
      exact .skip (hf.none (hhead word hf.mem)) (ih hlater)

theorem dropWord?_append_mark (hword : word ∈ mentionWords) (hc : isMark c) (u t : Chars) :
    Text.dropWord? word (u ++ c :: t) = (Text.dropWord? word u).map (· ++ c :: t) :=
  dropWord?_append_cons (List.all_eq_true.1 hc word hword) u t

theorem dropWord?_mark (hword : word ∈ mentionWords) (hc : isMark c) (t : Chars) :
    Text.dropWord? word (c :: t) = none := by
  have hnil : ∀ word ∈ mentionWords, Text.dropWord? word [] = none := by decide
  have h := dropWord?_append_mark hword hc [] t
  rwa [List.nil_append, hnil word hword] at h

/-- A text in which no mention begins, and a mark after it, say nothing about what follows. -/
theorem clean_quiet_append (hf : StartsWith find? word) (hu : quiet u) (hc : isMark c) (t : Chars) :
    Clean find? (u ++ c :: t) ↔ Clean find? t := by
  induction u with
  | nil => exact clean_iff_of_none (hf.none (dropWord?_mark hf.mem hc t))
  | cons d u ih =>
      obtain ⟨hhead, hlater⟩ := quiet_cons_iff.1 hu
      have hnone := dropWord?_append_mark hf.mem hc (d :: u) t
      rw [hhead word hf.mem, List.cons_append] at hnone
      rw [List.cons_append, clean_iff_of_none (hf.none hnone)]
      exact ih hlater

theorem quiet_append_cons (hu : quiet u) (hc : isMark c) (ht : quiet t) : quiet (u ++ c :: t) := by
  induction u with
  | nil => exact quiet_cons_iff.2 ⟨fun word hword => dropWord?_mark hword hc t, ht⟩
  | cons d u ih =>
      obtain ⟨hhead, hlater⟩ := quiet_cons_iff.1 hu
      rw [List.cons_append]
      refine quiet_cons_iff.2 ⟨?_, ih hlater⟩
      intro word hword
      rw [← List.cons_append, dropWord?_append_mark hword hc, hhead word hword]
      rfl

/-- A word that begins a piece of a text begins the text from there on. -/
theorem dropWord?_append_eq_none (h : Text.dropWord? word (u ++ t) = none) :
    Text.dropWord? word u = none := by
  induction word generalizing u with
  | nil => contradiction
  | cons letter word ih =>
      cases u with
      | nil => rfl
      | cons d u =>
          rw [List.cons_append, Text.dropWord?] at h
          rw [Text.dropWord?]
          split
          · rename_i hletter
            rw [if_pos hletter] at h
            exact ih h
          · rfl

theorem quiet_of_append (h : quiet (u ++ t)) : quiet u ∧ quiet t := by
  induction u with
  | nil => exact ⟨rfl, h⟩
  | cons d u ih =>
      obtain ⟨hhead, hlater⟩ := quiet_cons_iff.1 h
      obtain ⟨hu, ht⟩ := ih hlater
      refine ⟨quiet_cons_iff.2 ⟨?_, hu⟩, ht⟩
      intro word hword
      exact dropWord?_append_eq_none (hhead word hword)

theorem quiet_of_isInfix (h : u <:+: t) (ht : quiet t) : quiet u := by
  obtain ⟨before, after, rfl⟩ := h
  exact (quiet_of_append (quiet_of_append ht).1).2

/-- The character is not the first letter of a word that begins a mention. -/
def isLater (c : Rune) : Bool := !Text.sameLetter '@' c && !Text.sameLetter 'u' c

theorem dropWord?_of_isLater (hc : isLater c) (hword : word ∈ mentionWords) (s : Chars) :
    Text.dropWord? word (c :: s) = none := by
  simp only [isLater, Bool.and_eq_true, Bool.not_eq_true'] at hc
  simp only [mentionWords, List.mem_cons, List.not_mem_nil, or_false] at hword
  rcases hword with rfl | rfl
  · exact if_neg (Bool.eq_false_iff.1 hc.1)
  · exact if_neg (Bool.eq_false_iff.1 hc.2)

/-- What stands before a quiet text without the first letters of these words changes nothing. -/
theorem quiet_append_of_isLater (hu : u.all isLater) (ht : quiet t) : quiet (u ++ t) := by
  induction u with
  | nil => exact ht
  | cons d u ih =>
      rw [List.all_cons, Bool.and_eq_true] at hu
      exact quiet_cons_iff.2 ⟨fun _ hword => dropWord?_of_isLater hu.1 hword _, ih hu.2⟩

/-- A text without the first letters of the words that begin a mention is quiet. -/
theorem quiet_of_no_first
    (h : ∀ c ∈ u, Text.sameLetter '@' c = false ∧ Text.sameLetter 'u' c = false) : quiet u := by
  have hlater : u.all isLater := by simpa [isLater] using h
  have hquiet := quiet_append_of_isLater (t := []) hlater rfl
  rwa [List.append_nil] at hquiet

end Quiet

section Fixing

variable {u t v pre post line : Chars} {c : Rune}

theorem fixed_iff : Fixed u ↔ Clean import? u ∧ Clean url? u := stripCss_eq_self_iff

theorem fixed_of_quiet (hu : quiet u) : Fixed u :=
  fixed_iff.2 ⟨clean_of_quiet startsWith_import hu, clean_of_quiet startsWith_url hu⟩

theorem fixed_append (ht : leavesOpen t) : Fixed (u ++ .of ';' :: t) ↔ Fixed u ∧ Fixed t := by
  rw [fixed_iff, fixed_iff, fixed_iff, clean_append finds_import (breaks_import t),
    clean_append finds_url (breaks_url ht)]
  exact and_and_and_comm

theorem fixed_quiet_append (hu : quiet u) (hc : isMark c) : Fixed (u ++ c :: t) ↔ Fixed t := by
  rw [fixed_iff, fixed_iff, clean_quiet_append startsWith_import hu hc,
    clean_quiet_append startsWith_url hu hc]

theorem closeParen?_of_not_mem (h : .of ')' ∉ u) : closeParen? u = none := by
  rw [Option.eq_none_iff_forall_ne_some]
  intro rest hrest
  have hsuffix := Text.trimLeft_suffix u
  rw [closeParen?_eq_some_iff.1 hrest] at hsuffix
  exact h (hsuffix.subset List.mem_cons_self)

theorem closeParen?_cons_of_isBlank (hc : Text.isBlank c) :
    closeParen? (c :: t) = closeParen? t := by
  rw [closeParen?, Text.trimLeft, List.dropWhile_cons_of_pos hc]
  rfl

theorem closeParen?_cons_eq_none_iff (hc : Text.isBlank c = false) :
    closeParen? (c :: t) = none ↔ c ≠ ')' := by
  have htrim : Text.trimLeft (c :: t) = c :: t :=
    List.dropWhile_cons_of_neg (Bool.eq_false_iff.1 hc)
  rw [Option.eq_none_iff_forall_ne_some]
  simp only [ne_eq, closeParen?_eq_some_iff, htrim]
  simp

/-- Two texts that close nothing close nothing one after the other on two lines. -/
theorem closeParen?_newline (hu : closeParen? u = none) (ht : closeParen? t = none) :
    closeParen? (u ++ .of '\n' :: t) = none := by
  induction u with
  | nil => exact ht
  | cons d u ih =>
      rw [List.cons_append]
      cases hd : Text.isBlank d with
      | true =>
          rw [closeParen?_cons_of_isBlank hd] at hu ⊢
          exact ih hu
      | false =>
          rw [closeParen?_cons_eq_none_iff hd] at hu ⊢
          exact hu

theorem leavesOpen_newline (hline : .of ')' ∉ line) (ht : closeParen? t = none) :
    leavesOpen (line ++ .of '\n' :: t) := by
  induction line with
  | nil => exact lineUrl?_cons_eq_none_iff.2 ⟨ht, Or.inl rfl⟩
  | cons d line ih =>
      have hclose := closeParen?_newline (closeParen?_of_not_mem hline) ht
      exact lineUrl?_cons_eq_none_iff.2
        ⟨hclose, Or.inr (ih fun hmem => hline (List.mem_cons_of_mem d hmem))⟩

theorem leavesOpen_of_not_mem (hline : .of ')' ∉ line) : leavesOpen line := by
  induction line with
  | nil => rfl
  | cons d line ih =>
      exact lineUrl?_cons_eq_none_iff.2 ⟨closeParen?_of_not_mem hline,
        Or.inr (ih fun hmem => hline (List.mem_cons_of_mem d hmem))⟩

/-- A text around a value: a colon before it and a semicolon after it, no mention in what stands
around these, and no parenthesis closed after them. -/
structure Around (pre post : Chars) : Prop where
  before : quiet pre
  after : quiet post
  noParen : .of ')' ∉ post

instance (pre post : Chars) : Decidable (Around pre post) :=
  decidable_of_iff (quiet pre ∧ quiet post ∧ .of ')' ∉ post)
    ⟨fun h => ⟨h.1, h.2.1, h.2.2⟩, fun h => ⟨h.before, h.after, h.noParen⟩⟩

/-- Nothing is taken away from a text around a value if nothing is from the value. -/
theorem Around.fixed_iff (h : Around pre post) :
    Fixed (pre ++ .of ':' :: (v ++ .of ';' :: post)) ↔ Fixed v := by
  rw [fixed_quiet_append h.before (by decide), fixed_append (leavesOpen_of_not_mem h.noParen)]
  exact and_iff_left (fixed_of_quiet h.after)

/-- The line is stripped by itself, whatever lines come after it. -/
structure Separate (line : Chars) : Prop where
  fixed_iff : ∀ {t}, closeParen? t = none → (Fixed (line ++ .of '\n' :: t) ↔ Fixed line ∧ Fixed t)
  closed : closeParen? line = none

theorem separate_of_quiet (h : quiet line) (hclosed : closeParen? line = none) : Separate line where
  fixed_iff := by
    intro t _
    rw [fixed_quiet_append h (by decide)]
    exact (and_iff_right (fixed_of_quiet h)).symm
  closed := hclosed

/-- A line with a value is stripped by itself, whatever the value is. -/
theorem Around.separate (h : Around pre post) (hpre : closeParen? pre = none) (v : Chars) :
    Separate (pre ++ .of ':' :: (v ++ .of ';' :: post)) where
  fixed_iff := by
    intro t ht
    have hline : pre ++ .of ':' :: (v ++ .of ';' :: post) ++ .of '\n' :: t =
        pre ++ .of ':' :: (v ++ .of ';' :: (post ++ .of '\n' :: t)) := by
      simp
    rw [hline, fixed_quiet_append h.before (by decide),
      fixed_append (leavesOpen_newline h.noParen ht), fixed_quiet_append h.after (by decide),
      h.fixed_iff]
  closed := by
    rw [closeParen?_append_cons (by decide) (by decide), hpre]
    rfl

theorem closeParen?_lines {lines : List Chars} (h : ∀ line ∈ lines, Separate line) :
    closeParen? (lines.flatMap fun line => line ++ [.of '\n']) = none := by
  induction lines with
  | nil => rfl
  | cons line lines ih =>
      obtain ⟨hline, hlines⟩ := List.forall_mem_cons.1 h
      rw [List.flatMap_cons, List.append_assoc]
      exact closeParen?_newline hline.closed (ih hlines)

/-- Nothing is taken away from lines that are stripped by themselves if nothing is from each. -/
theorem fixed_lines {lines : List Chars} (h : ∀ line ∈ lines, Separate line) :
    Fixed (lines.flatMap fun line => line ++ [.of '\n']) ↔ ∀ line ∈ lines, Fixed line := by
  induction lines with
  | nil => exact iff_of_true (fixed_of_quiet rfl) (by simp)
  | cons line lines ih =>
      obtain ⟨hline, hlines⟩ := List.forall_mem_cons.1 h
      rw [List.flatMap_cons, List.append_assoc, List.forall_mem_cons, ← ih hlines]
      exact hline.fixed_iff (closeParen?_lines hlines)

end Fixing

end Folio.Resource
