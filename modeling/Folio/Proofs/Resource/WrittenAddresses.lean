import Folio.Proofs.Resource.Completeness

/-!
Addresses as they are meant to be written, alone or as `url(…)`. They are read as they were written,
whatever comes after them, and nothing that begins in them is read in another way.
-/
namespace Folio.Resource

/-- Whether a character may stand in an address without quotes, or between two of them. -/
def mayStand : Option Rune → Rune → Bool
  | none, c => !(isQuote c || c == ')' || Text.isBlank c)
  | some quote, c => !(c == quote || c == '\n')

/-- An address as it is written, with its quotes if it has any. No mention begins in it. -/
structure WrittenAddress where
  quote : Option Rune
  url : Chars
  isQuote_quote : quote.all isQuote
  chars : url.all (mayStand quote)
  nonempty : url ≠ []
  quiet_url : quiet url

/-- An address as `url(…)`. -/
structure WrittenUrl where
  word : Chars
  before : Chars
  address : WrittenAddress
  after : Chars
  isWord : Text.dropWord? "url(".runes word = some []
  blank_before : before.all Text.isBlank
  blank_after : after.all Text.isBlank

def WrittenAddress.text (a : WrittenAddress) : Chars := a.quote.toList ++ a.url ++ a.quote.toList

def WrittenUrl.text (u : WrittenUrl) : Chars :=
  u.word ++ u.before ++ u.address.text ++ u.after ++ [.of ')']

section Silence

variable {c : Rune} {s t u : Chars}

/-- No mention begins in the text, whatever comes after it. -/
def Silent : Chars → Prop
  | [] => True
  | c :: u => (∀ t, ∀ word ∈ mentionWords, Text.dropWord? word (c :: u ++ t) = none) ∧ Silent u

theorem Silent.append (hu : Silent u) (ht : Silent t) : Silent (u ++ t) := by
  induction u with
  | nil => exact ht
  | cons c u ih =>
      rw [List.cons_append]
      refine ⟨fun v word hword => ?_, ih hu.2⟩
      rw [← List.cons_append, List.append_assoc]
      exact hu.1 (t ++ v) word hword

theorem silent_of_isLater (hu : u.all isLater) : Silent u := by
  induction u with
  | nil => trivial
  | cons c u ih =>
      rw [List.all_cons, Bool.and_eq_true] at hu
      exact ⟨fun _ _ hword => dropWord?_of_isLater hu.1 hword _, ih hu.2⟩

/-- No mention that begins in a quiet text goes across a mark. -/
theorem Silent.quiet_append (ht : Silent (c :: t)) (hu : quiet u) (hc : isMark c) :
    Silent (u ++ c :: t) := by
  induction u with
  | nil => exact ht
  | cons d u ih =>
      obtain ⟨hhead, hlater⟩ := quiet_cons_iff.1 hu
      rw [List.cons_append]
      refine ⟨fun v word hword => ?_, ih hlater⟩
      rw [← List.cons_append, List.append_assoc, List.cons_append (a := c),
        dropWord?_append_mark hword hc, hhead word hword]
      rfl

theorem isLater_of_isMark (hc : isMark c) : isLater c := by
  simp only [isMark, mentionWords, List.all_cons, List.all_nil, Bool.and_eq_true] at hc
  rw [isLater, Bool.and_eq_true]
  exact ⟨hc.1.1, hc.2.1.1⟩

theorem isMark_of_isBlank (hc : Text.isBlank c) : isMark c :=
  Text.blank_forall (P := fun c => isMark c) (by decide) hc

theorem silent_of_isBlank (hu : u.all Text.isBlank) : Silent u := by
  refine silent_of_isLater (List.all_eq_true.2 fun c hc => ?_)
  exact isLater_of_isMark (isMark_of_isBlank (List.all_eq_true.1 hu c hc))

theorem isMark_of_isQuote (hc : isQuote c) : isMark c := by
  simp only [isQuote, Bool.or_eq_true, beq_iff_eq] at hc
  rcases hc with rfl | rfl <;> decide

/-- A letter that is not the first one of a word that begins a mention. -/
def isInner (letter : Rune) : Bool := letter != '@' && letter != 'u'

theorem isLater_of_sameLetter {letter : Rune} (hletter : isInner letter)
    (h : Text.sameLetter letter c) : isLater c := by
  have hlater : isLater c ↔ c.toLower ≠ '@' ∧ c.toLower ≠ 'u' := by
    simp [isLater, Text.sameLetter]
  have hcode : ∀ n ∈ [0x130, 0x131, 0x17F, 0x212A], c.toNat = n → isLater c := by
    have hall : ∀ n ∈ [0x130, 0x131, 0x17F, 0x212A], isLater (Rune.ofNat n) := by decide
    rintro n hn rfl
    have hchar := hall _ hn
    rwa [Rune.ofNat_toNat] at hchar
  simp only [Text.sameLetter, Bool.or_eq_true, Bool.and_eq_true, beq_iff_eq] at h
  rcases h with ((hlower | ⟨-, hi | hi⟩) | ⟨-, hs⟩) | ⟨-, hk⟩
  · rw [hlater, hlower]
    simpa [isInner] using hletter
  · exact hcode _ (by simp) hi
  · exact hcode _ (by simp) hi
  · exact hcode _ (by simp) hs
  · exact hcode _ (by simp) hk

theorem all_isLater_of_dropWord? {word : Chars} (hword : word.all isInner)
    (h : Text.dropWord? word s = some []) : s.all isLater := by
  induction word generalizing s with
  | nil =>
      obtain rfl := Option.some.inj h
      rfl
  | cons letter word ih =>
      rw [List.all_cons, Bool.and_eq_true] at hword
      cases s with
      | nil => rfl
      | cons c s =>
          rw [Text.dropWord?, Option.ite_none_right_eq_some] at h
          rw [List.all_cons, isLater_of_sameLetter hword.1 h.1, ih hword.2 h.2]
          rfl

/-- Nothing is stripped from a silent text. -/
theorem Silent.stripImports_append (hu : Silent u) (s : Chars) :
    stripImports (u ++ s) = u ++ stripImports s := by
  induction u with
  | nil => rfl
  | cons c u ih =>
      have hnone : import? (c :: (u ++ s)) = none :=
        startsWith_import.none (hu.1 s _ startsWith_import.mem)
      rw [List.cons_append, stripImports_eq, replaced_of_none hnone, ← stripImports_eq, ih hu.2]
      rfl

theorem Silent.caught_append (hu : Silent u) (hs : Caught s) : Caught (u ++ s) := by
  induction u with
  | nil => exact hs
  | cons c u ih =>
      exact .skip (startsWith_url.none (hu.1 s _ startsWith_url.mem))
        (pointsOutside_of_no_word (hu.1 s)) (ih hu.2)

theorem Silent.inward (hu : Silent u) : Inward u := by
  induction u with
  | nil => exact inward_nil
  | cons c u ih =>
      refine inward_cons_iff.2 ⟨pointsOutside_of_no_word ?_, ih hu.2⟩
      have hhead := hu.1 []
      rwa [List.append_nil] at hhead

end Silence

section Reading

variable {c : Rune} {s t rest url word : Chars} {close? : Chars → Option Chars}

theorem dropWord?_append_of_some (h : Text.dropWord? word s = some rest) (t : Chars) :
    Text.dropWord? word (s ++ t) = some (rest ++ t) := by
  induction word generalizing s with
  | nil =>
      obtain rfl := Option.some.inj h
      rfl
  | cons letter word ih =>
      cases s with
      | nil => contradiction
      | cons c s =>
          rw [Text.dropWord?, Option.ite_none_right_eq_some] at h
          rw [List.cons_append, Text.dropWord?, if_pos h.1, ih h.2]

theorem between_append_left (s rest : Chars) : between (s ++ rest) rest = s := by
  rw [between, List.length_append, Nat.add_sub_cancel, List.take_left]

theorem trimLeft_blanks_append (hs : s.all Text.isBlank) (hc : Text.isBlank c = false)
    (t : Chars) : Text.trimLeft (s ++ c :: t) = c :: t := by
  rw [Text.trimLeft, List.dropWhile_append_of_pos (List.all_eq_true.1 hs),
    List.dropWhile_cons_of_neg (Bool.eq_false_iff.1 hc)]

/-- An address on a line that is closed nowhere before its end. -/
theorem lineUrl?_of_close (ht : t ≠ []) (hclose : close? t = some rest)
    (hurl : ∀ c u, c :: u <:+ url → close? (c :: u ++ t) = none ∧ c ≠ '\n') :
    lineUrl? close? (url ++ t) = some (url, rest) := by
  induction url with
  | nil =>
      obtain ⟨c, t, rfl⟩ := List.exists_cons_of_ne_nil ht
      rw [List.nil_append, lineUrl?, hclose]
  | cons c url ih =>
      obtain ⟨hnone, hline⟩ := hurl c url (List.suffix_refl _)
      have hlater := ih fun d u hu => hurl d u (hu.trans (List.suffix_cons c url))
      rw [List.cons_append] at hnone ⊢
      rw [lineUrl?, hnone]
      dsimp only
      rw [if_neg (by simpa using hline), hlater]
      rfl

theorem closeParen?_blanks_append (hs : s.all Text.isBlank) (t : Chars) :
    closeParen? (s ++ .of ')' :: t) = some t :=
  closeParen?_eq_some_iff.2 (trimLeft_blanks_append hs (by decide) t)

/-- An address between two quotes is read up to the second one. -/
theorem quotedUrl?_of_close {quote : Rune} (hquote : isQuote quote)
    (hurl : ∀ c ∈ url, mayStand (some quote) c) (hclose : closeParen? t = some rest) :
    quotedUrl? (quote :: (url ++ quote :: t)) = some (url, rest) := by
  rw [quotedUrl?, if_pos hquote]
  refine lineUrl?_of_close (List.cons_ne_nil _ _) ?_ fun c u hu => ?_
  · rw [dropPrefix?_singleton, beq_self_eq_true, if_pos rfl]
    exact hclose
  · have hc := hurl c (hu.subset List.mem_cons_self)
    simp only [mayStand, Bool.not_eq_true', Bool.or_eq_false_iff, beq_eq_false_iff_ne] at hc
    refine ⟨?_, hc.2⟩
    rw [List.cons_append, dropPrefix?_singleton, beq_false_of_ne (Ne.symm hc.1)]
    rfl

/-- An address without quotes is read up to the parenthesis. -/
theorem lineUrl?_of_word (hurl : ∀ c ∈ url, mayStand none c) (ht : t ≠ [])
    (hclose : closeParen? t = some rest) : lineUrl? closeParen? (url ++ t) = some (url, rest) := by
  refine lineUrl?_of_close ht hclose fun c u hu => ?_
  have hc := hurl c (hu.subset List.mem_cons_self)
  simp only [mayStand, Bool.not_eq_true', Bool.or_eq_false_iff, beq_eq_false_iff_ne] at hc
  refine ⟨(closeParen?_cons_eq_none_iff hc.2).2 hc.1.2, ?_⟩
  rintro rfl
  exact absurd hc.2 (by decide)

namespace WrittenAddress

variable (a : WrittenAddress)

/-- No blank and no closing parenthesis begins an address with its quotes. -/
theorem exists_text_eq_cons : ∃ c rest, a.text = c :: rest ∧ Text.isBlank c = false := by
  obtain ⟨quote, url, hquote, hchars, hne, -⟩ := a
  cases quote with
  | some q =>
      exact ⟨q, url ++ [q], rfl, (isForeign_of_isQuote (by simpa using hquote)).2⟩
  | none =>
      obtain ⟨c, url, rfl⟩ := List.exists_cons_of_ne_nil hne
      rw [List.all_cons, Bool.and_eq_true, mayStand] at hchars
      exact ⟨c, url, by simp [text], (by simpa using hchars.1 : _ ∧ _).2⟩

/-- Nothing of the address is trimmed with the blanks before it. -/
theorem trimLeft_text (hs : s.all Text.isBlank) (t : Chars) :
    Text.trimLeft (s ++ (a.text ++ t)) = a.text ++ t := by
  obtain ⟨c, rest, htext, hblank⟩ := a.exists_text_eq_cons
  rw [htext, List.cons_append, trimLeft_blanks_append hs hblank]

/-- Before a closing parenthesis the address is read as it was written. -/
theorem urlAddress?_text {after : Chars} (hafter : after.all Text.isBlank) (t : Chars) :
    urlAddress? (a.text ++ (after ++ .of ')' :: t)) = some (a.url, t) := by
  have hclose := closeParen?_blanks_append hafter t
  obtain ⟨quote, url, hquote, hchars, hne, -⟩ := a
  rw [List.all_eq_true] at hchars
  rw [urlAddress?, Option.orElse_eq_or]
  cases quote with
  | some q =>
      have hread := quotedUrl?_of_close (by simpa using hquote) hchars hclose
      simp only [text, Option.toList_some, List.nil_append, List.cons_append, List.append_assoc,
        hread, Option.some_or]
  | none =>
      have hread := lineUrl?_of_word hchars (by simp) hclose
      obtain ⟨c, url, rfl⟩ := List.exists_cons_of_ne_nil hne
      have hc := hchars c List.mem_cons_self
      simp only [mayStand, Bool.not_eq_true', Bool.or_eq_false_iff] at hc
      have hnone : ∀ s, quotedUrl? (c :: s) = none := fun s => if_neg (by simp [hc.1.1])
      simp only [text, Option.toList_none, List.nil_append, List.append_nil]
      rw [List.cons_append, hnone, Option.none_or, ← List.cons_append, hread]

/-- An import reads the address as it was written, if what follows is no part of it. -/
theorem importUrl?_text (hchars : a.url.all isImportChar) (hc : isImportChar c = false) (t : Chars) :
    importUrl? (a.text ++ c :: t) = some (a.url, c :: t) := by
  revert hchars
  obtain ⟨quote, url, hquote, hstand, hne, -⟩ := a
  intro hchars
  have hfound : ∀ d s, isImportChar d = false →
      (url ++ d :: s).takeWhile isImportChar = url ∧ (url ++ d :: s).drop url.length = d :: s := by
    intro d s hd
    rw [Text.takeWhile_append_of_neg hd, List.takeWhile_eq_self_iff.2 (List.all_eq_true.1 hchars)]
    exact ⟨rfl, List.drop_left⟩
  have hempty : url.isEmpty = false := by simpa using hne
  cases quote with
  | some q =>
      have hq : isQuote q := by simpa using hquote
      have hnot : isImportChar q = false := by
        rw [isQuote] at hq
        simp [isImportChar, hq]
      obtain ⟨htake, hdrop⟩ := hfound q (c :: t) hnot
      simp only [text, Option.toList_some, List.nil_append, List.cons_append, List.append_assoc,
        importUrl?, hq, if_true, htake, hdrop, hempty, beq_self_eq_true, Bool.false_eq_true,
        if_false]
  | none =>
      obtain ⟨htake, hdrop⟩ := hfound c t hc
      obtain ⟨d, url, rfl⟩ := List.exists_cons_of_ne_nil hne
      have hd : isQuote d = false := by
        simp only [List.all_cons, mayStand, Bool.and_eq_true, Bool.not_eq_true',
          Bool.or_eq_false_iff] at hstand
        exact hstand.1.1.1
      rw [List.cons_append] at htake hdrop
      simp only [text, Option.toList_none, List.nil_append, List.append_nil, List.cons_append,
        importUrl?, hd, Bool.false_eq_true, if_false, htake, hdrop, hempty]

theorem dropWord?_text (hword : word ∈ mentionWords) (hc : isMark c) (t : Chars) :
    Text.dropWord? word (a.text ++ c :: t) = none := by
  obtain ⟨quote, url, hquote, -, hne, hquiet⟩ := a
  cases quote with
  | some q =>
      have hlater := isLater_of_isMark (isMark_of_isQuote (by simpa using hquote))
      exact dropWord?_of_isLater hlater hword _
  | none =>
      obtain ⟨d, url, rfl⟩ := List.exists_cons_of_ne_nil hne
      simp only [text, Option.toList_none, List.nil_append, List.append_nil]
      rw [dropWord?_append_mark hword hc, (quiet_cons_iff.1 hquiet).1 word hword]
      rfl

/-- No mention begins in the address, nor goes on from it. -/
theorem silent_text_append (hc : isMark c) (ht : Silent (c :: t)) : Silent (a.text ++ c :: t) := by
  obtain ⟨quote, url, hquote, -, hne, hquiet⟩ := a
  cases quote with
  | some q =>
      have hq : isMark q := isMark_of_isQuote (by simpa using hquote)
      have hone : Silent [q] := silent_of_isLater (by simpa using isLater_of_isMark hq)
      have hlater : Silent (url ++ q :: c :: t) := (hone.append ht).quiet_append hquiet hq
      simpa [text] using hone.append hlater
  | none => simpa [text] using ht.quiet_append hquiet hc

/-- A text that goes on with the address leads outside if the address is external. -/
theorem leadsOut_text (hs : s.all Text.isBlank) (hc : isForeign c) (t : Chars) :
    leadsOut (s ++ (a.text ++ c :: t)) = isExternal a.url := by
  rw [leadsOut, a.trimLeft_text hs]
  obtain ⟨quote, url, hquote, hchars, hne, -⟩ := a
  cases quote with
  | some q =>
      have hq : isQuote q := by simpa using hquote
      have hafter : afterQuote (q :: (url ++ q :: c :: t)) = url ++ q :: c :: t := if_pos hq
      simp only [text, Option.toList_some, List.nil_append, List.cons_append, List.append_assoc,
        hafter]
      exact isExternal_append_cons (isForeign_of_isQuote hq).1 (isForeign_of_isQuote hq).2 url _
  | none =>
      obtain ⟨e, url, rfl⟩ := List.exists_cons_of_ne_nil hne
      simp only [List.all_cons, mayStand, Bool.and_eq_true, Bool.not_eq_true',
        Bool.or_eq_false_iff] at hchars
      have hafter : afterQuote (e :: (url ++ c :: t)) = e :: (url ++ c :: t) :=
        if_neg (Bool.eq_false_iff.1 hchars.1.1.1)
      have htrim : ∀ s, Text.trimLeft (e :: s) = e :: s := fun s =>
        List.dropWhile_cons_of_neg (Bool.eq_false_iff.1 hchars.1.2)
      simp only [text, Option.toList_none, List.nil_append, List.append_nil, List.cons_append,
        hafter]
      rw [Bool.eq_iff_iff, isExternal_iff, isExternal_iff, htrim, htrim, ← List.cons_append,
        beginsOutside_append_cons hc]

end WrittenAddress

/-- The character ends an address without quotes, and no word goes on with it. -/
structure Ends (c : Rune) : Prop where
  mark : isMark c
  foreign : isForeign c
  notImport : isImportChar c = false

theorem ends_of_isBlank (hc : Text.isBlank c) : Ends c :=
  ⟨isMark_of_isBlank hc, isForeign_of_isBlank hc, by simp [isImportChar, hc]⟩

theorem ends_paren : Ends ')' := ⟨by decide, by decide, by decide⟩

theorem ends_semicolon : Ends ';' := ⟨by decide, by decide, by decide⟩

/-- What is set off by a blank, if there is anything, and a character that ends an address. -/
theorem exists_ends (hs : s.head?.all Text.isBlank) (hc : Ends c) (t : Chars) :
    ∃ d rest, s ++ c :: t = d :: rest ∧ Ends d := by
  cases s with
  | nil => exact ⟨c, t, rfl, hc⟩
  | cons d s => exact ⟨d, s ++ c :: t, rfl, ends_of_isBlank (by simpa using hs)⟩

/-- No character is the first letter of both words that begin a mention. -/
theorem not_sameLetter_both : ¬ (Text.sameLetter '@' c ∧ Text.sameLetter 'u' c) := by
  rintro ⟨hat, hu⟩
  have hlower : c.toLower = '@' := by simpa [Text.sameLetter] using hat
  simp [Text.sameLetter, hlower] at hu

/-- A word is its first letter, and letters that begin no mention. -/
theorem exists_of_isWord {letter : Rune} (hword : word.all isInner)
    (h : Text.dropWord? (letter :: word) s = some []) :
    ∃ c rest, s = c :: rest ∧ Text.sameLetter letter c ∧ rest.all isLater := by
  cases s with
  | nil => contradiction
  | cons c s =>
      rw [Text.dropWord?, Option.ite_none_right_eq_some] at h
      exact ⟨c, s, rfl, h.1, all_isLater_of_dropWord? hword h.2⟩

namespace WrittenUrl

variable (u : WrittenUrl)

theorem dropWord?_text (t : Chars) : Text.dropWord? "url(".runes (u.text ++ t) =
    some (u.before ++ (u.address.text ++ (u.after ++ .of ')' :: t))) := by
  have h := dropWord?_append_of_some u.isWord
    (u.before ++ (u.address.text ++ (u.after ++ .of ')' :: t)))
  simpa [text] using h

theorem blank_head_after : u.after.head?.all Text.isBlank := by
  have hall := u.blank_after
  cases hafter : u.after with
  | nil => rfl
  | cons c after =>
      rw [hafter, List.all_cons, Bool.and_eq_true] at hall
      exact hall.1

/-- A mention begins with the first letter, and none after it. -/
theorem exists_text_eq_cons :
    ∃ c rest, u.text = c :: rest ∧ Text.sameLetter 'u' c ∧ Silent rest := by
  obtain ⟨c, word, hword, hletter, hlater⟩ := exists_of_isWord (by decide) u.isWord
  refine ⟨c, word ++ (u.before ++ (u.address.text ++ (u.after ++ [.of ')']))), ?_, hletter, ?_⟩
  · simp [text, hword]
  · have hclosing : Silent (u.after ++ [.of ')']) :=
      (silent_of_isBlank u.blank_after).append (silent_of_isLater (by decide))
    obtain ⟨d, rest, heq, hends⟩ := exists_ends u.blank_head_after ends_paren []
    rw [heq] at hclosing ⊢
    exact (silent_of_isLater hlater).append ((silent_of_isBlank u.blank_before).append
      (u.address.silent_text_append hends.mark hclosing))

/-- An address is read as it was written, whatever comes after it. -/
theorem url?_text (t : Chars) : url? (u.text ++ t) = some ⟨u.address.url, u.text, t⟩ := by
  rw [url?_eq, addressed?, u.dropWord?_text, Option.bind_some,
    u.address.trimLeft_text u.blank_before, u.address.urlAddress?_text u.blank_after, Option.map_some, between_append_left]

theorem pointsOutside_text (t : Chars) :
    pointsOutside (u.text ++ t) = isExternal u.address.url := by
  obtain ⟨c, rest, htext, hletter, -⟩ := u.exists_text_eq_cons
  have hat : ¬ Text.sameLetter '@' c := fun hat => not_sameLetter_both ⟨hat, hletter⟩
  have himport : Text.dropWord? "@import".runes (u.text ++ t) = none := by
    rw [htext, List.cons_append]
    exact if_neg hat
  obtain ⟨d, closing, heq, hends⟩ := exists_ends u.blank_head_after ends_paren t
  rw [pointsOutside, importsOutside, addressesOutside, leadsOutAfter, leadsOutAfter, himport,
    u.dropWord?_text, heq, Option.any_none, Option.any_some, Bool.true_and, Bool.false_or]
  exact u.address.leadsOut_text u.blank_before hends.foreign closing

theorem stripImports_append (s : Chars) :
    stripImports (u.text ++ s) = u.text ++ stripImports s := by
  obtain ⟨c, rest, htext, hletter, hrest⟩ := u.exists_text_eq_cons
  have hat : ¬ Text.sameLetter '@' c := fun hat => not_sameLetter_both ⟨hat, hletter⟩
  have hnone : import? (c :: (rest ++ s)) = none :=
    startsWith_import.none (if_neg hat)
  rw [htext, List.cons_append, stripImports_eq, replaced_of_none hnone, ← stripImports_eq,
    hrest.stripImports_append, List.cons_append]

theorem caught_append (hs : Caught s) : Caught (u.text ++ s) := by
  refine (caught_iff_of_some (u.url?_text s)).2 ⟨fun hlocal => ?_, hs⟩
  obtain ⟨c, rest, htext, -, hrest⟩ := u.exists_text_eq_cons
  have hpoints := u.pointsOutside_text []
  rw [List.append_nil, htext] at hpoints
  change Inward u.text
  rw [htext]
  exact inward_cons_iff.2 ⟨hpoints.trans hlocal, hrest.inward⟩

end WrittenUrl

end Reading

end Folio.Resource
