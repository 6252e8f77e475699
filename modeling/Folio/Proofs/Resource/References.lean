import Mathlib.Data.List.Infix
import Folio.Proofs.Resource.Semicolons

/-!
References to the outside in a style sheet, wherever they stand in it: the texts without any are
left as they are, and it is told exactly when no reference survives the replacing of addresses.
-/
namespace Folio.Resource

section External

variable {c : Rune} {s t x : Chars}

/-- The beginnings of external addresses. -/
def outsideWords : List Chars := ["http://", "https://", "//"].map String.runes

/-- An external address begins the text, with no blank before it. -/
def BeginsOutside (s : Chars) : Prop := ∃ word ∈ outsideWords, word <+: s.flatMap Text.lowerAlone

/-- The character is none of those in the beginnings of external addresses, in any case. -/
def isForeign (c : Rune) : Bool :=
  outsideWords.all fun word => word.all fun d => (Text.lowerAlone c).head? != some d

theorem isForeign_of_isBlank (hc : Text.isBlank c) : isForeign c := by
  have hwords : outsideWords.all fun word => word.all fun d => !Text.isBlank d := by decide
  simp only [isForeign, List.all_eq_true, Text.lowerAlone_of_isBlank hc, List.head?_cons,
    bne_iff_ne, ne_eq, Option.some.injEq]
  rintro word hword d hd rfl
  have hnot := List.all_eq_true.1 (List.all_eq_true.1 hwords word hword) c hd
  rw [hc] at hnot
  contradiction

theorem BeginsOutside.append (h : BeginsOutside s) (t : Chars) : BeginsOutside (s ++ t) := by
  obtain ⟨word, hword, hprefix⟩ := h
  rw [BeginsOutside, List.flatMap_append]
  exact ⟨word, hword, hprefix.trans (List.prefix_append _ _)⟩

/-- An external address does not begin across a character that is foreign to its beginning. -/
theorem beginsOutside_append_cons (hc : isForeign c) (s t : Chars) :
    BeginsOutside (s ++ c :: t) ↔ BeginsOutside s := by
  refine ⟨fun h => ?_, fun h => h.append _⟩
  obtain ⟨word, hword, hprefix⟩ := h
  refine ⟨word, hword, ?_⟩
  rw [List.flatMap_append] at hprefix
  rcases List.prefix_or_prefix_of_prefix hprefix (List.prefix_append _ _) with hinside | ⟨more, rfl⟩
  · exact hinside
  · cases more with
    | nil => simp
    | cons d more =>
        exfalso
        rw [List.prefix_append_right_inj, List.flatMap_cons] at hprefix
        obtain ⟨e, image, himage⟩ := List.exists_cons_of_ne_nil (Text.lowerAlone_ne_nil c)
        rw [himage, List.cons_append, List.cons_prefix_cons] at hprefix
        have hforeign := List.all_eq_true.1 (List.all_eq_true.1 hc _ hword) d (by simp)
        rw [himage, hprefix.1] at hforeign
        simp at hforeign

theorem isExternal_iff : isExternal s ↔ BeginsOutside (Text.trimLeft s) := by
  have hwords : ∀ word ∈ outsideWords, Text.NoSigma word := by decide
  have hlower : isExternal s ↔ ∃ word ∈ outsideWords, word <+: Text.lower (Text.trim s) := by
    simp [isExternal, outsideWords, or_assoc]
  obtain ⟨blanks, heq, hblanks⟩ := Text.exists_trimLeft_eq_append s
  have htrim : isExternal s ↔ BeginsOutside (Text.trim s) := by
    rw [hlower, BeginsOutside]
    refine exists_congr fun word => and_congr_right fun hword => ?_
    exact Text.prefix_lower_iff (hwords word hword)
  rw [htrim, heq]
  cases blanks with
  | nil => rw [List.append_nil]
  | cons c blanks =>
      have hforeign := isForeign_of_isBlank (hblanks c List.mem_cons_self)
      exact (beginsOutside_append_cons hforeign _ _).symm

theorem not_beginsOutside_nil : ¬ BeginsOutside [] := by
  simp [BeginsOutside, outsideWords]

/-- What goes on after an external address is external. -/
theorem isExternal_of_prefix (h : s <+: t) (hs : isExternal s) : isExternal t := by
  obtain ⟨more, rfl⟩ := h
  rw [isExternal_iff] at hs ⊢
  rw [Text.trimLeft, List.dropWhile_append]
  split
  · rename_i hempty
    rw [Text.trimLeft, List.isEmpty_iff.1 hempty] at hs
    exact absurd hs not_beginsOutside_nil
  · exact hs.append more

/-- The character ends an external address that would still have to begin. -/
theorem isExternal_append_cons (hc : isForeign c) (hblank : Text.isBlank c = false) (s t : Chars) :
    isExternal (s ++ c :: t) = isExternal s := by
  rw [Bool.eq_iff_iff, isExternal_iff, isExternal_iff, Text.trimLeft_append_of_neg hblank,
    beginsOutside_append_cons hc]

theorem isExternal_cons (hc : isForeign c) (hblank : Text.isBlank c = false) (t : Chars) :
    isExternal (c :: t) = false :=
  (isExternal_append_cons hc hblank [] t).trans rfl

end External

section References

variable {c : Rune} {s t u : Chars}

/-- After blanks, and a quote if there is one, the text goes on with an external address. -/
def leadsOut (s : Chars) : Bool := isExternal (afterQuote (Text.trimLeft s))

/-- The word begins the text, goes on as it may, and leads outside. -/
def leadsOutAfter (word : Chars) (mayFollow : Chars → Bool) (s : Chars) : Bool :=
  (Text.dropWord? word s).any fun after => mayFollow after && leadsOut after

/-- A blank or a quote begins the text. -/
def opens (s : Chars) : Bool := s.head?.any fun c => Text.isBlank c || isQuote c

/-- An import with an external address begins the text. -/
def importsOutside (s : Chars) : Bool := leadsOutAfter "@import".runes opens s

/-- `url(` with an external address begins the text. -/
def addressesOutside (s : Chars) : Bool := leadsOutAfter "url(".runes (fun _ => true) s

/-- A reference to the outside begins the text: an import or an address, or an import of an
address. -/
def refersOutside (s : Chars) : Bool :=
  importsOutside s || addressesOutside s ||
    (Text.dropWord? "@import".runes s).any fun after =>
      opens after && addressesOutside (Text.trimLeft after)

/-- No reference to the outside begins anywhere in the text. -/
def Inward (s : Chars) : Prop := ∀ t, t <:+ s → refersOutside t = false

instance (s : Chars) : Decidable (Inward s) :=
  decidable_of_iff (∀ t ∈ s.tails, refersOutside t = false) (by simp [Inward])

/-- An import or an address begins the text, and leads outside by itself. -/
def pointsOutside (s : Chars) : Bool := importsOutside s || addressesOutside s

/-- In an import of an address it is the address that leads outside. -/
theorem inward_iff : Inward s ↔ ∀ t, t <:+ s → pointsOutside t = false := by
  constructor
  · intro h t ht
    have hnone := h t ht
    rw [refersOutside, Bool.or_eq_false_iff] at hnone
    exact hnone.1
  · intro h t ht
    rw [refersOutside, Bool.or_eq_false_iff]
    refine ⟨h t ht, ?_⟩
    rw [Option.any_eq_false]
    intro after hafter
    obtain ⟨front, rfl, -⟩ := exists_of_dropWord? hafter
    have haddress := h (Text.trimLeft after)
      (((Text.trimLeft_suffix after).trans (List.suffix_append front after)).trans ht)
    rw [pointsOutside, Bool.or_eq_false_iff] at haddress
    rw [haddress.2, Bool.and_false]

theorem inward_nil : Inward [] := by decide

theorem inward_cons_iff : Inward (c :: s) ↔ pointsOutside (c :: s) = false ∧ Inward s := by
  simp only [inward_iff, List.suffix_cons_iff, forall_eq_or_imp]

theorem pointsOutside_of_no_word (h : ∀ word ∈ mentionWords, Text.dropWord? word s = none) :
    pointsOutside s = false := by
  have himport := h "@import".runes (by decide)
  have hurl := h "url(".runes (by decide)
  rw [pointsOutside, importsOutside, addressesOutside, leadsOutAfter, leadsOutAfter, himport, hurl]
  rfl

/-- What is read of a reference after its first character does not go beyond this character. -/
def endsReference (c : Rune) : Bool :=
  isForeign c && !Text.isBlank c && !isQuote c &&
    mentionWords.all fun word => word.tail.all fun letter => !Text.sameLetter letter c

theorem leadsOut_append_cons (hc : endsReference c) (s t : Chars) :
    leadsOut (s ++ c :: t) = leadsOut s := by
  simp only [endsReference, Bool.and_eq_true, Bool.not_eq_true'] at hc
  obtain ⟨⟨⟨hforeign, hblank⟩, hquote⟩, -⟩ := hc
  rw [leadsOut, leadsOut, Text.trimLeft_append_of_neg hblank]
  cases Text.trimLeft s with
  | nil =>
      have hkeep : afterQuote (c :: t) = c :: t := if_neg (Bool.eq_false_iff.1 hquote)
      rw [List.nil_append, hkeep]
      exact isExternal_append_cons hforeign hblank [] t
  | cons d s =>
      rw [List.cons_append, afterQuote, afterQuote]
      split
      · exact isExternal_append_cons hforeign hblank s t
      · exact isExternal_append_cons hforeign hblank (d :: s) t

theorem opens_append_cons (hc : endsReference c) (s t : Chars) : opens (s ++ c :: t) = opens s := by
  simp only [endsReference, Bool.and_eq_true, Bool.not_eq_true'] at hc
  obtain ⟨⟨⟨-, hblank⟩, hquote⟩, -⟩ := hc
  cases s with
  | nil => simp [opens, hblank, hquote]
  | cons d s => rfl

theorem leadsOutAfter_append_cons {word : Chars} (hword : word ∈ mentionWords)
    {mayFollow : Chars → Bool} (hfollow : ∀ s t, mayFollow (s ++ c :: t) = mayFollow s)
    (hc : endsReference c) (hu : u ≠ []) (t : Chars) :
    leadsOutAfter word mayFollow (u ++ c :: t) = leadsOutAfter word mayFollow u := by
  obtain ⟨d, u, rfl⟩ := List.exists_cons_of_ne_nil hu
  have htails := (Bool.and_eq_true_iff.1 hc).2
  have htail := List.all_eq_true.1 htails word hword
  cases word with
  | nil => exact absurd hword (by decide)
  | cons letter word =>
      rw [List.tail_cons] at htail
      have hdrop : Text.dropWord? (letter :: word) (d :: u ++ c :: t) =
          (Text.dropWord? (letter :: word) (d :: u)).map (· ++ c :: t) := by
        rw [List.cons_append, Text.dropWord?, Text.dropWord?, dropWord?_append_cons htail]
        split <;> rfl
      have hread : (fun after => mayFollow (after ++ c :: t) && leadsOut (after ++ c :: t)) =
          fun after => mayFollow after && leadsOut after := by
        funext after
        rw [hfollow, leadsOut_append_cons hc]
      rw [leadsOutAfter, leadsOutAfter, hdrop, Option.any_map]
      exact congrArg (Option.any · _) hread

theorem pointsOutside_append_cons (hc : endsReference c) (hu : u ≠ []) (t : Chars) :
    pointsOutside (u ++ c :: t) = pointsOutside u := by
  rw [pointsOutside, pointsOutside, importsOutside, importsOutside, addressesOutside,
    addressesOutside, leadsOutAfter_append_cons (by decide) (opens_append_cons hc) hc hu,
    leadsOutAfter_append_cons (by decide) (fun _ _ => rfl) hc hu]

theorem pointsOutside_mark (hc : isMark c) (t : Chars) : pointsOutside (c :: t) = false :=
  pointsOutside_of_no_word fun _ hword => dropWord?_mark hword hc t

/-- No reference goes across a mark that ends what can be read of it. -/
theorem inward_append_cons_iff (hc : endsReference c) (hmark : isMark c) (u t : Chars) :
    Inward (u ++ c :: t) ↔ Inward (u ++ [c]) ∧ Inward t := by
  induction u with
  | nil =>
      rw [List.nil_append, List.nil_append, inward_cons_iff, inward_cons_iff,
        pointsOutside_mark hmark, pointsOutside_mark hmark]
      simp [inward_nil]
  | cons d u ih =>
      rw [List.cons_append, List.cons_append, inward_cons_iff, inward_cons_iff, ih, and_assoc,
        ← List.cons_append, ← List.cons_append, pointsOutside_append_cons hc (List.cons_ne_nil d u),
        pointsOutside_append_cons hc (List.cons_ne_nil d u)]

end References

section Stable

variable {c : Rune} {s t url rest : Chars} {m : Mention}

theorem isForeign_of_isQuote (hc : isQuote c) : isForeign c ∧ Text.isBlank c = false := by
  simp only [isQuote, Bool.or_eq_true, beq_iff_eq] at hc
  rcases hc with rfl | rfl <;> decide

/-- An external address after a quote, or at the beginning, is one after the quote. -/
theorem isExternal_afterQuote (h : url <+: afterQuote s ∨ url <+: s) (hurl : isExternal url) :
    isExternal (afterQuote s) := by
  rcases h with hquoted | hplain
  · exact isExternal_of_prefix hquoted hurl
  · have hall := isExternal_of_prefix hplain hurl
    cases s with
    | nil => exact hall
    | cons c s =>
        rw [afterQuote, if_neg]
        · exact hall
        · intro hquote
          obtain ⟨hforeign, hblank⟩ := isForeign_of_isQuote hquote
          rw [isExternal_cons hforeign hblank] at hall
          contradiction

/-- An external address that is found is a reference to the outside where it is found. -/
theorem pointsOutside_of_url? (h : url? s = some m) (hurl : isExternal m.url) :
    pointsOutside s := by
  rw [url?_eq] at h
  obtain ⟨⟨url, rest⟩, hfound, rfl⟩ := Option.map_eq_some_iff.1 h
  obtain ⟨body, hword, haddress⟩ := Option.bind_eq_some_iff.1 hfound
  have hout : leadsOut body := isExternal_afterQuote (urlAddress?_sound haddress).1 hurl
  rw [pointsOutside, addressesOutside, leadsOutAfter, hword, Option.any_some, hout, Bool.and_true,
    Bool.or_true]

theorem opens_of_length_trimLeft (h : (Text.trimLeft s).length ≠ s.length) : opens s := by
  cases s with
  | nil => exact absurd rfl h
  | cons c s =>
      by_cases hblank : Text.isBlank c
      · simp [opens, hblank]
      · rw [Text.trimLeft, List.dropWhile_cons_of_neg hblank] at h
        exact absurd rfl h

/-- An external import that is found is a reference to the outside where it is found. -/
theorem refersOutside_of_import? (h : import? s = some m) (hurl : isExternal m.url) :
    refersOutside s := by
  rw [import?_eq] at h
  obtain ⟨⟨url, rest⟩, hfound, rfl⟩ := Option.map_eq_some_iff.1 h
  obtain ⟨after, hword, hbody⟩ := Option.bind_eq_some_iff.1 hfound
  obtain ⟨hblank, haddress⟩ := Option.ite_none_left_eq_some.1 hbody
  have hopens : opens after := by
    rw [beq_iff_eq] at hblank
    exact opens_of_length_trimLeft hblank
  rw [importAddress?, Option.orElse_eq_or, Option.or_eq_some_iff] at haddress
  rw [refersOutside, hword, Option.any_some, hopens, Bool.true_and]
  rcases haddress with hinside | ⟨-, hplain⟩
  · obtain ⟨inside, hurlWord, himport⟩ := Option.bind_eq_some_iff.1 hinside
    have hout : leadsOut inside := isExternal_of_prefix (importUrl?_sound himport).1 hurl
    rw [addressesOutside, addressesOutside, leadsOutAfter, leadsOutAfter, hurlWord, Option.any_some, hout]
    simp
  · have hout : leadsOut after := isExternal_of_prefix (importUrl?_sound hplain).1 hurl
    rw [importsOutside, leadsOutAfter, hword, Option.any_some, hopens, hout]
    rfl

/-- From a text without references to the outside nothing is taken away. -/
theorem Inward.fixed (h : Inward s) : Fixed s := by
  refine fixed_iff.2 ⟨clean_of_local finds_import ?_, clean_of_local finds_url ?_⟩
  · intro t m ht hfind
    have hnone := h t ht
    rw [← Bool.not_eq_true] at hnone ⊢
    exact fun hurl => hnone (refersOutside_of_import? hfind hurl)
  · intro t m ht hfind
    have hnone := inward_iff.1 h t ht
    rw [← Bool.not_eq_true] at hnone ⊢
    exact fun hurl => hnone (pointsOutside_of_url? hfind hurl)

end Stable

end Folio.Resource
