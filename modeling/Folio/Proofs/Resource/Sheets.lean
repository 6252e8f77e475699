import Folio.Proofs.Resource.WrittenAddresses

/-!
Style sheets as they are meant to be written: imports and addresses that can be read whole, with
other text between them in which neither begins. From these all references to the outside are
stripped; and there are others, from which they are not.
-/
namespace Folio.Resource

/-- What is imported: an address, or one as `url(…)`. -/
inductive Target where
  | address (a : WrittenAddress)
  | function (u : WrittenUrl)

namespace Target

def text : Target → Chars
  | address a => a.text
  | function u => u.text

def url : Target → Chars
  | address a => a.url
  | function u => u.address.url

end Target

/-- An import up to its semicolon. What follows the address, such as a list of media, is set off
by a blank, and no mention begins in it. -/
structure WrittenImport where
  word : Chars
  blanks : Chars
  target : Target
  media : Chars
  isWord : Text.dropWord? "@import".runes word = some []
  nonempty : blanks ≠ []
  blank_blanks : blanks.all Text.isBlank
  chars : target.url.all isImportChar
  blank_media : media.head?.all Text.isBlank
  quiet_media : quiet media
  no_semicolon : .of ';' ∉ media

def WrittenImport.text (i : WrittenImport) : Chars :=
  i.word ++ i.blanks ++ i.target.text ++ i.media ++ [.of ';']

/-- A style sheet of imports and addresses that can be read whole, and other text. The text before
one of them ends with a mark, so that no word goes on from there. -/
inductive Sheet : Chars → Prop
  | text {u : Chars} (hu : quiet u) : Sheet u
  | mark {u : Chars} {c : Rune} {s : Chars} (hu : quiet u) (hc : isMark c) (hs : Sheet s) :
      Sheet (u ++ c :: s)
  | address (u : WrittenUrl) {s : Chars} (hs : Sheet s) : Sheet (u.text ++ s)
  | imported (i : WrittenImport) {s : Chars} (hs : Sheet s) : Sheet (i.text ++ s)

section Reading

variable {c : Rune} {s t : Chars}

theorem afterImport_append_of_not_mem (hs : .of ';' ∉ s) (t : Chars) :
    afterImport (s ++ .of ';' :: t) = t := by
  have hall : ∀ c ∈ s, (c != ';') = true := by
    intro c hc
    rw [bne_iff_ne]
    rintro rfl
    exact hs hc
  rw [afterImport, List.dropWhile_append_of_pos hall]
  rfl

namespace Target

variable (target : Target)

theorem trimLeft_text (hs : s.all Text.isBlank) (t : Chars) :
    Text.trimLeft (s ++ (target.text ++ t)) = target.text ++ t := by
  cases target with
  | address a => exact a.trimLeft_text hs t
  | function u =>
      obtain ⟨c, rest, htext, hletter, -⟩ := u.exists_text_eq_cons
      have hends := endsReference_of_sameLetter hletter
      simp only [endsReference, Bool.and_eq_true, Bool.not_eq_true'] at hends
      rw [Target.text, htext, List.cons_append, trimLeft_blanks_append hs hends.1.1.2]

/-- What is imported is read as it was written, up to its parenthesis if it has one. -/
theorem importAddress?_text (hchars : target.url.all isImportChar) (hc : Ends c) (t : Chars) :
    ∃ closing, .of ';' ∉ closing ∧
      importAddress? (target.text ++ c :: t) = some (target.url, closing ++ c :: t) := by
  cases target with
  | address a =>
      refine ⟨[], List.not_mem_nil, ?_⟩
      rw [importAddress?, Option.orElse_eq_or, Target.text,
        a.dropWord?_text (by decide) hc.mark, Option.bind_none, Option.none_or,
        a.importUrl?_text hchars hc.notImport]
      rfl
  | function u =>
      refine ⟨u.after ++ [.of ')'], ?_, ?_⟩
      · have hblank : Text.isBlank ';' = false := by decide
        rw [List.mem_append, List.mem_singleton]
        rintro (hmem | hmem)
        · rw [List.all_eq_true.1 u.blank_after _ hmem] at hblank
          contradiction
        · contradiction
      · obtain ⟨d, more, heq, hends⟩ := exists_ends u.blank_head_after ends_paren (c :: t)
        rw [importAddress?, Option.orElse_eq_or, Target.text, u.dropWord?_text, Option.bind_some,
          u.address.trimLeft_text u.blank_before, heq,
          u.address.importUrl?_text hchars hends.notImport, Option.some_or, List.append_assoc,
          List.singleton_append, heq]
        rfl

/-- A local import does not lead outside by itself. -/
theorem leadsOut_text (hlocal : isExternal target.url = false) (hs : s.all Text.isBlank)
    (hc : Ends c) (t : Chars) : leadsOut (s ++ (target.text ++ c :: t)) = false := by
  cases target with
  | address a => exact (a.leadsOut_text hs hc.foreign t).trans hlocal
  | function u =>
      obtain ⟨d, rest, htext, hletter, -⟩ := u.exists_text_eq_cons
      have hnil : Text.trimLeft s = [] := List.dropWhile_eq_nil_iff.2 (List.all_eq_true.1 hs)
      rw [Target.text, htext, List.cons_append,
        leadsOut_append_cons (endsReference_of_sameLetter hletter), leadsOut, hnil]
      rfl

theorem caught_append (hc : isMark c) (ht : Silent (c :: t)) (hs : Caught s) :
    Caught (target.text ++ (c :: t ++ s)) := by
  cases target with
  | address a =>
      rw [Target.text, ← List.append_assoc]
      exact (a.silent_text_append hc ht).caught_append hs
  | function u => exact u.caught_append (ht.caught_append hs)

end Target

namespace WrittenImport

variable (i : WrittenImport)

theorem dropWord?_text (t : Chars) : Text.dropWord? "@import".runes (i.text ++ t) =
    some (i.blanks ++ (i.target.text ++ (i.media ++ .of ';' :: t))) := by
  have h := dropWord?_append_of_some i.isWord
    (i.blanks ++ (i.target.text ++ (i.media ++ .of ';' :: t)))
  simpa [text] using h

/-- An import is read as it was written, whatever comes after it. -/
theorem import?_text (t : Chars) : import? (i.text ++ t) = some ⟨i.target.url, i.text, t⟩ := by
  have hlength : ((i.target.text ++ (i.media ++ .of ';' :: t)).length ==
      (i.blanks ++ (i.target.text ++ (i.media ++ .of ';' :: t))).length) = false := by
    have hpos := List.length_pos_of_ne_nil i.nonempty
    rw [beq_eq_false_iff_ne]
    simp only [List.length_append]
    omega
  obtain ⟨d, more, heq, hends⟩ := exists_ends i.blank_media ends_semicolon t
  obtain ⟨closing, hclosing, hread⟩ := i.target.importAddress?_text i.chars hends more
  have hrest : afterImport (closing ++ (i.media ++ .of ';' :: t)) = t := by
    rw [← List.append_assoc]
    refine afterImport_append_of_not_mem ?_ t
    rw [List.mem_append]
    exact not_or.2 ⟨hclosing, i.no_semicolon⟩
  rw [← heq] at hread
  rw [import?_eq, imported?, i.dropWord?_text, Option.bind_some, i.target.trimLeft_text i.blank_blanks,
    hlength, if_neg Bool.false_ne_true, hread, Option.map_some, hrest, between_append_left]

/-- Nothing begins in a local import but the address that is imported. -/
theorem caught_append (hlocal : isExternal i.target.url = false) (hs : Caught s) :
    Caught (i.text ++ s) := by
  obtain ⟨d, word, hword, hletter, hlater⟩ := exists_of_isWord (by decide) i.isWord
  have hurl : ∀ t, Text.dropWord? "url(".runes (d :: t) = none := fun _ =>
    if_neg fun hu => not_sameLetter_both ⟨hletter, hu⟩
  have htext : i.text ++ s =
      d :: (word ++ (i.blanks ++ (i.target.text ++ (i.media ++ .of ';' :: s)))) := by
    simp [text, hword]
  have hpoints : pointsOutside (i.text ++ s) = false := by
    obtain ⟨e, rest, heq, hends⟩ := exists_ends i.blank_media ends_semicolon s
    rw [pointsOutside, importsOutside, addressesOutside, leadsOutAfter, leadsOutAfter,
      i.dropWord?_text, heq, Option.any_some,
      i.target.leadsOut_text hlocal i.blank_blanks hends, Bool.and_false, Bool.false_or, htext, hurl]
    rfl
  have hclosing : Silent (i.media ++ [.of ';']) :=
    Silent.quiet_append (silent_of_isLater (by decide)) i.quiet_media (by decide)
  obtain ⟨e, rest, heq, hends⟩ := exists_ends i.blank_media ends_semicolon []
  rw [heq] at hclosing
  have hafter : i.media ++ .of ';' :: s = e :: rest ++ s := by
    rw [← heq, List.append_assoc]
    rfl
  rw [htext] at hpoints ⊢
  refine .skip (startsWith_url.none (hurl _)) hpoints ?_
  rw [hafter]
  exact (silent_of_isLater hlater).caught_append ((silent_of_isBlank i.blank_blanks).caught_append
    (i.target.caught_append hends.mark hclosing hs))

end WrittenImport

end Reading

/-- When its imports are stripped, all references to the outside in such a style sheet are caught. -/
theorem Sheet.caught {css : Chars} (h : Sheet css) : Caught (stripImports css) := by
  induction h with
  | text hu =>
      rw [stripImports_eq, replaced_of_clean finds_import (clean_of_quiet startsWith_import hu)]
      exact caught_of_quiet hu
  | @mark u c s hu hc _ ih =>
      have hsilent : Silent (u ++ [c]) :=
        Silent.quiet_append (silent_of_isLater (by simpa using isLater_of_isMark hc)) hu hc
      rw [List.append_cons, hsilent.stripImports_append]
      exact hsilent.caught_append ih
  | address u _ ih =>
      rw [u.stripImports_append]
      exact u.caught_append ih
  | imported i _ ih =>
      rw [stripImports_eq, replaced_of_some finds_import (i.import?_text _), ← stripImports_eq]
      split
      · exact ih
      · rename_i hlocal
        exact i.caught_append (Bool.eq_false_iff.2 hlocal) ih

/-- No reference to the outside is left in a stripped style sheet if and only if, once its imports
are stripped, all of them are caught; and if none is left, nothing more is taken away when the sheet
is stripped again. This is so for every sheet that is written as it is meant to be. -/
theorem inward_stripCss (css : Chars) :
    (Inward (stripCss css) ↔ Caught (stripImports css)) ∧
      (Inward (stripCss css) → Fixed (stripCss css)) ∧ (Sheet css → Inward (stripCss css)) := by
  have hiff : Inward (stripCss css) ↔ Caught (stripImports css) := by
    rw [stripCss_eq]
    exact inward_stripUrls_iff _
  exact ⟨hiff, Inward.fixed, fun hsheet => hiff.2 hsheet.caught⟩

/-- The address `https://x/a.css` as `url(…)`. -/
def outsideUrl : WrittenUrl where
  word := "url(".runes
  before := []
  address := ⟨none, "https://x/a.css".runes, rfl, rfl, by decide, rfl⟩
  after := []
  isWord := rfl
  blank_before := rfl
  blank_after := rfl

/-- The address `b.png` as `url(…)`, with quotes and blanks. -/
def localUrl : WrittenUrl where
  word := "url(".runes
  before := " ".runes
  address := ⟨some (.of '"'), "b.png".runes, rfl, rfl, by decide, rfl⟩
  after := " ".runes
  isWord := rfl
  blank_before := rfl
  blank_after := rfl

/-- An import for the screen. -/
def outsideImport : WrittenImport where
  word := "@import".runes
  blanks := " ".runes
  target := .function outsideUrl
  media := " screen".runes
  isWord := rfl
  nonempty := by decide
  blank_blanks := rfl
  chars := rfl
  blank_media := rfl
  quiet_media := rfl
  no_semicolon := by decide

/-- An import from outside, and a rule with two images, one of them from outside. -/
def mixedSheet : Chars :=
  outsideImport.text ++ ("p\x7bbackground".runes ++ .of ':' ::
    (localUrl.text ++ ([] ++ .of ',' :: (outsideUrl.text ++ "\x7d".runes))))

theorem inward_stripCss_mixedSheet :
    Sheet mixedSheet ∧ Inward (stripCss mixedSheet) ∧ Fixed (stripCss mixedSheet) ∧
      stripCss mixedSheet = "p\x7bbackground:url( \"b.png\" ),none\x7d".runes := by
  have hend : Sheet "\x7d".runes := .text (by decide)
  have himages : Sheet (localUrl.text ++ ([] ++ .of ',' :: (outsideUrl.text ++ "\x7d".runes))) :=
    .address _ (.mark rfl (by decide) (.address _ hend))
  have hsheet : Sheet mixedSheet := .imported _ (.mark (by decide) (by decide) himages)
  obtain ⟨-, hfixed, hinward⟩ := inward_stripCss mixedSheet
  exact ⟨hsheet, hinward hsheet, hfixed (hinward hsheet), by decide +kernel⟩

/-- Not every sheet is: an import with no blank after its word is not read, and one that is taken
away may stand in the word of another one. -/
theorem not_inward_stripCss :
    ¬ Inward (stripCss "@import\"//evil.example/x.css\";".runes) ∧
      ¬ Fixed (stripCss "@im@import \"//x\";port \"//y\";".runes) := by
  decide +kernel

end Folio.Resource
