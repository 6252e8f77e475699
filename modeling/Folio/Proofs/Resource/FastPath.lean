import Folio.Proofs.Resource.StrippedTrees

/-!
Fragments that are not parsed because their text holds no scheme and no double slash. The answer is
that of the parser, unless a reference in a value of theirs is decoded to one.
-/
namespace Folio.Resource

open Markup (Node StartTag elements readEvents startTags treeAttributes tagsOf)

section Shown

variable {name value html : Chars}

theorem mayLeave_of_mayLeave (h : value <:+: html) (hvalue : mayLeave value) : mayLeave html := by
  have hwords : ∀ word ∈ leavingWords, Text.NoSigma word := by decide
  obtain ⟨word, hword, hlower⟩ := mayLeave_iff.1 hvalue
  exact mayLeave_iff.2 ⟨word, hword, Text.infix_lower_of_infix (hwords word hword) h hlower⟩

theorem mayLeave_of_hasExternalCandidate (h : hasExternalCandidate value) : mayLeave value := by
  obtain ⟨url, hurl, hexternal⟩ := List.any_eq_true.1 h
  obtain ⟨piece, hpiece, rfl⟩ := List.mem_map.1 hurl
  have hfirst := (List.takeWhile_prefix (· != .of ' ')).isInfix.trans (Text.trim_isInfix piece)
  have hinside := hfirst.trans
    (Text.splitOn_isInfix hpiece)
  exact mayLeave_of_isInfix hinside hexternal

theorem stripCss_of_not_mayLeave {css : Chars} (h : ¬ mayLeave css) : stripCss css = css := if_neg h

/-- Blanks hold no address. -/
theorem not_mayLeave_of_blank (h : value.all Text.isSpace) : ¬ mayLeave value := by
  rw [List.all_eq_true] at h
  have hlower : Text.lower value = value := by
    refine Text.lower_eq_self fun c hc => ?_
    have hspace := h c hc
    simp only [Text.isSpace, Bool.or_eq_true, beq_iff_eq] at hspace
    rcases hspace with (((rfl | rfl) | rfl) | rfl) | rfl <;> decide
  have hwords : ∀ word ∈ leavingWords, word.any (fun c => !Text.isSpace c) := by decide
  intro hleaves
  obtain ⟨word, hword, hinside⟩ := mayLeave_iff.1 hleaves
  obtain ⟨c, hc, hnot⟩ := List.any_eq_true.1 (hwords word hword)
  rw [hlower] at hinside
  rw [h c (hinside.subset hc)] at hnot
  contradiction

/-- What is taken away shows in the value. -/
theorem IsStripped.mayLeave (h : IsStripped name value) : mayLeave value := by
  rcases h with hexternal | ⟨-, hstyle⟩
  · rw [isExternalAttribute, Bool.and_eq_true] at hexternal
    have hvalue := hexternal.2
    split at hvalue
    · exact mayLeave_of_hasExternalCandidate hvalue
    · exact mayLeave_of_isInfix (List.infix_refl value) hvalue
  · by_contra hnot
    exact hstyle (stripCss_of_not_mayLeave hnot)

end Shown

/-- The start tag has a value that something is taken away from, and that does not stand in the
text. -/
def Reveals (html : Chars) (tag : StartTag) : Prop :=
  ∃ a ∈ treeAttributes tag.attrs, IsStripped a.1 a.2 ∧ ¬ a.2 <:+: html

instance (html : Chars) (tag : StartTag) : Decidable (Reveals html tag) :=
  inferInstanceAs (Decidable (∃ a ∈ treeAttributes tag.attrs, IsStripped a.1 a.2 ∧ ¬ a.2 <:+: html))

section FastPath

variable {html : Chars} {events : List Markup.Event} {nodes : List Node}

/-- The attributes of the elements of a tree are those of the start tags. -/
theorem attributes_of_read (hread : Node.read html = .ok nodes)
    (hevents : readEvents html = .ok events) : (elements nodes).map Markup.Element.attrs =
      (startTags events).map fun tag => treeAttributes tag.attrs := by
  have htags := congrArg (List.map Prod.snd) (Markup.tagsOf_read hread hevents)
  rw [Markup.tagsOf, List.map_map, List.map_map] at htags
  exact htags

/-- The text of a style element stands in the source, if it is not blank. -/
theorem stripCss_soleText (hread : Node.read html = .ok nodes) (h : ¬ mayLeave html)
    {e : Markup.Element} (he : e ∈ elements nodes) (hstyle : e.name = "style".runes) :
    stripCss (soleText e.children) = soleText e.children := by
  have hraw : Markup.isRawText e.name := by rw [hstyle]; decide
  rcases ((allOf_readFrom hread).elements e he).content.raw hraw with
    hnil | ⟨text, htext, -, hsource | hblank⟩
  · rw [hnil]
    rfl
  · rw [htext]
    exact stripCss_of_not_mayLeave (mt (mayLeave_of_mayLeave hsource) h)
  · rw [htext]
    exact stripCss_of_not_mayLeave (not_mayLeave_of_blank hblank)

/-- Every start tag gives an element its attributes. -/
theorem exists_element_of_startTag (hread : Node.read html = .ok nodes)
    (hevents : readEvents html = .ok events) {tag : StartTag} (htag : tag ∈ startTags events) :
    ∃ e ∈ elements nodes, e.attrs = treeAttributes tag.attrs := by
  have hattrs := List.mem_map_of_mem (f := fun tag : StartTag => treeAttributes tag.attrs) htag
  rw [← attributes_of_read hread hevents] at hattrs
  exact List.mem_map.1 hattrs

theorem exists_startTag_of_element (hread : Node.read html = .ok nodes)
    (hevents : readEvents html = .ok events) {e : Markup.Element} (he : e ∈ elements nodes) :
    ∃ tag ∈ startTags events, treeAttributes tag.attrs = e.attrs := by
  have hattrs := List.mem_map_of_mem (f := Markup.Element.attrs) he
  rw [attributes_of_read hread hevents] at hattrs
  exact List.mem_map.1 hattrs

theorem anyTainted_iff_reveals (hread : Node.read html = .ok nodes)
    (hevents : readEvents html = .ok events) (h : ¬ mayLeave html) :
    anyTainted nodes ↔ ∃ tag ∈ startTags events, Reveals html tag := by
  have hshown : ∀ {name value}, IsStripped name value → ¬ value <:+: html :=
    fun hstripped hvalue => h (mayLeave_of_mayLeave hvalue hstripped.mayLeave)
  have htaints : ∀ e ∈ elements nodes, taints e ↔ ∃ a ∈ e.attrs, IsStripped a.1 a.2 :=
    fun e he => taints_iff.trans
      (or_iff_left fun hstyle => hstyle.2 (stripCss_soleText hread h he hstyle.1))
  rw [anyTainted_eq, List.any_eq_true]
  constructor
  · rintro ⟨e, he, htainted⟩
    obtain ⟨a, ha, hstripped⟩ := (htaints e he).1 htainted
    obtain ⟨tag, htag, heq⟩ := exists_startTag_of_element hread hevents he
    exact ⟨tag, htag, a, heq ▸ ha, hstripped, hshown hstripped⟩
  · rintro ⟨tag, htag, a, ha, hstripped, -⟩
    obtain ⟨e, he, heq⟩ := exists_element_of_startTag hread hevents htag
    exact ⟨e, he, (htaints e he).2 ⟨a, heq ▸ ha, hstripped⟩⟩

/-- Without references the values of the tags stand in the text. -/
theorem not_reveals_of_not_mem (hevents : readEvents html = .ok events) (h : .of '&' ∉ html) :
    ∀ tag ∈ startTags events, ¬ Reveals html tag := by
  rintro tag htag ⟨a, ha, -, hvalue⟩
  obtain ⟨o, horder⟩ := Markup.inOrder_readEvents hevents
  have hsound : tag.Sound html := horder.sound _ (Markup.mem_startTags.1 htag)
  obtain ⟨value, hmem, heq⟩ := Markup.exists_of_mem_treeAttributes ha
  rw [heq] at hvalue
  cases value with
  | none => exact hvalue List.nil_infix
  | some value =>
      obtain ⟨raw, hraw, hdecode⟩ := hsound.values _ hmem value rfl
      rw [Markup.decodeValue_of_not_mem fun hamp => h (hraw.subset hamp)] at hdecode
      exact hvalue (Except.ok.inj hdecode ▸ hraw)

theorem stripParsed_of_not_tainted (hread : Node.read html = .ok nodes)
    (h : anyTainted nodes = false) : stripParsed html = .ok html := by
  rw [stripParsed, hread]
  exact congrArg Except.ok (if_neg (Bool.eq_false_iff.1 h))

/-- A fragment that is accepted is answered as the parser alone does it, unless no address from
outside shows in its text and a start tag of it reveals one; it then has something to strip. Without
references no start tag does. -/
theorem stripFragment_eq_stripParsed (hread : Node.read html = .ok nodes)
    (hevents : readEvents html = .ok events) :
    ((∀ tag ∈ startTags events, ¬ Reveals html tag) → stripFragment html = stripParsed html) ∧
      (¬ mayLeave html → (anyTainted nodes ↔ ∃ tag ∈ startTags events, Reveals html tag)) ∧
      (.of '&' ∉ html → ∀ tag ∈ startTags events, ¬ Reveals html tag) := by
  refine ⟨fun hnone => ?_, anyTainted_iff_reveals hread hevents, not_reveals_of_not_mem hevents⟩
  by_cases h : mayLeave html
  · exact if_pos h
  · have hclean : anyTainted nodes = false := by
      rw [Bool.eq_false_iff, ne_eq, anyTainted_iff_reveals hread hevents h]
      exact fun ⟨tag, htag, hreveals⟩ => hnone tag htag hreveals
    rw [stripParsed_of_not_tainted hread hclean]
    exact if_neg h

end FastPath

/-- A reference that is no part of an address changes nothing. -/
theorem stripFragment_eq_stripParsed_titled :
    stripFragment "<p title=\"a&#38;b\"><img src=\"a.png\"></p>".runes =
      stripParsed "<p title=\"a&#38;b\"><img src=\"a.png\"></p>".runes := by
  have hread : Node.read "<p title=\"a&#38;b\"><img src=\"a.png\"></p>".runes =
      .ok [.element "p".runes [("title".runes, "a&b".runes)]
        [.element "img".runes [("src".runes, "a.png".runes)] []]] := rfl
  have hevents : readEvents "<p title=\"a&#38;b\"><img src=\"a.png\"></p>".runes =
      .ok [.start ⟨"p".runes, [("title".runes, some "a&b".runes)], false⟩,
        .start ⟨"img".runes, [("src".runes, some "a.png".runes)], false⟩,
        .close "p".runes] := by decide +kernel
  exact (stripFragment_eq_stripParsed hread hevents).1 (by decide +kernel)

/-- A double slash that is written with a reference is not seen. -/
theorem not_forall_stripFragment_eq_stripParsed : ¬ ∀ html nodes, Node.read html = .ok nodes →
    stripFragment html = stripParsed html := by
  intro hall
  have hanswer := hall "<img src=\"&#47;/evil.example/x.png\">".runes
    [.element "img".runes [("src".runes, "//evil.example/x.png".runes)] []] rfl
  have hfast : stripFragment "<img src=\"&#47;/evil.example/x.png\">".runes =
      .ok "<img src=\"&#47;/evil.example/x.png\">".runes := by decide +kernel
  have hparsed : stripParsed "<img src=\"&#47;/evil.example/x.png\">".runes =
      .ok "<img/>".runes := by decide +kernel
  rw [hfast, hparsed] at hanswer
  exact absurd (Except.ok.inj hanswer) (by decide)

end Folio.Resource
