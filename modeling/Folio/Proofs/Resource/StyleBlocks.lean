import Folio.Proofs.Resource.LeftAddresses

/-!
The style blocks of a stripped fragment. In one that is written anew every style element has an end
tag, and before it the stripped text of the element in the tree, which strips to itself unless
stripping joins an address together. A block without an end tag is not in the tree, and stays.
-/
namespace Folio.Resource

open Markup (Node Element StartTag elements startPlaces upTo? rawClose? shownText ownText)

/-- The text after a style start tag up to the end tag, or to the end of the fragment. -/
def styleBlock (rest : Chars) : Chars :=
  ((upTo? (rawClose? "style".runes) rest).map Prod.fst).getD rest

/-- The style start tags of a text, each with what follows it. -/
def stylePlaces (s : Chars) : List (StartTag × Chars) :=
  (startPlaces s).filter fun place => place.1.name == "style".runes

/-- The tag opens a style element that has an end tag. -/
def HasEndTag (place : StartTag × Chars) : Prop :=
  place.1.selfClosing = false ∧ (upTo? (rawClose? "style".runes) place.2).isSome

/-- Nothing is taken away from the text after a style start tag. -/
def CleanAfter (place : StartTag × Chars) : Prop :=
  stripCss (styleBlock place.2) = styleBlock place.2

/-- The texts of the style elements of a tree, in document order. -/
def styleTexts (nodes : List Node) : List Chars :=
  ((elements nodes).filter fun e => e.name == "style".runes).map fun e => soleText e.children

section Blocks

variable {html s t : Chars} {nodes : List Node} {place : StartTag × Chars}

theorem styleBlock_isPrefix (rest : Chars) : styleBlock rest <+: rest := by
  unfold styleBlock
  cases h : upTo? (rawClose? "style".runes) rest with
  | none => exact List.prefix_refl rest
  | some found =>
      obtain ⟨block, after⟩ := found
      obtain ⟨t, heq, -, -⟩ := Markup.exists_end_of_upTo? h
      exact heq ▸ List.prefix_append block t

/-- The style of a text does not depend on blanks that are not shown. -/
theorem shownText_stripCss (text : Chars) :
    shownText (stripCss (shownText text)) = shownText (stripCss text) := by
  by_cases h : text.all Text.isSpace
  · rw [stripCss_of_not_mayLeave (not_mayLeave_of_blank h), Markup.shownText_of_blank h]
    rfl
  · have hshown : shownText text = text := if_neg h
    rw [hshown]

theorem shownText_stripCss_eq_iff :
    shownText (stripCss s) = shownText s ↔ stripCss s = s := by
  refine ⟨fun hshown => ?_, fun hsame => by rw [hsame]⟩
  by_cases h : s.all Text.isSpace
  · exact stripCss_of_not_mayLeave (not_mayLeave_of_blank h)
  · have htext : shownText s = s := if_neg h
    rw [htext, shownText] at hshown
    split at hshown
    · rw [← hshown] at h
      exact absurd rfl h
    · exact hshown

/-- Texts that are shown alike are stripped alike. -/
theorem stripCss_congr (h : shownText s = shownText t) (hs : stripCss s = s) : stripCss t = t := by
  rw [← shownText_stripCss_eq_iff] at hs ⊢
  rw [← shownText_stripCss, ← h, shownText_stripCss, hs]

/-- A block that is read is the text of a style element. -/
theorem exists_element_of_block (hread : Node.read html = .ok nodes)
    (hplace : place ∈ stylePlaces html) (hend : HasEndTag place) :
    ∃ e ∈ elements nodes, e.name = "style".runes ∧
      shownText (soleText e.children) = shownText (styleBlock place.2) := by
  obtain ⟨tag, rest⟩ := place
  obtain ⟨hmem, hname⟩ := List.mem_filter.1 hplace
  have hstyle : tag.name = "style".runes := beq_iff_eq.1 hname
  obtain ⟨hself, hsome⟩ := hend
  obtain ⟨⟨block, after⟩, hblock⟩ := Option.isSome_iff_exists.1 hsome
  obtain ⟨events, b, hevents, hb, rfl⟩ := Markup.exists_events_of_read hread
  have hraw : Markup.isRawText tag.name := hstyle ▸ isRawText_style
  have hopen : (Markup.Event.start tag).raw? = some tag.name := by
    have hself' : tag.selfClosing = false := hself
    simp [Markup.Event.raw?, hself', hraw]
  have hreports := Markup.reportsRaw_of_mem_startPlaces hevents hmem hopen (hstyle ▸ hblock)
  have hnodes : Node.ofEvents events = .ok b.finish := by
    rw [Node.ofEvents, hb]
    rfl
  have htext : styleBlock rest = block := by
    rw [styleBlock, hblock]
    rfl
  rw [htext, ← hstyle]
  exact Markup.exists_element_of_reportsRaw hreports hself hraw hnodes

/-- A fragment without addresses from outside. -/
theorem cleanAfter_of_not_mayLeave (hread : Node.read html = .ok nodes) (h : ¬ mayLeave html) :
    ∀ place ∈ stylePlaces html, CleanAfter place := by
  intro place hplace
  obtain ⟨events, -, hevents, -, -⟩ := Markup.exists_events_of_read hread
  have hsuffix := Markup.suffix_of_mem_startPlaces hevents (List.mem_filter.1 hplace).1
  have hinside := (styleBlock_isPrefix place.2).isInfix.trans hsuffix.isInfix
  exact stripCss_of_not_mayLeave (mt (mayLeave_of_mayLeave hinside) h)

/-- A fragment from which nothing is taken away. -/
theorem cleanAfter_of_not_tainted (hread : Node.read html = .ok nodes)
    (h : anyTainted nodes = false) :
    ∀ place ∈ stylePlaces html, HasEndTag place → CleanAfter place := by
  intro place hplace hend
  obtain ⟨e, he, hstyle, htext⟩ := exists_element_of_block hread hplace hend
  rw [anyTainted_eq, List.any_eq_false] at h
  have hclean : stripCss (soleText e.children) = soleText e.children := by
    by_contra hne
    exact h e he (taints_iff.2 (Or.inr ⟨hstyle, hne⟩))
  exact stripCss_congr htext hclean

end Blocks

section Stripped

variable {html name : Chars} {attrs : List (Chars × Chars)} {children nodes : List Node}
  {q : Markup.TextKind → Chars → Prop} {place : StartTag × Chars}

theorem styleTexts_append (first second : List Node) :
    styleTexts (first ++ second) = styleTexts first ++ styleTexts second := by
  rw [styleTexts, Markup.elements_append, List.filter_append, List.map_append]
  rfl

theorem styleTexts_of_eq (h : name = "style".runes) (attrs : List (Chars × Chars))
    (children : List Node) :
    styleTexts [.element name attrs children] = soleText children :: styleTexts children := by
  rw [styleTexts, Markup.elements_element, Markup.elements_nil, List.append_nil,
    List.filter_cons, if_pos (beq_iff_eq.2 h)]
  rfl

theorem styleTexts_of_ne (h : name ≠ "style".runes) (attrs : List (Chars × Chars))
    (children : List Node) : styleTexts [.element name attrs children] = styleTexts children := by
  rw [styleTexts, Markup.elements_element, Markup.elements_nil, List.append_nil,
    List.filter_cons, if_neg (beq_iff_eq.not.2 h)]
  rfl

theorem styleTexts_of_elements (h : elements nodes = []) : styleTexts nodes = [] := by
  rw [styleTexts, h]
  rfl

/-- An element with its content, stripped. -/
theorem styleTexts_stripNode (he : ReadFrom html ⟨name, attrs, children⟩)
    (hchildren : styleTexts (stripNodes children) = (styleTexts children).map stripCss) :
    styleTexts (stripNode (.element name attrs children)) =
      (styleTexts [.element name attrs children]).map stripCss := by
  rw [stripNode_element]
  split
  · rename_i hlink
    have hname : name = "link".runes := beq_iff_eq.1 (Bool.and_eq_true_iff.1 hlink).1
    subst hname
    have hvoid : Markup.isVoid "link".runes := by decide
    obtain rfl : children = [] := he.content.void hvoid
    rfl
  · by_cases hstyle : name = "style".runes
    · subst hstyle
      obtain ⟨htext, hnone, hbefore⟩ := he.style_content
      rw [styleTexts_of_eq rfl, styleTexts_of_eq rfl, htext, styleTexts_of_elements hnone,
        styleTexts_of_elements hbefore]
      rfl
    · rw [styleTexts_of_ne hstyle, styleTexts_of_ne hstyle, strippedContent_of_ne hstyle, hchildren]

theorem styleTexts_stripNodes (h : Markup.AllOf (ReadFrom html) q nodes) :
    styleTexts (stripNodes nodes) = (styleTexts nodes).map stripCss := by
  induction nodes using Markup.nodesInduction with
  | nil => rfl
  | text kind content rest ih => exact ih (Markup.allOf_cons.1 h).2
  | element name attrs children rest ihchildren ihrest =>
      obtain ⟨helement, hrest⟩ := Markup.allOf_cons.1 h
      obtain ⟨he, hchildren⟩ := Markup.allOf_element.1 helement
      have hcons : styleTexts (.element name attrs children :: rest) =
          styleTexts [.element name attrs children] ++ styleTexts rest :=
        styleTexts_append [.element name attrs children] rest
      rw [stripNodes, styleTexts_append, styleTexts_stripNode he (ihchildren hchildren), ihrest hrest,
        hcons, List.map_append]

/-- The start tag of a style element, where it stands. -/
theorem hasEndTag_of_inPlace {e : Element} (h : e.InPlace place) (hstyle : e.name = "style".runes) :
    HasEndTag place ∧ styleBlock place.2 = soleText e.children := by
  obtain ⟨htag, hblock⟩ := h
  obtain ⟨after, hafter⟩ := hblock (hstyle ▸ isRawText_style)
  rw [hstyle] at hafter
  have hvoid : Markup.isVoid e.name = false := by
    rw [hstyle]
    decide
  refine ⟨⟨?_, ?_⟩, ?_⟩
  · rw [htag, hvoid, Bool.and_false]
    rfl
  · rw [hafter]
    rfl
  · rw [styleBlock, hafter]
    rfl

/-- The style blocks of a tree that is written. -/
theorem stylePlaces_writeAll
    (h : Markup.AllOf Element.Writable Markup.TextKind.Writable nodes) :
    (∀ place ∈ stylePlaces (Node.writeAll nodes), HasEndTag place) ∧
      (stylePlaces (Node.writeAll nodes)).map (fun place => styleBlock place.2) =
        styleTexts nodes := by
  have hplaces := (Markup.startPlaces_writeAll h).1
  rw [stylePlaces, styleTexts]
  generalize elements nodes = es at *
  generalize startPlaces (Node.writeAll nodes) = places at *
  induction hplaces with
  | nil => exact ⟨fun _ hplace => absurd hplace List.not_mem_nil, rfl⟩
  | @cons e place es places hfirst _ ih =>
      obtain ⟨hends, hsame⟩ := ih
      have hname : place.1.name = e.name := by
        rw [hfirst.1]
        rfl
      rw [List.filter_cons, List.filter_cons, hname]
      by_cases hstyle : e.name = "style".runes
      · obtain ⟨hend, htext⟩ := hasEndTag_of_inPlace hfirst hstyle
        rw [if_pos (beq_iff_eq.2 hstyle), if_pos (beq_iff_eq.2 hstyle)]
        refine ⟨List.forall_mem_cons.2 ⟨hend, hends⟩, ?_⟩
        rw [List.map_cons, List.map_cons, hsame, htext]
      · rw [if_neg (beq_iff_eq.not.2 hstyle), if_neg (beq_iff_eq.not.2 hstyle)]
        exact ⟨hends, hsame⟩

/-- The style blocks of a stripped fragment: without addresses from outside none has anything to
strip; where nothing is taken away none with an end tag has; and where the fragment is written anew
all have an end tag and hold the stripped texts of the tree, in this order. -/
theorem styleBlocks_of_stripFragment (hread : Node.read html = .ok nodes)
    (hrestorable : mayLeave html → anyTainted nodes → Restorable nodes) :
    ∃ out, stripFragment html = .ok out ∧
      (¬ mayLeave html → ∀ place ∈ stylePlaces out, CleanAfter place) ∧
      (anyTainted nodes = false → ∀ place ∈ stylePlaces out, HasEndTag place → CleanAfter place) ∧
      (mayLeave html → anyTainted nodes → (∀ place ∈ stylePlaces out, HasEndTag place) ∧
        (stylePlaces out).map (fun place => styleBlock place.2) =
          (styleTexts nodes).map stripCss ∧
        ((∀ place ∈ stylePlaces out, CleanAfter place) ↔
          ∀ css ∈ styleTexts nodes, stripCss (stripCss css) = stripCss css)) := by
  by_cases hedited : mayLeave html ∧ anyTainted nodes
  · obtain ⟨hleaves, htainted⟩ := hedited
    obtain ⟨hends, hblocks⟩ := stylePlaces_writeAll ((hrestorable hleaves htainted).allOf hread)
    rw [styleTexts_stripNodes (allOf_readFrom hread)] at hblocks
    refine ⟨_, stripFragment_of_tainted hread hleaves htainted, fun hnot => absurd hleaves hnot,
      fun hnot => absurd htainted (Bool.eq_false_iff.1 hnot), fun _ _ => ⟨hends, hblocks, ?_⟩⟩
    have hall : ∀ p : Chars → Prop, (∀ place ∈ stylePlaces (Node.writeAll (stripNodes nodes)),
        p (styleBlock place.2)) ↔ ∀ css ∈ styleTexts nodes, p (stripCss css) := by
      intro p
      rw [← List.forall_mem_map (P := p), hblocks, List.forall_mem_map]
    exact hall fun block => stripCss block = block
  · have hout : stripFragment html = .ok html := by
      by_cases hleaves : mayLeave html
      · have hclean : anyTainted nodes = false :=
          Bool.eq_false_iff.2 fun htainted => hedited ⟨hleaves, htainted⟩
        exact stripFragment_of_not_tainted hread hclean
      · exact if_neg hleaves
    exact ⟨html, hout, cleanAfter_of_not_mayLeave hread, cleanAfter_of_not_tainted hread,
      fun hleaves htainted => absurd ⟨hleaves, htainted⟩ hedited⟩

end Stripped

/-- A style sheet and a style element with an import from outside. -/
def styledFragment : Chars :=
  ("<link href=\"//x/a.css\"><style>@import \"//x/b.css\";p\x7bcolor:red\x7d</style>" ++
    "<p>t</p>").runes

def styledTree : List Node := [
  .element "link".runes [("href".runes, "//x/a.css".runes)] [],
  .element "style".runes [] [.text .plain "@import \"//x/b.css\";p\x7bcolor:red\x7d".runes],
  .element "p".runes [] [.text .plain "t".runes]]

theorem read_styledFragment : Node.read styledFragment = .ok styledTree := (rfl)

theorem styleBlocks_of_stripFragment_styled : ∃ out, stripFragment styledFragment = .ok out ∧
    (∀ place ∈ stylePlaces out, HasEndTag place ∧ CleanAfter place) ∧
      (stylePlaces out).map (fun place => styleBlock place.2) = ["p\x7bcolor:red\x7d".runes] := by
  obtain ⟨out, hout, -, -, hedited⟩ :=
    styleBlocks_of_stripFragment read_styledFragment fun _ _ => by decide +kernel
  obtain ⟨hends, hblocks, hclean⟩ := hedited (by decide +kernel) (by decide +kernel)
  refine ⟨out, hout, fun place hplace => ⟨hends place hplace, ?_⟩, ?_⟩
  · exact hclean.2 (by decide +kernel) place hplace
  · exact hblocks.trans (by decide +kernel)

/-- A style element that is not closed is not in the tree with its text. -/
theorem not_forall_cleanAfter_stripFragment : ¬ ∀ html nodes out, Node.read html = .ok nodes →
    stripFragment html = .ok out → ∀ place ∈ stylePlaces out, CleanAfter place := by
  intro hall
  have hplaces : stylePlaces "<style>@import \"//evil.example/x.css\";".runes =
      [(⟨"style".runes, [], false⟩, "@import \"//evil.example/x.css\";".runes)] := by
    decide +kernel
  have hclean := hall "<style>@import \"//evil.example/x.css\";".runes
    [.element "style".runes [] []] "<style>@import \"//evil.example/x.css\";".runes rfl
    (by decide +kernel) _ (hplaces ▸ List.mem_cons_self)
  exact absurd hclean (by unfold CleanAfter; decide +kernel)

end Folio.Resource
