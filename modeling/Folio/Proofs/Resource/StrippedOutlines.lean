import Folio.Proofs.Resource.StyleBlocks

/-!
The elements of a stripped fragment. They are those of the fragment without the external links, with
the external addresses left out and the style stripped, as far as what is written anew is read as
it was written; a fragment with none of these stays as it is.
-/
namespace Folio.Resource

open Markup (Node Element Outline outlines AllOf shownText ownText sortAttributes)

/-- The attributes that stay, the style stripped. -/
def keptAttributes (attrs : List (Chars × Chars)) : List (Chars × Chars) :=
  (attrs.filter fun a => !isExternalAttribute a.1 a.2).map stripStyle

mutual

/-- An outline without what leads outside; an external link is no outline at all. -/
def stripOutline : Outline → List Outline
  | .element name attrs text children =>
      if isExternalLink name attrs then []
      else [.element name (keptAttributes attrs)
        (if name == "style".runes then shownText (stripCss text) else text)
        (stripOutlines children)]

/-- Outlines without what leads outside. -/
def stripOutlines : List Outline → List Outline
  | [] => []
  | o :: rest => stripOutline o ++ stripOutlines rest

end

section Kept

variable {attrs : List (Chars × Chars)}

/-- Style is no address. -/
theorem isExternalAttribute_stripStyle (a : Chars × Chars) :
    isExternalAttribute (stripStyle a).1 (stripStyle a).2 = isExternalAttribute a.1 a.2 := by
  by_cases h : a.1 = "style".runes
  · have hnot : urlAttributes.contains a.1 = false := by
      rw [h]
      decide
    change isExternalAttribute a.1 _ = isExternalAttribute a.1 _
    rw [isExternalAttribute, isExternalAttribute, hnot, Bool.false_and, Bool.false_and]
  · rw [stripStyle_eq_self_iff.2 fun hstyle => absurd hstyle h]

theorem stripAttributes_eq_kept (attrs : List (Chars × Chars)) :
    stripAttributes attrs = keptAttributes attrs := by
  rw [stripAttributes_eq, keptAttributes, List.filter_map]
  congr 2
  funext a
  exact congrArg not (isExternalAttribute_stripStyle a)

theorem sortAttributes_strip (h : (attrs.map Prod.fst).Nodup) :
    sortAttributes (stripAttributes attrs) = keptAttributes (sortAttributes attrs) := by
  rw [stripAttributes_eq_kept, keptAttributes, keptAttributes,
    Markup.sortAttributes_map (f := stripStyle) fun _ => rfl, Markup.sortAttributes_filter h]

end Kept

section Outlines

variable {html : Chars} {nodes children : List Node} {q : Markup.TextKind → Chars → Prop}
  {o : Outline} {os rest : List Outline}

theorem isExternalLink_sortAttributes {attrs : List (Chars × Chars)} (h : (attrs.map Prod.fst).Nodup)
    (name : Chars) : isExternalLink name (sortAttributes attrs) = isExternalLink name attrs := by
  rw [isExternalLink, isExternalLink, Markup.lookup_sortAttributes h]

theorem outlines_of_elements (h : Markup.elements nodes = []) : outlines nodes = [] := by
  induction nodes using Markup.nodesInduction with
  | nil => rfl
  | text kind content rest ih => exact ih h
  | element => contradiction

/-- The text and the elements that an element keeps. -/
theorem ReadFrom.stripped {name : Chars} {attrs : List (Chars × Chars)}
    (he : ReadFrom html ⟨name, attrs, children⟩)
    (hchildren : outlines (stripNodes children) = stripOutlines (outlines children)) :
    (if Markup.isRawText name then shownText (ownText (strippedContent name children)) else []) =
        (if name == "style".runes then
          shownText (stripCss (if Markup.isRawText name then shownText (ownText children) else []))
        else if Markup.isRawText name then shownText (ownText children) else []) ∧
      outlines (strippedContent name children) = stripOutlines (outlines children) := by
  by_cases hstyle : name = "style".runes
  · subst hstyle
    obtain ⟨htext, hnone, hbefore⟩ := he.style_content
    rw [soleText_eq, soleText_eq] at htext
    rw [if_pos (beq_self_eq_true _), if_pos isRawText_style, if_pos isRawText_style, htext,
      shownText_stripCss, outlines_of_elements hnone, outlines_of_elements hbefore]
    exact ⟨rfl, rfl⟩
  · rw [strippedContent_of_ne hstyle, if_neg (beq_iff_eq.not.2 hstyle)]
    refine ⟨?_, hchildren⟩
    split
    · rename_i hraw
      rw [he.raw_content hraw]
    · rfl

/-- The tree is stripped element by element. -/
theorem outlines_stripNodes (h : AllOf (ReadFrom html) q nodes) :
    outlines (stripNodes nodes) = stripOutlines (outlines nodes) := by
  induction nodes using Markup.nodesInduction with
  | nil => rfl
  | text kind content rest ih => exact ih (Markup.allOf_cons.1 h).2
  | element name attrs children rest ihchildren ihrest =>
      obtain ⟨helement, hrest⟩ := Markup.allOf_cons.1 h
      obtain ⟨he, hchildren⟩ := Markup.allOf_element.1 helement
      obtain ⟨htext, hinside⟩ := he.stripped (ihchildren hchildren)
      rw [stripNodes, Markup.outlines_append, ihrest hrest, Markup.outlines_element, stripOutlines,
        stripNode_element, stripOutline, isExternalLink_sortAttributes he.sound.nodup]
      congr 1
      split
      · rfl
      · rw [Markup.outlines_element, Markup.outlines_nil, sortAttributes_strip he.sound.nodup, htext,
          hinside]

theorem stripOutline_cases (o : Outline) : stripOutline o = [] ∨ ∃ o', stripOutline o = [o'] := by
  obtain ⟨name, attrs, text, children⟩ := o
  rw [stripOutline]
  split
  · exact Or.inl rfl
  · exact Or.inr ⟨_, rfl⟩

theorem length_stripOutlines_le (os : List Outline) : (stripOutlines os).length ≤ os.length := by
  induction os with
  | nil => exact Nat.le_refl _
  | cons o rest ih =>
      rw [stripOutlines, List.length_append, List.length_cons]
      rcases stripOutline_cases o with hnil | ⟨o', hone⟩
      · rw [hnil, List.length_nil]
        omega
      · rw [hone, List.length_singleton]
        omega

/-- Nothing is taken away from some elements if nothing is taken away from any of them. -/
theorem stripOutlines_cons_eq_iff : stripOutlines (o :: rest) = o :: rest ↔
    stripOutline o = [o] ∧ stripOutlines rest = rest := by
  rw [stripOutlines]
  rcases stripOutline_cases o with hnil | ⟨o', hone⟩
  · have hlength := length_stripOutlines_le rest
    rw [hnil, List.nil_append]
    refine iff_of_false (fun heq => ?_) fun hboth => absurd hboth.1 (List.cons_ne_nil _ _).symm
    rw [heq, List.length_cons] at hlength
    exact absurd hlength (Nat.not_succ_le_self _)
  · rw [hone, List.singleton_append, List.cons.injEq, List.cons.injEq, and_iff_left rfl]

theorem taints_eq_false_iff {e : Element} : taints e = false ↔
    (∀ a ∈ e.attrs, ¬ IsStripped a.1 a.2) ∧
      (e.name = "style".runes → stripCss (soleText e.children) = soleText e.children) := by
  rw [Bool.eq_false_iff, ne_eq, taints_iff]
  push Not
  rfl

/-- The text of an element stays if it is no style text, or one that strips to itself. -/
theorem stripped_text_eq_iff (name : Chars) (children : List Node) :
    (if name == "style".runes then
        shownText (stripCss (if Markup.isRawText name then shownText (ownText children) else []))
      else if Markup.isRawText name then shownText (ownText children) else []) =
        (if Markup.isRawText name then shownText (ownText children) else []) ↔
      (name = "style".runes → stripCss (soleText children) = soleText children) := by
  by_cases hstyle : name = "style".runes
  · subst hstyle
    rw [if_pos (beq_self_eq_true _), if_pos isRawText_style, shownText_stripCss,
      shownText_stripCss_eq_iff, soleText_eq]
    exact ⟨fun h _ => h, fun h => h rfl⟩
  · rw [if_neg (beq_iff_eq.not.2 hstyle)]
    exact iff_of_true rfl fun h => absurd h hstyle

/-- The outline of an element stays if nothing is taken away from it, nor from what is in it. -/
theorem stripOutline_eq_iff {name : Chars} {attrs : List (Chars × Chars)}
    (hnodup : (attrs.map Prod.fst).Nodup) :
    stripOutline (.element name (sortAttributes attrs)
        (if Markup.isRawText name then shownText (ownText children) else []) os) =
      [.element name (sortAttributes attrs)
        (if Markup.isRawText name then shownText (ownText children) else []) os] ↔
      taints ⟨name, attrs, children⟩ = false ∧ stripOutlines os = os := by
  have hattrs : keptAttributes (sortAttributes attrs) = sortAttributes attrs ↔
      ∀ a ∈ attrs, ¬ IsStripped a.1 a.2 := by
    rw [← stripAttributes_eq_kept, stripAttributes_eq_self_iff]
    simp only [(Markup.perm_sortAttributes attrs).mem_iff]
  rw [stripOutline, isExternalLink_sortAttributes hnodup, taints_eq_false_iff]
  split
  · rename_i hlink
    obtain ⟨a, ha, hexternal⟩ := exists_of_isExternalLink hlink
    exact iff_of_false (List.cons_ne_nil _ _).symm fun h => h.1.1 a ha (Or.inl hexternal)
  · rw [List.cons.injEq, and_iff_left rfl, Outline.element.injEq, and_iff_right rfl, hattrs,
      stripped_text_eq_iff, and_assoc]

/-- The outlines of a tree stay if nothing of it is taken away. -/
theorem stripOutlines_eq_self_iff (h : AllOf (ReadFrom html) q nodes) :
    stripOutlines (outlines nodes) = outlines nodes ↔ anyTainted nodes = false := by
  induction nodes using Markup.nodesInduction with
  | nil => exact iff_of_true rfl rfl
  | text kind content rest ih => exact ih (Markup.allOf_cons.1 h).2
  | element name attrs children rest ihchildren ihrest =>
      obtain ⟨helement, hrest⟩ := Markup.allOf_cons.1 h
      obtain ⟨he, hchildren⟩ := Markup.allOf_element.1 helement
      rw [Markup.outlines_element, stripOutlines_cons_eq_iff, stripOutline_eq_iff he.sound.nodup,
        ihchildren hchildren, ihrest hrest, anyTainted_eq, anyTainted_eq, anyTainted_eq,
        Markup.elements_element, List.any_cons, List.any_append, Bool.or_eq_false_iff,
        Bool.or_eq_false_iff, and_assoc]

end Outlines

/-- A fragment whose outlines have nothing to strip is given back as it is. Any other one that could
hold an address from outside is written so that it is read with the stripped outlines, their
attributes as they are written: no element or attribute is new. -/
theorem outlines_of_stripFragment {html : Chars} {nodes : List Node}
    (hread : Node.read html = .ok nodes) :
    (stripOutlines (outlines nodes) = outlines nodes → stripFragment html = .ok html) ∧
      (stripOutlines (outlines nodes) ≠ outlines nodes → mayLeave html → Restorable nodes →
        (∀ e ∈ Markup.elements nodes, Markup.closedName e.name = e.name) →
        ∃ out again, stripFragment html = .ok out ∧ Node.read out = .ok again ∧
          outlines again = Markup.writtenOutlines (stripOutlines (outlines nodes))) := by
  have hall := allOf_readFrom hread
  rw [stripOutlines_eq_self_iff hall, ne_eq, stripOutlines_eq_self_iff hall, Bool.not_eq_false]
  refine ⟨stripFragment_of_not_tainted hread, fun htainted hleaves hrestorable hclose => ?_⟩
  have hnames : ∀ e ∈ Markup.elements (stripNodes nodes), Markup.closedName e.name = e.name := by
    intro e he
    obtain ⟨e', he', hname, -⟩ := exists_of_mem_stripNodes nodes e he
    rw [hname, hclose e' he']
  obtain ⟨again, hagain, houtlines⟩ :=
    Markup.exists_read_writeAll (hrestorable.allOf hread) hnames
  rw [outlines_stripNodes hall] at houtlines
  exact ⟨_, again, stripFragment_of_tainted hread hleaves htainted, hagain, houtlines⟩

/-- A link and an image lose their addresses, and nothing else. -/
theorem outlines_of_stripFragment_linked : ∃ out again, stripFragment linkedFragment = .ok out ∧
    Node.read out = .ok again ∧
      outlines again = Markup.writtenOutlines (stripOutlines (outlines linkedTree)) := by
  refine (outlines_of_stripFragment read_linkedFragment).2 ?_ (by decide +kernel)
    (by decide +kernel) (by decide +kernel)
  rw [ne_eq, stripOutlines_eq_self_iff (allOf_readFrom read_linkedFragment)]
  decide +kernel

/-- What stands after the first `>` of a declaration is text until the fragment is written anew. -/
theorem not_forall_outlines_stripFragment : ¬ ∀ html nodes out again, Node.read html = .ok nodes →
    stripFragment html = .ok out → Node.read out = .ok again →
      outlines again = stripOutlines (outlines nodes) := by
  intro hall
  have hlive := hall
    "<![if ><img src=\"//evil.example/x.png\">]><img src=\"//evil.example/y.png\">".runes
    [.text .declaration "if ><img src=\"//evil.example/x.png\">".runes,
      .element "img".runes [("src".runes, "//evil.example/y.png".runes)] []]
    "<?if ><img src=\"//evil.example/x.png\">?><img/>".runes
    [.text .instruction "if ".runes,
      .element "img".runes [("src".runes, "//evil.example/x.png".runes)] [],
      .text .plain "?>".runes, .element "img".runes [] []]
    rfl (by decide +kernel) rfl
  exact absurd (congrArg List.length hlive) (by decide +kernel)

end Folio.Resource
