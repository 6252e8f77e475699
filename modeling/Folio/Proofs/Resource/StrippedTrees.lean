import Folio.Proofs.Markup.Rereading
import Folio.Proofs.Resource.Mentions
import Folio.Resource.Fragment

/-!
Trees from which external resources are taken away. What is taken away is an attribute or a piece of
style text of some element, and what is left can be written and read again unless a stripped style
sheet joins into an end tag.
-/
namespace Folio.Resource

open Markup (Node Element elements texts AllOf NoEnd rawClose?)

section Attributes

variable {name value : Chars} {attrs : List (Chars × Chars)}

/-- Something is taken away from the attribute: all of it, or a piece of its style. -/
def IsStripped (name value : Chars) : Prop :=
  isExternalAttribute name value ∨ name = "style".runes ∧ stripCss value ≠ value

instance (name value : Chars) : Decidable (IsStripped name value) :=
  inferInstanceAs (Decidable (_ ∨ _))

/-- An attribute with its style stripped. -/
def stripStyle (a : Chars × Chars) : Chars × Chars :=
  (a.1, if a.1 == "style".runes then stripCss a.2 else a.2)

theorem stripAttributes_eq (attrs : List (Chars × Chars)) : stripAttributes attrs =
    (attrs.map stripStyle).filter fun a => !isExternalAttribute a.1 a.2 := rfl

theorem stripStyle_eq_self_iff {a : Chars × Chars} :
    stripStyle a = a ↔ (a.1 = "style".runes → stripCss a.2 = a.2) := by
  obtain ⟨name, value⟩ := a
  rw [stripStyle, Prod.mk.injEq, and_iff_right rfl, ite_eq_right_iff, beq_iff_eq]

theorem not_isStripped_iff : ¬ IsStripped name value ↔
    isExternalAttribute name value = false ∧ stripStyle (name, value) = (name, value) := by
  rw [IsStripped, not_or, Bool.not_eq_true, not_and, not_not, stripStyle_eq_self_iff]

theorem stripAttributes_eq_self_iff :
    stripAttributes attrs = attrs ↔ ∀ a ∈ attrs, ¬ IsStripped a.1 a.2 := by
  simp only [not_isStripped_iff]
  rw [stripAttributes_eq]
  constructor
  · intro h
    have hlength := (congrArg List.length h).trans (List.length_map stripStyle).symm
    rw [List.length_filter_eq_length_iff] at hlength
    rw [List.filter_eq_self.2 hlength] at h
    have hsame : ∀ a ∈ attrs, stripStyle a = a :=
      List.map_inj_left.1 (h.trans (List.map_id attrs).symm)
    intro a ha
    have hstays := hlength (stripStyle a) (List.mem_map_of_mem ha)
    rw [hsame a ha, Bool.not_eq_true'] at hstays
    exact ⟨hstays, hsame a ha⟩
  · intro h
    have hsame : attrs.map stripStyle = attrs :=
      (List.map_congr_left fun a ha => (h a ha).2).trans (List.map_id attrs)
    rw [hsame]
    exact List.filter_eq_self.2 fun a ha => by rw [(h a ha).1]; rfl

/-- The attributes without external addresses have names that they had before. -/
theorem keys_stripAttributes (attrs : List (Chars × Chars)) :
    ((stripAttributes attrs).map Prod.fst).Sublist (attrs.map Prod.fst) := by
  have hkeys : (attrs.map stripStyle).map Prod.fst = attrs.map Prod.fst := by
    rw [List.map_map]
    rfl
  rw [← hkeys]
  exact List.filter_sublist.map Prod.fst

theorem not_external_of_mem_stripAttributes {a : Chars × Chars} (ha : a ∈ stripAttributes attrs) :
    isExternalAttribute a.1 a.2 = false := by
  simpa using (List.mem_filter.1 ha).2

/-- A link to the outside has an external address. -/
theorem exists_of_isExternalLink (h : isExternalLink name attrs) :
    ∃ a ∈ attrs, isExternalAttribute a.1 a.2 := by
  rw [isExternalLink, Bool.and_eq_true] at h
  cases hlookup : attrs.lookup "href".runes with
  | none =>
      rw [hlookup] at h
      exact absurd h.2 (by decide)
  | some url =>
      rw [hlookup] at h
      obtain ⟨before, after, rfl, -⟩ := List.lookup_eq_some_iff.1 hlookup
      refine ⟨_, List.mem_append_right before List.mem_cons_self, ?_⟩
      exact h.2

end Attributes

/-- Whether something is taken away from an element or its style text. -/
def taints (e : Element) : Bool :=
  isExternalLink e.name e.attrs || stripAttributes e.attrs != e.attrs ||
    (e.name == "style".runes && stripCss (soleText e.children) != soleText e.children)

section Taints

variable {e : Element} {nodes : List Node}

theorem anyTainted_eq (nodes : List Node) : anyTainted nodes = (elements nodes).any taints := by
  induction nodes using Markup.nodesInduction with
  | nil => rfl
  | text kind content rest ih => exact ih
  | element name attrs children rest ihchildren ihrest =>
      rw [anyTainted, isTainted, ihchildren, ihrest, Markup.elements_element, List.any_cons,
        List.any_append, Bool.or_assoc]
      rfl

/-- What is taken away is an external address or a piece of style. -/
theorem taints_iff : taints e ↔ (∃ a ∈ e.attrs, IsStripped a.1 a.2) ∨
    e.name = "style".runes ∧ stripCss (soleText e.children) ≠ soleText e.children := by
  have hattrs : stripAttributes e.attrs ≠ e.attrs ↔ ∃ a ∈ e.attrs, IsStripped a.1 a.2 := by
    simp only [ne_eq, stripAttributes_eq_self_iff, not_forall, not_not, exists_prop]
  simp only [taints, Bool.or_eq_true, Bool.and_eq_true, beq_iff_eq, bne_iff_ne, hattrs]
  refine or_congr_left (or_iff_right_of_imp fun hlink => ?_)
  obtain ⟨a, ha, hexternal⟩ := exists_of_isExternalLink hlink
  exact ⟨a, ha, Or.inl hexternal⟩

end Taints

/-- An element that is read from the source. -/
structure ReadFrom (source : Chars) (e : Element) : Prop where
  sound : e.Sound
  content : e.Content source

theorem allOf_readFrom {s : Chars} {nodes : List Node} (h : Node.read s = .ok nodes) :
    AllOf (ReadFrom s) Markup.TextKind.Sound nodes :=
  have hall := Markup.allOf_read h
  ⟨fun e he => ⟨Markup.sound_of_read h e he, hall.elements e he⟩, hall.texts⟩

/-- Stripped nodes that are read as they are written: no declaration holds a `>`, where it would end
when it is written, and no stripped style sheet holds an end tag of its element. -/
structure Restorable (nodes : List Node) : Prop where
  declarations : ∀ t ∈ texts nodes, t.1 = .declaration → .of '>' ∉ t.2
  styles : ∀ e ∈ elements nodes, e.name = "style".runes →
    NoEnd (rawClose? e.name) (stripCss (soleText e.children)) []

instance (nodes : List Node) : Decidable (Restorable nodes) :=
  decidable_of_iff ((∀ t ∈ texts nodes, t.1 = .declaration → .of '>' ∉ t.2) ∧
      ∀ e ∈ elements nodes, e.name = "style".runes →
        NoEnd (rawClose? e.name) (stripCss (soleText e.children)) [])
    ⟨fun ⟨hdeclarations, hstyles⟩ => ⟨hdeclarations, hstyles⟩,
      fun h => ⟨h.declarations, h.styles⟩⟩

/-- An element that can be written after it is stripped. -/
structure Restores (source : Chars) (e : Element) : Prop extends ReadFrom source e where
  style (h : e.name = "style".runes) : NoEnd (rawClose? e.name) (stripCss (soleText e.children)) []

section Stripped

variable {source name text : Chars} {attrs : List (Chars × Chars)} {children nodes : List Node}

theorem soleText_eq (children : List Node) : soleText children = Markup.ownText children := rfl

theorem isRawText_style : Markup.isRawText "style".runes := by decide

theorem stripStyleText_text (text : Chars) :
    stripStyleText [.text .plain text] = [.text .plain (stripCss text)] := by
  unfold stripStyleText
  dsimp only [soleText]
  split
  · rename_i h
    rw [beq_iff_eq.1 h]
  · rfl

/-- The content of an element after it is stripped. -/
def strippedContent (name : Chars) (children : List Node) : List Node :=
  if name == "style".runes then stripStyleText (stripNodes children) else stripNodes children

theorem strippedContent_nil (name : Chars) : strippedContent name [] = [] := by
  unfold strippedContent
  split <;> rfl

theorem strippedContent_style :
    strippedContent "style".runes [.text .plain text] = [.text .plain (stripCss text)] :=
  stripStyleText_text text

theorem strippedContent_of_ne (h : name ≠ "style".runes) (children : List Node) :
    strippedContent name children = stripNodes children :=
  if_neg (beq_iff_eq.not.2 h)

theorem elements_strippedContent_subset :
    elements (strippedContent name children) ⊆ elements (stripNodes children) := by
  unfold strippedContent
  split
  · unfold stripStyleText
    dsimp only
    split
    · exact List.Subset.refl _
    · exact List.nil_subset _
  · exact List.Subset.refl _

/-- A style element is stripped with its text, and no element stands in it. -/
theorem ReadFrom.style_content (h : ReadFrom source ⟨"style".runes, attrs, children⟩) :
    soleText (strippedContent "style".runes children) = stripCss (soleText children) ∧
      elements (strippedContent "style".runes children) = [] ∧ elements children = [] := by
  rcases h.content.raw isRawText_style with hnil | ⟨text, htext, -⟩
  · obtain rfl : children = [] := hnil
    rw [strippedContent_nil]
    exact ⟨rfl, rfl, rfl⟩
  · obtain rfl : children = [.text .plain text] := htext
    rw [strippedContent_style]
    exact ⟨rfl, rfl, rfl⟩

/-- The text of any other raw text element stays. -/
theorem ReadFrom.raw_content (h : ReadFrom source ⟨name, attrs, children⟩)
    (hraw : Markup.isRawText name) : stripNodes children = children := by
  rcases h.content.raw hraw with hnil | ⟨text, htext, -⟩
  · obtain rfl : children = [] := hnil
    rfl
  · obtain rfl : children = [.text .plain text] := htext
    rfl

theorem stripNode_element (name : Chars) (attrs : List (Chars × Chars)) (children : List Node) :
    stripNode (.element name attrs children) = if isExternalLink name attrs then [] else
      [.element name (stripAttributes attrs) (strippedContent name children)] := rfl

/-- An element that is stripped can be written and read again. -/
theorem Restores.writable (h : Restores source ⟨name, attrs, children⟩) :
    (Element.mk name (stripAttributes attrs) (strippedContent name children)).Writable where
  sound :=
    ⟨h.sound.name, h.sound.lower, fun a ha => by
      have hkey := (keys_stripAttributes attrs).subset (List.mem_map_of_mem ha)
      obtain ⟨b, hb, heq⟩ := List.mem_map.1 hkey
      exact heq ▸ h.sound.attrs b hb,
    h.sound.nodup.sublist (keys_stripAttributes attrs)⟩
  void hvoid := by
    obtain rfl : children = [] := h.content.void hvoid
    exact strippedContent_nil name
  raw hraw := by
    rcases h.content.raw hraw with hnil | ⟨text, htext, hnone, -⟩
    · obtain rfl : children = [] := hnil
      dsimp only
      rw [strippedContent_nil]
      exact ⟨Or.inl rfl, trivial⟩
    · obtain rfl : children = [.text .plain text] := htext
      by_cases hstyle : name = "style".runes
      · subst hstyle
        dsimp only
        rw [strippedContent_style]
        exact ⟨Or.inr rfl, h.style rfl⟩
      · dsimp only
        rw [strippedContent_of_ne hstyle]
        exact ⟨Or.inr rfl, hnone⟩

theorem allOf_stripNodes (h : AllOf (Restores source) Markup.TextKind.Writable nodes) :
    AllOf Element.Writable Markup.TextKind.Writable (stripNodes nodes) := by
  induction nodes using Markup.nodesInduction with
  | nil => exact Markup.allOf_nil
  | text kind content rest ih =>
      obtain ⟨htext, hrest⟩ := Markup.allOf_cons.1 h
      exact Markup.allOf_cons.2 ⟨Markup.allOf_text.2 (Markup.allOf_text.1 htext), ih hrest⟩
  | element name attrs children rest ihchildren ihrest =>
      obtain ⟨helement, hrest⟩ := Markup.allOf_cons.1 h
      obtain ⟨he, hchildren⟩ := Markup.allOf_element.1 helement
      rw [stripNodes, Markup.allOf_append, stripNode_element]
      refine ⟨?_, ihrest hrest⟩
      split
      · exact Markup.allOf_nil
      · refine Markup.allOf_element.2 ⟨he.writable, ?_⟩
        have hstripped := ihchildren hchildren
        unfold strippedContent
        split
        · unfold stripStyleText
          dsimp only
          split
          · exact hstripped
          · exact Markup.allOf_text.2 ⟨trivial, nofun⟩
        · exact hstripped

theorem Restorable.allOf {html : Chars} (h : Restorable nodes) (hread : Node.read html = .ok nodes) :
    AllOf Element.Writable Markup.TextKind.Writable (stripNodes nodes) := by
  have hall := allOf_readFrom hread
  exact allOf_stripNodes ⟨fun e he => ⟨hall.elements e he, h.styles e he⟩,
    fun t ht => ⟨hall.texts t ht, h.declarations t ht⟩⟩

/-- An element that is left was there before, with more attributes. -/
theorem exists_of_mem_stripNodes (nodes : List Node) : ∀ e ∈ elements (stripNodes nodes),
    ∃ e' ∈ elements nodes, e.name = e'.name ∧ e.attrs = stripAttributes e'.attrs := by
  induction nodes using Markup.nodesInduction with
  | nil => exact fun e he => absurd he List.not_mem_nil
  | text kind content rest ih => exact ih
  | element name attrs children rest ihchildren ihrest =>
      intro e he
      rw [stripNodes, Markup.elements_append, List.mem_append, stripNode_element] at he
      rw [Markup.elements_element]
      rcases he with hnode | hlater
      · split at hnode
        · exact absurd hnode List.not_mem_nil
        · rw [Markup.elements_element, Markup.elements_nil, List.append_nil, List.mem_cons] at hnode
          rcases hnode with rfl | hinside
          · exact ⟨_, List.mem_cons_self, rfl, rfl⟩
          · obtain ⟨e', he', hsame⟩ := ihchildren e (elements_strippedContent_subset hinside)
            exact ⟨e', List.mem_cons_of_mem _ (List.mem_append_left _ he'), hsame⟩
      · obtain ⟨e', he', hsame⟩ := ihrest e hlater
        exact ⟨e', List.mem_cons_of_mem _ (List.mem_append_right _ he'), hsame⟩

end Stripped

end Folio.Resource
