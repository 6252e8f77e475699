import Folio.Paginate.Cut
import Folio.Proofs.Paginate.Frames

/-!
A page is its section recast: the nodes of the section, some of them left out, their tags at most
restyled, in a few elements that the layout makes. So what no element of the section is no element
of the page is, and what is not below an element in the section is not below it on the page.
-/
namespace Folio.Paginate

/-- The tags of the elements that are made: around a text, for a body, and for a flow. -/
def madeTags : List Tag := [textTag, Section.newBody, Section.newFlow]

/-- The second row is made of nodes of the first one. -/
inductive Recast : List Node → List Node → Prop
  | nil (nodes : List Node) : Recast nodes []
  | kept {nodes made : List Node} {node : Node} (hnode : node ∈ nodes)
      (hrest : Recast nodes made) : Recast nodes (node :: made)
  | changed {nodes children inner made : List Node} {tag original : Tag}
      (helement : .element original children ∈ nodes) (htag : tag.Restyled original)
      (hinner : Recast children inner) (hrest : Recast nodes made) :
      Recast nodes (.element tag inner :: made)
  | added {nodes inner made : List Node} {tag original : Tag} (hmade : original ∈ madeTags)
      (htag : tag.Restyled original) (hinner : Recast nodes inner) (hrest : Recast nodes made) :
      Recast nodes (.element tag inner :: made)

/-- A test of tags that sees neither the inline style nor the elements that are made. -/
structure Neutral (p : Tag → Bool) : Prop where
  restyled : ∀ tag style, p { tag with style } = p tag
  made : ∀ tag ∈ madeTags, p tag = false

namespace Recast

theorem of_subset {nodes made : List Node} (hsub : ∀ node ∈ made, node ∈ nodes) :
    Recast nodes made := by
  induction made with
  | nil => exact nil nodes
  | cons head rest ih =>
      have hrest := ih fun node hnode => hsub node (List.mem_cons_of_mem head hnode)
      exact kept (hsub head List.mem_cons_self) hrest

theorem append {nodes left right : List Node} (hleft : Recast nodes left)
    (hright : Recast nodes right) : Recast nodes (left ++ right) := by
  induction hleft with
  | nil => exact hright
  | kept hnode _ ih => exact kept hnode (ih hright)
  | changed helement htag hinner _ _ ih => exact changed helement htag hinner (ih hright)
  | added hmade htag hinner _ _ ih => exact added hmade htag hinner (ih hright)

theorem mono {smaller larger made : List Node} (h : Recast smaller made)
    (hsub : ∀ node ∈ smaller, node ∈ larger) : Recast larger made := by
  induction h with
  | nil => exact nil larger
  | kept hnode _ ih => exact kept (hsub _ hnode) (ih hsub)
  | changed helement htag hinner _ _ ih => exact changed (hsub _ helement) htag hinner (ih hsub)
  | added hmade htag _ _ ihInner ihRest => exact added hmade htag (ihInner hsub) (ihRest hsub)

/-- An element of the second row was made, or it is an element of the first row and what is below
it is what was below that one, recast. -/
theorem element_before {nodes made : List Node} (h : Recast nodes made) {tag : Tag}
    {inner : List Node} (helement : .element tag inner ∈ allNodes made) :
    (∃ original children, .element original children ∈ allNodes nodes ∧ tag.Restyled original ∧
      Recast children inner) ∨ ∃ original ∈ madeTags, tag.Restyled original := by
  induction h with
  | nil => simp at helement
  | @kept nodes made node hnode _ ih =>
      rw [← List.singleton_append, allNodes_append, List.mem_append] at helement
      rcases helement with hhere | hlater
      · have hmem : .element tag inner ∈ allNodes nodes :=
          allNodes_subset (by simpa using mem_allNodes_of_mem hnode) _ hhere
        exact Or.inl ⟨tag, inner, hmem, Tag.Restyled.refl tag, of_subset fun _ h => h⟩
      · exact ih hlater
  | @changed nodes children below made head original hmem hhead hbelow _ ihInner ihRest =>
      rw [allNodes_element, List.mem_cons, List.mem_append, Node.element.injEq] at helement
      rcases helement with ⟨rfl, rfl⟩ | hinside | hlater
      · exact Or.inl ⟨original, children, mem_allNodes_of_mem hmem, hhead, hbelow⟩
      · refine (ihInner hinside).imp_left ?_
        rintro ⟨source, content, hsource, hrest⟩
        exact ⟨source, content, mem_allNodes_of_element (mem_allNodes_of_mem hmem) hsource, hrest⟩
      · exact ihRest hlater
  | @added nodes below made head original hmade hhead _ _ ihInner ihRest =>
      rw [allNodes_element, List.mem_cons, List.mem_append, Node.element.injEq] at helement
      rcases helement with ⟨rfl, rfl⟩ | hinside | hlater
      · exact Or.inr ⟨original, hmade, hhead⟩
      · exact ihInner hinside
      · exact ihRest hlater

section Neutral

variable {p q : Tag → Bool} {nodes made : List Node}

theorem none_of_none (hp : Neutral p) (h : Recast nodes made)
    (hnone : ∀ node ∈ allNodes nodes, ¬ node.isTagged p) :
    ∀ node ∈ allNodes made, ¬ node.isTagged p := by
  intro node hnode
  cases node with
  | element tag inner =>
      rw [isTagged_element]
      rcases h.element_before hnode with
        ⟨original, children, hmem, htag, -⟩ | ⟨original, hmade, htag⟩
      · rw [htag.apply_eq hp.restyled]
        exact hnone _ hmem
      · rw [htag.apply_eq hp.restyled, hp.made original hmade]
        simp
  | text content => simp
  | comment content => simp

theorem apart (hp : Neutral p) (hq : Neutral q) (h : Recast nodes made)
    (hapart : Apart p q nodes) : Apart p q made := by
  intro tag inner hmem htag
  rcases h.element_before hmem with
    ⟨original, children, hbefore, hstyle, hinner⟩ | ⟨original, hmade, hstyle⟩
  · rw [hstyle.apply_eq hp.restyled] at htag
    exact hinner.none_of_none hq (hapart original children hbefore htag)
  · rw [hstyle.apply_eq hp.restyled, hp.made original hmade] at htag
    contradiction

theorem clear {inDocument : Bool} (h : Recast nodes made) (hclear : Clear inDocument nodes) :
    Clear inDocument made := by
  have hpage : ∀ tag ∈ madeTags, tag.isPage = false ∧ tag.isDocument = false := by decide
  induction h generalizing inDocument with
  | nil => exact clear_nil _
  | @kept nodes made node hnode _ ih =>
      rw [clear_iff_forall, List.forall_mem_cons]
      exact ⟨clear_iff_forall.1 hclear node hnode, clear_iff_forall.1 (ih hclear)⟩
  | @changed nodes children inner made tag original hmem htag _ _ ihInner ihRest =>
      obtain ⟨hpage, hchildren, -⟩ := clear_element.1 (clear_iff_forall.1 hclear _ hmem)
      rw [clear_element, htag.apply_eq (p := Tag.isPage) fun _ _ => rfl,
        htag.apply_eq (p := Tag.isDocument) fun _ _ => rfl]
      exact ⟨hpage, ihInner hchildren, ihRest hclear⟩
  | @added nodes inner made tag original hmade htag _ _ ihInner ihRest =>
      obtain ⟨hnot, hdocument⟩ := hpage original hmade
      rw [clear_element, htag.apply_eq (p := Tag.isPage) fun _ _ => rfl,
        htag.apply_eq (p := Tag.isDocument) fun _ _ => rfl, hnot, hdocument, Bool.and_false]
      exact ⟨rfl, ihInner hclear.outside, ihRest hclear⟩

end Neutral

/-- The items of a flow are its content recast. -/
theorem items {content items : List Node} (hitems : ∀ item ∈ items, item ∈ flowItems content) :
    Recast content items := by
  induction items with
  | nil => exact nil content
  | cons head rest ih =>
      have hrest := ih fun item hitem => hitems item (List.mem_cons_of_mem head hitem)
      obtain ⟨node, hnode, hsome⟩ := List.mem_filterMap.1 (hitems head List.mem_cons_self)
      cases node with
      | element tag children =>
          obtain rfl := Option.some.inj hsome
          exact kept hnode hrest
      | text s =>
          simp only [item?] at hsome
          split at hsome
          · contradiction
          · obtain rfl := Option.some.inj hsome
            exact added (by simp [madeTags]) (Tag.Restyled.refl _) (kept hnode (nil _)) hrest
      | comment s => contradiction

end Recast

namespace Frame.MadeFrom

variable {f : Frame} {content : List Node} {s : Section}

/-- The content of a body with some of the items in its flow. -/
theorem recast_body (h : f.MadeFrom content s) {items : List Node}
    (hitems : ∀ item ∈ items, item ∈ flowItems content) :
    Recast (Section.aroundBody s.children).children
      (f.bodyBefore ++ .element f.flow items :: f.bodyAfter) := by
  have hrecast := Recast.items hitems
  rcases Section.aroundFlow_cases (Section.aroundBody s.children).children with hrow | hnew
  · rw [h.flow, Split.row] at hrow
    rw [← hrow]
    refine Recast.append (Recast.of_subset fun node hnode => by simp [hnode]) ?_
    exact Recast.changed (by simp) (Tag.Restyled.refl _) hrecast
      (Recast.of_subset fun node hnode => by simp [hnode])
  · rw [h.flow, Split.mk.injEq] at hnew
    obtain ⟨hbefore, hflow, hcontent, hafter⟩ := hnew
    rw [hbefore, hflow, hafter, ← hcontent]
    exact Recast.added (by simp [madeTags]) (Tag.Restyled.refl _) hrecast (Recast.nil _)

/-- A page that is made from a section is the section recast. -/
theorem recast_page (h : f.MadeFrom content s) {items : List Node}
    (hitems : ∀ item ∈ items, item ∈ flowItems content) :
    Recast s.children (f.page items).children := by
  have hbefore : Recast s.children f.before :=
    Recast.of_subset fun node hnode => h.around node (List.mem_append.2 (Or.inl hnode))
  have hafter : Recast s.children f.after :=
    Recast.of_subset fun node hnode => h.around node (List.mem_append.2 (Or.inr hnode))
  have hinner := h.recast_body hitems
  have htag := h.body
  refine Recast.append hbefore ?_
  cases hbody : split? Tag.isBody s.children with
  | some b =>
      rw [Section.aroundBody_of_some hbody] at hinner htag
      have hmem : .element b.tag b.children ∈ s.children := by
        rw [← row_of_split? hbody, Split.row]
        simp
      exact Recast.changed hmem htag hinner hafter
  | none =>
      obtain ⟨hnew, hempty, -⟩ := Section.aroundBody_of_none hbody
      rw [hempty] at hinner
      rw [hnew] at htag
      exact Recast.added (by simp [madeTags]) htag (hinner.mono (by simp)) hafter

/-- No page lies inside a page that is made from a section, if none lies inside the section. -/
theorem inner_page (h : f.MadeFrom content s) (hs : s.inner = []) {items : List Node}
    (hitems : ∀ item ∈ items, item ∈ flowItems content) : (f.page items).inner = [] := by
  rw [Section.inner_eq_nil_iff] at hs ⊢
  have hdocument : (f.page items).tag.isDocument = s.tag.isDocument :=
    h.tag.apply_eq (p := Tag.isDocument) fun _ _ => rfl
  rw [hdocument]
  exact (h.recast_page hitems).clear hs

end Frame.MadeFrom

end Folio.Paginate
