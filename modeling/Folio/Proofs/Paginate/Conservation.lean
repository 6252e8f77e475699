import Folio.Proofs.Paginate.Shown

/-!
Nothing that a page section holds is lost. The flows of the pages that a section becomes hold what
is kept of its content, in order and each node once, whatever was measured; the only change is in
a body that is also a footer, where the page counts among the content show their numbers.
-/
namespace Folio.Paginate

/-- The content of the flow of a page, if the node is one. -/
def Node.flowContent : Node → List Node
  | .element tag children => Section.flowContent ⟨tag, children⟩
  | _ => []

/-- The tag of the flow of a section, of a new one if it has none. -/
def Section.flowTag (s : Section) : Tag := (aroundFlow (aroundBody s.children).children).tag

/-- The content of a flow with the numbers shown in its page counts, the flow itself among them if
it is one. -/
def Numbers.showInFlow (n : Numbers) (flow : Tag) (items : List Node) : List Node :=
  (if flow.isPageCount then n.fill items else items).map (n.showBelow (rowDepth items + 1))

/-- The flows of a group of pages hold what is kept of the content of a section. Only below a body
that is a footer are numbers shown in it. -/
structure Section.Conserved (s : Section) (count : Nat) (group : List Node) : Prop where
  unchanged : s.bodyTag.showsNumbers = false →
    group.flatMap Node.flowContent = kept s.flowContent
  counted : s.bodyTag.showsNumbers → ∃ (start : Nat) (flows : List (List Node)),
    flows.flatten = kept s.flowContent ∧ group.map Node.flowContent =
      flows.mapIdx fun i items => Numbers.showInFlow ⟨start + i, count⟩ s.flowTag items

namespace Frame.MadeFrom

variable {f : Frame} {content : List Node} {s : Section}

theorem flow_eq (h : f.MadeFrom content s) : f.flow = s.flowTag := by
  rw [Section.flowTag, h.flow]

theorem flowContent_showOn (h : f.MadeFrom content s) (hbody : s.bodyTag.showsNumbers)
    (n : Numbers) (items : List Node) :
    (n.showOn (f.box items)).flowContent = n.showInFlow s.flowTag items := by
  let show' : Node → Node := fun node => n.showBelow (node.depth + 1) node
  have hband : n.showInBand (.element f.body
        (f.bodyBefore ++ .element f.flow items :: f.bodyAfter)) =
      .element f.body ((f.bodyBefore ++ .element f.flow items :: f.bodyAfter).map show') := by
    rw [← h.body_showsNumbers] at hbody
    simp [Numbers.showInBand, hbody, show']
  have hpage := split?_map n.tag?_showInBand (h.split?_page items) hband
  have hflow : split? Tag.isFlow
        ((f.bodyBefore ++ .element f.flow items :: f.bodyAfter).map show') =
      some ⟨f.bodyBefore.map show', f.flow, n.showInFlow f.flow items, f.bodyAfter.map show'⟩ :=
    split?_map (fun node => n.tag?_showBelow _ node) (h.split?_body items) rfl
  change Section.flowContent ⟨f.tag, (f.page items).children.map n.showInBand⟩ = _
  rw [← h.flow_eq]
  simp only [Section.flowContent, hpage, hflow]

end Frame.MadeFrom

namespace Numbers

theorem length_showInFlow (n : Numbers) (flow : Tag) (items : List Node) :
    (n.showInFlow flow items).length = items.length := by
  unfold showInFlow
  rw [List.length_map]
  split
  · exact (n.filled_fill items).length_eq
  · rfl

/-- Numbers do not fill the flow of a page that has no item, nor empty one that has. -/
theorem isEmpty_flowContent_showOn {f : Frame} {content : List Node} {s : Section}
    (h : f.MadeFrom content s) (n : Numbers) (items : List Node) :
    (n.showOn (f.box items)).flowContent.isEmpty = (f.box items).flowContent.isEmpty := by
  have hpage : (f.box items).flowContent = items := h.flowContent_page items
  rw [hpage]
  cases hbody : s.bodyTag.showsNumbers with
  | false =>
      have hshown : (n.showOn (f.box items)).flowContent = items :=
        h.flowContent_showOn_of_not hbody n items
      rw [hshown]
  | true =>
      rw [h.flowContent_showOn hbody, Bool.eq_iff_iff, List.isEmpty_iff_length_eq_zero,
        List.isEmpty_iff_length_eq_zero, length_showInFlow]

end Numbers

/-- The flows of a group of pages are these ones. Only below a body that is a footer are numbers
shown in them. -/
structure Section.SplitInto (s : Section) (count : Nat) (flows : List (List Node))
    (group : List Node) : Prop where
  unchanged : s.bodyTag.showsNumbers = false → group.map Node.flowContent = flows
  counted : s.bodyTag.showsNumbers → ∃ start : Nat, group.map Node.flowContent =
    flows.mapIdx fun i items => Numbers.showInFlow ⟨start + i, count⟩ s.flowTag items

/-- The pages of a section, numbered from some number, hold the flows that were put into them. -/
theorem splitInto_of_box (vars : Properties) (s : Section) (flows : List (List Node))
    (start count : Nat) :
    s.SplitInto count flows ((flows.map (s.prepare vars).1.box).mapIdx fun i page =>
      Numbers.showOn ⟨start + i, count⟩ page) := by
  have hmade := s.prepare_madeFrom vars
  constructor
  · intro hbody
    have hcontent : ∀ i (items : List Node),
        (Numbers.showOn ⟨start + i, count⟩ ((s.prepare vars).1.box items)).flowContent = items :=
      fun i items => hmade.flowContent_showOn_of_not hbody ⟨start + i, count⟩ items
    apply List.ext_getElem
    · simp
    · intro i hi hi'
      simp [hcontent]
  · intro hbody
    refine ⟨start, ?_⟩
    apply List.ext_getElem
    · simp
    · intro i hi hi'
      simp [hmade.flowContent_showOn hbody]

/-- The flows of a cut, numbered from some number, hold what the section holds. -/
theorem conserved_of_cut (vars : Properties) (s : Section) {cut : Cut}
    (hcut : cut.flows.flatten = kept s.flowContent) (start count : Nat) :
    s.Conserved count ((cut.flows.map (s.prepare vars).1.box).mapIdx fun i page =>
      Numbers.showOn ⟨start + i, count⟩ page) := by
  have hsplit := splitInto_of_box vars s cut.flows start count
  constructor
  · intro hbody
    rw [← hcut, List.flatMap_def, hsplit.unchanged hbody]
  · intro hbody
    obtain ⟨start, hcounted⟩ := hsplit.counted hbody
    exact ⟨start, cut.flows, hcut, hcounted⟩

/-- A section that was cut puts what it keeps into the flows. -/
theorem flatten_of_cutAfter {gauge : Gauge} {vars : Properties} {document : List Node}
    {groups : List (List Node)} {s : Section} {cut : Cut}
    (h : CutAfter gauge vars document groups s cut) : cut.flows.flatten = kept s.flowContent := by
  have hflatten := Cut.flatten_flows_run h.cut
  rw [filter_flowItems] at hflatten
  rw [(s.prepare_madeFrom vars).content_eq]
  simpa [Cut.start, Cut.flows] using hflatten

/-- The pages that stand in the place of a section hold its content: every element that does not
end a page and every text that is not blank, in order and each once. -/
theorem flowContent_conserved {gauge : Gauge} {vars : Properties} {document : List Node}
    {count : Nat} (hunnested : Unnested document)
    (hok : (layOut gauge vars document).outcome = .ok count) :
    (layOut gauge vars document).document =
        regroup (numberPages (pageGroups gauge vars document)) document ∧
      List.Forall₂ (fun p group => p.page.Conserved count group) (pageSections document)
        (numberPages (pageGroups gauge vars document)) := by
  obtain ⟨-, hdocument, hcount⟩ := layOut_of_ok hok
  refine ⟨hdocument, ?_⟩
  let P : Section → List Node → Prop := fun s group => ∃ cut : Cut,
    cut.flows.flatten = kept s.flowContent ∧ group = cut.flows.map (s.prepare vars).1.box
  have hgroups := (pageGroups_forall₂ hok (P := P) fun groups s cut h =>
    ⟨cut, flatten_of_cutAfter h, rfl⟩).2
  rw [hunnested.pageSections_eq_pages, numberPages, ← hcount]
  refine (numbered_forall₂ hgroups count 1).imp ?_
  rintro p shown ⟨group, start, ⟨cut, hcut, rfl⟩, rfl⟩
  exact conserved_of_cut vars p.page hcut start count

/-- A page with a loose text, a mark, a comment and an element. -/
def markedPage : List Node :=
  onePage [.element Section.newBody
    [.text "first".runes, .element (.plain "hr".runes "forcePageEnd".runes) [],
      .comment "between".runes, .element (.plain "p".runes []) [.text "second".runes]]]

theorem flowContent_conserved_at_mark :
    Unnested markedPage ∧ (layOut (fun _ _ => .ok false) [] markedPage).outcome = .ok 2 ∧
      List.Forall₂ (fun p group => p.page.Conserved 2 group) (pageSections markedPage)
        (numberPages (pageGroups (fun _ _ => .ok false) [] markedPage)) :=
  ⟨by decide, rfl, (flowContent_conserved (by decide) rfl).2⟩

/-- A page whose body is a footer too, with a page count in it. -/
def countedBody : List Node :=
  onePage [.element (.plain "main".runes "body footer".runes)
    [.element (.plain "div".runes "pagecount".runes)
      [.element (.plain "span".runes "current".runes) [.text "?".runes]]]]

/-- In such a body an element is not moved as it is: its page count shows the number of the page. -/
theorem not_flowContent_always_unchanged :
    ¬ ∀ (gauge : Gauge) (vars : Properties) (document : List Node) (count : Nat),
      Unnested document → (layOut gauge vars document).outcome = .ok count →
        List.Forall₂ (fun p group => group.flatMap Node.flowContent = kept p.page.flowContent)
          (pageSections document) (numberPages (pageGroups gauge vars document)) := by
  intro h
  have hall := h (fun _ _ => .ok false) [] countedBody 1 (by decide) rfl
  revert hall
  decide +kernel

end Folio.Paginate
