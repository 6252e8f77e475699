import Folio.Proofs.Paginate.Places
import Folio.Proofs.Paginate.Shown

/-!
The pages of a section are alike. Apart from what is in their flows and in the places for their
numbers, all of them are the section as it was put in order before anything was placed: with its
own bands, and with a body and a flow.
-/
namespace Folio.Paginate

/-- A place for a number. -/
def Tag.isNumber (tag : Tag) : Bool := tag.isCurrent || tag.isTotal

mutual
/-- The node without what the places for numbers hold. -/
def Node.withoutNumbers : Node → Node
  | .element tag children =>
      .element tag (if tag.isNumber then [] else rowWithoutNumbers children)
  | .text content => .text content
  | .comment content => .comment content

/-- The row without what the places for numbers hold. -/
def rowWithoutNumbers : List Node → List Node
  | [] => []
  | node :: rest => node.withoutNumbers :: rowWithoutNumbers rest
end

/-- The section without what the first flow in its first body holds. -/
def Section.emptied (s : Section) : Section :=
  match split? Tag.isBody s.children with
  | none => s
  | some b =>
      match split? Tag.isFlow b.children with
      | none => s
      | some w => ⟨s.tag, { b with children := { w with children := [] }.row }.row⟩

/-- A page without what its flow and the places for its numbers hold. -/
def Node.outline : Node → Node
  | .element tag children => (Section.emptied ⟨tag, children⟩).node.withoutNumbers
  | node => node

/-- There is a page in the group, and all of them have the outline of the section in order, before
anything is put into its flow. -/
structure Section.Copied (s : Section) (vars : Properties) (group : List Node) : Prop where
  nonempty : group ≠ []
  outline : ∀ page ∈ group, page.outline = ((s.prepare vars).1.box []).withoutNumbers

theorem rowWithoutNumbers_eq_map (nodes : List Node) :
    rowWithoutNumbers nodes = nodes.map Node.withoutNumbers := by
  induction nodes with
  | nil => rfl
  | cons node rest ih => rw [rowWithoutNumbers, ih, List.map_cons]

theorem rowWithoutNumbers_append (left right : List Node) :
    rowWithoutNumbers (left ++ right) = rowWithoutNumbers left ++ rowWithoutNumbers right := by
  simp only [rowWithoutNumbers_eq_map, List.map_append]

/-- A way does not lead into a text. -/
theorem setContent_singleton_text (content : List Node) (way : Path) (s : Chars) :
    setContent content way [.text s] = [.text s] := by
  cases way with
  | nil => rfl
  | cons i way => cases i <;> simp [setContent]

/-- What is put into a place for a number is not seen without the numbers; nor if the place is gone
because a number was put around it. -/
theorem Leads.withoutNumbers_setContent {p : Tag → Bool} (hp : ∀ tag, p tag → tag.isNumber)
    {nodes filled : List Node} {way : Path} (h : Leads p nodes way) (hfilled : Filled nodes filled)
    (content : List Node) :
    rowWithoutNumbers (setContent content way filled) = rowWithoutNumbers filled := by
  induction h generalizing filled with
  | @here tag children rest htag =>
      cases hfilled with
      | inside _ _ _ => simp [setContent_here, rowWithoutNumbers, Node.withoutNumbers, hp tag htag]
      | replaced _ _ _ _ =>
          simp [setContent_here, rowWithoutNumbers, Node.withoutNumbers, hp tag htag]
  | @inside tag children way rest _ hway ih =>
      cases hfilled with
      | inside _ hinner _ =>
          rw [setContent_inside content hway.ne_nil, rowWithoutNumbers, rowWithoutNumbers,
            Node.withoutNumbers, Node.withoutNumbers, ih hinner]
      | replaced _ _ s _ =>
          rw [setContent_inside content hway.ne_nil, setContent_singleton_text]
  | later _ _ ih =>
      cases hfilled with
      | text _ hrest => rw [setContent_later, rowWithoutNumbers, rowWithoutNumbers, ih hrest]
      | comment _ hrest => rw [setContent_later, rowWithoutNumbers, rowWithoutNumbers, ih hrest]
      | inside _ _ hrest => rw [setContent_later, rowWithoutNumbers, rowWithoutNumbers, ih hrest]
      | replaced _ _ _ hrest =>
          rw [setContent_later, rowWithoutNumbers, rowWithoutNumbers, ih hrest]

namespace Numbers

variable (n : Numbers)

theorem withoutNumbers_fill (nodes : List Node) :
    rowWithoutNumbers (n.fill nodes) = rowWithoutNumbers nodes := by
  have hcurrent : ∀ tag : Tag, tag.isCurrent → tag.isNumber := by simp +contextual [Tag.isNumber]
  have htotal : ∀ tag : Tag, tag.isTotal → tag.isNumber := by simp +contextual [Tag.isNumber]
  rw [fill]
  cases hfirst : find? Tag.isCurrent nodes with
  | none =>
      cases hsecond : find? Tag.isTotal nodes with
      | none => rfl
      | some other =>
          exact (leads_of_find? hsecond).withoutNumbers_setContent htotal (Filled.refl nodes) _
  | some way =>
      have hshown := (leads_of_find? hfirst).withoutNumbers_setContent hcurrent (Filled.refl nodes)
        (text n.current)
      cases hsecond : find? Tag.isTotal nodes with
      | none => exact hshown
      | some other =>
          have hfilled := Filled.setContent (Text.decimal n.current) way nodes
          rw [← hshown]
          exact (leads_of_find? hsecond).withoutNumbers_setContent htotal hfilled _

theorem withoutNumbers_showBelow (depth : Nat) (node : Node) :
    (n.showBelow depth node).withoutNumbers = node.withoutNumbers := by
  induction depth generalizing node with
  | zero => cases node <;> rfl
  | succ depth ih =>
      cases node with
      | text content => rfl
      | comment content => rfl
      | element tag children =>
          have hrow : ∀ nodes : List Node,
              rowWithoutNumbers (nodes.map (n.showBelow depth)) = rowWithoutNumbers nodes := by
            intro nodes
            rw [rowWithoutNumbers_eq_map, rowWithoutNumbers_eq_map, List.map_map]
            exact List.map_congr_left fun node _ => ih node
          rw [showBelow, Node.withoutNumbers, Node.withoutNumbers, hrow]
          by_cases hcount : tag.isPageCount
          · rw [if_pos hcount, withoutNumbers_fill]
          · rw [if_neg hcount]

/-- A node of a band with the numbers shown in it, if the band shows any. -/
def showInside (band : Tag) (node : Node) : Node :=
  if band.showsNumbers then n.showBelow (node.depth + 1) node else node

theorem showInBand_element (tag : Tag) (children : List Node) :
    n.showInBand (.element tag children) = .element tag (children.map (n.showInside tag)) := by
  by_cases hband : tag.showsNumbers
  · have hinside : n.showInside tag = fun node => n.showBelow (node.depth + 1) node :=
      funext fun node => if_pos hband
    rw [showInBand, if_pos hband, hinside]
  · have hinside : n.showInside tag = id := funext fun node => if_neg hband
    rw [showInBand, if_neg hband, hinside, List.map_id]

theorem tag?_showInside (band : Tag) (node : Node) : (n.showInside band node).tag? = node.tag? := by
  unfold showInside
  split
  · exact n.tag?_showBelow _ node
  · rfl

theorem withoutNumbers_showInside (band : Tag) (node : Node) :
    (n.showInside band node).withoutNumbers = node.withoutNumbers := by
  unfold showInside
  split
  · exact n.withoutNumbers_showBelow _ node
  · rfl

theorem rowWithoutNumbers_map_showInside (band : Tag) (nodes : List Node) :
    rowWithoutNumbers (nodes.map (n.showInside band)) = rowWithoutNumbers nodes := by
  rw [rowWithoutNumbers_eq_map, rowWithoutNumbers_eq_map, List.map_map]
  exact List.map_congr_left fun node _ => n.withoutNumbers_showInside band node

theorem withoutNumbers_showInBand (node : Node) :
    (n.showInBand node).withoutNumbers = node.withoutNumbers := by
  cases node with
  | text content => rfl
  | comment content => rfl
  | element tag children =>
      rw [showInBand_element, Node.withoutNumbers, Node.withoutNumbers,
        rowWithoutNumbers_map_showInside]

theorem rowWithoutNumbers_map_showInBand (nodes : List Node) :
    rowWithoutNumbers (nodes.map n.showInBand) = rowWithoutNumbers nodes := by
  rw [rowWithoutNumbers_eq_map, rowWithoutNumbers_eq_map, List.map_map]
  exact List.map_congr_left fun node _ => n.withoutNumbers_showInBand node

end Numbers

/-- What is put into the flow of a frame, and the numbers that are shown around it, are not seen in
the outline of the page. -/
theorem Frame.MadeFrom.outline_showOn {f : Frame} {content : List Node} {s : Section}
    (h : f.MadeFrom content s) (n : Numbers) (items : List Node) :
    (n.showOn (f.box items)).outline = (f.box []).withoutNumbers := by
  have hbody := split?_map n.tag?_showInBand (h.split?_page items)
    (n.showInBand_element f.body (f.bodyBefore ++ .element f.flow items :: f.bodyAfter))
  obtain ⟨shown, hshown⟩ : ∃ shown, n.showInside f.body (.element f.flow items) =
      .element f.flow shown := by
    unfold Numbers.showInside
    split
    · exact ⟨_, rfl⟩
    · exact ⟨_, rfl⟩
  have hflow := split?_map (n.tag?_showInside f.body) (h.split?_body items) hshown
  change (Section.emptied ⟨f.tag, (f.page items).children.map n.showInBand⟩).node.withoutNumbers = _
  rw [Section.emptied, hbody]
  dsimp only
  rw [hflow, Section.node, Frame.box, Node.withoutNumbers, Node.withoutNumbers]
  simp only [Split.row, rowWithoutNumbers_append, rowWithoutNumbers, Node.withoutNumbers,
    Numbers.rowWithoutNumbers_map_showInside, Numbers.rowWithoutNumbers_map_showInBand]

/-- When a document is laid out, all pages of a section have the outline of the section in order. -/
theorem copied_of_layOut {gauge : Gauge} {vars : Properties} {document : List Node} {count : Nat}
    (hunnested : Unnested document) (hok : (layOut gauge vars document).outcome = .ok count) :
    (layOut gauge vars document).document =
        regroup (numberPages (pageGroups gauge vars document)) document ∧
      List.Forall₂ (fun p group => p.page.Copied vars group) (pageSections document)
        (numberPages (pageGroups gauge vars document)) := by
  refine ⟨(layOut_of_ok hok).2.1, ?_⟩
  have hgroups := (pageGroups_forall₂ hok (P := fun s group => ∃ flows : List (List Node),
    flows ≠ [] ∧ group = flows.map (s.prepare vars).1.box)
    fun s group cut _ => ⟨cut.flows, by simp [Cut.flows], rfl⟩).2
  rw [hunnested.pageSections_eq_pages]
  refine (numbered_forall₂ hgroups _ 1).imp ?_
  rintro p shown ⟨group, start, ⟨flows, hne, rfl⟩, rfl⟩
  refine ⟨by simpa using hne, fun page hpage => ?_⟩
  obtain ⟨i, hi, rfl⟩ := List.mem_mapIdx.1 hpage
  rw [List.getElem_map]
  exact (p.page.prepare_madeFrom vars).outline_showOn _ _

/-- A section with a height of its own for its header, a mark in its content, and a footer that
counts the pages. -/
def headedPage : List Node :=
  [.element (.plain "div".runes "document".runes)
    [.element { Tag.plain "section".runes "page".runes with
        attrs := [(headerRule.heightKey, "30mm".runes)] }
      [.element (.plain "header".runes []) [.text "head".runes],
        .element Section.newBody
          [.text "first".runes, .element (.plain "hr".runes "forcePageEnd".runes) [],
            .text "second".runes],
        .element (.plain "footer".runes [])
          [.element (.plain "p".runes "pagecount".runes)
            [.element (.plain "span".runes "current".runes) [.text "?".runes]]]]]]

theorem copied_of_layOut_headedPage :
    Unnested headedPage ∧ (layOut (fun _ _ => .ok false) [] headedPage).outcome = .ok 2 ∧
      List.Forall₂ (fun p group => p.page.Copied [] group) (pageSections headedPage)
        (numberPages (pageGroups (fun _ _ => .ok false) [] headedPage)) :=
  ⟨by decide, rfl, (copied_of_layOut (by decide) rfl).2⟩

end Folio.Paginate
