import Folio.Proofs.Paginate.PageNumbers

/-!
Showing numbers a second time. The places for the numbers are found again where they were, and
they hold the numbers already; so a page that shows its numbers stays as it is.
-/
namespace Folio.Paginate

/-- A row stays as it is when what the first element of the kind holds is put there. -/
theorem Leads.setContent_eq_self {p : Tag → Bool} {nodes : List Node} {way : Path}
    (h : Leads p nodes way) {content : List Node}
    (hcontent : (first? p nodes).map Node.children = some content) :
    setContent content way nodes = nodes := by
  induction h with
  | @here tag children rest htag =>
      obtain rfl : children = content := by simpa [htag, Node.children] using hcontent
      exact setContent_here _ tag _ rest
  | @inside tag children way rest htag hway ih =>
      obtain ⟨place, hplace⟩ := hway.first?_isSome
      rw [setContent_inside content hway.ne_nil, ih]
      simpa [htag, hplace] using hcontent
  | @later head rest i way hhead hway ih =>
      rw [setContent_later, ih]
      rw [← List.singleton_append, first?_append, first?_eq_none_iff.2 hhead,
        Option.none_or] at hcontent
      exact hcontent

/-- What is found and given other content holds this content. -/
theorem children_first?_withContent {p : Tag → Bool} {nodes made : List Node}
    {content : List Node} (h : first? p made = (first? p nodes).map (Node.withContent content)) :
    first? p made = none ∨ (first? p made).map Node.children = some content := by
  cases hfirst : first? p nodes with
  | none => exact Or.inl (by rw [h, hfirst, Option.map_none])
  | some place =>
      refine Or.inr ?_
      have htag : place.isTagged p := List.find?_some hfirst
      cases place with
      | element tag children => simp [h, hfirst, Node.withContent, Node.children]
      | text s => simp at htag
      | comment s => simp at htag

namespace Numbers

/-- A place that holds its number already stays as it is. -/
theorem setContent_find?_eq_self {p : Tag → Bool} {nodes content : List Node}
    (hheld : first? p nodes = none ∨ (first? p nodes).map Node.children = some content)
    {way : Path} (hway : find? p nodes = some way) : setContent content way nodes = nodes := by
  have hleads := leads_of_find? hway
  obtain ⟨place, hplace⟩ := hleads.first?_isSome
  rcases hheld with hnone | hheld
  · rw [hnone] at hplace
    contradiction
  · exact hleads.setContent_eq_self hheld

theorem fill_fill (n : Numbers) {nodes : List Node}
    (hseparate : Separate Tag.isCurrent Tag.isTotal nodes) :
    n.fill (n.fill nodes) = n.fill nodes := by
  obtain ⟨hcurrent, htotal⟩ := n.first?_fill hseparate
  generalize n.fill nodes = shown at hcurrent htotal ⊢
  have hfirst := children_first?_withContent hcurrent
  have hsecond := children_first?_withContent htotal
  rw [fill]
  cases hway : find? Tag.isCurrent shown with
  | none =>
      cases hother : find? Tag.isTotal shown with
      | none => rfl
      | some other => exact setContent_find?_eq_self hsecond hother
  | some way =>
      dsimp only
      rw [setContent_find?_eq_self hfirst hway]
      cases hother : find? Tag.isTotal shown with
      | none => rfl
      | some other => exact setContent_find?_eq_self hsecond hother

/-- In a row that shows the numbers at every depth nothing changes at any depth. -/
theorem map_showBelow_idem (n : Numbers) {nodes : List Node} (hcounts : CountsApart nodes)
    {depth : Nat} (hdepth : rowDepth nodes ≤ depth) (again : Nat) :
    (nodes.map (n.showBelow depth)).map (n.showBelow again) = nodes.map (n.showBelow depth) := by
  induction nodes using rowInduction generalizing depth again with
  | nil => rfl
  | element tag children rest ihChildren ihRest =>
      rw [rowDepth, Node.depth] at hdepth
      have hrow : rowDepth children + 1 ≤ depth ∧ rowDepth rest ≤ depth := Nat.max_le.1 hdepth
      have hmem : .element tag children ∈ allNodes (.element tag children :: rest) := by simp
      have hbelow : CountsApart children :=
        hcounts.mono fun node hnode => by simp [mem_allNodes_of_mem hnode]
      have hlater := ihRest
        (hcounts.mono fun node hnode => by simp [mem_allNodes_of_mem hnode]) hrow.2 again
      obtain ⟨depth, rfl⟩ : ∃ less, depth = less + 1 := ⟨depth - 1, by omega⟩
      rw [List.map_cons, List.map_cons, hlater]
      congr 1
      cases again with
      | zero => rfl
      | succ again =>
          rw [showBelow, showBelow]
          congr 1
          by_cases htag : tag.isPageCount
          · have hnone := (n.filled_fill children).none_of_none
              (hcounts.apart tag children hmem htag)
            have hfill : n.fill (n.fill children) = n.fill children :=
              n.fill_fill (hcounts.separate _ hmem htag)
            simp only [htag, if_true, n.map_showBelow_eq_self _ hnone, hfill]
          · simp only [htag, Bool.false_eq_true, if_false]
            exact ihChildren hbelow (by omega) again
  | text content rest ih =>
      have hrest := ih (hcounts.mono fun node hnode => by simp [mem_allNodes_of_mem hnode])
        (by simpa [rowDepth, Node.depth] using hdepth) again
      have htext : ∀ depth, n.showBelow depth (.text content) = .text content := by
        intro depth
        cases depth <;> rfl
      rw [List.map_cons, List.map_cons, hrest, htext, htext]
  | comment content rest ih =>
      have hrest := ih (hcounts.mono fun node hnode => by simp [mem_allNodes_of_mem hnode])
        (by simpa [rowDepth, Node.depth] using hdepth) again
      have hcomment : ∀ depth, n.showBelow depth (.comment content) = .comment content := by
        intro depth
        cases depth <;> rfl
      rw [List.map_cons, List.map_cons, hrest, hcomment, hcomment]

theorem showBelow_idem (n : Numbers) {node : Node} (hcounts : CountsApart [node]) {depth : Nat}
    (hdepth : node.depth ≤ depth) (again : Nat) :
    n.showBelow again (n.showBelow depth node) = n.showBelow depth node := by
  have hrow : rowDepth [node] ≤ depth := by simpa [rowDepth] using hdepth
  simpa using n.map_showBelow_idem hcounts hrow again

/-- What is a footer or not is so still, and if it is one it shows its numbers. -/
theorem showInBand_idem (n : Numbers) {node : Node} (hcounts : CountsApart [node]) :
    n.showInBand (n.showInBand node) = n.showInBand node := by
  cases node with
  | text content => rfl
  | comment content => rfl
  | element tag children =>
      by_cases hband : tag.showsNumbers
      · simp only [showInBand, hband, if_true, List.map_map]
        congr 1
        refine List.map_congr_left fun child hchild => ?_
        have hchildCounts : CountsApart [child] := hcounts.mono fun node hnode => by
          rw [List.mem_singleton] at hnode
          rw [hnode, allNodes_element]
          simp [mem_allNodes_of_mem hchild]
        exact n.showBelow_idem hchildCounts (Nat.le_succ _) _
      · simp only [showInBand, hband, Bool.false_eq_true, if_false]

/-- A page that shows its numbers stays as it is. -/
theorem showOnPage_idem (n : Numbers) {page : Section} (hcounts : CountsApart page.children) :
    n.showOnPage (n.showOnPage page) = n.showOnPage page := by
  rw [showOnPage, showOnPage, List.map_map]
  congr 1
  refine List.map_congr_left fun child hchild => ?_
  refine n.showInBand_idem (hcounts.mono fun node hnode => ?_)
  rw [List.mem_singleton] at hnode
  exact hnode ▸ mem_allNodes_of_mem hchild

end Numbers

/-- Pages that are groups by themselves are numbered one after the other. -/
theorem numbered_singletons (total first : Nat) (pages : List Node) :
    numbered total first (pages.map fun page => [page]) =
      pages.mapIdx fun i page => [Numbers.showOn ⟨first + i, total⟩ page] := by
  induction pages generalizing first with
  | nil => rfl
  | cons page rest ih =>
      have hshift : ∀ i, first + 1 + i = first + (i + 1) := by
        intro i
        omega
      simp [numbered, ih, hshift]

/-- Pages that are groups by themselves and show their numbers stay as they are. -/
theorem numberPages_singletons {pages : List Node}
    (hshown : ∀ i page, pages[i]? = some page →
      Numbers.showOn ⟨1 + i, pages.length⟩ page = page) :
    numberPages (pages.map fun page => [page]) = pages.map fun page => [page] := by
  have hflatten : (pages.map fun page => [page]).flatten = pages := by
    rw [← List.flatMap_def, List.flatMap_singleton']
  rw [numberPages, hflatten, numbered_singletons]
  apply List.ext_getElem
  · simp
  · intro i hi hi'
    have hat : i < pages.length := by simpa using hi'
    simp [hshown i pages[i] (List.getElem?_eq_getElem hat)]

end Folio.Paginate
