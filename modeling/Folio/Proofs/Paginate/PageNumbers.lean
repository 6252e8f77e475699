import Mathlib.Algebra.BigOperators.Group.List.Basic
import Folio.Proofs.Paginate.Places
import Folio.Proofs.Paginate.Shown

/-!
The numbers of the pages. The pages of a document that was laid out are counted through all its
sections, the root tells how many there are, and every page count below a footer of a page shows
the number of this page and that of all pages.
-/
namespace Folio.Paginate

/-- No page count lies inside another one, and in none the places for the two numbers are the same
or inside each other. -/
structure CountsApart (nodes : List Node) : Prop where
  apart : Apart Tag.isPageCount Tag.isPageCount nodes
  separate : ∀ node ∈ allNodes nodes, node.isTagged Tag.isPageCount →
    Separate Tag.isCurrent Tag.isTotal node.children

theorem countsApart_iff {nodes : List Node} :
    CountsApart nodes ↔ Apart Tag.isPageCount Tag.isPageCount nodes ∧
      ∀ node ∈ allNodes nodes, node.isTagged Tag.isPageCount →
        Separate Tag.isCurrent Tag.isTotal node.children :=
  ⟨fun h => ⟨h.apart, h.separate⟩, fun h => ⟨h.1, h.2⟩⟩

instance (nodes : List Node) : Decidable (CountsApart nodes) :=
  decidable_of_iff _ countsApart_iff.symm

theorem CountsApart.mono {smaller larger : List Node} (h : CountsApart larger)
    (hsub : ∀ node ∈ smaller, node ∈ allNodes larger) : CountsApart smaller :=
  ⟨h.apart.mono hsub, fun node hnode => h.separate node (allNodes_subset hsub node hnode)⟩

theorem neutral_isPageCount : Neutral Tag.isPageCount := ⟨fun _ _ => rfl, by decide⟩

theorem neutral_isCurrent : Neutral Tag.isCurrent := ⟨fun _ _ => rfl, by decide⟩

theorem neutral_isTotal : Neutral Tag.isTotal := ⟨fun _ _ => rfl, by decide⟩

theorem CountsApart.recast {nodes made : List Node} (h : CountsApart nodes)
    (hmade : Recast nodes made) : CountsApart made := by
  refine ⟨hmade.apart neutral_isPageCount neutral_isPageCount h.apart, fun node hnode hcount => ?_⟩
  cases node with
  | element tag inner =>
      rw [isTagged_element] at hcount
      rcases hmade.element_before hnode with
        ⟨original, children, hmem, htag, hinner⟩ | ⟨original, hnew, htag⟩
      · rw [htag.apply_eq neutral_isPageCount.restyled] at hcount
        obtain ⟨hfirst, hsecond, hnever⟩ := h.separate _ hmem hcount
        refine ⟨hinner.apart neutral_isCurrent neutral_isTotal hfirst,
          hinner.apart neutral_isTotal neutral_isCurrent hsecond, ?_⟩
        exact hinner.none_of_none ⟨fun _ _ => rfl, by decide⟩ hnever
      · rw [htag.apply_eq neutral_isPageCount.restyled,
          neutral_isPageCount.made original hnew] at hcount
        contradiction
  | text content => simp at hcount
  | comment content => simp at hcount

/-- The page counts of a row and below it, in document order. -/
def pageCounts (nodes : List Node) : List Node :=
  (allNodes nodes).filter (Node.isTagged Tag.isPageCount)

theorem pageCounts_element (tag : Tag) (children rest : List Node) :
    pageCounts (.element tag children :: rest) =
      (if tag.isPageCount then [.element tag children] else []) ++
        (pageCounts children ++ pageCounts rest) := by
  by_cases htag : tag.isPageCount <;> simp [pageCounts, htag]

theorem pageCounts_append (left right : List Node) :
    pageCounts (left ++ right) = pageCounts left ++ pageCounts right := by
  simp [pageCounts]

theorem pageCounts_eq_nil {nodes : List Node}
    (hnone : ∀ node ∈ allNodes nodes, ¬ node.isTagged Tag.isPageCount) : pageCounts nodes = [] :=
  List.filter_eq_nil_iff.2 hnone

namespace Numbers

/-- The second page count is the first one with the numbers shown, each in the first place for
it. -/
structure Shows (n : Numbers) (count shown : Node) : Prop where
  tag : shown.tag? = count.tag?
  current : first? Tag.isCurrent shown.children =
    (first? Tag.isCurrent count.children).map (Node.withContent (text n.current))
  total : first? Tag.isTotal shown.children =
    (first? Tag.isTotal count.children).map (Node.withContent (text n.total))

/-- The second page is the first one with the numbers shown in all page counts below its footers,
and nothing else changed. -/
def ShownOn (n : Numbers) (page shown : Section) : Prop :=
  shown.tag = page.tag ∧ List.Forall₂ (fun child shownChild => shownChild.tag? = child.tag? ∧
    (child.isTagged Tag.showsNumbers →
      List.Forall₂ n.Shows (pageCounts child.children) (pageCounts shownChild.children)) ∧
    (¬ child.isTagged Tag.showsNumbers → shownChild = child)) page.children shown.children

variable (n : Numbers)

theorem map_showBelow_eq_self (depth : Nat) {nodes : List Node}
    (hnone : ∀ node ∈ allNodes nodes, ¬ node.isTagged Tag.isPageCount) :
    nodes.map (n.showBelow depth) = nodes := by
  induction nodes using rowInduction generalizing depth with
  | nil => rfl
  | element tag children rest ihChildren ihRest =>
      have hrest := ihRest depth fun node hnode => hnone node (by simp [hnode])
      have htag : tag.isPageCount = false := by simpa using hnone (.element tag children) (by simp)
      rw [List.map_cons, hrest]
      cases depth with
      | zero => rfl
      | succ depth =>
          have hchildren := ihChildren depth fun node hnode => hnone node (by simp [hnode])
          simp [showBelow, htag, hchildren]
  | text content rest ih =>
      rw [List.map_cons, ih depth fun node hnode => hnone node (by simp [hnode])]
      cases depth <;> rfl
  | comment content rest ih =>
      rw [List.map_cons, ih depth fun node hnode => hnone node (by simp [hnode])]
      cases depth <;> rfl

/-- Every page count that is at most so deep in a row shows the numbers. -/
theorem shows_showBelow {nodes : List Node} (hcounts : CountsApart nodes) {depth : Nat}
    (hdepth : rowDepth nodes ≤ depth) :
    List.Forall₂ n.Shows (pageCounts nodes) (pageCounts (nodes.map (n.showBelow depth))) := by
  induction nodes using rowInduction generalizing depth with
  | nil => exact List.Forall₂.nil
  | element tag children rest ihChildren ihRest =>
      rw [rowDepth, Node.depth] at hdepth
      have hrow : rowDepth children + 1 ≤ depth ∧ rowDepth rest ≤ depth := Nat.max_le.1 hdepth
      have hmem : .element tag children ∈ allNodes (.element tag children :: rest) := by simp
      have hbelow : CountsApart children :=
        hcounts.mono fun node hnode => by simp [mem_allNodes_of_mem hnode]
      have hlater := ihRest
        (hcounts.mono fun node hnode => by simp [mem_allNodes_of_mem hnode]) hrow.2
      obtain ⟨depth, rfl⟩ : ∃ less, depth = less + 1 := ⟨depth - 1, by omega⟩
      rw [List.map_cons, showBelow, pageCounts_element, pageCounts_element]
      refine List.rel_append ?_ (List.rel_append ?_ hlater)
      · by_cases htag : tag.isPageCount
        · have hnone := (n.filled_fill children).none_of_none (hcounts.apart tag children hmem htag)
          have hfill := n.first?_fill (hcounts.separate _ hmem htag)
          simp only [htag, if_true, n.map_showBelow_eq_self depth hnone]
          exact List.Forall₂.cons ⟨rfl, hfill.1, hfill.2⟩ List.Forall₂.nil
        · simp [htag]
      · by_cases htag : tag.isPageCount
        · have hnone := hcounts.apart tag children hmem htag
          have hfilled := (n.filled_fill children).none_of_none hnone
          simp [htag, n.map_showBelow_eq_self depth hfilled, pageCounts_eq_nil hnone,
            pageCounts_eq_nil hfilled]
        · simpa [htag] using ihChildren hbelow (by omega)
  | text content rest ih =>
      have hrest := ih (hcounts.mono fun node hnode => by simp [mem_allNodes_of_mem hnode])
        (by simpa [rowDepth, Node.depth] using hdepth)
      have htext : n.showBelow depth (.text content) = .text content := by cases depth <;> rfl
      simpa [pageCounts, htext] using hrest
  | comment content rest ih =>
      have hrest := ih (hcounts.mono fun node hnode => by simp [mem_allNodes_of_mem hnode])
        (by simpa [rowDepth, Node.depth] using hdepth)
      have hcomment : n.showBelow depth (.comment content) = .comment content := by
        cases depth <;> rfl
      simpa [pageCounts, hcomment] using hrest

/-- The page counts in a footer are all deep enough to show the numbers. -/
theorem shows_band {children : List Node} (hcounts : CountsApart children) :
    List.Forall₂ n.Shows (pageCounts children)
      (pageCounts (children.map fun node => n.showBelow (node.depth + 1) node)) := by
  induction children with
  | nil => exact List.Forall₂.nil
  | cons head rest ih =>
      have hrest := ih (hcounts.mono fun node hnode =>
        mem_allNodes_of_mem (List.mem_cons_of_mem head hnode))
      have hhead : CountsApart [head] := hcounts.mono fun node hnode => by
        rw [List.mem_singleton] at hnode
        exact hnode ▸ mem_allNodes_of_mem List.mem_cons_self
      have hdepth : rowDepth [head] ≤ head.depth + 1 := by simp [rowDepth]
      have hone := n.shows_showBelow hhead hdepth
      rw [List.map_cons, ← List.singleton_append, pageCounts_append,
        ← List.singleton_append (x := n.showBelow (head.depth + 1) head), pageCounts_append]
      exact List.rel_append hone hrest

theorem shownOn_showOnPage {page : Section} (hcounts : CountsApart page.children) :
    n.ShownOn page (n.showOnPage page) := by
  refine ⟨rfl, List.forall₂_map_right_iff.2 (List.forall₂_same.2 fun child hchild => ?_)⟩
  refine ⟨n.tag?_showInBand child, fun hshows => ?_, fun hnot => ?_⟩
  · cases child with
    | text content => simp at hshows
    | comment content => simp at hshows
    | element tag children =>
        have hinner : CountsApart children := hcounts.mono fun inner hinner =>
          mem_allNodes_of_element (mem_allNodes_of_mem hchild) (mem_allNodes_of_mem hinner)
        rw [isTagged_element] at hshows
        rw [showInBand, if_pos hshows]
        exact n.shows_band hinner
  · cases child with
    | text content => rfl
    | comment content => rfl
    | element tag children =>
        rw [isTagged_element] at hnot
        rw [showInBand, if_neg hnot]

end Numbers

section LayOut

variable {gauge : Gauge} {vars : Properties}

/-- No section is without a page. -/
theorem length_pages_le_layOut {document : List Node} {count : Nat}
    (hok : (layOut gauge vars document).outcome = .ok count) :
    (pages document).length ≤ count := by
  have hnonempty := exists_of_mem_pageGroups hok (P := fun _ group => 1 ≤ group.length)
    fun _ _ cut _ => by
      rw [List.length_map]
      exact cut.length_flows_pos
  have hlength := (pageGroups_forall₂ hok (P := fun _ _ => True)
    fun _ _ _ _ => trivial).2.length_eq
  rw [(layOut_of_ok hok).2.2, List.length_flatten, hlength, ← List.length_map List.length]
  refine List.length_le_sum_of_one_le _ fun size hsize => ?_
  obtain ⟨group, hgroup, rfl⟩ := List.mem_map.1 hsize
  obtain ⟨q, -, hpos⟩ := hnonempty group hgroup
  exact hpos

theorem View.trigger_of_ok {v : View} {count : Nat} (hdone : v.isDone = false)
    (hok : (layOut gauge vars v.document).outcome = .ok count) :
    v.trigger gauge vars =
      { v with
        root := Entries.put doneKey "true".runes
          (Entries.put countKey (Text.decimal count) v.root)
        document := (layOut gauge vars v.document).document } := by
  rw [trigger, hdone]
  cases hlaid : layOut gauge vars v.document with
  | mk document outcome =>
      rw [hlaid] at hok
      obtain rfl : outcome = .ok count := hok
      rfl

/-- When a view is laid out, its page sections are the pages that were made, in order, each with
its place among them and their number shown, and the root has their number. -/
theorem numbered_of_trigger {v : View} {count : Nat} (hunnested : Unnested v.document)
    (hcounts : CountsApart v.document) (hdone : v.isDone = false)
    (hok : (layOut gauge vars v.document).outcome = .ok count) :
    let made := (pageGroups gauge vars v.document).flatten
    let shown := pageSections (v.trigger gauge vars).document
    shown.length = made.length ∧
      (∀ i p, shown[i]? = some p → ∃ page : Section, made[i]? = some page.node ∧
        Numbers.ShownOn ⟨i + 1, shown.length⟩ page p.page) ∧
      (v.trigger gauge vars).root.lookup View.countKey = some (Text.decimal shown.length) ∧
      (pageSections v.document).length ≤ shown.length := by
  intro made shown
  have hlaid := View.trigger_of_ok hdone hok
  have hshown : shown = pages (layOut gauge vars v.document).document := by
    rw [← pageSections_layOut hok hunnested]
    change pageSections (v.trigger gauge vars).document = _
    rw [hlaid]
  have hcount : made.length = count := (layOut_of_ok hok).2.2.symm
  have hlength : shown.length = count := by
    rw [hshown, ← List.length_map (f := fun p => p.page.node), map_node_pages_layOut hok,
      flatten_numberPages, List.length_mapIdx]
    exact hcount
  refine ⟨hlength.trans hcount.symm, ?_, ?_, ?_⟩
  · intro i p hp
    rw [hshown] at hp
    obtain ⟨q, hq, flow, hflow, hmade, hpage⟩ := page_layOut hok
      (P := fun s flow => ∀ item ∈ flow, item ∈ flowItems (s.prepare vars).2)
      (fun _ _ _ hcut _ => hcut.mem_flowItems) hp
    have hsection : CountsApart q.page.children := hcounts.mono fun node hnode =>
      mem_allNodes_of_element (mem_pagesFrom hq).2 (mem_allNodes_of_mem hnode)
    have hapart := hsection.recast ((q.page.prepare_madeFrom vars).recast_page hflow)
    refine ⟨(q.page.prepare vars).1.page flow, hmade, ?_⟩
    rw [hpage, hlength, Nat.add_comm i 1]
    exact Numbers.shownOn_showOnPage _ hapart
  · rw [hlaid, Entries.lookup_put_of_ne (by decide), Entries.lookup_put_self, hlength]
  · rw [hunnested.pageSections_eq_pages, hlength]
    exact length_pages_le_layOut hok

/-- A page with a footer that counts, and a mark in its flow. -/
def countedPage : View where
  root := []
  document := onePage
    [.element Section.newBody
      [.text "first".runes, .element (.plain "hr".runes "forcePageEnd".runes) [],
        .text "second".runes],
      .element (.plain "footer".runes [])
        [.element (.plain "p".runes "pagecount".runes)
          [.element (.plain "span".runes "current".runes) [],
            .element (.plain "span".runes "total".runes) []]]]
  faults := []

theorem numbered_of_trigger_countedPage :
    Unnested countedPage.document ∧ CountsApart countedPage.document ∧
      countedPage.isDone = false ∧
      (layOut (fun _ _ => .ok false) [] countedPage.document).outcome = .ok 2 ∧
      ∀ i p, (pageSections (countedPage.trigger (fun _ _ => .ok false) []).document)[i]? = some p →
        ∃ page : Section,
          (pageGroups (fun _ _ => .ok false) [] countedPage.document).flatten[i]? =
            some page.node ∧ Numbers.ShownOn ⟨i + 1, 2⟩ page p.page := by
  have hunnested : Unnested countedPage.document := by decide
  have hcounts : CountsApart countedPage.document := by decide +kernel
  have hdone : countedPage.isDone = false := by decide
  have hok : (layOut (fun _ _ => .ok false) [] countedPage.document).outcome = .ok 2 := rfl
  have hlength : (pageSections
      (countedPage.trigger (fun _ _ => .ok false) []).document).length = 2 := by decide +kernel
  have hall := (numbered_of_trigger hunnested hcounts hdone hok).2.1
  rw [hlength] at hall
  exact ⟨hunnested, hcounts, hdone, hok, hall⟩

end LayOut

end Folio.Paginate
