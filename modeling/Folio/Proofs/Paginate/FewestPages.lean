import Folio.Proofs.Paginate.Behind
import Folio.Proofs.Paginate.Conservation
import Folio.Proofs.Paginate.Heights

/-!
No way to put the items of a section on pages takes fewer pages. A way to do so may end a page
anywhere, has to end one at each mark, and may not put items on one page that end beyond its limit
unless it is a single item. Whether they do depends on where the page stands, as what is measured is
rounded there; so each way is measured on the pages that follow each other from the place of the
section on.
-/
namespace Folio.Paginate

/-- The flows of the pages in a group that hold an item. -/
def filledFlows (group : List Node) : List (List Node) :=
  (group.map Node.flowContent).filter fun flow => !flow.isEmpty

namespace Metrics

/-- The pages of a group that hold an item, the first of them after `first` sections, fit where
they stand, and each is ended by a mark or before an item that would end beyond its limit. And the
items cannot be cut into fewer groups that fit on as many pages from there on. -/
structure CutFewest (m : Metrics) (first : Nat) (s : Section) (group : List Node) : Prop where
  cut : CutInto (fun k flow rest =>
      (2 ≤ flow.length → m.Fits ⟨first + k, (s.prepare m.vars).1.page flow⟩) ∧
      ∀ item later, rest = item :: later → ¬ item.isMark →
        m.Beyond ⟨first + k, (s.prepare m.vars).1.page (flow ++ [item])⟩ flow item)
    0 (flowItems s.flowContent) (filledFlows group)
  fewest : ∀ groups, CutInto (fun k flow _ =>
      2 ≤ flow.length → m.Fits ⟨first + k, (s.prepare m.vars).1.page flow⟩)
    0 (flowItems s.flowContent) groups → (filledFlows group).length ≤ groups.length

end Metrics

theorem filledFlows_box {f : Frame} {content : List Node} {s : Section}
    (h : f.MadeFrom content s) (cut : Cut) : filledFlows (cut.flows.map f.box) = cut.filled := by
  have hflows : (cut.flows.map f.box).map Node.flowContent = cut.flows := by
    rw [List.map_map]
    exact List.map_id'' (fun items => h.flowContent_page items) cut.flows
  rw [filledFlows, hflows, Cut.filled]

/-- As many pages of a group hold an item when the numbers are shown. -/
theorem length_filledFlows_showOn {group : List Node} {number : Nat → Numbers}
    (hgroup : ∀ i, ∀ node ∈ group,
      ((number i).showOn node).flowContent.isEmpty = node.flowContent.isEmpty) :
    (filledFlows (group.mapIdx fun i page => (number i).showOn page)).length =
      (filledFlows group).length := by
  induction group generalizing number with
  | nil => rfl
  | cons head rest ih =>
      have hhead := hgroup 0 head List.mem_cons_self
      have hrest : (filledFlows (rest.mapIdx fun i page => (number (i + 1)).showOn page)).length =
          (filledFlows rest).length :=
        ih fun i node hnode => hgroup (i + 1) node (List.mem_cons_of_mem head hnode)
      simp only [filledFlows, List.map_cons, List.mapIdx_cons, List.filter_cons, hhead] at hrest ⊢
      split
      · rw [List.length_cons, List.length_cons, hrest]
      · exact hrest

namespace Metrics

variable {m : Metrics} {document : List Node}

/-- What a section is cut into is the least that it can be cut into. -/
theorem cutFewest_of_cutAfter (hheights : m.Nonnegative document)
    (hsections : Apart Tag.isSection Tag.isSection document) {groups : List (List Node)}
    {s : Section} {cut : Cut} (h : CutAfter m.gauge m.vars document groups s cut) :
    m.CutFewest (nextRank document groups) s (cut.flows.map (s.prepare m.vars).1.box) := by
  obtain ⟨hnone, hgiven⟩ := below_of_apart hheights hsections h.isPage h.mem
  have hmade := s.prepare_madeFrom m.vars
  have hsolid := solid_of_mem_flowItems hnone hgiven hmade
  have hflow := flow_isSection hnone hmade
  have hfits : ∀ rank, ∀ flow : List Node, flow ≠ [] →
      (∀ item ∈ flow, item ∈ flowItems (s.prepare m.vars).2) →
        (m.Fits ⟨rank, (s.prepare m.vars).1.page flow⟩ ↔
          m.overfull rank (s.prepare m.vars).1 flow = false) := by
    intro rank flow hne hmem
    exact fits_iff hflow hne (fun item hitem => hsolid item (hmem item hitem))
      (hmade.shows_page flow) rank
  obtain ⟨hfilled, hgreedy⟩ := filled_of_cutAfter hnone h
  constructor
  · rw [filledFlows_box hmade, hmade.content_eq, hfilled]
    refine hgreedy.imp fun k flow rest hne hlater hadmits => ⟨fun htwo => ?_, ?_⟩
    · exact (hfits _ flow hne fun item hitem =>
        hlater.subset (List.mem_append_left rest hitem)).2 (hadmits.1 htwo)
    · rintro item later rfl hmark
      have hitem := hsolid item (hlater.subset (by simp))
      rw [beyond_iff hflow (hmade.shows_page _) _ flow hitem.notSection]
      exact hadmits.2 item later rfl hmark
  · intro groups' hother
    rw [hmade.content_eq] at hother
    have hover : CutInto (fun k flow _ => 2 ≤ flow.length →
        m.overfull (nextRank document groups + k) (s.prepare m.vars).1 flow = false) 0
        (flowItems (s.prepare m.vars).2) groups' := by
      refine hother.imp fun k flow rest hne hlater hadmits htwo => ?_
      exact (hfits _ flow hne fun item hitem =>
        hlater.subset (List.mem_append_left rest hitem)).1 (hadmits htwo)
    have hgrow : ∀ k left flow right, (∀ node ∈ left ++ flow ++ right, m.Solid node) →
        m.overfull (nextRank document groups + k) (s.prepare m.vars).1 flow →
          m.overfull (nextRank document groups + k) (s.prepare m.vars).1
            (left ++ flow ++ right) :=
      fun k left flow right hgood => m.overfull_grow _ _ left flow right hgood
    rw [filledFlows_box hmade, hfilled]
    exact (steps_of_cutAfter hnone h).length_le hgrow hsolid hover

/-- Every section of a document that was laid out takes the fewest pages that its items can be put
on from where its pages stand, and as many hold an item at the end. -/
theorem cutFewest_of_layOut {count : Nat} (hheights : m.Nonnegative document)
    (hsections : Apart Tag.isSection Tag.isSection document)
    (hok : (layOut m.gauge m.vars document).outcome = .ok count) :
    (layOut m.gauge m.vars document).document =
        regroup (numberPages (pageGroups m.gauge m.vars document)) document ∧
      (pageGroups m.gauge m.vars document).length = (pageSections document).length ∧
      (∀ i p group, (pageSections document)[i]? = some p →
        (pageGroups m.gauge m.vars document)[i]? = some group →
        StandTogether m.gauge m.vars document i ∧
          m.CutFewest (firstRank m.gauge m.vars document i) p.page group) ∧
      List.Forall₂ (fun group shown => (filledFlows shown).length = (filledFlows group).length)
        (pageGroups m.gauge m.vars document)
        (numberPages (pageGroups m.gauge m.vars document)) := by
  obtain ⟨-, hlength, hcut⟩ := pageGroups_at hok
  rw [hsections.unnested.pageSections_eq_pages]
  refine ⟨(layOut_of_ok hok).2.1, hlength, fun i p group hp hgroup => ?_, ?_⟩
  · obtain ⟨cut, hafter, hmade⟩ := hcut i p hp
    obtain rfl := Option.some.inj (hgroup.symm.trans hmade)
    rw [firstRank_eq hok (List.getElem?_eq_some_iff.1 hp).1]
    exact ⟨standTogether_of_layOut hok i, cutFewest_of_cutAfter hheights hsections hafter⟩
  have hboxes := exists_of_mem_pageGroups hok (P := fun s group =>
    ∃ flows : List (List Node), group = flows.map (s.prepare m.vars).1.box)
    fun _ _ cut _ => ⟨cut.flows, rfl⟩
  have hsame : List.Forall₂ (fun source group => source = group ∧
      ∀ (n : Numbers), ∀ node ∈ group,
        (n.showOn node).flowContent.isEmpty = node.flowContent.isEmpty)
      (pageGroups m.gauge m.vars document) (pageGroups m.gauge m.vars document) := by
    refine List.forall₂_same.2 fun group hgroup => ⟨rfl, fun n node hnode => ?_⟩
    obtain ⟨q, -, flows, rfl⟩ := hboxes group hgroup
    obtain ⟨items, -, rfl⟩ := List.mem_map.1 hnode
    exact n.isEmpty_flowContent_showOn (q.page.prepare_madeFrom m.vars) items
  refine (numbered_forall₂ hsame _ 1).imp ?_
  rintro group shown ⟨_, start, ⟨rfl, hgroup⟩, rfl⟩
  exact length_filledFlows_showOn fun i node hnode => hgroup _ node hnode

/-- A mark between items that fit on one page, and an item that does not fit after them. -/
def markedItems : List Node :=
  onePage [.element Section.newBody
    [block 30, .element (.plain "hr".runes "forcePageEnd".runes) [],
      block 60, block 30, block 60]]

theorem cutFewest_of_layOut_markedItems :
    hundredHigh.Nonnegative markedItems ∧ Apart Tag.isSection Tag.isSection markedItems ∧
      (layOut hundredHigh.gauge [] markedItems).outcome = .ok 3 ∧
      ∀ i p group, (pageSections markedItems)[i]? = some p →
        (pageGroups hundredHigh.gauge [] markedItems)[i]? = some group →
        hundredHigh.CutFewest (firstRank hundredHigh.gauge [] markedItems i) p.page group := by
  have hheights : hundredHigh.Nonnegative markedItems := by decide +kernel
  have hsections : Apart Tag.isSection Tag.isSection markedItems := by decide +kernel
  have hok : (layOut hundredHigh.gauge hundredHigh.vars markedItems).outcome = .ok 3 := by
    decide +kernel
  obtain ⟨-, -, hfewest, -⟩ := cutFewest_of_layOut hheights hsections hok
  exact ⟨hheights, hsections, hok, fun i p group hp hgroup => (hfewest i p group hp hgroup).2⟩

end Metrics

end Folio.Paginate
