import Folio.Proofs.Paginate.Heights

/-!
Nothing is cut off that could have been placed elsewhere. In a document that was laid out by its
heights every page with two items or more ends above its limit, where it stands at the end.
-/
namespace Folio.Paginate

/-- A page with numbers shows the same items, if none are shown in its body. -/
theorem Frame.MadeFrom.shows_showOnPage {f : Frame} {content : List Node} {s : Section}
    (h : f.MadeFrom content s) (hbody : s.bodyTag.showsNumbers = false) (n : Numbers)
    (items : List Node) : f.Shows items (n.showOnPage (f.page items)) := by
  refine ⟨⟨f.before.map n.showInBand, f.body,
    f.bodyBefore ++ .element f.flow items :: f.bodyAfter, f.after.map n.showInBand⟩, ?_, rfl⟩
  simp [Section.flow?, Frame.flowSplit, h.split?_showOn hbody, h.split?_body]

/-- A body that is no footer is none for the numbers either. -/
theorem showsNumbers_bodyTag {s : Section} (hbodies : ∀ node ∈ s.children,
    node.isTagged Tag.isBody → ¬ node.isTagged (fun tag => tag.hasClass "footer".runes)) :
    s.bodyTag.showsNumbers = false := by
  have hfooter : s.bodyTag.hasClass "footer".runes = false := by
    unfold Section.bodyTag
    cases h : split? Tag.isBody s.children with
    | none =>
        rw [(Section.aroundBody_of_none h).1]
        decide
    | some b =>
        have hmem : .element b.tag b.children ∈ s.children := by
          rw [← row_of_split? h, Split.row]
          simp
        rw [Section.aroundBody_of_some h]
        simpa using hbodies _ hmem (split?_sound h).1
  have hname : s.bodyTag.isFooter = false := by
    by_contra hband
    have := isBody_of_isFooter (Bool.not_eq_false _ ▸ hband)
    rw [Section.bodyTag, Section.isBody_aroundBody] at this
    contradiction
  rw [Tag.showsNumbers, hname, hfooter, Bool.or_false]

namespace Metrics

/-- On a page that fits, an item beyond the limit is not one of the items. -/
theorem Fits.not_beyond {m : Metrics} {p : Placed} (hfits : m.Fits p) {before after : List Node}
    {item : Node} (hcontent : p.page.flowContent = before ++ item :: after) :
    ¬ m.Beyond p before item := by
  rintro ⟨b, w, hsplit, hlimit⟩
  obtain ⟨b', w', hsplit', hall⟩ := hfits
  rw [hsplit, Option.some.injEq, Prod.mk.injEq] at hsplit'
  obtain ⟨rfl, rfl⟩ := hsplit'
  rw [Section.flowContent_of_flow? hsplit] at hcontent
  exact hall before item after hcontent hlimit

variable {m : Metrics} {document : List Node}

/-- A flow with two items or more is not too much for its page. -/
theorem not_overfull_of_cutAfter
    (hsections : Apart Tag.isSection Tag.isSection document) {groups : List (List Node)}
    {s : Section} {cut : Cut} (h : CutAfter m.gauge m.vars document groups s cut) {j : Nat}
    {flow : List Node} (hflow : cut.flows[j]? = some flow) (htwo : 2 ≤ flow.length) :
    m.overfull (nextRank document groups + j) (s.prepare m.vars).1 flow = false := by
  have hne : flow ≠ [] := by
    rintro rfl
    simp at htwo
  have hnone := hsections s.tag s.children h.mem (isSection_of_isPage h.isPage)
  obtain ⟨-, hcut⟩ := filled_of_cutAfter hnone h
  obtain ⟨rest, hadmits⟩ := hcut.admits_of_getElem? (Cut.getElem?_turn_finished hflow hne)
  rw [Nat.zero_add] at hadmits
  exact hadmits.1 htwo

/-- In a document that was laid out, every page with two items or more fits where it stands, and
an item that ends beyond the limit is alone on its page. -/
theorem fits_of_layOut {count : Nat} (hheights : m.Nonnegative document)
    (hsections : Apart Tag.isSection Tag.isSection document)
    (hbodies : ∀ node ∈ allNodes document, node.isTagged Tag.isBody →
      ¬ node.isTagged (fun tag => tag.hasClass "footer".runes))
    (hok : (layOut m.gauge m.vars document).outcome = .ok count) :
    ∀ p ∈ pageSections (layOut m.gauge m.vars document).document,
      (2 ≤ p.page.flowContent.length → m.Fits p) ∧
        ∀ before item after, p.page.flowContent = before ++ item :: after →
          m.Beyond p before item → before = [] ∧ after = [] := by
  intro p hp
  have hfits : 2 ≤ p.page.flowContent.length → m.Fits p := by
    rw [pageSections_layOut hok hsections.unnested] at hp
    obtain ⟨i, hi⟩ := List.mem_iff_getElem?.1 hp
    obtain ⟨k, j, q, cut, flow, -, hafter, hgroup, hflow, rfl, -, hpage⟩ :=
      exists_cutAfter_of_page hok hi
    have hbox : (cut.flows.map (q.page.prepare m.vars).1.box)[j]? =
        some ((q.page.prepare m.vars).1.box flow) := by
      rw [List.getElem?_map, hflow, Option.map_some]
    obtain ⟨placed, hplaced, hrank⟩ := exists_page_layOut hok hgroup hbox
    obtain rfl := Option.some.inj (hi.symm.trans hplaced)
    have hmade := q.page.prepare_madeFrom m.vars
    obtain ⟨hnone, hgiven⟩ := below_of_apart hheights hsections hafter.isPage hafter.mem
    have hsolid : ∀ item ∈ flow, m.Solid item := fun item hitem =>
      solid_of_mem_flowItems hnone hgiven hmade item
        (hafter.mem_flowItems (List.mem_of_getElem? hflow) item hitem)
    have hbody : q.page.bodyTag.showsNumbers = false := showsNumbers_bodyTag fun node hnode =>
      hbodies node (mem_allNodes_of_element hafter.mem (mem_allNodes_of_mem hnode))
    intro htwo
    rw [hpage, hmade.flowContent_showOn_of_not hbody] at htwo
    have hne : flow ≠ [] := by
      rintro rfl
      simp at htwo
    have hshows : (q.page.prepare m.vars).1.Shows flow p.page :=
      hpage ▸ hmade.shows_showOnPage hbody _ flow
    refine (fits_iff (flow_isSection hnone hmade) hne hsolid hshows p.rank).2 ?_
    rw [hrank]
    exact not_overfull_of_cutAfter hsections hafter hflow htwo
  refine ⟨hfits, fun before item after hcontent hbeyond => ?_⟩
  by_contra hother
  have htwo : 2 ≤ p.page.flowContent.length := by
    rw [hcontent, List.length_append, List.length_cons]
    by_contra hshort
    exact hother ⟨List.length_eq_zero_iff.1 (by omega), List.length_eq_zero_iff.1 (by omega)⟩
  exact (hfits htwo).not_beyond hcontent hbeyond

/-- A page for two of its three items. -/
def threeItems : List Node :=
  onePage [.element Section.newBody [block 60, block 30, block 60]]

theorem fits_of_layOut_threeItems :
    hundredHigh.Nonnegative threeItems ∧ Apart Tag.isSection Tag.isSection threeItems ∧
      (∀ node ∈ allNodes threeItems, node.isTagged Tag.isBody →
        ¬ node.isTagged (fun tag => tag.hasClass "footer".runes)) ∧
      (layOut hundredHigh.gauge [] threeItems).outcome = .ok 2 ∧
      ∀ p ∈ pageSections (layOut hundredHigh.gauge [] threeItems).document,
        2 ≤ p.page.flowContent.length → hundredHigh.Fits p := by
  have hheights : hundredHigh.Nonnegative threeItems := by decide +kernel
  have hsections : Apart Tag.isSection Tag.isSection threeItems := by decide +kernel
  have hbodies : ∀ node ∈ allNodes threeItems, node.isTagged Tag.isBody →
      ¬ node.isTagged (fun tag => tag.hasClass "footer".runes) := by decide +kernel
  have hok : (layOut hundredHigh.gauge hundredHigh.vars threeItems).outcome = .ok 2 := by
    decide +kernel
  exact ⟨hheights, hsections, hbodies, hok,
    fun p hp => (fits_of_layOut hheights hsections hbodies hok p hp).1⟩

end Metrics

end Folio.Paginate
