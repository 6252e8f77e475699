import Folio.Proofs.Paginate.Cutting
import Folio.Proofs.Paginate.Filling
import Folio.Proofs.Paginate.Recast

/-!
The pages of a document that was laid out: they are the pages that were made from its sections, in
order, each with its numbers shown, and no page lies inside another one if none did before.
-/
namespace Folio.Paginate

/-- The page with the numbers shown in its footers. -/
def Numbers.showOnPage (n : Numbers) (s : Section) : Section :=
  ⟨s.tag, s.children.map n.showInBand⟩

theorem Numbers.node_showOnPage (n : Numbers) (s : Section) :
    (n.showOnPage s).node = n.showOn s.node := rfl

/-- The tag of the body of a section, of a new one if it has none. -/
def Section.bodyTag (s : Section) : Tag := (aroundBody s.children).tag

namespace Frame.MadeFrom

variable {f : Frame} {content : List Node} {s : Section}

theorem body_showsNumbers (h : f.MadeFrom content s) :
    f.body.showsNumbers = s.bodyTag.showsNumbers :=
  h.body.apply_eq (p := Tag.showsNumbers) fun _ _ => rfl

/-- A page with numbers has the same body and the same flow, if numbers are not shown there. -/
theorem split?_showOn (h : f.MadeFrom content s) (hbody : s.bodyTag.showsNumbers = false)
    (n : Numbers) (items : List Node) :
    split? Tag.isBody (n.showOnPage (f.page items)).children =
      some ⟨f.before.map n.showInBand, f.body,
        f.bodyBefore ++ .element f.flow items :: f.bodyAfter, f.after.map n.showInBand⟩ := by
  refine split?_map n.tag?_showInBand (h.split?_page items) ?_
  rw [← h.body_showsNumbers] at hbody
  simp [Numbers.showInBand, hbody]

theorem flowContent_showOn_of_not (h : f.MadeFrom content s)
    (hbody : s.bodyTag.showsNumbers = false) (n : Numbers) (items : List Node) :
    (n.showOnPage (f.page items)).flowContent = items := by
  simp [Section.flowContent, h.split?_showOn hbody, h.split?_body]

end Frame.MadeFrom

/-- A place in a row of rows is a place in one of them. -/
theorem exists_getElem?_of_flatten {α : Type} {rows : List (List α)} {i : Nat} {x : α}
    (hx : rows.flatten[i]? = some x) : ∃ (k j : Nat) (row : List α), rows[k]? = some row ∧
      row[j]? = some x ∧ i = (rows.take k).flatten.length + j := by
  induction rows generalizing i with
  | nil => simp at hx
  | cons row rest ih =>
      rw [List.flatten_cons] at hx
      rcases Nat.lt_or_ge i row.length with hin | hout
      · rw [List.getElem?_append_left hin] at hx
        exact ⟨0, i, row, rfl, hx, by simp⟩
      · rw [List.getElem?_append_right hout] at hx
        obtain ⟨k, j, other, hother, hj, hi⟩ := ih hx
        refine ⟨k + 1, j, other, hother, hj, ?_⟩
        rw [List.take_succ_cons, List.flatten_cons, List.length_append]
        omega

section LayOut

variable {gauge : Gauge} {vars : Properties} {document : List Node} {count : Nat}
  (hok : (layOut gauge vars document).outcome = .ok count)
include hok

/-- The pages of a document that was laid out are those made, in order, with their numbers. -/
theorem map_node_pages_layOut :
    (pages (layOut gauge vars document).document).map (·.page.node) =
      (numberPages (pageGroups gauge vars document)).flatten := by
  obtain ⟨hall, hforall⟩ := pageGroups_forall₂ hok (P := fun _ _ => True) fun _ _ _ _ =>
    trivial
  have hlength : (numberPages (pageGroups gauge vars document)).length =
      (pages document).length := by
    rw [length_numberPages, ← hforall.length_eq]
  rw [(layOut_of_ok hok).2.1, map_node_pages_regroup (allPages_numberPages hall) hlength.le,
    hlength, ← List.length_map, List.drop_length, List.append_nil]

/-- Each page that is shown was made when its section was cut, and shows its place among all
pages. -/
theorem exists_cutAfter_of_page {i : Nat} {p : Placed}
    (hp : (pages (layOut gauge vars document).document)[i]? = some p) :
    ∃ (k j : Nat) (q : Placed) (cut : Cut) (flow : List Node), (pages document)[k]? = some q ∧
      CutAfter gauge vars document ((pageGroups gauge vars document).take k) q.page cut ∧
      (pageGroups gauge vars document)[k]? = some (cut.flows.map (q.page.prepare vars).1.box) ∧
      cut.flows[j]? = some flow ∧
      i = ((pageGroups gauge vars document).take k).flatten.length + j ∧
      (pageGroups gauge vars document).flatten[i]? = some ((q.page.prepare vars).1.box flow) ∧
      p.page = Numbers.showOnPage ⟨1 + i, count⟩ ((q.page.prepare vars).1.page flow) := by
  obtain ⟨-, hlength, hcut⟩ := pageGroups_at hok
  have hnode : (numberPages (pageGroups gauge vars document)).flatten[i]? = some p.page.node := by
    rw [← map_node_pages_layOut hok, List.getElem?_map, hp, Option.map_some]
  rw [flatten_numberPages, List.getElem?_mapIdx, Option.map_eq_some_iff] at hnode
  obtain ⟨node, hi, hshown⟩ := hnode
  obtain ⟨k, j, group, hgroup, hj, hindex⟩ := exists_getElem?_of_flatten hi
  have hk : k < (pages document).length := hlength ▸ (List.getElem?_eq_some_iff.1 hgroup).1
  obtain ⟨cut, hafter, hmade⟩ := hcut k _ (List.getElem?_eq_getElem hk)
  obtain rfl := Option.some.inj (hgroup.symm.trans hmade)
  rw [List.getElem?_map, Option.map_eq_some_iff] at hj
  obtain ⟨flow, hflow, rfl⟩ := hj
  refine ⟨k, j, _, cut, flow, List.getElem?_eq_getElem hk, hafter, hgroup, hflow, hindex, hi, ?_⟩
  apply Section.node_inj
  rw [Numbers.node_showOnPage, Frame.node_page, ← hshown, (layOut_of_ok hok).2.2]

/-- Every page that is shown was made from a section and shows its place among all pages; what
holds of the flows of a section that is cut holds of its flow. -/
theorem page_layOut {P : Section → List Node → Prop}
    (hstep : ∀ groups s cut, CutAfter gauge vars document groups s cut →
      ∀ flow ∈ cut.flows, P s flow)
    {i : Nat} {p : Placed} (hp : (pages (layOut gauge vars document).document)[i]? = some p) :
    ∃ q ∈ pages document, ∃ flow, P q.page flow ∧
      (pageGroups gauge vars document).flatten[i]? = some ((q.page.prepare vars).1.box flow) ∧
      p.page = Numbers.showOnPage ⟨1 + i, count⟩ ((q.page.prepare vars).1.page flow) := by
  obtain ⟨k, j, q, cut, flow, hq, hafter, -, hflow, -, hbox, hpage⟩ :=
    exists_cutAfter_of_page hok hp
  exact ⟨q, List.mem_of_getElem? hq, flow,
    hstep _ _ cut hafter flow (List.mem_of_getElem? hflow), hbox, hpage⟩

/-- The pages of a document that was laid out do not lie inside each other. -/
theorem pageSections_layOut (hunnested : Unnested document) :
    pageSections (layOut gauge vars document).document =
      pages (layOut gauge vars document).document := by
  refine pageSections_eq_pages_of_inner fun p hp => ?_
  obtain ⟨i, hi⟩ := List.mem_iff_getElem?.1 hp
  obtain ⟨q, hq, flow, hflow, -, hpage⟩ := page_layOut hok
    (P := fun s flow => ∀ item ∈ flow, item ∈ flowItems (s.prepare vars).2)
    (fun _ _ _ hcut _ => hcut.mem_flowItems) hi
  have hinner : q.page.inner = [] := hunnested q (mem_pageSectionsFrom_of_mem_pagesFrom hq)
  have hmade := (q.page.prepare_madeFrom vars).inner_page hinner hflow
  rw [hpage, Section.inner_eq_nil_iff]
  exact (Filled.map fun node _ => Numbers.filled_showInBand _ node).clear hmade

end LayOut

end Folio.Paginate
