import Folio.Proofs.Paginate.Conservation

/-!
Which pages of a section are blank. A section with items has no blank page but for the last one,
and that one only after a mark that ends the content: a mark ends the page under way as soon as
that page has an item, whether or not an item follows.
-/
namespace Folio.Paginate

/-- Nothing stands in the flow of the page. -/
def Node.isBlankPage (page : Node) : Bool := page.flowContent.isEmpty

/-- The last item in the flow of a section is a mark that ends a page. -/
def Section.endsWithMark (s : Section) : Bool := (flowItems s.flowContent).getLast?.any Node.isMark

/-- Which pages of a group are blank: the only page of a section without items, and otherwise no
page but the last one, which is blank if the section ends with a mark. -/
structure Section.BlankAtEnd (s : Section) (group : List Node) : Prop where
  single : kept s.flowContent = [] → group.map Node.isBlankPage = [true]
  last : kept s.flowContent ≠ [] → ∃ others : Nat,
    group.map Node.isBlankPage = List.replicate others false ++ [s.endsWithMark]

namespace Cut

/-- A cut in which no page is finished without an item. The page under way has none before the
first item and after a mark. -/
structure Sparing (c : Cut) (placed : List Node) : Prop where
  finished : ∀ flow ∈ c.finished, flow ≠ []
  current : c.current = [] ↔ ∀ item ∈ placed.getLast?, item.isMark
  untouched : (∀ item ∈ placed, item.isMark) → c.finished = []

namespace Sparing

variable {c cut : Cut} {placed items : List Node} {item : Node}

theorem start : Cut.start.Sparing [] := by
  constructor <;> simp [Cut.start]

/-- Before the first item there is nothing to finish. -/
theorem finished_turn (h : c.Sparing placed) :
    (∀ flow ∈ c.turn.finished, flow ≠ []) ∧
      ((∀ other ∈ placed, other.isMark) → c.turn.finished = []) := by
  by_cases hempty : c.current.isEmpty
  · simp only [turn, hempty, if_true]
    exact ⟨h.finished, h.untouched⟩
  · have hne : c.current ≠ [] := by simpa using hempty
    simp only [turn, hempty, Bool.false_eq_true, if_false]
    constructor
    · intro flow hflow
      rcases List.mem_append.1 hflow with hold | hnew
      · exact h.finished flow hold
      · rw [List.mem_singleton] at hnew
        exact hnew ▸ hne
    · intro hmarks
      apply absurd (h.current.2 _) hne
      intro other hother
      exact hmarks other (List.mem_of_getLast? hother)

theorem turn (h : c.Sparing placed) (hmark : item.isMark) : c.turn.Sparing (placed ++ [item]) := by
  refine ⟨h.finished_turn.1, ?_, ?_⟩
  · simp [current_turn, hmark]
  · intro hmarks
    apply h.finished_turn.2
    intro other hother
    exact hmarks other (List.mem_append_left _ hother)

theorem push (hfinished : ∀ flow ∈ c.finished, flow ≠ []) (hmark : ¬ item.isMark) :
    (c.push item).Sparing (placed ++ [item]) := by
  refine ⟨hfinished, ?_, ?_⟩
  · simp [Cut.push, hmark]
  · intro hmarks
    exact absurd (hmarks item (by simp)) hmark

theorem run {crosses : List (List Node) → Except Fault Bool} (h : c.Sparing placed)
    (hrun : c.run crosses items = (cut, none)) : cut.Sparing (placed ++ items) := by
  induction items generalizing c placed with
  | nil =>
      simp only [Cut.run, Prod.mk.injEq, and_true] at hrun
      simpa [← hrun] using h
  | cons item rest ih =>
      rw [List.append_cons]
      rcases run_cons hrun with ⟨hmark, hrest⟩ | ⟨hmark, -, hrest⟩ | ⟨hmark, -, hrest⟩
      · exact ih (h.turn hmark) hrest
      · exact ih (push h.finished_turn.1 hmark) hrest
      · exact ih (push h.finished hmark) hrest

/-- Every flow but the last one has an item. -/
theorem map_isEmpty_flows (h : c.Sparing placed) :
    c.flows.map List.isEmpty =
      List.replicate c.finished.length false ++ [placed.getLast?.all Node.isMark] := by
  have hfinished : c.finished.map List.isEmpty = List.replicate c.finished.length false := by
    apply List.eq_replicate_iff.2
    refine ⟨List.length_map _, fun blank hblank => ?_⟩
    obtain ⟨flow, hflow, rfl⟩ := List.mem_map.1 hblank
    simpa using h.finished flow hflow
  have hcurrent : c.current.isEmpty = placed.getLast?.all Node.isMark := by
    rw [Bool.eq_iff_iff, List.isEmpty_iff, h.current, Option.all_eq_true]
    rfl
  rw [flows, List.map_append, hfinished, List.map_singleton, hcurrent]

end Sparing

end Cut

/-- The pages of a cut, with any numbers, are blank where their flows are empty. -/
theorem map_isBlankPage_showOn {f : Frame} {content : List Node} {s : Section}
    (h : f.MadeFrom content s) (flows : List (List Node)) (number : Nat → Numbers) :
    ((flows.map f.box).mapIdx fun i page => (number i).showOn page).map Node.isBlankPage =
      flows.map List.isEmpty := by
  apply List.ext_getElem
  · simp
  · intro i hi hi'
    have hpage : ∀ items : List Node, (f.box items).flowContent = items := h.flowContent_page
    simp [Node.isBlankPage, Numbers.isEmpty_flowContent_showOn h, hpage]

/-- A section that was cut has no blank page but the last one. -/
theorem blankAtEnd_of_sparing (vars : Properties) (s : Section) {cut : Cut}
    (hcut : cut.Sparing (flowItems s.flowContent)) (number : Nat → Numbers) :
    s.BlankAtEnd ((cut.flows.map (s.prepare vars).1.box).mapIdx fun i page =>
      (number i).showOn page) := by
  have hblank := map_isBlankPage_showOn (s.prepare_madeFrom vars) cut.flows number
  rw [hcut.map_isEmpty_flows] at hblank
  constructor
  · intro hnone
    have hmarks : ∀ item ∈ flowItems s.flowContent, item.isMark := by
      intro item hitem
      by_contra hmark
      have hkept : item ∈ kept s.flowContent := by
        rw [← filter_flowItems]
        exact List.mem_filter.2 ⟨hitem, by simpa using hmark⟩
      rw [hnone] at hkept
      exact absurd hkept List.not_mem_nil
    have hlast : (flowItems s.flowContent).getLast?.all Node.isMark = true := by
      rw [Option.all_eq_true]
      intro item hitem
      exact hmarks item (List.mem_of_getLast? hitem)
    rw [hblank, hcut.untouched hmarks, hlast]
    rfl
  · intro hsome
    refine ⟨cut.finished.length, ?_⟩
    have hne : flowItems s.flowContent ≠ [] := by
      intro hnil
      apply hsome
      rw [← filter_flowItems, hnil]
      rfl
    rw [hblank, Section.endsWithMark, List.getLast?_eq_getLast_of_ne_nil hne]
    rfl

/-- In a document that was laid out a page is blank only where a section has no items, or at the
end of a section whose content ends with a mark; and there it is. -/
theorem blankAtEnd_of_layOut {gauge : Gauge} {vars : Properties} {document : List Node}
    {count : Nat} (hunnested : Unnested document)
    (hok : (layOut gauge vars document).outcome = .ok count) :
    (layOut gauge vars document).document =
        regroup (numberPages (pageGroups gauge vars document)) document ∧
      List.Forall₂ (fun p group => p.page.BlankAtEnd group) (pageSections document)
        (numberPages (pageGroups gauge vars document)) := by
  refine ⟨(layOut_of_ok hok).2.1, ?_⟩
  let P : Section → List Node → Prop := fun s group => ∃ cut : Cut,
    cut.Sparing (flowItems s.flowContent) ∧ group = cut.flows.map (s.prepare vars).1.box
  have hgroups := (pageGroups_forall₂ hok (P := P) fun groups s cut h => by
    refine ⟨cut, ?_, rfl⟩
    rw [(s.prepare_madeFrom vars).content_eq]
    exact Cut.Sparing.start.run h.cut).2
  rw [hunnested.pageSections_eq_pages, numberPages]
  refine (numbered_forall₂ hgroups _ 1).imp ?_
  rintro p shown ⟨group, start, ⟨cut, hcut, rfl⟩, rfl⟩
  exact blankAtEnd_of_sparing vars p.page hcut fun i => ⟨start + i, _⟩

/-- A mark that ends a page. -/
def pageEnd : Node := .element (.plain "hr".runes "forcePageEnd".runes) []

/-- Two items, each between two marks. -/
def itemsBetweenMarks : List Node :=
  onePage [.element Section.newBody
    [pageEnd, pageEnd, .text "first".runes, pageEnd, pageEnd, .text "second".runes, pageEnd]]

theorem blankAtEnd_of_layOut_itemsBetweenMarks :
    Unnested itemsBetweenMarks ∧
      (layOut (fun _ _ => .ok false) [] itemsBetweenMarks).outcome = .ok 3 ∧
      List.Forall₂ (fun p group => p.page.BlankAtEnd group) (pageSections itemsBetweenMarks)
        (numberPages (pageGroups (fun _ _ => .ok false) [] itemsBetweenMarks)) :=
  ⟨by decide, rfl, (blankAtEnd_of_layOut (by decide) rfl).2⟩

/-- An item and a mark after it. -/
def itemBeforeMark : List Node :=
  onePage [.element Section.newBody [.text "only".runes, pageEnd]]

/-- The mark after the last item of a section makes a blank page. -/
theorem not_layOut_never_blank :
    ¬ ∀ (gauge : Gauge) (vars : Properties) (document : List Node) (count : Nat),
      Unnested document → (layOut gauge vars document).outcome = .ok count →
        List.Forall₂ (fun p group => kept p.page.flowContent ≠ [] →
            ∀ page ∈ group, page.isBlankPage = false)
          (pageSections document) (numberPages (pageGroups gauge vars document)) := by
  intro h
  have hall := h (fun _ _ => .ok false) [] itemBeforeMark 2 (by decide) rfl
  revert hall
  decide

end Folio.Paginate
