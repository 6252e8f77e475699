import Mathlib.Data.List.Forall2
import Mathlib.Data.List.TakeWhile
import Folio.Paginate.Run
import Folio.Proofs.Paginate.Frames

/-!
Cutting the sections of a document, one after the other: nothing that a flow holds is lost or
comes twice, whatever is measured, and each section takes its own group of pages.
-/
namespace Folio.Paginate

/-- What stays of a node in the flows of the pages: an element itself, if it does not end a page;
a text that is not blank as an element around it. -/
def kept? : Node → Option Node
  | .element tag children => if tag.endsPage then none else some (.element tag children)
  | .text content =>
      if trimmed content = [] then none else some (.element textTag [.text content])
  | .comment _ => none

/-- What stays of the content of a flow, in order. -/
def kept (content : List Node) : List Node := content.filterMap kept?

/-- The marks are what ends a page. -/
def Node.isMark (node : Node) : Bool := node.isTagged Tag.endsPage

theorem dropWhile_isBlank_eq_nil_iff (s : Chars) : s.dropWhile isBlank = [] ↔ s.all isBlank := by
  rw [List.dropWhile_eq_nil_iff, List.all_eq_true]

theorem trimmed_eq_nil_iff (s : Chars) : trimmed s = [] ↔ s.all isBlank := by
  rw [trimmed, Text.dropEnd, List.reverse_eq_nil_iff, dropWhile_isBlank_eq_nil_iff,
    List.all_reverse]
  constructor
  · intro hall
    rw [← dropWhile_isBlank_eq_nil_iff]
    by_contra hne
    have hhead := List.head_dropWhile_not isBlank hne
    rw [List.all_eq_true] at hall
    rw [hall _ (List.head_mem hne)] at hhead
    exact absurd hhead (by simp)
  · intro hall
    rw [(dropWhile_isBlank_eq_nil_iff s).2 hall]
    rfl

/-- The items of a flow without the marks are what is kept of it. -/
theorem filter_flowItems (content : List Node) :
    (flowItems content).filter (fun item => !item.isMark) = kept content := by
  induction content with
  | nil => rfl
  | cons node rest ih =>
      cases node with
      | element tag children =>
          by_cases hmark : tag.endsPage <;>
            simpa [flowItems, kept, item?, kept?, Node.isMark, hmark] using ih
      | text s =>
          have htag : textTag.endsPage = false := by decide
          by_cases hblank : trimmed s = []
          · have hall := (trimmed_eq_nil_iff s).1 hblank
            simpa [flowItems, kept, item?, kept?, hblank, hall] using ih
          · have hall : s.all isBlank = false := by
              rw [trimmed_eq_nil_iff] at hblank
              simpa using hblank
            simpa [flowItems, kept, item?, kept?, Node.isMark, hblank, hall, htag] using ih
      | comment s => simpa [flowItems, kept, item?, kept?, List.filterMap_cons] using ih

namespace Cut

/-- A run that does not fail ends the page at a mark, and else places the item: on the next page,
if it crosses the limit of the page under way. -/
theorem run_cons {crosses : List (List Node) → Except Fault Bool} {item : Node}
    {rest : List Node} {c cut : Cut} (hrun : c.run crosses (item :: rest) = (cut, none)) :
    (item.isMark ∧ c.turn.run crosses rest = (cut, none)) ∨
      (¬ item.isMark ∧ crosses (c.push item).flows = .ok true ∧
        (c.turn.push item).run crosses rest = (cut, none)) ∨
      (¬ item.isMark ∧ crosses (c.push item).flows = .ok false ∧
        (c.push item).run crosses rest = (cut, none)) := by
  rw [Node.isMark]
  by_cases hmark : item.isTagged Tag.endsPage
  · simp only [run, hmark, if_true] at hrun
    exact Or.inl ⟨hmark, hrun⟩
  · simp only [run, hmark, Bool.false_eq_true, if_false] at hrun
    cases hcross : crosses (c.push item).flows with
    | error fault => simp [hcross] at hrun
    | ok crossing =>
        rw [hcross] at hrun
        cases crossing with
        | true => exact Or.inr (Or.inl ⟨hmark, rfl, hrun⟩)
        | false => exact Or.inr (Or.inr ⟨hmark, rfl, hrun⟩)

/-- A run that does not fail places every item that is no mark, in order. -/
theorem flatten_flows_run {crosses : List (List Node) → Except Fault Bool} {items : List Node}
    {c cut : Cut} (hrun : c.run crosses items = (cut, none)) :
    cut.flows.flatten = c.flows.flatten ++ items.filter fun item => !item.isMark := by
  induction items generalizing c with
  | nil =>
      simp only [run, Prod.mk.injEq, and_true] at hrun
      simp [hrun]
  | cons item rest ih =>
      rcases run_cons hrun with ⟨hmark, hrest⟩ | ⟨hmark, -, hrest⟩ | ⟨hmark, -, hrest⟩
      · rw [ih hrest, flatten_flows_turn]
        simp [hmark]
      · rw [ih hrest, flatten_flows_push, flatten_flows_turn]
        simp [hmark]
      · rw [ih hrest, flatten_flows_push]
        simp [hmark]

theorem length_flows_pos (c : Cut) : 0 < c.flows.length := by
  simp [flows]

theorem current_turn (c : Cut) : c.turn.current = [] := by
  unfold turn
  split
  · rename_i hempty
    exact List.isEmpty_iff.1 hempty
  · rfl

end Cut

/-- What the gauge tells of the last of some pages in a frame, in the document with the pages of
the sections before in the groups. -/
def measuring (gauge : Gauge) (document : List Node) (groups : List (List Node)) (f : Frame)
    (flows : List (List Node)) : Except Fault Bool :=
  gauge (regroup (groups ++ [flows.map f.box]) document) (groups.flatten.length + flows.length - 1)

/-- How one section is cut when the sections before it have become the groups. -/
def cutSection (gauge : Gauge) (vars : Properties) (document : List Node)
    (groups : List (List Node)) (s : Section) : Cut × Option Fault :=
  Cut.start.run (measuring gauge document groups (s.prepare vars).1) (flowItems (s.prepare vars).2)

/-- A page section of the document is cut when those before it have become the groups. -/
structure CutAfter (gauge : Gauge) (vars : Properties) (document : List Node)
    (groups : List (List Node)) (s : Section) (cut : Cut) : Prop where
  allPages : AllPages groups
  length : groups.length < (pages document).length
  isPage : s.tag.isPage
  mem : s.node ∈ allNodes document
  cut : cutSection gauge vars document groups s = (cut, none)

/-- Only what a section holds goes to the flows of its pages. -/
theorem CutAfter.mem_flowItems {gauge : Gauge} {vars : Properties} {document : List Node}
    {groups : List (List Node)} {s : Section} {cut : Cut}
    (h : CutAfter gauge vars document groups s cut) {flow : List Node}
    (hflow : flow ∈ cut.flows) : ∀ item ∈ flow, item ∈ flowItems (s.prepare vars).2 := by
  intro item hitem
  have hplaced : item ∈ cut.flows.flatten := List.mem_flatten.2 ⟨flow, hflow, hitem⟩
  rw [Cut.flatten_flows_run h.cut] at hplaced
  simp only [Cut.start, Cut.flows, List.nil_append, List.flatten_cons, List.flatten_nil,
    List.append_nil] at hplaced
  exact (List.mem_filter.1 hplaced).1

theorem cutSections_cons (gauge : Gauge) (vars : Properties) (document : List Node)
    (groups : List (List Node)) (s : Section) (rest : List Section) :
    cutSections gauge vars document groups (s :: rest) =
      match cutSection gauge vars document groups s with
      | (cut, some fault) => (groups ++ [cut.flows.map (s.prepare vars).1.box], some fault)
      | (cut, none) =>
          cutSections gauge vars document (groups ++ [cut.flows.map (s.prepare vars).1.box])
            rest := by
  rcases hprepare : s.prepare vars with ⟨frame, content⟩
  have hmeasuring : measuring gauge document groups frame = fun flows =>
      gauge (regroup (groups ++ [flows.map frame.box]) document)
        (groups.flatten.length + flows.length - 1) := rfl
  simp only [cutSections, cutSection, hprepare, hmeasuring]
  generalize Cut.start.run _ _ = result
  obtain ⟨cut, _ | fault⟩ := result <;> rfl

theorem allPages_cons {group : List Node} {groups : List (List Node)} :
    AllPages (group :: groups) ↔ (∀ node ∈ group, node.isTagged Tag.isPage) ∧ AllPages groups :=
  List.forall_mem_cons

theorem allPages_append {left right : List (List Node)} :
    AllPages (left ++ right) ↔ AllPages left ∧ AllPages right := by
  simp [AllPages, or_imp, forall_and]

theorem allPages_box (vars : Properties) {s : Section} (hs : s.tag.isPage)
    (flows : List (List Node)) : AllPages [flows.map (s.prepare vars).1.box] := by
  intro group hgroup node hnode
  rw [List.mem_singleton] at hgroup
  subst hgroup
  obtain ⟨items, -, rfl⟩ := List.mem_map.1 hnode
  exact (s.prepare_madeFrom vars).isPage hs

/-- Every section is cut when those before it have become their groups, and becomes the next
group. -/
theorem cutSections_at {gauge : Gauge} {vars : Properties} {document : List Node}
    {sections : List Section}
    (hsections : ∀ s ∈ sections, s.tag.isPage ∧ s.node ∈ allNodes document)
    {groups result : List (List Node)} (hgroups : AllPages groups)
    (hlength : groups.length + sections.length ≤ (pages document).length)
    (hcut : cutSections gauge vars document groups sections = (result, none)) :
    ∃ made, result = groups ++ made ∧ AllPages made ∧ made.length = sections.length ∧
      ∀ (i : Nat) (s : Section), sections[i]? = some s → ∃ cut : Cut,
        CutAfter gauge vars document (groups ++ made.take i) s cut ∧
          made[i]? = some (cut.flows.map (s.prepare vars).1.box) := by
  induction sections generalizing groups with
  | nil =>
      simp only [cutSections, Prod.mk.injEq, and_true] at hcut
      exact ⟨[], by simp [hcut], by simp [AllPages], rfl, by simp⟩
  | cons s rest ih =>
      have hs := hsections s List.mem_cons_self
      have hrest := fun t ht => hsections t (List.mem_cons_of_mem s ht)
      rw [cutSections_cons] at hcut
      cases hone : cutSection gauge vars document groups s with
      | mk cut fault =>
          cases fault with
          | some fault => simp [hone] at hcut
          | none =>
              simp only [hone] at hcut
              rw [List.length_cons] at hlength
              have hbox := allPages_box vars hs.1 cut.flows
              obtain ⟨made, rfl, hmade, hcount, hall⟩ := ih hrest
                (allPages_append.2 ⟨hgroups, hbox⟩)
                (by rw [List.length_append, List.length_singleton]; omega) hcut
              refine ⟨cut.flows.map (s.prepare vars).1.box :: made, by simp,
                allPages_append.2 ⟨hbox, hmade⟩, by simp [hcount], fun i t ht => ?_⟩
              cases i with
              | zero =>
                  obtain rfl := Option.some.inj ht
                  rw [List.take_zero, List.append_nil]
                  exact ⟨cut, ⟨hgroups, by omega, hs.1, hs.2, hone⟩, rfl⟩
              | succ i =>
                  obtain ⟨other, hother, hgroup⟩ := hall i t ht
                  rw [List.append_assoc, List.singleton_append] at hother
                  exact ⟨other, hother, hgroup⟩

/-- The pages that the sections of a document become, before they are numbered: one group for each
section, in document order. -/
def pageGroups (gauge : Gauge) (vars : Properties) (document : List Node) : List (List Node) :=
  (cutSections gauge vars document [] ((pages document).map Placed.page)).1

/-- A layout that does not fail has cut all sections, and shows their pages with numbers. -/
theorem layOut_of_ok {gauge : Gauge} {vars : Properties} {document : List Node} {count : Nat}
    (hok : (layOut gauge vars document).outcome = .ok count) :
    cutSections gauge vars document [] ((pages document).map Placed.page) =
        (pageGroups gauge vars document, none) ∧
      (layOut gauge vars document).document =
        regroup (numberPages (pageGroups gauge vars document)) document ∧
      count = (pageGroups gauge vars document).flatten.length := by
  unfold layOut pageGroups at *
  cases hcut : cutSections gauge vars document [] ((pages document).map Placed.page) with
  | mk groups fault =>
      cases fault with
      | some fault => simp [hcut] at hok
      | none =>
          simp only [hcut, Except.ok.injEq] at hok
          exact ⟨rfl, rfl, hok.symm⟩

/-- Each section of a document that was laid out was cut when those before it had become their
groups, and has become its own group. -/
theorem pageGroups_at {gauge : Gauge} {vars : Properties} {document : List Node} {count : Nat}
    (hok : (layOut gauge vars document).outcome = .ok count) :
    AllPages (pageGroups gauge vars document) ∧
      (pageGroups gauge vars document).length = (pages document).length ∧
      ∀ (i : Nat) (p : Placed), (pages document)[i]? = some p → ∃ cut : Cut,
        CutAfter gauge vars document ((pageGroups gauge vars document).take i) p.page cut ∧
          (pageGroups gauge vars document)[i]? =
            some (cut.flows.map (p.page.prepare vars).1.box) := by
  have hpages : ∀ s ∈ (pages document).map Placed.page,
      s.tag.isPage ∧ s.node ∈ allNodes document := by
    intro s hs
    obtain ⟨p, hp, rfl⟩ := List.mem_map.1 hs
    exact mem_pagesFrom hp
  obtain ⟨made, hmade, hall, hlength, hcut⟩ :=
    cutSections_at hpages (by simp [AllPages]) (by simp) (layOut_of_ok hok).1
  rw [List.nil_append] at hmade
  rw [List.length_map] at hlength
  rw [hmade]
  refine ⟨hall, hlength, fun i p hp => hcut i p.page ?_⟩
  rw [List.getElem?_map, hp, Option.map_some]

/-- What holds of every section that is cut holds of all sections of a document that was laid
out, and the groups that they have become. -/
theorem pageGroups_forall₂ {gauge : Gauge} {vars : Properties} {document : List Node}
    {count : Nat} (hok : (layOut gauge vars document).outcome = .ok count)
    {P : Section → List Node → Prop}
    (hstep : ∀ groups s cut, CutAfter gauge vars document groups s cut →
      P s (cut.flows.map (s.prepare vars).1.box)) :
    AllPages (pageGroups gauge vars document) ∧
      List.Forall₂ (fun p group => P p.page group) (pages document)
        (pageGroups gauge vars document) := by
  obtain ⟨hall, hlength, hcut⟩ := pageGroups_at hok
  refine ⟨hall, List.forall₂_iff_get.2 ⟨hlength.symm, fun i hi hi' => ?_⟩⟩
  obtain ⟨cut, hafter, hgroup⟩ := hcut i _ (List.getElem?_eq_getElem hi)
  rw [List.getElem?_eq_getElem hi', Option.some.injEq] at hgroup
  rw [List.get_eq_getElem, List.get_eq_getElem, hgroup]
  exact hstep _ _ _ hafter

/-- Every group has become of some section. -/
theorem exists_of_mem_pageGroups {gauge : Gauge} {vars : Properties} {document : List Node}
    {count : Nat} (hok : (layOut gauge vars document).outcome = .ok count)
    {P : Section → List Node → Prop}
    (hstep : ∀ groups s cut, CutAfter gauge vars document groups s cut →
      P s (cut.flows.map (s.prepare vars).1.box)) :
    ∀ group ∈ pageGroups gauge vars document, ∃ q ∈ pages document, P q.page group := by
  have hforall := (pageGroups_forall₂ hok hstep).2
  intro group hgroup
  obtain ⟨i, hi, rfl⟩ := List.mem_iff_getElem.1 hgroup
  have hi' : i < (pages document).length := hforall.length_eq ▸ hi
  exact ⟨_, List.get_mem _ ⟨i, hi'⟩, hforall.get hi' hi⟩

end Folio.Paginate
