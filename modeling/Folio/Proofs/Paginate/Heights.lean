import Folio.Proofs.Decimal.Order
import Folio.Proofs.Paginate.Greedy
import Folio.Proofs.Paginate.Ranks
import Folio.Proofs.Paginate.Recast

/-!
Measuring pages by the box model. Where an item ends is a sum that is rounded at each of its terms,
from the top of its page on; with heights that are not negative it grows all the same with every
item. So what is too much for a page is too much for it with more items around it, on that page.
-/
namespace Folio.Paginate

open Decimal (Binary64)

/-- The body of a page and the flow in it, each with what is around it. -/
def Section.flow? (s : Section) : Option (Split × Split) :=
  (split? Tag.isBody s.children).bind fun b => (split? Tag.isFlow b.children).map fun w => (b, w)

theorem Section.flowContent_of_flow? {s : Section} {b w : Split} (h : s.flow? = some (b, w)) :
    s.flowContent = w.children := by
  obtain ⟨c, hc, hmap⟩ := Option.bind_eq_some_iff.1 h
  obtain ⟨d, hd, heq⟩ := Option.map_eq_some_iff.1 hmap
  simp only [Prod.mk.injEq] at heq
  obtain ⟨rfl, rfl⟩ := heq
  simp [flowContent, hc, hd]

/-- The flow of a frame with the items, and what is around it in the body. -/
def Frame.flowSplit (f : Frame) (items : List Node) : Split :=
  ⟨f.bodyBefore, f.flow, items, f.bodyAfter⟩

/-- The page has the body of the frame, and in its flow these items. -/
def Frame.Shows (f : Frame) (items : List Node) (s : Section) : Prop :=
  ∃ b, s.flow? = some (b, f.flowSplit items) ∧ b.tag = f.body

theorem Frame.MadeFrom.shows_page {f : Frame} {content : List Node} {s : Section}
    (h : f.MadeFrom content s) (items : List Node) : f.Shows items (f.page items) := by
  refine ⟨⟨f.before, f.body, f.bodyBefore ++ .element f.flow items :: f.bodyAfter, f.after⟩,
    ?_, rfl⟩
  simp [Section.flow?, Frame.flowSplit, h.split?_page, h.split?_body]

namespace Metrics

/-- The item that follows `before` in the flow of the page ends beyond the limit of the page. -/
def Beyond (m : Metrics) (p : Placed) (before : List Node) (item : Node) : Prop :=
  ∃ b w, p.page.flow? = some (b, w) ∧
    m.limit p.rank b.tag < m.itemBottom p.rank b.tag w before item

/-- No item in the flow of the page ends beyond the limit of the page. -/
def Fits (m : Metrics) (p : Placed) : Prop :=
  ∃ b w, p.page.flow? = some (b, w) ∧ ∀ before item after, w.children = before ++ item :: after →
    ¬ m.limit p.rank b.tag < m.itemBottom p.rank b.tag w before item

/-- No height that is given to a line or to an element is negative. -/
structure Nonnegative (m : Metrics) (nodes : List Node) : Prop where
  line : 0 ≤ m.lineHeight
  given : ∀ node ∈ allNodes nodes, ∀ tag, node.tag? = some tag →
    ∀ height, tag.height = some height → 0 ≤ height

theorem nonnegative_iff {m : Metrics} {nodes : List Node} :
    m.Nonnegative nodes ↔ 0 ≤ m.lineHeight ∧
      ∀ node ∈ allNodes nodes, (node.tag?.bind Tag.height).all (0 ≤ ·) := by
  constructor
  · intro h
    refine ⟨h.line, fun node hnode => ?_⟩
    rw [Option.all_eq_true]
    intro height hheight
    obtain ⟨tag, htag, hown⟩ := Option.bind_eq_some_iff.1 hheight
    exact decide_eq_true (h.given node hnode tag htag height hown)
  · rintro ⟨hline, hall⟩
    refine ⟨hline, fun node hnode tag htag height hheight => ?_⟩
    have hown := hall node hnode
    rw [htag, Option.bind_some, hheight] at hown
    exact of_decide_eq_true hown

instance (m : Metrics) (nodes : List Node) : Decidable (m.Nonnegative nodes) :=
  decidable_of_iff _ nonnegative_iff.symm

theorem Nonnegative.mono {m : Metrics} {smaller larger : List Node}
    (hheights : m.Nonnegative larger) (hsub : ∀ node ∈ smaller, node ∈ allNodes larger) :
    m.Nonnegative smaller :=
  ⟨hheights.line, fun node hnode => hheights.given node (allNodes_subset hsub node hnode)⟩

/-- An item that is measured by itself. -/
structure Solid (m : Metrics) (item : Node) : Prop where
  notSection : ¬ item.isTagged Tag.isSection
  height : 0 ≤ m.height false item

/-- Where the items of a flow begin, on a page after `rank` sections. -/
def flowStart (m : Metrics) (rank : Nat) (f : Frame) : Binary64 :=
  m.below false (m.bodyTop rank f.body + m.padTop) f.bodyBefore

/-- The items are too much for a page of the frame after `rank` sections: they end beyond its
limit. -/
def overfull (m : Metrics) (rank : Nat) (f : Frame) (items : List Node) : Bool :=
  decide (m.limit rank f.body < m.below false (m.flowStart rank f) items)

section Below

variable (m : Metrics)

/-- Heights depend on those of a page and of a line, and on what is given to elements. -/
theorem below_congr {m n : Metrics} (hpage : n.pageHeight = m.pageHeight)
    (hline : n.lineHeight = m.lineHeight) (inSection : Bool) (y : Binary64) (nodes : List Node) :
    n.below inSection y nodes = m.below inSection y nodes := by
  induction nodes using rowInduction generalizing inSection y with
  | nil => simp [below]
  | element tag children rest ihChildren ihRest =>
      simp only [below, height, bodyHeight, hpage, ihChildren, ihRest]
  | text content rest ih => simp only [below, height, hline, ih]
  | comment content rest ih => simp only [below, height, ih]

theorem below_append (inSection : Bool) (y : Binary64) (left right : List Node) :
    m.below inSection y (left ++ right) = m.below inSection (m.below inSection y left) right := by
  induction left generalizing y with
  | nil => simp [below]
  | cons node rest ih => simp [below, ih]

theorem below_nonneg {y : Binary64} (hy : 0 ≤ y) {nodes : List Node}
    (hnodes : ∀ node ∈ nodes, 0 ≤ m.height false node) : 0 ≤ m.below false y nodes := by
  induction nodes generalizing y with
  | nil => simpa [below] using hy
  | cons node rest ih =>
      obtain ⟨hnode, hrest⟩ := List.forall_mem_cons.1 hnodes
      rw [below]
      exact ih (Binary64.nonneg_add hy hnode) hrest

theorem below_isRounded {y : Binary64} (hy : y.IsRounded) (inSection : Bool) (nodes : List Node) :
    (m.below inSection y nodes).IsRounded := by
  induction nodes generalizing y with
  | nil => simpa [below] using hy
  | cons node rest ih =>
      rw [below]
      exact ih (Binary64.isRounded_add _ _)

/-- What is not negative adds to where the siblings end. -/
theorem upper_le_below {y : Binary64} (hy : y.IsRounded) {nodes : List Node}
    (hnodes : ∀ node ∈ nodes, 0 ≤ m.height false node) : y.upper ≤ (m.below false y nodes).upper := by
  induction nodes generalizing y with
  | nil => simp [below]
  | cons node rest ih =>
      obtain ⟨hnode, hrest⟩ := List.forall_mem_cons.1 hnodes
      rw [below]
      exact (Binary64.upper_le_add hy hnode).trans (ih (Binary64.isRounded_add _ _) hrest)

/-- Siblings that begin further down end further down. -/
theorem upper_below_mono {x y : Binary64} (h : x.upper ≤ y.upper) {nodes : List Node}
    (hnodes : ∀ node ∈ nodes, 0 ≤ m.height false node) :
    (m.below false x nodes).upper ≤ (m.below false y nodes).upper := by
  induction nodes generalizing x y with
  | nil => simpa [below] using h
  | cons node rest ih =>
      obtain ⟨hnode, hrest⟩ := List.forall_mem_cons.1 hnodes
      rw [below, below]
      exact ih (Binary64.upper_add_le_add hnode h) hrest

theorem height_nonneg {nodes : List Node} (hheights : m.Nonnegative nodes)
    (hsections : ∀ node ∈ allNodes nodes, ¬ node.isTagged Tag.isSection) :
    ∀ node ∈ nodes, 0 ≤ m.height false node := by
  induction nodes using rowInduction with
  | nil => simp
  | element tag children rest ihChildren ihRest =>
      have hsection : tag.isSection = false := by
        simpa using hsections (.element tag children) (by simp)
      have hinner := ihChildren (hheights.mono fun node hnode => by simp [mem_allNodes_of_mem hnode])
        fun node hnode => hsections node (by simp [hnode])
      have hrest := ihRest (hheights.mono fun node hnode => by simp [mem_allNodes_of_mem hnode])
        fun node hnode => hsections node (by simp [hnode])
      refine List.forall_mem_cons.2 ⟨?_, hrest⟩
      rw [height, hsection, if_neg Bool.false_ne_true, Bool.false_and, if_neg Bool.false_ne_true]
      cases hgiven : tag.height with
      | none => exact m.below_nonneg Binary64.nonneg_zero hinner
      | some height => exact hheights.given (.element tag children) (by simp) tag rfl height hgiven
  | text content rest ih =>
      have hrest := ih (hheights.mono fun node hnode => by simp [mem_allNodes_of_mem hnode])
        fun node hnode => hsections node (by simp [hnode])
      refine List.forall_mem_cons.2 ⟨?_, hrest⟩
      rw [height]
      split
      · exact Binary64.nonneg_zero
      · exact hheights.line
  | comment content rest ih =>
      have hrest := ih (hheights.mono fun node hnode => by simp [mem_allNodes_of_mem hnode])
        fun node hnode => hsections node (by simp [hnode])
      refine List.forall_mem_cons.2 ⟨?_, hrest⟩
      rw [height]
      exact Binary64.nonneg_zero

/-- What is added around items does not make them fit on the page. -/
theorem overfull_grow (rank : Nat) (f : Frame) (left group right : List Node)
    (hgood : ∀ node ∈ left ++ group ++ right, m.Solid node) (hover : m.overfull rank f group) :
    m.overfull rank f (left ++ group ++ right) := by
  rw [overfull, decide_eq_true_eq, Binary64.lt_iff] at hover ⊢
  obtain ⟨hfirst, hlast⟩ := List.forall_mem_append.1 hgood
  obtain ⟨hbefore, hgroup⟩ := List.forall_mem_append.1 hfirst
  have hstart : (m.flowStart rank f).IsRounded :=
    m.below_isRounded (Binary64.isRounded_add _ _) _ _
  have hleft := m.upper_le_below hstart fun node hnode => (hbefore node hnode).height
  have hbegun := m.upper_below_mono hleft fun node hnode => (hgroup node hnode).height
  have hright := m.upper_le_below
    (m.below_isRounded (m.below_isRounded hstart false left) false group)
    fun node hnode => (hlast node hnode).height
  rw [below_append, below_append]
  exact hover.trans_le (hbegun.trans hright)

end Below

section Page

variable {m : Metrics} {f : Frame} (hflow : f.flow.isSection = false)
include hflow

/-- An item ends beyond the limit if the items up to it are too much for the page. -/
theorem limit_lt_itemBottom_iff (rank : Nat) (items before : List Node) {item : Node}
    (hitem : ¬ item.isTagged Tag.isSection) :
    m.limit rank f.body < m.itemBottom rank f.body (f.flowSplit items) before item ↔
      m.overfull rank f (before ++ [item]) := by
  have hbottom : m.itemBottom rank f.body (f.flowSplit items) before item =
      m.below false (m.flowStart rank f) (before ++ [item]) := by
    rw [below_append, below, below]
    cases item with
    | element tag children =>
        have htag : tag.isSection = false := by simpa using hitem
        simp only [itemBottom, flowTop, flowStart, top, Frame.flowSplit, hflow, htag,
          Bool.false_and, Bool.false_eq_true, if_false]
    | text content =>
        simp only [itemBottom, flowTop, flowStart, top, Frame.flowSplit, hflow, Bool.false_and,
          Bool.false_eq_true, if_false]
    | comment content =>
        simp only [itemBottom, flowTop, flowStart, top, Frame.flowSplit, hflow, Bool.false_and,
          Bool.false_eq_true, if_false]
  rw [overfull, decide_eq_true_eq, hbottom]

theorem beyond_iff {items : List Node} {s : Section} (hshows : f.Shows items s) (rank : Nat)
    (before : List Node) {item : Node} (hitem : ¬ item.isTagged Tag.isSection) :
    m.Beyond ⟨rank, s⟩ before item ↔ m.overfull rank f (before ++ [item]) := by
  obtain ⟨b, hsplit, hbody⟩ := hshows
  rw [← limit_lt_itemBottom_iff hflow rank items before hitem, ← hbody]
  constructor
  · rintro ⟨b', w, hsplit', hlimit⟩
    rw [hsplit, Option.some.injEq, Prod.mk.injEq] at hsplit'
    obtain ⟨rfl, rfl⟩ := hsplit'
    exact hlimit
  · intro hlimit
    exact ⟨b, f.flowSplit items, hsplit, hlimit⟩

/-- Items that are not too much for a page fit on it, and only such items do. -/
theorem fits_iff {items : List Node} (hne : items ≠ [])
    (hsolid : ∀ item ∈ items, m.Solid item) {s : Section} (hshows : f.Shows items s)
    (rank : Nat) :
    m.Fits ⟨rank, s⟩ ↔ m.overfull rank f items = false := by
  obtain ⟨b, hsplit, hbody⟩ := hshows
  constructor
  · rintro ⟨b', w, hsplit', hall⟩
    rw [hsplit, Option.some.injEq, Prod.mk.injEq] at hsplit'
    obtain ⟨rfl, rfl⟩ := hsplit'
    have hdecomp : items = items.dropLast ++ [items.getLast hne] :=
      (List.dropLast_append_getLast hne).symm
    have hlast := hall items.dropLast (items.getLast hne) [] hdecomp
    rw [hbody, limit_lt_itemBottom_iff hflow rank items items.dropLast
      (hsolid _ (List.getLast_mem hne)).notSection, ← hdecomp] at hlast
    simpa using hlast
  · intro hover
    refine ⟨b, f.flowSplit items, hsplit, fun before item after hdecomp => ?_⟩
    change items = before ++ item :: after at hdecomp
    have hitem := hsolid item (by simp [hdecomp])
    rw [hbody, limit_lt_itemBottom_iff hflow rank items before hitem.notSection]
    intro hbefore
    have hgrow := m.overfull_grow rank f [] (before ++ [item]) after
      (by simpa [hdecomp] using hsolid) hbefore
    rw [List.nil_append, List.append_assoc, List.singleton_append, ← hdecomp, hover] at hgrow
    contradiction

theorem crosses_eq_overfull {before : List Node} {item : Node}
    (hitem : ¬ item.isTagged Tag.isSection) {s : Section}
    (hshows : f.Shows (before ++ [item]) s) {rank : Nat} {crossing : Bool}
    (hcrosses : m.crosses ⟨rank, s⟩ = .ok crossing) :
    crossing = m.overfull rank f (before ++ [item]) := by
  obtain ⟨b, hsplit, hbody⟩ := hshows
  have hiff := limit_lt_itemBottom_iff (m := m) hflow rank (before ++ [item]) before hitem
  obtain ⟨c, hfirst, hmap⟩ := Option.bind_eq_some_iff.1 hsplit
  obtain ⟨w, hsecond, heq⟩ := Option.map_eq_some_iff.1 hmap
  rw [Prod.mk.injEq] at heq
  obtain ⟨rfl, hw⟩ := heq
  have hchildren : w.children = before ++ [item] := congrArg Split.children hw
  rw [← hw, ← hbody] at hiff
  simp only [crosses, hfirst, hsecond, hchildren, List.getLast?_append, List.getLast?_singleton,
    Option.some_or, List.dropLast_concat] at hcrosses
  cases hown : m.measured item.tag? with
  | error fault => simp [hown, bind, Except.bind] at hcrosses
  | ok own =>
      cases hbroken : m.measured (some c.tag) with
      | error fault => simp [hown, hbroken, bind, Except.bind] at hcrosses
      | ok body =>
          simp only [hown, hbroken, bind, Except.bind, pure, Except.pure,
            Except.ok.injEq] at hcrosses
          rw [← hcrosses, Bool.eq_iff_iff, decide_eq_true_eq]
          exact hiff

end Page

/-- The elements that are made have no height of their own. -/
theorem Nonnegative.recast {m : Metrics} {nodes made : List Node} (hheights : m.Nonnegative nodes)
    (hmade : Recast nodes made) : m.Nonnegative made := by
  refine ⟨hheights.line, fun node hnode tag htag height hheight => ?_⟩
  cases node with
  | element own inner =>
      obtain rfl := Option.some.inj htag
      rcases hmade.element_before hnode with
        ⟨original, children, hmem, hstyle, -⟩ | ⟨original, hnew, hstyle⟩
      · rw [hstyle.apply_eq (p := Tag.height) fun _ _ => rfl] at hheight
        exact hheights.given _ hmem original rfl height hheight
      · have hnone : ∀ tag ∈ madeTags, tag.height = none := by decide
        rw [hstyle.apply_eq (p := Tag.height) fun _ _ => rfl, hnone original hnew] at hheight
        contradiction
  | text content => contradiction
  | comment content => contradiction

/-- The items of a section have no negative height if nothing in it has. -/
theorem nonnegative_of_mem_flowItems {m : Metrics} {s : Section}
    (hheights : m.Nonnegative s.children) {f : Frame} {content : List Node} (h : f.MadeFrom content s)
    {item : Node} (hitem : item ∈ flowItems content) : m.Nonnegative [item] := by
  have hgiven : m.Nonnegative (f.page [item]).children :=
    hheights.recast (h.recast_page (by simpa using hitem))
  have hflow : .element f.flow [item] ∈ allNodes (f.page [item]).children := by simp [Frame.page]
  exact hgiven.mono fun node hnode => mem_allNodes_of_element hflow (mem_allNodes_of_mem hnode)

section Cutting

variable {m : Metrics} {s : Section}
  (hsections : ∀ node ∈ allNodes s.children, ¬ node.isTagged Tag.isSection)
include hsections

/-- No section stands below a page that is made from a section without one. -/
theorem none_isSection_page {f : Frame} {content : List Node} (h : f.MadeFrom content s)
    {items : List Node} (hitems : ∀ item ∈ items, item ∈ flowItems content) :
    ∀ node ∈ allNodes (f.page items).children, ¬ node.isTagged Tag.isSection :=
  (h.recast_page hitems).none_of_none ⟨fun _ _ => rfl, by decide⟩ hsections

theorem flow_isSection {f : Frame} {content : List Node} (h : f.MadeFrom content s) :
    f.flow.isSection = false := by
  have hnone : ∀ node ∈ allNodes (f.page []).children, ¬ node.isTagged Tag.isSection :=
    none_isSection_page hsections h (by simp)
  simpa using hnone (.element f.flow []) (by simp [Frame.page])

/-- No section stands in an item of a section without one. -/
theorem not_isSection_of_mem_flowItems {f : Frame} {content : List Node}
    (h : f.MadeFrom content s) {item : Node} (hitem : item ∈ flowItems content) :
    ∀ node ∈ allNodes [item], ¬ node.isTagged Tag.isSection := by
  intro node hnode
  have hflow : .element f.flow [item] ∈ allNodes (f.page [item]).children := by simp [Frame.page]
  exact none_isSection_page hsections h (by simpa using hitem) node
    (mem_allNodes_of_element hflow hnode)

/-- The items of a section without sections below it are solid. -/
theorem solid_of_mem_flowItems (hheights : m.Nonnegative s.children) {f : Frame}
    {content : List Node} (h : f.MadeFrom content s) :
    ∀ item ∈ flowItems content, m.Solid item := by
  intro item hitem
  have hnone := not_isSection_of_mem_flowItems hsections h hitem
  exact ⟨hnone item (mem_allNodes_of_mem (by simp)),
    m.height_nonneg (nonnegative_of_mem_flowItems hheights h hitem) hnone item (by simp)⟩

/-- What is measured while a section is cut tells whether the flow of the page under way is too much
for it, where it will stand. -/
theorem tells_overfull {vars : Properties} {document : List Node} {groups : List (List Node)}
    {cut : Cut} (h : CutAfter m.gauge vars document groups s cut) (last : Nat) :
    Cut.Tells (measuring m.gauge document groups (s.prepare vars).1)
      (fun k => m.overfull (nextRank document groups + k) (s.prepare vars).1)
      (flowItems (s.prepare vars).2) last := by
  intro finished current item crossing _ hplaced hcrosses
  have hmade := s.prepare_madeFrom vars
  have hitem := not_isSection_of_mem_flowItems hsections hmade
    (hplaced.subset (List.mem_append_right current List.mem_cons_self)) item
    (mem_allNodes_of_mem (by simp))
  rw [measuring_gauge m (hmade.isPage h.isPage) h.allPages h.length] at hcrosses
  exact crosses_eq_overfull (flow_isSection hsections hmade) hitem (hmade.shows_page _) hcrosses

/-- A section is cut greedily, each page measured where it will stand. -/
theorem steps_of_cutAfter {vars : Properties} {document : List Node} {groups : List (List Node)}
    {cut : Cut} (h : CutAfter m.gauge vars document groups s cut) :
    Cut.Steps (fun k => m.overfull (nextRank document groups + k) (s.prepare vars).1) Cut.start
      (flowItems (s.prepare vars).2) cut :=
  Cut.steps_of_run (tells_overfull hsections h _) (List.suffix_refl _) h.cut

/-- A section is cut into the pages that have an item, each of them filled greedily where it will
stand. -/
theorem filled_of_cutAfter {vars : Properties} {document : List Node}
    {groups : List (List Node)} {cut : Cut} (h : CutAfter m.gauge vars document groups s cut) :
    cut.filled = cut.turn.finished ∧
      CutInto (GreedyAdmits fun k => m.overfull (nextRank document groups + k) (s.prepare vars).1) 0
        (flowItems (s.prepare vars).2) cut.turn.finished := by
  obtain ⟨made, hmade, hcut⟩ := (steps_of_cutAfter hsections h).cutInto (by simp [Cut.start])
    (by simp [Cut.start])
  simp only [Cut.start, List.nil_append] at hmade
  rw [Cut.start, List.nil_append, List.length_nil, ← hmade] at hcut
  exact ⟨Cut.filled_eq hcut.ne_nil_of_mem, hcut⟩

end Cutting

/-- Where no section is inside another one, what is below a section is measured by itself. -/
theorem below_of_apart {m : Metrics} {document : List Node} (hheights : m.Nonnegative document)
    (hsections : Apart Tag.isSection Tag.isSection document) {s : Section} (hpage : s.tag.isPage)
    (hmem : s.node ∈ allNodes document) :
    (∀ node ∈ allNodes s.children, ¬ node.isTagged Tag.isSection) ∧ m.Nonnegative s.children :=
  ⟨hsections s.tag s.children hmem (isSection_of_isPage hpage), hheights.mono fun _ hnode =>
    mem_allNodes_of_element hmem (mem_allNodes_of_mem hnode)⟩

/-- Pages of a hundred pixels. -/
def hundredHigh : Metrics := ⟨[], 100, 0, noHeight, 20, none⟩

/-- An item with a height of its own. -/
def block (height : Binary64) : Node := .element ⟨"p".runes, [], [], [], some height⟩ []

end Metrics

end Folio.Paginate
