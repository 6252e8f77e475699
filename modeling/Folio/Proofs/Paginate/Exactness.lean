import Folio.Proofs.Paginate.Heights

/-!
Measuring pages without rounding. The room on a page and the height of its items do not depend on
where the page stands, while the positions that are compared do, and are rounded there. Where
rounding changes none of the comparisons, a section is cut as its heights and its room tell.
-/
namespace Folio.Paginate

open Decimal (Binary64)

mutual
/-- The height of a node outside of sections, nothing rounded, with the heights of a page and of a
line. -/
def exactHeight (page line : ℚ) : Node → ℚ
  | .text content => if content.all isBlank then 0 else line
  | .comment _ => 0
  | .element tag children =>
      if tag.isSection then page
      else (tag.height.map Binary64.toRat).getD (exactTotal page line children)

/-- The height of siblings that stand one below the other, nothing rounded. -/
def exactTotal (page line : ℚ) : List Node → ℚ
  | [] => 0
  | node :: rest => exactHeight page line node + exactTotal page line rest
end

theorem exactTotal_append (page line : ℚ) (left right : List Node) :
    exactTotal page line (left ++ right) =
      exactTotal page line left + exactTotal page line right := by
  induction left with
  | nil => simp [exactTotal]
  | cons node rest ih =>
      rw [List.cons_append, exactTotal, exactTotal, ih]
      ring

namespace Metrics

/-- The height of the items of a flow, nothing rounded. -/
def total (m : Metrics) (items : List Node) : ℚ :=
  exactTotal m.pageHeight.toRat m.lineHeight.toRat items

/-- The room for the items of a flow on a page of the frame, nothing rounded. -/
def room (m : Metrics) (f : Frame) : ℚ :=
  m.pageHeight.toRat - (side "top" f.body).toRat - (side "bottom" f.body).toRat -
    (leadingNumber m.padBottom).toRat - m.safeOffset.toRat - Settings.overflowBuffer -
    m.padTop.toRat - m.total f.bodyBefore

/-- The items are higher than the room for them. -/
def exceeds (m : Metrics) (f : Frame) (items : List Node) : Bool :=
  decide (m.room f < m.total items)

section Total

variable (m : Metrics)

theorem total_append (left right : List Node) :
    m.total (left ++ right) = m.total left + m.total right :=
  exactTotal_append _ _ left right

theorem total_nonneg {nodes : List Node} (hnodes : ∀ node ∈ nodes, 0 ≤ m.total [node]) :
    0 ≤ m.total nodes := by
  induction nodes with
  | nil => exact le_refl _
  | cons head rest ih =>
      obtain ⟨hhead, hrest⟩ := List.forall_mem_cons.1 hnodes
      rw [← List.singleton_append, total_append]
      exact add_nonneg hhead (ih hrest)

theorem total_singleton_nonneg {nodes : List Node} (hheights : m.Nonnegative nodes)
    (hsections : ∀ node ∈ allNodes nodes, ¬ node.isTagged Tag.isSection) :
    ∀ node ∈ nodes, 0 ≤ m.total [node] := by
  induction nodes using rowInduction with
  | nil => simp
  | element tag children rest ihChildren ihRest =>
      have hsection : tag.isSection = false := by
        simpa using hsections (.element tag children) (by simp)
      have hinner := ihChildren (hheights.mono fun node hnode => by simp [mem_allNodes_of_mem hnode])
        fun node hnode => hsections node (by simp [hnode])
      have hrest := ihRest (hheights.mono fun node hnode => by simp [mem_allNodes_of_mem hnode])
        fun node hnode => hsections node (by simp [hnode])
      refine List.forall_mem_cons.2 ⟨?_, hrest⟩
      rw [total, exactTotal, exactTotal, add_zero, exactHeight, hsection, if_neg Bool.false_ne_true]
      cases hgiven : tag.height with
      | none => exact m.total_nonneg hinner
      | some height =>
          exact Binary64.toRat_nonneg
            (hheights.given (.element tag children) (by simp) tag rfl height hgiven)
  | text content rest ih =>
      have hrest := ih (hheights.mono fun node hnode => by simp [mem_allNodes_of_mem hnode])
        fun node hnode => hsections node (by simp [hnode])
      refine List.forall_mem_cons.2 ⟨?_, hrest⟩
      rw [total, exactTotal, exactTotal, add_zero, exactHeight]
      split
      · exact le_refl _
      · exact Binary64.toRat_nonneg hheights.line
  | comment content rest ih =>
      have hrest := ih (hheights.mono fun node hnode => by simp [mem_allNodes_of_mem hnode])
        fun node hnode => hsections node (by simp [hnode])
      refine List.forall_mem_cons.2 ⟨?_, hrest⟩
      rw [total, exactTotal, exactTotal, add_zero, exactHeight]

/-- Items before others do not make them fit. -/
theorem exceeds_grow {f : Frame} {before group : List Node}
    (hgood : ∀ node ∈ before ++ group, 0 ≤ m.total [node]) (hover : m.exceeds f group) :
    m.exceeds f (before ++ group) := by
  have hbefore := m.total_nonneg (List.forall_mem_append.1 hgood).1
  rw [exceeds, decide_eq_true_eq] at hover ⊢
  rw [total_append]
  linarith

end Total

/-- The items of a section without sections below it have no negative height. -/
theorem total_nonneg_of_mem_flowItems {m : Metrics} {s : Section}
    (hsections : ∀ node ∈ allNodes s.children, ¬ node.isTagged Tag.isSection)
    (hheights : m.Nonnegative s.children) {f : Frame} {content : List Node}
    (h : f.MadeFrom content s) : ∀ item ∈ flowItems content, 0 ≤ m.total [item] := by
  intro item hitem
  exact m.total_singleton_nonneg (nonnegative_of_mem_flowItems hheights h hitem)
    (not_isSection_of_mem_flowItems hsections h hitem) item (by simp)

/-- On a page after `rank` sections, rounding changes no comparison of items that follow each
other. -/
def Faithful (m : Metrics) (rank : Nat) (f : Frame) (items : List Node) : Prop :=
  ∀ run, run <:+: items → run ≠ [] → m.overfull rank f run = m.exceeds f run

theorem faithful_iff {m : Metrics} {rank : Nat} {f : Frame} {items : List Node} :
    m.Faithful rank f items ↔ ∀ run ∈ items.tails.flatMap List.inits, run ≠ [] →
      m.overfull rank f run = m.exceeds f run := by
  refine forall_congr' fun run => imp_congr_left ?_
  simp [List.infix_iff_prefix_suffix, and_comm]

instance (m : Metrics) (rank : Nat) (f : Frame) (items : List Node) :
    Decidable (m.Faithful rank f items) :=
  decidable_of_iff _ faithful_iff.symm

/-- Where the pages of a section stand in the document that was laid out, rounding changes no
comparison of its items. -/
def FaithfulAt (m : Metrics) (document : List Node) (i : Nat) (s : Section) : Prop :=
  ∀ group, (pageGroups m.gauge m.vars document)[i]? = some group → ∀ j, j < group.length →
    m.Faithful (firstRank m.gauge m.vars document i + j) (s.prepare m.vars).1
      (flowItems s.flowContent)

instance (m : Metrics) (document : List Node) (i : Nat) (s : Section) :
    Decidable (m.FaithfulAt document i s) :=
  match h : (pageGroups m.gauge m.vars document)[i]? with
  | none => .isTrue fun group hgroup => by simp [h] at hgroup
  | some group => decidable_of_iff (∀ j < group.length,
      m.Faithful (firstRank m.gauge m.vars document i + j) (s.prepare m.vars).1
        (flowItems s.flowContent)) (by simp [FaithfulAt, h])

/-- Where rounding changes no comparison, a section is cut as its heights and its room tell. -/
theorem steps_of_faithfulAt {m : Metrics} {document : List Node} {i : Nat} {s : Section}
    {cut : Cut} (hsections : ∀ node ∈ allNodes s.children, ¬ node.isTagged Tag.isSection)
    (h : CutAfter m.gauge m.vars document ((pageGroups m.gauge m.vars document).take i) s cut)
    (hrank : firstRank m.gauge m.vars document i =
      nextRank document ((pageGroups m.gauge m.vars document).take i))
    (hgroup : (pageGroups m.gauge m.vars document)[i]? =
      some (cut.flows.map (s.prepare m.vars).1.box))
    (hfaithful : m.FaithfulAt document i s) :
    Cut.Steps (fun _ => m.exceeds (s.prepare m.vars).1) Cut.start (flowItems (s.prepare m.vars).2)
      cut := by
  refine Cut.steps_of_run ?_ (List.suffix_refl _) h.cut
  intro finished current item crossing hlast hplaced hcrosses
  have hfull := tells_overfull hsections h cut.finished.length finished current item crossing hlast
    hplaced hcrosses
  have hpage : finished.length < (cut.flows.map (s.prepare m.vars).1.box).length := by
    rw [List.length_map, Cut.flows, List.length_append, List.length_singleton]
    omega
  rw [← (s.prepare_madeFrom m.vars).content_eq] at hplaced
  rw [hfull, ← hrank]
  exact hfaithful _ hgroup _ hpage _ hplaced (by simp)

end Metrics

end Folio.Paginate
