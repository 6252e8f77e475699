import Folio.Proofs.Paginate.Behind
import Folio.Proofs.Paginate.Locality

/-!
More space kept free above the end of a page moves no item to an earlier page of its section, as
long as the pages of the section begin at the same place or rounding changes no comparison of its
items. The pages of the two layouts begin at different items, but the one with more room falls
behind the other one.
-/
namespace Folio.Paginate

open Decimal (Binary64)

namespace Metrics

/-- The measures are the same, but for a property of the root: more space is kept free above the
end of a body. -/
structure TightenedTo (m n : Metrics) : Prop where
  measures : ∃ vars, n = { m with vars }
  others : ∀ name, name ≠ "--safe-bottom-offset".runes → n.vars.lookup name = m.vars.lookup name
  offset : m.safeOffset ≤ n.safeOffset

namespace TightenedTo

variable {m n : Metrics}

/-- What is too much for a page is so with less room too. -/
theorem overfull (h : m.TightenedTo n) {rank : Nat} {f : Frame} {items : List Node}
    (hover : m.overfull rank f items) : n.overfull rank f items := by
  have hoffset := h.offset
  obtain ⟨vars, rfl⟩ := h.measures
  have hbelow := below_congr (m := m) (n := { m with vars }) rfl rfl false
  rw [Metrics.overfull, decide_eq_true_eq, Binary64.lt_iff] at hover ⊢
  rw [flowStart, hbelow, hbelow]
  refine lt_of_le_of_lt ?_ hover
  exact Binary64.lower_sub_le_sub_right (by decide) (Binary64.lower_sub_le_sub_left hoffset _)

/-- Items that are higher than the room for them are so with less room too. -/
theorem exceeds (h : m.TightenedTo n) (hfinite : m.safeOffset.isFinite ∧ n.safeOffset.isFinite)
    {f : Frame} {items : List Node} (hover : m.exceeds f items) : n.exceeds f items := by
  have hoffset := Binary64.toRat_le_toRat hfinite.1 hfinite.2 h.offset
  obtain ⟨vars, rfl⟩ := h.measures
  rw [Metrics.exceeds, decide_eq_true_eq, room] at hover ⊢
  change m.pageHeight.toRat - _ - _ - (leadingNumber m.padBottom).toRat -
    (safeOffset { m with vars }).toRat - _ - m.padTop.toRat - m.total f.bodyBefore < m.total items
  linarith

/-- The pages of a section have the same frame. -/
theorem prepare_eq (h : m.TightenedTo n) (s : Section) : s.prepare n.vars = s.prepare m.vars :=
  s.prepare_congr (h.others _ (by decide)) (h.others _ (by decide))

end TightenedTo

variable {m n : Metrics} {document : List Node}

/-- When more space is kept free above the end of each body, no item of a section comes to stand on
an earlier page of the section, and the section takes no fewer pages, if its pages begin at the same
rank in both layouts or rounding changes no comparison of its items in either. -/
theorem notEarlier_of_layOut {count count' : Nat} (htight : m.TightenedTo n)
    (hheights : m.Nonnegative document) (hsections : Apart Tag.isSection Tag.isSection document)
    (hok : (layOut m.gauge m.vars document).outcome = .ok count)
    (hok' : (layOut n.gauge n.vars document).outcome = .ok count') {i : Nat} {p : Placed}
    (hp : (pageSections document)[i]? = some p)
    (hplace : firstRank m.gauge m.vars document i = firstRank n.gauge n.vars document i ∨
      (m.safeOffset.isFinite ∧ n.safeOffset.isFinite) ∧
        m.FaithfulAt document i p.page ∧ n.FaithfulAt document i p.page) :
    ∃ flows flows' : List (List Node), m.SplitAt document i p.page flows ∧
      n.SplitAt document i p.page flows' ∧ flows.flatten = kept p.page.flowContent ∧
      flows'.flatten = kept p.page.flowContent ∧
      List.Forall₂ (· ≤ ·) (pageIndices flows) (pageIndices flows') ∧
      flows.length ≤ flows'.length := by
  rw [hsections.unnested.pageSections_eq_pages] at hp
  obtain ⟨cut, start, hcut, hrank, hgroup, hshown⟩ := exists_cutAfter hok hp
  obtain ⟨cut', start', hcut', hrank', hgroup', hshown'⟩ := exists_cutAfter hok' hp
  obtain ⟨hnone, hgiven⟩ := below_of_apart hheights hsections hcut.isPage hcut.mem
  have hmade := p.page.prepare_madeFrom m.vars
  have hsolid := solid_of_mem_flowItems hnone hgiven hmade
  have hheight := total_nonneg_of_mem_flowItems hnone hgiven hmade
  have hbehind : cut.Behind cut' := by
    rcases hplace with hfirst | ⟨hfinite, hfaithful, hfaithful'⟩
    · have hsteps := steps_of_cutAfter hnone hcut
      have hsteps' := steps_of_cutAfter hnone hcut'
      rw [htight.prepare_eq, ← hrank', ← hfirst, hrank] at hsteps'
      refine (Cut.Behind.refl Cut.start).run m.Solid (fun k before group hgood hover => ?_)
        (by simp [Cut.start]) hsolid hsteps hsteps'.places
      have hgrown := m.overfull_grow _ _ before group [] (by simpa using hgood) hover
      rw [List.append_nil] at hgrown
      exact htight.overfull hgrown
    · have hsteps := steps_of_faithfulAt hnone hcut hrank hgroup hfaithful
      have hsteps' := steps_of_faithfulAt hnone hcut' hrank' hgroup' hfaithful'
      rw [htight.prepare_eq] at hsteps'
      refine (Cut.Behind.refl Cut.start).run (0 ≤ m.total [·]) (fun k before group hgood hover => ?_)
        (by simp [Cut.start]) hheight hsteps hsteps'.places
      exact htight.exceeds hfinite (m.exceeds_grow hgood hover)
  refine ⟨cut.flows, cut'.flows, ?_, ?_, flatten_of_cutAfter hcut, flatten_of_cutAfter hcut',
    hbehind.placed, ?_⟩
  · exact ⟨(layOut_of_ok hok).2.1, count, _, hok, hshown, splitInto_of_box _ _ _ _ _⟩
  · exact ⟨(layOut_of_ok hok').2.1, count', _, hok', hshown', splitInto_of_box _ _ _ _ _⟩
  · rw [Cut.flows, Cut.flows, List.length_append, List.length_append]
    exact Nat.add_le_add_right hbehind.length_le 1

/-- Pages of a hundred pixels, of which ten are kept free. -/
def tenFree : Metrics :=
  { hundredHigh with vars := [("--safe-bottom-offset".runes, "10px".runes)] }

/-- Items for two pages, and for three if less fits on the first one. -/
def fiveBlocks : List Node :=
  onePage [.element Section.newBody [block 60, block 35, block 50, block 30, block 10]]

theorem notEarlier_of_layOut_fiveBlocks :
    hundredHigh.TightenedTo tenFree ∧ hundredHigh.Nonnegative fiveBlocks ∧
      Apart Tag.isSection Tag.isSection fiveBlocks ∧
      (layOut hundredHigh.gauge hundredHigh.vars fiveBlocks).outcome = .ok 2 ∧
      (layOut tenFree.gauge tenFree.vars fiveBlocks).outcome = .ok 3 ∧
      ∃ p, (pageSections fiveBlocks)[0]? = some p ∧ ∃ flows flows' : List (List Node),
        hundredHigh.SplitAt fiveBlocks 0 p.page flows ∧ tenFree.SplitAt fiveBlocks 0 p.page flows' ∧
          List.Forall₂ (· ≤ ·) (pageIndices flows) (pageIndices flows') := by
  have htight : hundredHigh.TightenedTo tenFree := by
    refine ⟨⟨_, rfl⟩, fun name hname => ?_, by decide +kernel⟩
    exact Entries.lookup_put_of_ne hname _ []
  have hheights : hundredHigh.Nonnegative fiveBlocks := by decide +kernel
  have hsections : Apart Tag.isSection Tag.isSection fiveBlocks := by decide +kernel
  have hok : (layOut hundredHigh.gauge hundredHigh.vars fiveBlocks).outcome = .ok 2 := by
    decide +kernel
  have hok' : (layOut tenFree.gauge tenFree.vars fiveBlocks).outcome = .ok 3 := by decide +kernel
  obtain ⟨flows, flows', hflows, hflows', -, -, hindices, -⟩ :=
    notEarlier_of_layOut htight hheights hsections hok hok' (i := 0) rfl
      (Or.inl (by decide +kernel))
  exact ⟨htight, hheights, hsections, hok, hok', _, rfl, flows, flows', hflows, hflows', hindices⟩

/-- Pages of a hundred pixels, of which as many are kept free as the text tells. -/
def keptFree (offset : Chars) : Metrics :=
  { hundredHigh with vars := [("--safe-bottom-offset".runes, offset)] }

/-- A page with two items. -/
def twoBlocks (first second : ℚ) : Node :=
  .element (.plain "section".runes "page".runes)
    [.element Section.newBody [block (.ofRat first), block (.ofRat second)]]

/-- Two sections whose items are about as high as the room for them. -/
def snugSections : List Node :=
  [.element (.plain "div".runes "document".runes)
    [twoBlocks (749 / 10) (22799999999999997 / 1000000000000000),
      twoBlocks (863 / 10) (114 / 10)]]

/-- More space may move an item to an earlier page of its section: when the section before it takes
one more page, the sum of the heights is not rounded up any more. -/
theorem not_notEarlier_always :
    ¬ ∀ (m n : Metrics) (document : List Node) (count count' i : Nat) (p : Placed),
      m.TightenedTo n → m.Nonnegative document → Apart Tag.isSection Tag.isSection document →
      (layOut m.gauge m.vars document).outcome = .ok count →
      (layOut n.gauge n.vars document).outcome = .ok count' →
      (pageSections document)[i]? = some p → ∃ flows flows' : List (List Node),
        m.SplitAt document i p.page flows ∧ n.SplitAt document i p.page flows' ∧
          List.Forall₂ (· ≤ ·) (pageIndices flows) (pageIndices flows') := by
  intro h
  have htight : (keptFree "0.3").TightenedTo (keptFree "0.30000000000000426") := by
    refine ⟨⟨_, rfl⟩, fun name hname => ?_, by decide +kernel⟩
    exact (Entries.lookup_put_of_ne hname _ []).trans (Entries.lookup_put_of_ne hname _ []).symm
  have hheights : (keptFree "0.3").Nonnegative snugSections := by decide +kernel
  have hsections : Apart Tag.isSection Tag.isSection snugSections := by decide +kernel
  have hok : (layOut (keptFree "0.3").gauge (keptFree "0.3").vars snugSections).outcome = .ok 3 := by
    decide +kernel
  have hok' : (layOut (keptFree "0.30000000000000426").gauge
      (keptFree "0.30000000000000426").vars snugSections).outcome = .ok 3 := by
    decide +kernel
  obtain ⟨flows, flows', hfirst, hsecond, hindices⟩ :=
    h _ _ _ _ _ 1 _ htight hheights hsections hok hok' rfl
  have hfirst' := congrArg (Option.map pageIndices) (hfirst.flows_eq (by decide +kernel))
  have hsecond' := congrArg (Option.map pageIndices) (hsecond.flows_eq (by decide +kernel))
  have hcut : (((numberPages (pageGroups (keptFree "0.3").gauge (keptFree "0.3").vars
      snugSections))[1]?).map (·.map Node.flowContent)).map pageIndices = some [0, 1] := by
    decide +kernel
  have hcut' : (((numberPages (pageGroups (keptFree "0.30000000000000426").gauge
      (keptFree "0.30000000000000426").vars snugSections))[1]?).map
        (·.map Node.flowContent)).map pageIndices = some [0, 0] := by
    decide +kernel
  rw [Option.some.inj (hfirst'.symm.trans hcut), Option.some.inj (hsecond'.symm.trans hcut')]
    at hindices
  revert hindices
  decide

end Metrics

end Folio.Paginate
