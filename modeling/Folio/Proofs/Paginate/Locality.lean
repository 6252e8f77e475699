import Folio.Proofs.Paginate.Conservation
import Folio.Proofs.Paginate.Exactness

/-!
What stands around a section has no part in how it is cut, but for the rounding of positions. A
section that stands in two documents is cut into the same flows in both, whatever comes before and
after it and whatever pages that takes, if its pages begin at the same place or rounding changes no
comparison of its items: they and the limit are measured where they stand, but they move together.
-/
namespace Folio.Paginate

namespace Metrics

/-- The measures are the same, but for the element that cannot be measured. -/
def Alike (m n : Metrics) : Prop := ∃ broken, n = { m with broken }

variable {m n : Metrics}

theorem Alike.prepare_eq (h : m.Alike n) (s : Section) : s.prepare n.vars = s.prepare m.vars := by
  obtain ⟨broken, rfl⟩ := h
  rfl

/-- What cannot be measured does not change what is too much for a page. -/
theorem Alike.overfull_eq (h : m.Alike n) (rank : Nat) (f : Frame) (items : List Node) :
    n.overfull rank f items = m.overfull rank f items := by
  obtain ⟨broken, rfl⟩ := h
  have hbelow := below_congr (m := m) (n := { m with broken }) rfl rfl false
  simp only [overfull, flowStart, hbelow]
  rfl

theorem Alike.exceeds_eq (h : m.Alike n) (f : Frame) (items : List Node) :
    n.exceeds f items = m.exceeds f items := by
  obtain ⟨broken, rfl⟩ := h
  rfl

/-- Where a section stands in a document, its group of pages comes from cutting it there. -/
theorem exists_cutAfter {document : List Node} {count : Nat}
    (hok : (layOut m.gauge m.vars document).outcome = .ok count) {i : Nat} {p : Placed}
    (hp : (pages document)[i]? = some p) : ∃ cut start,
      CutAfter m.gauge m.vars document ((pageGroups m.gauge m.vars document).take i) p.page cut ∧
      firstRank m.gauge m.vars document i =
        nextRank document ((pageGroups m.gauge m.vars document).take i) ∧
      (pageGroups m.gauge m.vars document)[i]? =
        some (cut.flows.map (p.page.prepare m.vars).1.box) ∧
      (numberPages (pageGroups m.gauge m.vars document))[i]? =
        some ((cut.flows.map (p.page.prepare m.vars).1.box).mapIdx fun i page =>
          Numbers.showOn ⟨start + i, count⟩ page) := by
  obtain ⟨-, -, hcut⟩ := pageGroups_at hok
  obtain ⟨-, -, rfl⟩ := layOut_of_ok hok
  obtain ⟨cut, hafter, hgroup⟩ := hcut i p hp
  have hnumbered := numbered_forall₂ (P := Eq)
    (List.forall₂_refl (pageGroups m.gauge m.vars document))
    (pageGroups m.gauge m.vars document).flatten.length 1
  obtain ⟨hi, hsame⟩ := List.getElem?_eq_some_iff.1 hgroup
  have hi' : i < (numberPages (pageGroups m.gauge m.vars document)).length :=
    hnumbered.length_eq ▸ hi
  obtain ⟨group, start, hsource, hshown⟩ := hnumbered.get hi hi'
  refine ⟨cut, start, hafter, firstRank_eq hok (List.getElem?_eq_some_iff.1 hp).1, hgroup, ?_⟩
  rw [← hsame, List.getElem?_eq_getElem hi']
  rw [← hsource] at hshown
  exact congrArg some hshown

/-- In a document that was laid out, the page section at a position has become a group of pages
with these flows. -/
structure SplitAt (m : Metrics) (document : List Node) (i : Nat) (s : Section)
    (flows : List (List Node)) : Prop where
  shown : (layOut m.gauge m.vars document).document =
    regroup (numberPages (pageGroups m.gauge m.vars document)) document
  group : ∃ count group, (layOut m.gauge m.vars document).outcome = .ok count ∧
    (numberPages (pageGroups m.gauge m.vars document))[i]? = some group ∧
      s.SplitInto count flows group

/-- A section that stands in two documents, both laid out by the same measures, is cut into the
same flows in both, if its pages begin at the same rank or rounding changes no comparison of its
items in either. -/
theorem splitAt_of_layOut (halike : m.Alike n) {document document' : List Node}
    {count count' : Nat} (hsections : Apart Tag.isSection Tag.isSection document)
    (hsections' : Apart Tag.isSection Tag.isSection document')
    (hok : (layOut m.gauge m.vars document).outcome = .ok count)
    (hok' : (layOut n.gauge n.vars document').outcome = .ok count')
    {i j : Nat} {p q : Placed} (hp : (pageSections document)[i]? = some p)
    (hq : (pageSections document')[j]? = some q) (hsame : p.page = q.page)
    (hplace : firstRank m.gauge m.vars document i = firstRank n.gauge n.vars document' j ∨
      m.FaithfulAt document i p.page ∧ n.FaithfulAt document' j q.page) :
    ∃ flows : List (List Node), flows.flatten = kept p.page.flowContent ∧
      m.SplitAt document i p.page flows ∧ n.SplitAt document' j q.page flows := by
  rw [hsections.unnested.pageSections_eq_pages] at hp
  rw [hsections'.unnested.pageSections_eq_pages] at hq
  obtain ⟨cut, start, hcut, hrank, hgroup, hshown⟩ := exists_cutAfter hok hp
  obtain ⟨cut', start', hcut', hrank', hgroup', hshown'⟩ := exists_cutAfter hok' hq
  have hnone := hsections _ _ hcut.mem (isSection_of_isPage hcut.isPage)
  have hprepare := halike.prepare_eq p.page
  have heq : cut = cut' := by
    rw [← hsame] at hcut' hgroup' hplace
    rcases hplace with hfirst | ⟨hfaithful, hfaithful'⟩
    · have hsteps := steps_of_cutAfter hnone hcut
      have hsteps' := steps_of_cutAfter hnone hcut'
      have hfull : (fun k => n.overfull
            (nextRank document' ((pageGroups n.gauge n.vars document').take j) + k)
            (p.page.prepare n.vars).1) =
          fun k => m.overfull (nextRank document ((pageGroups m.gauge m.vars document).take i) + k)
            (p.page.prepare m.vars).1 := by
        funext k flow
        rw [halike.overfull_eq, hprepare, ← hrank', ← hfirst, hrank]
      rw [hfull, hprepare] at hsteps'
      exact hsteps.unique hsteps'
    · have hsteps := steps_of_faithfulAt hnone hcut hrank hgroup hfaithful
      have hsteps' := steps_of_faithfulAt hnone hcut' hrank' hgroup' hfaithful'
      have hexceeds : n.exceeds (p.page.prepare n.vars).1 = m.exceeds (p.page.prepare m.vars).1 := by
        funext flow
        rw [halike.exceeds_eq, hprepare]
      rw [hexceeds, hprepare] at hsteps'
      exact hsteps.unique hsteps'
  subst heq
  refine ⟨cut.flows, flatten_of_cutAfter hcut, ?_, ?_⟩
  · exact ⟨(layOut_of_ok hok).2.1, count, _, hok, hshown, splitInto_of_box _ _ _ _ _⟩
  · exact ⟨(layOut_of_ok hok').2.1, count', _, hok', hshown', splitInto_of_box _ _ _ _ _⟩

/-- Two items on a page, and one that does not fit after them. -/
def threeBlocks : List Node := [.element Section.newBody [block 60, block 30, block 60]]

/-- The section of three items after another one that takes two pages. -/
def afterTwoPages : List Node :=
  [.element (.plain "div".runes "document".runes)
    [.element (.plain "section".runes "page".runes)
        [.element Section.newBody [block 70, block 80]],
      .element (.plain "section".runes "page".runes) threeBlocks]]

/-- The measures by which an element of some name cannot be measured. -/
def brokenHigh : Metrics := { hundredHigh with broken := some "chart".runes }

theorem splitAt_of_layOut_threeBlocks :
    hundredHigh.Alike brokenHigh ∧ Apart Tag.isSection Tag.isSection (onePage threeBlocks) ∧
      Apart Tag.isSection Tag.isSection afterTwoPages ∧
      (layOut hundredHigh.gauge [] (onePage threeBlocks)).outcome = .ok 2 ∧
      (layOut brokenHigh.gauge [] afterTwoPages).outcome = .ok 4 ∧
      ∃ p q, (pageSections (onePage threeBlocks))[0]? = some p ∧
        (pageSections afterTwoPages)[1]? = some q ∧ p.page = q.page ∧
        (hundredHigh.FaithfulAt (onePage threeBlocks) 0 p.page ∧
          brokenHigh.FaithfulAt afterTwoPages 1 q.page) ∧
        ∃ flows : List (List Node), flows.flatten = kept p.page.flowContent ∧
          hundredHigh.SplitAt (onePage threeBlocks) 0 p.page flows ∧
          brokenHigh.SplitAt afterTwoPages 1 q.page flows := by
  have halike : hundredHigh.Alike brokenHigh := ⟨_, rfl⟩
  have hsections : Apart Tag.isSection Tag.isSection (onePage threeBlocks) := by decide
  have hsections' : Apart Tag.isSection Tag.isSection afterTwoPages := by decide
  have hok : (layOut hundredHigh.gauge hundredHigh.vars (onePage threeBlocks)).outcome = .ok 2 := by
    decide +kernel
  have hok' : (layOut brokenHigh.gauge brokenHigh.vars afterTwoPages).outcome = .ok 4 := by
    decide +kernel
  have hfaithful : hundredHigh.FaithfulAt (onePage threeBlocks) 0
      ⟨.plain "section".runes "page".runes, threeBlocks⟩ := by
    decide +kernel
  have hfaithful' : brokenHigh.FaithfulAt afterTwoPages 1
      ⟨.plain "section".runes "page".runes, threeBlocks⟩ := by
    decide +kernel
  exact ⟨halike, hsections, hsections', hok, hok', _, _, rfl, rfl, rfl, ⟨hfaithful, hfaithful'⟩,
    splitAt_of_layOut halike hsections hsections' hok hok' (i := 0) (j := 1) rfl rfl rfl
      (Or.inr ⟨hfaithful, hfaithful'⟩)⟩

/-- Pages of a hundred pixels, of which a fifth of one is kept free. -/
def fifthFree : Metrics :=
  { hundredHigh with vars := [("--safe-bottom-offset".runes, "0.2px".runes)] }

/-- Two items that are exactly as high as the room for them. -/
def snugBlocks : List Node :=
  [.element Section.newBody [block (.ofRat (381 / 10)), block (.ofRat (597 / 10))]]

/-- The section of these items twice. -/
def snugTwice : List Node :=
  [.element (.plain "div".runes "document".runes)
    [.element (.plain "section".runes "page".runes) snugBlocks,
      .element (.plain "section".runes "page".runes) snugBlocks]]

theorem SplitAt.flows_eq {document : List Node} {i : Nat} {s : Section}
    {flows : List (List Node)} (h : m.SplitAt document i s flows)
    (hplain : s.bodyTag.showsNumbers = false) :
    ((numberPages (pageGroups m.gauge m.vars document))[i]?).map (·.map Node.flowContent) =
      some flows := by
  obtain ⟨count, group, -, hgroup, hsplit⟩ := h.group
  rw [hgroup, Option.map_some, hsplit.unchanged hplain]

/-- Where a section stands may change how it is cut: the sum of the heights is rounded up at the top
of a document, and not further down. -/
theorem not_splitAt_always_same :
    ¬ ∀ (m n : Metrics) (document document' : List Node) (count count' i j : Nat) (p q : Placed),
      m.Alike n → Apart Tag.isSection Tag.isSection document →
      Apart Tag.isSection Tag.isSection document' →
      (layOut m.gauge m.vars document).outcome = .ok count →
      (layOut n.gauge n.vars document').outcome = .ok count' →
      (pageSections document)[i]? = some p → (pageSections document')[j]? = some q →
      p.page = q.page → ∃ flows : List (List Node),
        m.SplitAt document i p.page flows ∧ n.SplitAt document' j q.page flows := by
  intro h
  have hsections : Apart Tag.isSection Tag.isSection snugTwice := by decide
  have hok : (layOut fifthFree.gauge fifthFree.vars snugTwice).outcome = .ok 3 := by
    decide +kernel
  obtain ⟨flows, hfirst, hsecond⟩ := h fifthFree fifthFree snugTwice snugTwice 3 3 0 1 _ _
    ⟨none, rfl⟩ hsections hsections hok hok rfl rfl rfl
  have hsame := (hfirst.flows_eq rfl).trans (hsecond.flows_eq rfl).symm
  revert hsame
  decide +kernel

end Metrics

end Folio.Paginate
