import Folio.Proofs.Paginate.Conservation
import Folio.Proofs.Paginate.PageNumbers

/-!
What a layout leaves alone: everything but the pages and two attributes of the root. The pages that
are made of a section stand in its place, with nothing between them, and no other node comes, goes
or moves.
-/
namespace Folio.Paginate

/-- Pages of the section, each with a part of what it keeps of its content, and with numbers that
follow each other. -/
def Section.BecomesPages (s : Section) (vars : Properties) (total : Nat) (group : List Node) :
    Prop :=
  ∃ (flows : List (List Node)) (first : Nat), flows ≠ [] ∧
    flows.flatten = kept s.flowContent ∧
    group = (flows.map (s.prepare vars).1.box).mapIdx fun i page =>
      Numbers.showOn ⟨first + i, total⟩ page

/-- The second row is the first one with a group of nodes in the place of each page. The page and
its group are in a relation, and everything else is as it was. -/
inductive Repaged (R : Section → List Node → Prop) : Bool → List Node → List Node → Prop
  | nil {inDocument : Bool} : Repaged R inDocument [] []
  | page {tag : Tag} {children group rest made : List Node} (hpage : tag.isPage)
      (hgroup : R ⟨tag, children⟩ group) (hrest : Repaged R true rest made) :
      Repaged R true (.element tag children :: rest) (group ++ made)
  | inside {inDocument : Bool} {tag : Tag} {children inner rest made : List Node}
      (hpage : (inDocument && tag.isPage) = false)
      (hinner : Repaged R tag.isDocument children inner) (hrest : Repaged R inDocument rest made) :
      Repaged R inDocument (.element tag children :: rest) (.element tag inner :: made)
  | text {inDocument : Bool} (content : Chars) {rest made : List Node}
      (hrest : Repaged R inDocument rest made) :
      Repaged R inDocument (.text content :: rest) (.text content :: made)
  | comment {inDocument : Bool} (content : Chars) {rest made : List Node}
      (hrest : Repaged R inDocument rest made) :
      Repaged R inDocument (.comment content :: rest) (.comment content :: made)

mutual
/-- What stands in the place of a node without its pages. -/
def Node.withoutPages (inDocument : Bool) : Node → List Node
  | .element tag children =>
      if inDocument && tag.isPage then []
      else [.element tag (rowWithoutPages tag.isDocument children)]
  | .text content => [.text content]
  | .comment content => [.comment content]

/-- The row without its pages. -/
def rowWithoutPages (inDocument : Bool) : List Node → List Node
  | [] => []
  | node :: rest => node.withoutPages inDocument ++ rowWithoutPages inDocument rest
end

/-- A document without its pages. -/
def withoutPages (document : List Node) : List Node := rowWithoutPages false document

theorem rowWithoutPages_group {group : List Node} (hgroup : ∀ node ∈ group, node.isTagged Tag.isPage)
    (rest : List Node) : rowWithoutPages true (group ++ rest) = rowWithoutPages true rest := by
  induction group with
  | nil => rfl
  | cons head group ih =>
      obtain ⟨hhead, hothers⟩ := List.forall_mem_cons.1 hgroup
      cases head with
      | element tag children =>
          rw [isTagged_element] at hhead
          rw [List.cons_append, rowWithoutPages, ih hothers, Node.withoutPages, hhead]
          rfl
      | text content => simp at hhead
      | comment content => simp at hhead

namespace Repaged

variable {R : Section → List Node → Prop} {inDocument : Bool}

/-- When pages are replaced by pages, a row without its pages stays as it is. -/
theorem rowWithoutPages_eq
    (hR : ∀ s group, s.tag.isPage → R s group → ∀ node ∈ group, node.isTagged Tag.isPage)
    {nodes made : List Node} (h : Repaged R inDocument nodes made) :
    rowWithoutPages inDocument made = rowWithoutPages inDocument nodes := by
  induction h with
  | nil => rfl
  | @page tag children group rest made hpage hgroup hrest ih =>
      rw [rowWithoutPages_group (hR _ _ hpage hgroup), ih, rowWithoutPages, Node.withoutPages,
        hpage]
      rfl
  | inside hpage hinner hrest ihInner ihRest =>
      rw [rowWithoutPages, rowWithoutPages, Node.withoutPages, Node.withoutPages, hpage, ihInner,
        ihRest]
  | text content hrest ih => rw [rowWithoutPages, rowWithoutPages, ih]
  | comment content hrest ih => rw [rowWithoutPages, rowWithoutPages, ih]

end Repaged

/-- A row takes one group for each of its pages, puts it into the place of the page, and leaves the
other groups. -/
theorem repaged_regroupFrom {R : Section → List Node → Prop} {inDocument : Bool} {rank : Nat}
    {nodes : List Node} {groups : List (List Node)} (left : List (List Node))
    (hgroups : List.Forall₂ (fun p group => R p.page group) (pagesFrom inDocument rank nodes)
      groups) :
    ∃ made, regroupFrom inDocument (groups ++ left) nodes = (made, left) ∧
      Repaged R inDocument nodes made := by
  induction nodes using rowInduction generalizing inDocument rank groups left with
  | nil =>
      cases hgroups
      exact ⟨[], rfl, .nil⟩
  | element tag children rest ihChildren ihRest =>
      rw [pagesFrom_element] at hgroups
      cases hpage : inDocument && tag.isPage with
      | true =>
          obtain ⟨rfl, htag⟩ := Bool.and_eq_true_iff.1 hpage
          rw [hpage, if_pos rfl, List.singleton_append, List.forall₂_cons_left_iff] at hgroups
          obtain ⟨group, others, hgroup, hothers, rfl⟩ := hgroups
          obtain ⟨made, hmade, hrepaged⟩ := ihRest left hothers
          refine ⟨group ++ made, ?_, .page htag hgroup hrepaged⟩
          simp [regroupFrom, Node.regroup, htag, hmade]
      | false =>
          rw [hpage, if_neg Bool.false_ne_true] at hgroups
          have hsplit := List.take_append_drop (pagesFrom tag.isDocument 0 children).length groups
          have hbelow := List.forall₂_take_append _ _ _ hgroups.flip
          have hlater := List.forall₂_drop_append _ _ _ hgroups.flip
          obtain ⟨inner, hinner, hrepagedInner⟩ := ihChildren (groups.drop _ ++ left) hbelow.flip
          obtain ⟨made, hmade, hrepaged⟩ := ihRest left hlater.flip
          refine ⟨.element tag inner :: made, ?_, .inside hpage hrepagedInner hrepaged⟩
          rw [← List.append_assoc, hsplit] at hinner
          simp [regroupFrom, Node.regroup, hpage, hinner, hmade]
  | text content rest ih =>
      obtain ⟨made, hmade, hrepaged⟩ := ih left hgroups
      exact ⟨.text content :: made, by simp [regroupFrom, Node.regroup, hmade],
        .text content hrepaged⟩
  | comment content rest ih =>
      obtain ⟨made, hmade, hrepaged⟩ := ih left hgroups
      exact ⟨.comment content :: made, by simp [regroupFrom, Node.regroup, hmade],
        .comment content hrepaged⟩

theorem Section.BecomesPages.isPage {s : Section} {vars : Properties} {total : Nat}
    {group : List Node} (h : s.BecomesPages vars total group) (hs : s.tag.isPage) :
    ∀ node ∈ group, node.isTagged Tag.isPage := by
  obtain ⟨flows, first, -, -, rfl⟩ := h
  intro node hnode
  obtain ⟨i, hi, rfl⟩ := List.mem_mapIdx.1 hnode
  rw [Node.isTagged, Numbers.tag?_showOn, List.getElem_map]
  exact (s.prepare_madeFrom vars).isPage hs

section LayOut

variable {gauge : Gauge} {vars : Properties}

/-- In a document that was laid out the pages made of each section stand in its place, and
everything else is as it was. -/
theorem repaged_layOut {document : List Node} {count : Nat}
    (hok : (layOut gauge vars document).outcome = .ok count) :
    Repaged (fun s group => s.BecomesPages vars count group) false document
      (layOut gauge vars document).document := by
  obtain ⟨-, hdocument, hcount⟩ := layOut_of_ok hok
  have hgroups := (pageGroups_forall₂ hok (P := fun s group => ∃ flows : List (List Node),
    flows ≠ [] ∧ flows.flatten = kept s.flowContent ∧ group = flows.map (s.prepare vars).1.box)
    fun _ _ cut hcut => ⟨cut.flows, by simp [Cut.flows], flatten_of_cutAfter hcut, rfl⟩).2
  have hnumbered : List.Forall₂ (fun p group => p.page.BecomesPages vars count group)
      (pages document) (numberPages (pageGroups gauge vars document)) := by
    rw [numberPages, ← hcount]
    refine (numbered_forall₂ hgroups count 1).imp ?_
    rintro p shown ⟨group, first, ⟨flows, hne, hflatten, rfl⟩, rfl⟩
    exact ⟨flows, first, hne, hflatten, rfl⟩
  obtain ⟨made, hmade, hrepaged⟩ := repaged_regroupFrom
    (R := fun s group => s.BecomesPages vars count group) [] hnumbered
  rw [List.append_nil] at hmade
  rw [hdocument, regroup, hmade]
  exact hrepaged

/-- Not one of the two attributes in which the root tells how the layout went. -/
def View.isOther (name : Chars) : Bool := name != doneKey && name != countKey

/-- A layout replaces each page by the pages made of it, and changes nothing else in a view but
two attributes of the root: without its pages the document is as it was, with nothing that was put
into it to be measured. -/
theorem repaged_of_trigger {v : View} {count : Nat} (hdone : v.isDone = false)
    (hok : (layOut gauge vars v.document).outcome = .ok count) :
    Repaged (fun s group => s.BecomesPages vars count group) false v.document
        (v.trigger gauge vars).document ∧
      withoutPages (v.trigger gauge vars).document = withoutPages v.document ∧
      (v.trigger gauge vars).root.filter (fun e => View.isOther e.1) =
        v.root.filter (fun e => View.isOther e.1) ∧
      (v.trigger gauge vars).faults = v.faults := by
  have hrepaged := repaged_layOut hok
  rw [View.trigger_of_ok hdone hok]
  refine ⟨hrepaged, ?_, ?_, rfl⟩
  · exact hrepaged.rowWithoutPages_eq fun s group hpage hgroup => hgroup.isPage hpage
  · dsimp only
    rw [Entries.filter_put (by decide), Entries.filter_put (by decide)]

end LayOut

/-- Two sections with a note between them, one with a mark in its content, and a script after the
document; the root has an attribute of its own. -/
def pagesAmongOthers : View where
  root := [("lang".runes, "en".runes)]
  document :=
    [.element (.plain "div".runes "document".runes)
      [.element (.plain "section".runes "page".runes)
          [.element Section.newBody
            [.text "first".runes, .element (.plain "hr".runes "forcePageEnd".runes) [],
              .text "second".runes]],
        .element (.plain "aside".runes "note".runes) [.text "between".runes],
        .element (.plain "section".runes "page".runes) [.text "third".runes]],
      .element (.plain "script".runes []) []]
  faults := []

theorem repaged_of_trigger_pagesAmongOthers :
    pagesAmongOthers.isDone = false ∧
      (layOut (fun _ _ => .ok false) [] pagesAmongOthers.document).outcome = .ok 3 ∧
      Repaged (fun s group => s.BecomesPages [] 3 group) false pagesAmongOthers.document
        (pagesAmongOthers.trigger (fun _ _ => .ok false) []).document ∧
      withoutPages (pagesAmongOthers.trigger (fun _ _ => .ok false) []).document =
        withoutPages pagesAmongOthers.document :=
  have hlaid := repaged_of_trigger (v := pagesAmongOthers) (by decide) rfl
  ⟨by decide, rfl, hlaid.1, hlaid.2.1⟩

end Folio.Paginate
