import Folio.Proofs.Paginate.Shown

/-!
Where the pages of a document stand. The pages that a section becomes stand one after the other,
from where the section stands when those before it have become their pages; the pages after them
and the numbers do not move them. So a page is measured where it will stand at the end.
-/
namespace Folio.Paginate

/-- The pages of a row, each with the number of sections before it. -/
def spots (inDocument : Bool) (rank : Nat) (nodes : List Node) : List (Node × Nat) :=
  (pagesFrom inDocument rank nodes).map fun p => (p.page.node, p.rank)

@[simp] theorem spots_nil (inDocument : Bool) (rank : Nat) : spots inDocument rank [] = [] := by
  simp [spots, pagesFrom]

@[simp] theorem spots_element (inDocument : Bool) (rank : Nat) (tag : Tag)
    (children rest : List Node) :
    spots inDocument rank (.element tag children :: rest) =
      (if inDocument && tag.isPage then [(.element tag children, rank)]
        else spots tag.isDocument 0 children) ++
      spots inDocument (if tag.isSection then rank + 1 else rank) rest := by
  rw [spots, pagesFrom_element, List.map_append, spots, spots]
  split <;> simp [Section.node]

@[simp] theorem spots_text (inDocument : Bool) (rank : Nat) (content : Chars) (rest : List Node) :
    spots inDocument rank (.text content :: rest) = spots inDocument rank rest := by
  simp [spots, pagesFrom, Node.pages]

@[simp] theorem spots_comment (inDocument : Bool) (rank : Nat) (content : Chars)
    (rest : List Node) :
    spots inDocument rank (.comment content :: rest) = spots inDocument rank rest := by
  simp [spots, pagesFrom, Node.pages]

theorem length_spots (inDocument : Bool) (rank : Nat) (nodes : List Node) :
    (spots inDocument rank nodes).length = (pageNodes inDocument nodes).length := by
  rw [← map_node_pagesFrom inDocument rank, spots, List.length_map, List.length_map]

/-- The pages of a group stand one after the other. -/
theorem spots_group_append {group : List Node} (hgroup : ∀ node ∈ group, node.isTagged Tag.isPage)
    (rank : Nat) (rest : List Node) :
    spots true rank (group ++ rest) = group.zipIdx rank ++ spots true (rank + group.length) rest := by
  induction group generalizing rank with
  | nil => simp
  | cons head group ih =>
      obtain ⟨hhead, htail⟩ := List.forall_mem_cons.1 hgroup
      cases head with
      | element tag children =>
          have hpage : tag.isPage = true := by simpa using hhead
          have hsection := isSection_of_isPage hpage
          have hlength : rank + 1 + group.length = rank + (group.length + 1) := by omega
          simp [hpage, hsection, ih htail, hlength]
      | text content => simp at hhead
      | comment content => simp at hhead

/-- With no more groups than pages, the row has the pages of the groups and those left. -/
theorem length_spots_regroupFrom (inDocument : Bool) (rank : Nat) {groups : List (List Node)}
    (hgroups : AllPages groups) (nodes : List Node) :
    (spots inDocument rank (regroupFrom inDocument groups nodes).1).length =
      (groups.take (pageNodes inDocument nodes).length).flatten.length +
        ((pageNodes inDocument nodes).length - groups.length) := by
  rw [length_spots, pageNodes_regroupFrom inDocument hgroups, List.length_append, List.length_drop]

/-- The pages of the next group stand from where the next page of the row stood. -/
theorem getElem?_spots_regroupFrom {inDocument : Bool} {rank : Nat} {nodes : List Node}
    {groups later : List (List Node)} {group : List Node}
    (hall : AllPages (groups ++ group :: later)) {next : Node} {first : Nat}
    (hnext : (spots inDocument rank (regroupFrom inDocument groups nodes).1)[
      groups.flatten.length]? = some (next, first))
    {j : Nat} {page : Node} (hpage : group[j]? = some page) :
    (spots inDocument rank (regroupFrom inDocument (groups ++ group :: later) nodes).1)[
      groups.flatten.length + j]? = some (page, first + j) := by
  have hgroups := (allPages_append.1 hall).1
  induction nodes using rowInduction generalizing inDocument rank groups with
  | nil => simp [regroupFrom] at hnext
  | element tag children rest ihChildren ihRest =>
      by_cases hplace : (inDocument && tag.isPage) = true
      · obtain rfl : inDocument = true := (Bool.and_eq_true_iff.1 hplace).1
        cases groups with
        | nil =>
            obtain ⟨hj, rfl⟩ := List.getElem?_eq_some_iff.1 hpage
            have hgroup := hall group (by simp)
            simp only [regroupFrom, Node.regroup, hplace, if_true, spots_element,
              List.flatten_nil, List.length_nil, List.singleton_append, List.getElem?_cons_zero,
              Option.some.injEq, Prod.mk.injEq] at hnext
            obtain ⟨-, rfl⟩ := hnext
            simp only [List.nil_append, regroupFrom, Node.regroup, hplace, if_true]
            rw [spots_group_append hgroup, List.getElem?_append_left (by simpa using hj)]
            simp [hj]
        | cons head groups =>
            have hhead := hgroups head List.mem_cons_self
            have htail := (allPages_cons.1 hall).2
            simp only [regroupFrom, Node.regroup, hplace, if_true, List.cons_append] at hnext ⊢
            rw [spots_group_append hhead, List.flatten_cons, List.length_append] at hnext ⊢
            rw [List.getElem?_append_right (by simp), List.length_zipIdx,
              Nat.add_sub_cancel_left] at hnext
            rw [List.getElem?_append_right (by rw [List.length_zipIdx]; omega), List.length_zipIdx,
              Nat.add_assoc, Nat.add_sub_cancel_left]
            exact ihRest htail hnext (allPages_append.1 htail).1
      · have hbefore := length_spots_regroupFrom tag.isDocument 0 hgroups children
        have hafter := length_spots_regroupFrom tag.isDocument 0 hall children
        have hleft := regroupFrom_snd tag.isDocument groups children
        have hleft' := regroupFrom_snd tag.isDocument (groups ++ group :: later) children
        simp only [regroupFrom, Node.regroup, hplace, Bool.false_eq_true, if_false,
          List.singleton_append, spots_element] at hnext ⊢
        rcases Nat.lt_or_ge groups.length (pageNodes tag.isDocument children).length with
          hless | hmore
        · rw [List.take_of_length_le hless.le] at hbefore
          rw [List.getElem?_append_left (by omega)] at hnext
          have hinside := ihChildren hall hnext hgroups
          rwa [List.getElem?_append_left (List.getElem?_eq_some_iff.1 hinside).1]
        · have hnone : (pageNodes tag.isDocument children).length -
              (groups ++ group :: later).length = 0 := by
            rw [List.length_append]
            omega
          rw [Nat.sub_eq_zero_of_le hmore, Nat.add_zero] at hbefore
          rw [List.take_append_of_le_length hmore, hnone, Nat.add_zero] at hafter
          rw [List.drop_append_of_le_length hmore] at hleft'
          have hsplit : groups.flatten.length =
              (groups.take (pageNodes tag.isDocument children).length).flatten.length +
                (groups.drop (pageNodes tag.isDocument children).length).flatten.length := by
            rw [← List.length_append, ← List.flatten_append, List.take_append_drop]
          have hrest : AllPages (groups.drop (pageNodes tag.isDocument children).length ++
              group :: later) := by
            rw [← List.drop_append_of_le_length hmore]
            exact fun g hg => hall g (List.mem_of_mem_drop hg)
          rw [List.getElem?_append_right (by omega), hbefore, hsplit, Nat.add_sub_cancel_left,
            hleft] at hnext
          rw [List.getElem?_append_right (by omega), hafter, hsplit, Nat.add_assoc,
            Nat.add_sub_cancel_left, hleft']
          exact ihRest hrest hnext (allPages_append.1 hrest).1
  | text content rest ih =>
      simp only [regroupFrom, Node.regroup, List.singleton_append, spots_text] at hnext ⊢
      exact ih hall hnext hgroups
  | comment content rest ih =>
      simp only [regroupFrom, Node.regroup, List.singleton_append, spots_comment] at hnext ⊢
      exact ih hall hnext hgroups

/-- Groups of the same sizes put the pages at the same ranks. -/
theorem ranks_regroupFrom (inDocument : Bool) (rank : Nat) {groups groups' : List (List Node)}
    (hgroups : AllPages groups) (hgroups' : AllPages groups')
    (hsizes : groups.map List.length = groups'.map List.length) (nodes : List Node) :
    (spots inDocument rank (regroupFrom inDocument groups nodes).1).map Prod.snd =
      (spots inDocument rank (regroupFrom inDocument groups' nodes).1).map Prod.snd := by
  induction nodes using rowInduction generalizing inDocument rank groups groups' with
  | nil => simp [regroupFrom]
  | element tag children rest ihChildren ihRest =>
      by_cases hplace : (inDocument && tag.isPage) = true
      · obtain rfl : inDocument = true := (Bool.and_eq_true_iff.1 hplace).1
        cases groups with
        | nil =>
            obtain rfl := List.map_eq_nil_iff.1 hsizes.symm
            rfl
        | cons group groups =>
            obtain ⟨group', groups', rfl, hsize, hrest⟩ := List.map_eq_cons_iff.1 hsizes.symm
            obtain ⟨hgroup, hgroups⟩ := allPages_cons.1 hgroups
            obtain ⟨hgroup', hgroups'⟩ := allPages_cons.1 hgroups'
            simp only [regroupFrom, Node.regroup, hplace, if_true]
            rw [spots_group_append hgroup, spots_group_append hgroup', List.map_append,
              List.map_append, hsize, ihRest true _ hgroups hgroups' hrest.symm]
            simp [List.zipIdx_map_snd, hsize]
      · have hleft := regroupFrom_snd tag.isDocument groups children
        have hleft' := regroupFrom_snd tag.isDocument groups' children
        have hlater : AllPages (groups.drop (pageNodes tag.isDocument children).length) :=
          fun g hg => hgroups g (List.mem_of_mem_drop hg)
        have hlater' : AllPages (groups'.drop (pageNodes tag.isDocument children).length) :=
          fun g hg => hgroups' g (List.mem_of_mem_drop hg)
        have hrest := ihRest inDocument (if tag.isSection then rank + 1 else rank) hlater hlater'
          (by rw [List.map_drop, List.map_drop, hsizes])
        simp only [regroupFrom, Node.regroup, hplace, Bool.false_eq_true, if_false,
          List.singleton_append, spots_element, List.map_append, hleft, hleft', hrest,
          ihChildren tag.isDocument 0 hgroups hgroups' hsizes]
  | text content rest ih =>
      simp only [regroupFrom, Node.regroup, List.singleton_append, spots_text]
      exact ih inDocument rank hgroups hgroups' hsizes
  | comment content rest ih =>
      simp only [regroupFrom, Node.regroup, List.singleton_append, spots_comment]
      exact ih inDocument rank hgroups hgroups' hsizes

/-- The number of sections before the first page for which there is no group, when the groups stand
in the places of the pages before it. -/
def nextRank (document : List Node) (groups : List (List Node)) : Nat :=
  (((pages (regroup groups document))[groups.flatten.length]?).map Placed.rank).getD 0

section Groups

variable {document : List Node} {groups later : List (List Node)} {group : List Node}

theorem exists_next (hgroups : AllPages groups) (hlength : groups.length < (pages document).length) :
    ∃ next, (spots false 0 (regroup groups document))[groups.flatten.length]? =
      some (next, nextRank document groups) := by
  have hpages : (pageNodes false document).length = (pages document).length := by
    simp [pageNodes, pages]
  have hspots := length_spots_regroupFrom false 0 hgroups document
  rw [hpages, List.take_of_length_le hlength.le] at hspots
  have hin : groups.flatten.length < (pages (regroup groups document)).length := by
    rw [spots, List.length_map] at hspots
    rw [pages, regroup, hspots]
    omega
  refine ⟨(pages (regroup groups document))[groups.flatten.length].page.node, ?_⟩
  rw [nextRank, List.getElem?_eq_getElem hin, Option.map_some, Option.getD_some, spots]
  exact List.getElem?_map.trans (congrArg _ (List.getElem?_eq_getElem hin))

/-- Where the pages of a group stand, whatever comes after them. -/
theorem exists_page_regroup (hall : AllPages (groups ++ group :: later))
    (hlength : groups.length < (pages document).length) {j : Nat} {page : Node}
    (hpage : group[j]? = some page) :
    ∃ p, (pages (regroup (groups ++ group :: later) document))[groups.flatten.length + j]? =
      some p ∧ p.page.node = page ∧ p.rank = nextRank document groups + j := by
  obtain ⟨next, hnext⟩ := exists_next (allPages_append.1 hall).1 hlength
  have hspot := getElem?_spots_regroupFrom hall hnext hpage
  rw [spots, List.getElem?_map, Option.map_eq_some_iff] at hspot
  obtain ⟨p, hp, hnode⟩ := hspot
  rw [Prod.mk.injEq] at hnode
  exact ⟨p, hp, hnode⟩

end Groups

/-- What is measured of the page under way is where that page will stand. -/
theorem measuring_gauge (m : Metrics) {f : Frame} (hpage : f.tag.isPage) {document : List Node}
    {groups : List (List Node)} (hgroups : AllPages groups)
    (hlength : groups.length < (pages document).length) (finished : List (List Node))
    (current : List Node) :
    measuring m.gauge document groups f (finished ++ [current]) =
      m.crosses ⟨nextRank document groups + finished.length, f.page current⟩ := by
  have hbox : AllPages [(finished ++ [current]).map f.box] := by
    intro group hgroup node hnode
    rw [List.mem_singleton.1 hgroup, List.mem_map] at hnode
    obtain ⟨items, -, rfl⟩ := hnode
    exact hpage
  have hcurrent : ((finished ++ [current]).map f.box)[finished.length]? = some (f.box current) := by
    simp
  obtain ⟨p, hp, hnode, hrank⟩ :=
    exists_page_regroup (allPages_append.2 ⟨hgroups, hbox⟩) hlength hcurrent
  obtain ⟨rank, page⟩ := p
  obtain rfl : page = f.page current := Section.node_inj (hnode.trans (f.node_page current).symm)
  obtain rfl : rank = nextRank document groups + finished.length := hrank
  have hindex : groups.flatten.length + (finished ++ [current]).length - 1 =
      groups.flatten.length + finished.length := by
    simp
  rw [measuring, Metrics.gauge, hindex, hp]

section LayOut

variable {gauge : Gauge} {vars : Properties} {document : List Node} {count : Nat}
  (hok : (layOut gauge vars document).outcome = .ok count)
include hok

/-- The numbers do not move the pages. -/
theorem ranks_layOut :
    (pages (layOut gauge vars document).document).map Placed.rank =
      (pages (regroup (pageGroups gauge vars document) document)).map Placed.rank := by
  obtain ⟨hall, -, -⟩ := pageGroups_at hok
  have hranks := ranks_regroupFrom false 0 (allPages_numberPages hall) hall
    (map_length_numbered _ 1 _) document
  rw [spots, spots, List.map_map, List.map_map] at hranks
  rw [(layOut_of_ok hok).2.1]
  exact hranks

/-- A page that is shown stands where it was measured. -/
theorem exists_page_layOut {i j : Nat} {group : List Node} {page : Node}
    (hgroup : (pageGroups gauge vars document)[i]? = some group) (hpage : group[j]? = some page) :
    ∃ p, (pages (layOut gauge vars document).document)[
        ((pageGroups gauge vars document).take i).flatten.length + j]? = some p ∧
      p.rank = nextRank document ((pageGroups gauge vars document).take i) + j := by
  obtain ⟨hall, hlength, -⟩ := pageGroups_at hok
  obtain ⟨hi, rfl⟩ := List.getElem?_eq_some_iff.1 hgroup
  have hparts : (pageGroups gauge vars document).take i ++
      (pageGroups gauge vars document)[i] :: (pageGroups gauge vars document).drop (i + 1) =
        pageGroups gauge vars document := by
    rw [← List.drop_eq_getElem_cons hi, List.take_append_drop]
  have hless : ((pageGroups gauge vars document).take i).length < (pages document).length := by
    rw [List.length_take]
    omega
  obtain ⟨other, hother, -, hrank⟩ := exists_page_regroup (hparts.symm ▸ hall) hless hpage
  rw [hparts] at hother
  have hranks := congrArg (·[((pageGroups gauge vars document).take i).flatten.length + j]?)
    (ranks_layOut hok)
  simp only [List.getElem?_map, hother, Option.map_some, Option.map_eq_some_iff] at hranks
  obtain ⟨p, hp, hsame⟩ := hranks
  exact ⟨p, hp, hsame.trans hrank⟩

end LayOut

/-- In the document that was laid out, the number of sections before the first of the pages that
the page section at a position has become. -/
def firstRank (gauge : Gauge) (vars : Properties) (document : List Node) (i : Nat) : Nat :=
  (((pages (layOut gauge vars document).document)[
    ((pageGroups gauge vars document).take i).flatten.length]?).map Placed.rank).getD 0

/-- The pages that the page section at a position has become stand one after the other. -/
def StandTogether (gauge : Gauge) (vars : Properties) (document : List Node) (i : Nat) : Prop :=
  ∀ group, (pageGroups gauge vars document)[i]? = some group → ∀ j, j < group.length →
    ((pages (layOut gauge vars document).document)[
        ((pageGroups gauge vars document).take i).flatten.length + j]?).map Placed.rank =
      some (firstRank gauge vars document i + j)

section LayOut

variable {gauge : Gauge} {vars : Properties} {document : List Node} {count : Nat}
  (hok : (layOut gauge vars document).outcome = .ok count)
include hok

/-- The first page of a section stands where the section stood when it was cut. -/
theorem firstRank_eq {i : Nat} (hi : i < (pages document).length) :
    firstRank gauge vars document i =
      nextRank document ((pageGroups gauge vars document).take i) := by
  obtain ⟨-, -, hcut⟩ := pageGroups_at hok
  obtain ⟨cut, -, hgroup⟩ := hcut i _ (List.getElem?_eq_getElem hi)
  have hflow : (cut.flows.map ((pages document)[i].page.prepare vars).1.box)[0]? = some _ :=
    List.getElem?_eq_getElem (by simpa using cut.length_flows_pos)
  obtain ⟨p, hp, hrank⟩ := exists_page_layOut hok hgroup hflow
  rw [Nat.add_zero] at hp hrank
  rw [firstRank, hp, Option.map_some, Option.getD_some, hrank]

theorem standTogether_of_layOut (i : Nat) : StandTogether gauge vars document i := by
  intro group hgroup j hj
  obtain ⟨-, hlength, -⟩ := pageGroups_at hok
  obtain ⟨p, hp, hrank⟩ := exists_page_layOut hok hgroup (List.getElem?_eq_getElem hj)
  have hi : i < (pages document).length := hlength ▸ (List.getElem?_eq_some_iff.1 hgroup).1
  rw [hp, Option.map_some, hrank, firstRank_eq hok hi]

end LayOut

end Folio.Paginate
