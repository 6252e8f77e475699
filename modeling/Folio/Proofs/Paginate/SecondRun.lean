import Folio.Proofs.Paginate.Renumbering
import Folio.Proofs.Paginate.Settling

/-!
Laying out a document that was laid out. Every page is a section that is in order, whose items are
measured as they were, fit on it and are placed on it again; so each page becomes a group by
itself, shows its numbers already, and the document stays as it is.
-/
namespace Folio.Paginate

namespace Cut

/-- The items of a flow stay on one page if the first of them does not end it and none of the
others crosses the limit. -/
theorem run_stays {crosses : List (List Node) → Except Fault Bool} {placed items : List Node}
    (hmarks : ∀ item ∈ items, ¬ item.isMark)
    (hcrosses : ∀ before item after, items = before ++ item :: after →
      ∃ crossing, crosses [placed ++ before ++ [item]] = .ok crossing ∧
        (crossing = true → placed ++ before = [])) :
    (⟨[], placed⟩ : Cut).run crosses items = (⟨[], placed ++ items⟩, none) := by
  induction items generalizing placed with
  | nil => rw [run, List.append_nil]
  | cons item rest ih =>
      have hmark : item.isTagged Tag.endsPage = false := by
        simpa [Node.isMark] using hmarks item List.mem_cons_self
      have hrest : (⟨[], placed ++ [item]⟩ : Cut).run crosses rest =
          (⟨[], placed ++ [item] ++ rest⟩, none) := by
        refine ih (fun other hother => hmarks other (List.mem_cons_of_mem item hother)) ?_
        rintro before other after rfl
        obtain ⟨crossing, hcross, halone⟩ :=
          hcrosses (item :: before) other after List.cons_append.symm
        refine ⟨crossing, ?_, fun htrue => ?_⟩
        · rw [← hcross]
          simp
        · simpa using halone htrue
      obtain ⟨crossing, hcross, halone⟩ := hcrosses [] item rest rfl
      rw [List.append_nil] at hcross halone
      have hpush : ((⟨[], placed⟩ : Cut).push item).flows = [placed ++ [item]] := rfl
      rw [run, hmark, if_neg Bool.false_ne_true, hpush, hcross]
      rw [List.append_assoc, List.singleton_append] at hrest
      cases crossing with
      | true =>
          obtain rfl := halone rfl
          exact hrest
      | false => exact hrest

/-- What is known of every item that is measured is known of all that are no marks, when a run
does not fail. -/
theorem forall_of_run {crosses : List (List Node) → Except Fault Bool} {q : Node → Prop}
    (hcrosses : ∀ finished current item crossing,
      crosses (finished ++ [current ++ [item]]) = .ok crossing → q item)
    {items : List Node} {c cut : Cut} (hrun : c.run crosses items = (cut, none)) :
    ∀ item ∈ items, ¬ item.isMark → q item := by
  induction items generalizing c with
  | nil => exact fun item hitem => absurd hitem List.not_mem_nil
  | cons head rest ih =>
      intro item hitem hmark
      rcases run_cons hrun with ⟨hhead, hrest⟩ | ⟨-, hcross, hrest⟩ | ⟨-, hcross, hrest⟩
      · rcases List.mem_cons.1 hitem with rfl | hitem
        · exact absurd hhead hmark
        · exact ih hrest item hitem hmark
      · rcases List.mem_cons.1 hitem with rfl | hitem
        · exact hcrosses _ _ _ _ hcross
        · exact ih hrest item hitem hmark
      · rcases List.mem_cons.1 hitem with rfl | hitem
        · exact hcrosses _ _ _ _ hcross
        · exact ih hrest item hitem hmark

end Cut

namespace Metrics

/-- The item can be measured on a page of the frame. -/
structure Measurable (m : Metrics) (f : Frame) (item : Node) : Prop where
  item : m.measured item.tag? = .ok ()
  body : m.measured (some f.body) = .ok ()

variable {m : Metrics} {f : Frame}

/-- A page is measured if its last item and its body can be measured. -/
theorem crosses_ok_iff {before : List Node} {item : Node} {s : Section}
    (hshows : f.Shows (before ++ [item]) s) (rank : Nat) :
    (∃ crossing, m.crosses ⟨rank, s⟩ = .ok crossing) ↔ m.Measurable f item := by
  obtain ⟨b, hsplit, hbody⟩ := hshows
  obtain ⟨c, hfirst, hmap⟩ := Option.bind_eq_some_iff.1 hsplit
  obtain ⟨w, hsecond, heq⟩ := Option.map_eq_some_iff.1 hmap
  rw [Prod.mk.injEq] at heq
  obtain ⟨rfl, hw⟩ := heq
  have hchildren : w.children = before ++ [item] := congrArg Split.children hw
  simp only [crosses, hfirst, hsecond, hchildren, List.getLast?_append, List.getLast?_singleton,
    Option.some_or, List.dropLast_concat]
  cases hown : m.measured item.tag? with
  | error fault =>
      refine ⟨fun h => ?_, fun h => ?_⟩
      · simp [bind, Except.bind] at h
      · exact absurd (hown.symm.trans h.item) (by simp)
  | ok own =>
      cases hbroken : m.measured (some c.tag) with
      | error fault =>
          refine ⟨fun h => ?_, fun h => ?_⟩
          · simp [bind, Except.bind] at h
          · rw [hbody] at hbroken
            exact absurd (hbroken.symm.trans h.body) (by simp)
      | ok body =>
          rw [hbody] at hbroken
          exact ⟨fun _ => ⟨hown, hbroken⟩, fun _ => ⟨_, rfl⟩⟩

/-- What is known of the flow of a page after `rank` sections that was made in a frame: its items are
elements that can be measured and do not end a page, and two items or more fit. -/
structure Fitting (m : Metrics) (rank : Nat) (f : Frame) (flow : List Node) : Prop where
  element : ∀ item ∈ flow, item? item = some item
  unmarked : ∀ item ∈ flow, ¬ item.isMark
  solid : ∀ item ∈ flow, m.Solid item
  measurable : ∀ item ∈ flow, m.Measurable f item
  full : 2 ≤ flow.length → m.overfull rank f flow = false

theorem item?_of_mem_flowItems {content : List Node} {item : Node}
    (hitem : item ∈ flowItems content) : item? item = some item := by
  obtain ⟨node, -, hsome⟩ := List.mem_filterMap.1 hitem
  cases node with
  | element tag children =>
      obtain rfl := Option.some.inj hsome
      rfl
  | text s =>
      rw [item?] at hsome
      split at hsome
      · contradiction
      · obtain rfl := Option.some.inj hsome
        rfl
  | comment s => contradiction

theorem fitting_of_cutAfter {document : List Node} (hheights : m.Nonnegative document)
    (hsections : Apart Tag.isSection Tag.isSection document) {groups : List (List Node)}
    {s : Section} {cut : Cut} (h : CutAfter m.gauge m.vars document groups s cut) {j : Nat}
    {flow : List Node} (hflow : cut.flows[j]? = some flow) :
    m.Fitting (nextRank document groups + j) (s.prepare m.vars).1 flow := by
  have hmade := s.prepare_madeFrom m.vars
  obtain ⟨hnone, hgiven⟩ := below_of_apart hheights hsections h.isPage h.mem
  have hmeasurable : ∀ item ∈ flowItems (s.prepare m.vars).2, ¬ item.isMark →
      m.Measurable (s.prepare m.vars).1 item := by
    refine Cut.forall_of_run (fun finished current item crossing hcross => ?_) h.cut
    rw [measuring_gauge m (hmade.isPage h.isPage) h.allPages h.length] at hcross
    exact (crosses_ok_iff (hmade.shows_page _) _).1 ⟨crossing, hcross⟩
  have hmem := h.mem_flowItems (List.mem_of_getElem? hflow)
  have hunmarked : ∀ item ∈ flow, ¬ item.isMark := by
    intro item hitem
    have hplaced : item ∈ cut.flows.flatten :=
      List.mem_flatten.2 ⟨flow, List.mem_of_getElem? hflow, hitem⟩
    rw [Cut.flatten_flows_run h.cut] at hplaced
    simpa [Cut.start, Cut.flows] using (List.mem_filter.1 hplaced).2
  exact ⟨fun item hitem => item?_of_mem_flowItems (hmem item hitem), hunmarked,
    fun item hitem => solid_of_mem_flowItems hnone hgiven hmade item (hmem item hitem),
    fun item hitem => hmeasurable item (hmem item hitem) (hunmarked item hitem),
    not_overfull_of_cutAfter hsections h hflow⟩

/-- A page that fits is cut into itself, where it stands. -/
theorem Fitting.cutSection_eq {s : Section} {flow : List Node} {document : List Node}
    {groups : List (List Node)} (h : m.Fitting (nextRank document groups) (s.prepare m.vars).1 flow)
    (hregular : s.Regular) (hpage : s.tag.isPage)
    (hflow : (s.prepare m.vars).1.flow.isSection = false) (hgroups : AllPages groups)
    (hlength : groups.length < (pages document).length) (n : Numbers) :
    cutSection m.gauge m.vars document groups
        (n.showOnPage ((s.prepare m.vars).1.page flow)) = (⟨[], flow⟩, none) := by
  have hmade := s.prepare_madeFrom m.vars
  have hplain := showsNumbers_bodyTag hregular.plain
  have hitems : flowItems flow = flow := by
    rw [flowItems, List.filterMap_congr h.element, List.filterMap_some]
  rw [cutSection, hregular.prepare_showOnPage]
  dsimp only
  rw [hitems]
  refine Cut.run_stays h.unmarked fun before item after hdecomp => ?_
  have hgauge := measuring_gauge m (f := (s.prepare m.vars).1.shown n) (hmade.isPage hpage) hgroups
    hlength [] (before ++ [item])
  rw [Frame.page_shown (hmade.body_showsNumbers.trans hplain), List.length_nil, Nat.add_zero]
    at hgauge
  have hshows := hmade.shows_showOnPage hplain n (before ++ [item])
  have hitem : item ∈ flow := by simp [hdecomp]
  obtain ⟨crossing, hcrosses⟩ :=
    (crosses_ok_iff hshows (nextRank document groups)).2 (h.measurable item hitem)
  refine ⟨crossing, hgauge.trans hcrosses, fun htrue => ?_⟩
  rw [List.nil_append]
  by_contra hbefore
  have htwo : 2 ≤ flow.length := by
    have hpos := List.length_pos_of_ne_nil hbefore
    rw [hdecomp, List.length_append, List.length_cons]
    omega
  rw [htrue] at hcrosses
  have hover := crosses_eq_overfull hflow (h.solid item hitem).notSection hshows hcrosses
  have hgrow := m.overfull_grow (nextRank document groups) (s.prepare m.vars).1 []
    (before ++ [item]) after (by simpa [hdecomp] using h.solid) hover.symm
  rw [List.nil_append, List.append_assoc, List.singleton_append, ← hdecomp, h.full htwo] at hgrow
  contradiction

end Metrics

/-- When the sections before it have become the groups, the section is cut into one page, itself. -/
def CutAlone (gauge : Gauge) (vars : Properties) (document : List Node)
    (groups : List (List Node)) (s : Section) : Prop :=
  ∃ items, cutSection gauge vars document groups s = (⟨[], items⟩, none) ∧
    (s.prepare vars).1.box items = s.node

/-- Sections that are cut into themselves become groups by themselves. -/
theorem cutSections_of_cutAlone {gauge : Gauge} {vars : Properties} {document : List Node}
    {sections : List Section} {groups : List (List Node)}
    (halone : ∀ i s, sections[i]? = some s →
      CutAlone gauge vars document (groups ++ (sections.take i).map fun s => [s.node]) s) :
    cutSections gauge vars document groups sections =
      (groups ++ sections.map fun s => [s.node], none) := by
  induction sections generalizing groups with
  | nil => simp [cutSections]
  | cons s rest ih =>
      obtain ⟨items, hcut, hbox⟩ := halone 0 s rfl
      rw [List.take_zero, List.map_nil, List.append_nil] at hcut
      have hflows : (⟨[], items⟩ : Cut).flows.map (s.prepare vars).1.box = [s.node] := by
        rw [← hbox]
        rfl
      rw [cutSections_cons, hcut]
      dsimp only
      rw [hflows, ih fun i t ht => by simpa using halone (i + 1) t ht]
      simp

theorem regroupFrom_pageNodes (inDocument : Bool) (nodes : List Node)
    (more : List (List Node)) :
    regroupFrom inDocument ((pageNodes inDocument nodes).map (fun page => [page]) ++ more) nodes =
      (nodes, more) := by
  induction nodes using rowInduction generalizing inDocument more with
  | nil => simp [regroupFrom]
  | element tag children rest ihChildren ihRest =>
      by_cases hpage : (inDocument && tag.isPage) = true
      · simp [regroupFrom, Node.regroup, hpage, ihRest]
      · simp [regroupFrom, Node.regroup, hpage, ihChildren, ihRest]
  | text content rest ih => simp [regroupFrom, Node.regroup, ih]
  | comment content rest ih => simp [regroupFrom, Node.regroup, ih]

/-- A document with each page in its own place is the document. -/
theorem regroup_pages (document : List Node) :
    regroup ((pages document).map fun p => [p.page.node]) document = document := by
  have hall := regroupFrom_pageNodes false document []
  rw [List.append_nil, pageNodes, List.map_map] at hall
  exact congrArg Prod.fst hall

/-- The page at a position stands where it does when those before it are groups by themselves. -/
theorem nextRank_pages {document : List Node} {i : Nat} {p : Placed}
    (hp : (pages document)[i]? = some p) :
    nextRank document (((pages document).take i).map fun q => [q.page.node]) = p.rank := by
  obtain ⟨hi, rfl⟩ := List.getElem?_eq_some_iff.1 hp
  have hall : AllPages ((pages document).map fun q => [q.page.node]) := by
    intro group hgroup node hnode
    obtain ⟨q, hq, rfl⟩ := List.mem_map.1 hgroup
    rw [List.mem_singleton.1 hnode]
    exact (mem_pagesFrom hq).1
  have hparts : ((pages document).take i).map (fun q => [q.page.node]) ++
      [(pages document)[i].page.node] :: ((pages document).drop (i + 1)).map
        (fun q => [q.page.node]) = (pages document).map fun q => [q.page.node] := by
    rw [← List.map_cons (f := fun q : Placed => [q.page.node]), ← List.drop_eq_getElem_cons hi,
      ← List.map_append, List.take_append_drop]
  have hlength : (((pages document).take i).map fun q => [q.page.node]).length <
      (pages document).length := by
    rw [List.length_map, List.length_take]
    omega
  obtain ⟨q, hq, -, hrank⟩ := exists_page_regroup (hparts.symm ▸ hall) hlength (j := 0) rfl
  have hflatten : (((pages document).take i).map fun q => [q.page.node]).flatten.length = i := by
    rw [← List.flatMap_def, ← List.map_eq_flatMap, List.length_map, List.length_take]
    omega
  rw [hparts, regroup_pages, hflatten, Nat.add_zero, hp, Option.some.injEq] at hq
  rw [hq, hrank, Nat.add_zero]

/-- A document is laid out as it is if every page of it is cut into itself and shows its
numbers. -/
theorem layOut_eq_self {gauge : Gauge} {vars : Properties} {document : List Node}
    (hpages : ∀ i p, (pages document)[i]? = some p →
      Numbers.showOnPage ⟨1 + i, (pages document).length⟩ p.page = p.page ∧
        CutAlone gauge vars document (((pages document).take i).map fun q => [q.page.node])
          p.page) :
    layOut gauge vars document = ⟨document, .ok (pages document).length⟩ := by
  have hcut : cutSections gauge vars document [] ((pages document).map Placed.page) =
      ((pages document).map fun p : Placed => [p.page.node], none) := by
    rw [cutSections_of_cutAlone, List.nil_append, List.map_map]
    · rfl
    · intro i s hs
      rw [List.getElem?_map, Option.map_eq_some_iff] at hs
      obtain ⟨p, hp, rfl⟩ := hs
      rw [List.nil_append, ← List.map_take, List.map_map]
      exact (hpages i p hp).2
  have hnodes : ((pages document).map fun p : Placed => p.page.node).map (fun page => [page]) =
      (pages document).map fun p : Placed => [p.page.node] := by
    rw [List.map_map]
    rfl
  have hnumbers : numberPages ((pages document).map fun p : Placed => [p.page.node]) =
      (pages document).map fun p : Placed => [p.page.node] := by
    rw [← hnodes]
    refine numberPages_singletons fun i page hpage => ?_
    rw [List.getElem?_map, Option.map_eq_some_iff] at hpage
    obtain ⟨p, hp, rfl⟩ := hpage
    rw [List.length_map, ← Numbers.node_showOnPage, (hpages i p hp).1]
  have hlength : ((pages document).map fun p : Placed => [p.page.node]).flatten.length =
      (pages document).length := by
    rw [← hnodes, ← List.flatMap_def, List.flatMap_singleton', List.length_map]
  rw [layOut, hcut]
  dsimp only
  rw [hnumbers, regroup_pages, hlength]

namespace Metrics

variable {m : Metrics} {document : List Node} {count : Nat}

/-- The pages of a document that was laid out are as many as are told. -/
theorem length_pages_layOut {gauge : Gauge} {vars : Properties}
    (hok : (layOut gauge vars document).outcome = .ok count) :
    (pages (layOut gauge vars document).document).length = count := by
  rw [← List.length_map (f := fun p => p.page.node), map_node_pages_layOut hok,
    flatten_numberPages, List.length_mapIdx]
  exact (layOut_of_ok hok).2.2.symm

/-- Each page of a document that was laid out is cut into itself and shows its numbers. -/
theorem cutAlone_of_layOut (hheights : m.Nonnegative document)
    (hsections : Apart Tag.isSection Tag.isSection document)
    (hregular : ∀ p ∈ pageSections document, p.page.Regular) (hcounts : CountsApart document)
    (hok : (layOut m.gauge m.vars document).outcome = .ok count) {i : Nat} {p : Placed}
    (hp : (pages (layOut m.gauge m.vars document).document)[i]? = some p) :
    Numbers.showOnPage ⟨1 + i, count⟩ p.page = p.page ∧
      CutAlone m.gauge m.vars (layOut m.gauge m.vars document).document
        (((pages (layOut m.gauge m.vars document).document).take i).map fun q => [q.page.node])
        p.page := by
  have hnext := nextRank_pages hp
  obtain ⟨k, j, q, cut, flow, hq, hafter, hgroup, hflow, hindex, -, hpage⟩ :=
    exists_cutAfter_of_page hok hp
  have hbox : (cut.flows.map (q.page.prepare m.vars).1.box)[j]? =
      some ((q.page.prepare m.vars).1.box flow) := by
    rw [List.getElem?_map, hflow, Option.map_some]
  obtain ⟨placed, hplaced, hrank⟩ := exists_page_layOut hok hgroup hbox
  rw [← hindex, hp, Option.some.injEq] at hplaced
  have hfitting := fitting_of_cutAfter hheights hsections hafter hflow
  rw [← hrank, ← hplaced, ← hnext] at hfitting
  have hmade := q.page.prepare_madeFrom m.vars
  have hsection := hregular q (mem_pageSectionsFrom_of_mem_pagesFrom (List.mem_of_getElem? hq))
  obtain ⟨hnone, -⟩ := below_of_apart hheights hsections hafter.isPage hafter.mem
  have hbelow : CountsApart q.page.children := hcounts.mono fun node hnode =>
    mem_allNodes_of_element hafter.mem (mem_allNodes_of_mem hnode)
  have hmem := hafter.mem_flowItems (List.mem_of_getElem? hflow)
  have hgroups : AllPages (((pages (layOut m.gauge m.vars document).document).take i).map
      fun q => [q.page.node]) := by
    intro group hmade node hnode
    obtain ⟨other, hother, rfl⟩ := List.mem_map.1 hmade
    rw [List.mem_singleton.1 hnode]
    exact (mem_pagesFrom (List.mem_of_mem_take hother)).1
  have hlength : (((pages (layOut m.gauge m.vars document).document).take i).map
      fun q => [q.page.node]).length <
        (pages (layOut m.gauge m.vars document).document).length := by
    rw [List.length_map, List.length_take]
    have := (List.getElem?_eq_some_iff.1 hp).1
    omega
  refine ⟨?_, flow, ?_, ?_⟩
  · rw [hpage]
    exact Numbers.showOnPage_idem _ (hbelow.recast (hmade.recast_page hmem))
  · rw [hpage]
    exact hfitting.cutSection_eq hsection hafter.isPage (flow_isSection hnone hmade) hgroups
      hlength _
  · have hplain := hmade.body_showsNumbers.trans (showsNumbers_bodyTag hsection.plain)
    rw [hpage, hsection.prepare_showOnPage, ← Frame.node_page, Frame.page_shown hplain]

/-- A document that was laid out is laid out as it is. -/
theorem layOut_layOut (hheights : m.Nonnegative document)
    (hsections : Apart Tag.isSection Tag.isSection document)
    (hregular : ∀ p ∈ pageSections document, p.page.Regular) (hcounts : CountsApart document)
    (hok : (layOut m.gauge m.vars document).outcome = .ok count) :
    layOut m.gauge m.vars (layOut m.gauge m.vars document).document =
      ⟨(layOut m.gauge m.vars document).document, .ok count⟩ := by
  have hcount := length_pages_layOut hok
  rw [layOut_eq_self, hcount]
  intro i p hp
  rw [hcount]
  exact cutAlone_of_layOut hheights hsections hregular hcounts hok hp

end Metrics

namespace View

/-- The view without the mark that its layout was tried. -/
def unmark (v : View) : View :=
  { v with root := v.root.filter fun entry => entry.1 != doneKey }

theorem lookup_unmark_doneKey (v : View) : v.unmark.root.lookup doneKey = none := by
  rw [List.lookup_eq_none_iff]
  intro entry hentry
  have hne : entry.1 ≠ doneKey := by simpa using (List.mem_filter.1 hentry).2
  simpa using hne.symm

theorem lookup_unmark_of_ne (v : View) {key : Chars} (hkey : key ≠ doneKey) :
    v.unmark.root.lookup key = v.root.lookup key := by
  change (v.root.filter _).lookup key = _
  induction v.root with
  | nil => rfl
  | cons entry rest ih =>
      obtain ⟨name, value⟩ := entry
      by_cases hname : name = doneKey
      · have hne : (key == name) = false := by simpa [hname] using hkey
        rw [List.filter_cons_of_neg (by simp [hname]), ih, List.lookup_cons, hne]
      · rw [List.filter_cons_of_pos (by simpa using hname), List.lookup_cons, List.lookup_cons, ih]

/-- What the root of a view tells that was laid out. -/
theorem root_trigger {gauge : Gauge} {vars : Properties} {v : View} {count : Nat}
    (hdone : v.isDone = false) (hok : (layOut gauge vars v.document).outcome = .ok count) :
    (v.trigger gauge vars).root.lookup doneKey = some "true".runes ∧
      (v.trigger gauge vars).root.lookup countKey = some (Text.decimal count) ∧
      ∀ key, key ≠ doneKey → key ≠ countKey →
        (v.trigger gauge vars).root.lookup key = v.root.lookup key := by
  rw [View.trigger_of_ok hdone hok]
  refine ⟨Entries.lookup_put_self _ _ _, ?_, fun key hkey hother => ?_⟩
  · exact (Entries.lookup_put_of_ne (by decide) _ _).trans (Entries.lookup_put_self _ _ _)
  · exact (Entries.lookup_put_of_ne hkey _ _).trans (Entries.lookup_put_of_ne hother _ _)

theorem isDone_unmark (v : View) : v.unmark.isDone = false := by
  rw [isDone, lookup_unmark_doneKey]
  rfl

end View

/-- When a view was laid out, and its mark is taken away, it is laid out again as it is: the pages,
their items, styles and numbers, and what the root tells. -/
theorem Metrics.trigger_unmark_trigger {m : Metrics} {v : View} {count : Nat}
    (hheights : m.Nonnegative v.document)
    (hsections : Apart Tag.isSection Tag.isSection v.document)
    (hregular : ∀ p ∈ pageSections v.document, p.page.Regular)
    (hcounts : CountsApart v.document) (hdone : v.isDone = false)
    (hok : (layOut m.gauge m.vars v.document).outcome = .ok count) :
    let first := v.trigger m.gauge m.vars
    let again := first.unmark.trigger m.gauge m.vars
    (layOut m.gauge m.vars first.unmark.document).outcome = .ok count ∧
      again.document = first.document ∧
      (∀ key, again.root.lookup key = first.root.lookup key) ∧ again.faults = first.faults := by
  intro first again
  have hlaid := m.layOut_layOut hheights hsections hregular hcounts hok
  have hdocument : first.document = (layOut m.gauge m.vars v.document).document :=
    congrArg View.document (View.trigger_of_ok hdone hok)
  have hmarked := View.root_trigger hdone hok
  have hagain : (layOut m.gauge m.vars first.unmark.document).outcome = .ok count := by
    change (layOut m.gauge m.vars first.document).outcome = .ok count
    rw [hdocument, hlaid]
  have hsecond := View.trigger_of_ok first.isDone_unmark hagain
  have hremarked := View.root_trigger first.isDone_unmark hagain
  refine ⟨hagain, ?_, fun key => ?_, ?_⟩
  · calc again.document = (layOut m.gauge m.vars first.document).document :=
        congrArg View.document hsecond
      _ = first.document := by rw [hdocument, hlaid]
  · by_cases hkey : key = View.doneKey
    · rw [hkey]
      exact hremarked.1.trans hmarked.1.symm
    · by_cases hother : key = View.countKey
      · rw [hother]
        exact hremarked.2.1.trans hmarked.2.1.symm
      · exact (hremarked.2.2 key hkey hother).trans (View.lookup_unmark_of_ne first hkey)
  · change (first.unmark.trigger m.gauge m.vars).faults = first.unmark.faults
    rw [hsecond]

/-- A page without a header and with a height of its own for the footer, which counts. Its items
take two pages. -/
def bandedPage : View where
  root := [("lang".runes, "en".runes)]
  document := [.element (.plain "div".runes "document".runes)
    [.element ⟨"section".runes, "page no-header".runes,
        [("data-footer-height".runes, "10px".runes)], [], none⟩
      [.element (.plain "header".runes []) [],
        .element Section.newBody [Metrics.block 60, .text "loose".runes, Metrics.block 60],
        .element (.plain "footer".runes [])
          [.element (.plain "p".runes "pagecount".runes)
            [.element (.plain "span".runes "current".runes) []]]]]]
  faults := []

theorem Metrics.trigger_unmark_trigger_bandedPage :
    hundredHigh.Nonnegative bandedPage.document ∧
      Apart Tag.isSection Tag.isSection bandedPage.document ∧
      (∀ p ∈ pageSections bandedPage.document, p.page.Regular) ∧
      CountsApart bandedPage.document ∧ bandedPage.isDone = false ∧
      (layOut hundredHigh.gauge [] bandedPage.document).outcome = .ok 2 ∧
      ((bandedPage.trigger hundredHigh.gauge []).unmark.trigger hundredHigh.gauge []).document =
        (bandedPage.trigger hundredHigh.gauge []).document := by
  have hheights : hundredHigh.Nonnegative bandedPage.document := by decide +kernel
  have hsections : Apart Tag.isSection Tag.isSection bandedPage.document := by decide +kernel
  have hregular : ∀ p ∈ pageSections bandedPage.document, p.page.Regular := by decide +kernel
  have hcounts : CountsApart bandedPage.document := by decide +kernel
  have hdone : bandedPage.isDone = false := by decide
  have hok : (layOut hundredHigh.gauge hundredHigh.vars bandedPage.document).outcome = .ok 2 := by
    decide +kernel
  exact ⟨hheights, hsections, hregular, hcounts, hdone, hok,
    (trigger_unmark_trigger hheights hsections hregular hcounts hdone hok).2.1⟩

end Folio.Paginate
