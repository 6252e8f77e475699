import Folio.Proofs.Paginate.Cutting

/-!
Cutting greedily. Whether a flow is too much for its page depends on the index of the page; a run
that measures just that goes on to the next page at a mark and before an item that would be too
much, and only there.
-/
namespace Folio.Paginate

/-- The items are cut into the groups, the first of which has the index `k`: no group is empty or
holds a mark, the groups and the marks between them are all the items, and each group is admitted
at its index before the items that follow it. -/
inductive CutInto (admits : Nat → List Node → List Node → Prop) :
    Nat → List Node → List (List Node) → Prop
  | done (k : Nat) : CutInto admits k [] []
  | mark {k : Nat} {item : Node} {rest : List Node} {groups : List (List Node)}
      (hmark : item.isMark) (hrest : CutInto admits k rest groups) :
      CutInto admits k (item :: rest) groups
  | group {k : Nat} {group rest : List Node} {groups : List (List Node)} (hne : group ≠ [])
      (hmarks : ∀ item ∈ group, ¬ item.isMark) (hadmits : admits k group rest)
      (hrest : CutInto admits (k + 1) rest groups) :
      CutInto admits k (group ++ rest) (group :: groups)

namespace CutInto

variable {admits admits' : Nat → List Node → List Node → Prop} {k : Nat} {items : List Node}
  {groups : List (List Node)}

theorem imp (h : CutInto admits k items groups)
    (himp : ∀ k group rest, group ≠ [] → group ++ rest <:+ items → admits k group rest →
      admits' k group rest) : CutInto admits' k items groups := by
  induction h with
  | done k => exact done k
  | @mark k item rest groups hmark _ ih =>
      exact mark hmark (ih fun k group later hne hlater =>
        himp k group later hne (hlater.trans (List.suffix_cons item rest)))
  | @group k group rest groups hne hmarks hadmits _ ih =>
      refine CutInto.group hne hmarks (himp k group rest hne (List.suffix_refl _) hadmits) ?_
      exact ih fun k inner later hinner hlater =>
        himp k inner later hinner (hlater.trans (List.suffix_append group rest))

/-- Each group is admitted at its index before some of the items. -/
theorem admits_of_getElem? (h : CutInto admits k items groups) {j : Nat} {group : List Node}
    (hgroup : groups[j]? = some group) : ∃ rest, admits (k + j) group rest := by
  induction h generalizing j with
  | done k => simp at hgroup
  | mark _ _ ih => exact ih hgroup
  | @group k first rest groups _ _ hadmits _ ih =>
      cases j with
      | zero =>
          obtain rfl := Option.some.inj hgroup
          exact ⟨rest, hadmits⟩
      | succ j =>
          obtain ⟨later, hlater⟩ := ih hgroup
          exact ⟨later, by rwa [Nat.add_assoc, Nat.add_comm 1] at hlater⟩

theorem ne_nil_of_mem (h : CutInto admits k items groups) : ∀ group ∈ groups, group ≠ [] := by
  induction h with
  | done k => simp
  | mark _ _ ih => exact ih
  | group hne _ _ _ ih => exact List.forall_mem_cons.2 ⟨hne, ih⟩

end CutInto

namespace Cut

theorem turn_of_nil {c : Cut} (h : c.current = []) : c.turn = c := by
  rw [turn, h, List.isEmpty_nil, if_pos rfl]

theorem turn_of_ne_nil {c : Cut} (h : c.current ≠ []) :
    c.turn = ⟨c.finished ++ [c.current], []⟩ := by
  rw [turn, if_neg (by simpa using h)]

/-- The flows of a cut that have an item. -/
def filled (c : Cut) : List (List Node) := c.flows.filter fun flow => !flow.isEmpty

/-- When the page under way is finished too, the finished pages are those that have an item. -/
theorem filled_eq {c : Cut} (h : ∀ flow ∈ c.turn.finished, flow ≠ []) :
    c.filled = c.turn.finished := by
  rcases eq_or_ne c.current [] with hempty | hne
  · rw [turn_of_nil hempty] at h ⊢
    rw [filled, flows, List.filter_append, hempty, List.filter_eq_self.2 (by simpa using h)]
    simp
  · rw [turn_of_ne_nil hne] at h ⊢
    exact List.filter_eq_self.2 (by simpa [flows] using h)

theorem getElem?_turn_finished {c : Cut} {j : Nat} {flow : List Node}
    (hflow : c.flows[j]? = some flow) (hne : flow ≠ []) : c.turn.finished[j]? = some flow := by
  rcases eq_or_ne c.current [] with hempty | hcurrent
  · rw [turn_of_nil hempty]
    rw [flows, hempty] at hflow
    rcases Nat.lt_trichotomy j c.finished.length with hless | rfl | hmore
    · rwa [List.getElem?_append_left hless] at hflow
    · rw [List.getElem?_concat_length, Option.some.injEq] at hflow
      exact absurd hflow.symm hne
    · rw [List.getElem?_eq_none (by rw [List.length_append, List.length_singleton]; omega)] at hflow
      contradiction
  · rw [turn_of_ne_nil hcurrent]
    exact hflow

/-- Up to the page with the index `last`, a measure tells whether a flow is too much for the page
that it is on, if the flow is made of some of the items that follow each other. -/
def Tells (crosses : List (List Node) → Except Fault Bool) (full : Nat → List Node → Bool)
    (items : List Node) (last : Nat) : Prop :=
  ∀ finished current item crossing, finished.length ≤ last → current ++ [item] <:+: items →
    crosses (finished ++ [current ++ [item]]) = .ok crossing →
      crossing = full finished.length (current ++ [item])

/-- No page that is finished is taken back. -/
theorem length_finished_le_of_run {crosses : List (List Node) → Except Fault Bool}
    {items : List Node} {c cut : Cut} (hrun : c.run crosses items = (cut, none)) :
    c.finished.length ≤ cut.finished.length := by
  have hturn : ∀ c : Cut, c.finished.length ≤ c.turn.finished.length := by
    intro c
    unfold turn
    split <;> simp
  induction items generalizing c with
  | nil =>
      simp only [run, Prod.mk.injEq, and_true] at hrun
      rw [hrun]
  | cons item rest ih =>
      rcases run_cons hrun with ⟨-, hnext⟩ | ⟨-, -, hnext⟩ | ⟨-, -, hnext⟩
      · exact (hturn c).trans (ih hnext)
      · exact (hturn c).trans (ih (c := c.turn.push item) hnext)
      · exact ih (c := c.push item) hnext

/-- Items are placed greedily: the page is finished at a mark, or before an item that is too much
for it. -/
inductive Steps (full : Nat → List Node → Bool) : Cut → List Node → Cut → Prop
  | done (c : Cut) : Steps full c [] c
  | mark {c d : Cut} {item : Node} {rest : List Node} (hmark : item.isMark)
      (hrest : Steps full c.turn rest d) : Steps full c (item :: rest) d
  | turn {c d : Cut} {item : Node} {rest : List Node} (hmark : ¬ item.isMark)
      (hfull : full c.finished.length (c.current ++ [item]) = true)
      (hrest : Steps full (c.turn.push item) rest d) : Steps full c (item :: rest) d
  | stay {c d : Cut} {item : Node} {rest : List Node} (hmark : ¬ item.isMark)
      (hfits : full c.finished.length (c.current ++ [item]) = false)
      (hrest : Steps full (c.push item) rest d) : Steps full c (item :: rest) d

/-- A run places the items as its measure tells. -/
theorem steps_of_run {crosses : List (List Node) → Except Fault Bool}
    {full : Nat → List Node → Bool} {all items : List Node} {c cut : Cut}
    (htells : Tells crosses full all cut.finished.length) (hall : c.current ++ items <:+ all)
    (hrun : c.run crosses items = (cut, none)) : Steps full c items cut := by
  induction items generalizing c with
  | nil =>
      simp only [run, Prod.mk.injEq, and_true] at hrun
      exact hrun ▸ Steps.done c
  | cons item rest ih =>
      rw [List.append_cons] at hall
      have hplaced : c.current ++ [item] <:+: all :=
        (List.prefix_append _ rest).isInfix.trans hall.isInfix
      have hbehind : item :: rest <:+ all := by
        rw [List.append_assoc] at hall
        exact (List.suffix_append c.current ([item] ++ rest)).trans hall
      have htold := fun crossing => htells c.finished c.current item crossing
        (length_finished_le_of_run hrun) hplaced
      rcases run_cons hrun with ⟨hmark, hnext⟩ | ⟨hmark, hcross, hnext⟩ | ⟨hmark, hcross, hnext⟩
      · refine Steps.mark hmark (ih ?_ hnext)
        rw [current_turn]
        exact (List.suffix_cons item rest).trans hbehind
      · refine Steps.turn hmark (htold true hcross).symm (ih ?_ hnext)
        rw [push, current_turn]
        exact hbehind
      · exact Steps.stay hmark (htold false hcross).symm (ih hall hnext)

/-- Where the items go is settled by what is too much. -/
theorem Steps.unique {full : Nat → List Node → Bool} {items : List Node} {c d d' : Cut}
    (h : Steps full c items d) (h' : Steps full c items d') : d = d' := by
  induction h with
  | done c =>
      cases h'
      rfl
  | mark hmark _ ih =>
      cases h' with
      | mark _ hrest => exact ih hrest
      | turn hnot => exact absurd hmark hnot
      | stay hnot => exact absurd hmark hnot
  | turn hmark hfull _ ih =>
      cases h' with
      | mark hnot => exact absurd hnot hmark
      | turn _ _ hrest => exact ih hrest
      | stay _ hfits => exact absurd (hfull.symm.trans hfits) (by simp)
  | stay hmark hfits _ ih =>
      cases h' with
      | mark hnot => exact absurd hnot hmark
      | turn _ hfull => exact absurd (hfull.symm.trans hfits) (by simp)
      | stay _ _ hrest => exact ih hrest

end Cut

/-- No flow of two items or more is too much for its page, and a flow is ended only by a mark, by
the end, or by an item that would make it too much. -/
def GreedyAdmits (full : Nat → List Node → Bool) (k : Nat) (group rest : List Node) : Prop :=
  (2 ≤ group.length → full k group = false) ∧
    ∀ item later, rest = item :: later → ¬ item.isMark → full k (group ++ [item]) = true

/-- A page that is finished is a group before those to come. -/
theorem Cut.cutInto_turn {admits : Nat → List Node → List Node → Prop} {c : Cut}
    {rest : List Node} {groups : List (List Node)} (hmarks : ∀ item ∈ c.current, ¬ item.isMark)
    (hadmits : c.current ≠ [] → admits c.finished.length c.current rest)
    (hrest : CutInto admits c.turn.finished.length rest groups) :
    ∃ groups', c.turn.finished ++ groups = c.finished ++ groups' ∧
      CutInto admits c.finished.length (c.current ++ rest) groups' := by
  rcases eq_or_ne c.current [] with hempty | hne
  · rw [turn_of_nil hempty] at hrest ⊢
    exact ⟨groups, rfl, by rwa [hempty]⟩
  · rw [turn_of_ne_nil hne] at hrest ⊢
    refine ⟨c.current :: groups, by simp, CutInto.group hne hmarks (hadmits hne) ?_⟩
    simpa using hrest

/-- Items that are placed greedily are cut into the pages that they are placed on. -/
theorem Cut.Steps.cutInto {full : Nat → List Node → Bool} {items : List Node} {c d : Cut}
    (h : Steps full c items d) (hmarks : ∀ item ∈ c.current, ¬ item.isMark)
    (hfits : 2 ≤ c.current.length → full c.finished.length c.current = false) :
    ∃ groups, d.turn.finished = c.finished ++ groups ∧
      CutInto (GreedyAdmits full) c.finished.length (c.current ++ items) groups := by
  induction h with
  | done c =>
      have hadmits : GreedyAdmits full c.finished.length c.current [] := ⟨hfits, by simp⟩
      obtain ⟨groups, hgroups, hcut⟩ := cutInto_turn hmarks (fun _ => hadmits) (CutInto.done _)
      exact ⟨groups, by simpa using hgroups, hcut⟩
  | @mark c d item rest hmark _ ih =>
      obtain ⟨groups, hd, hcut⟩ := ih (by simp [current_turn]) (by simp [current_turn])
      rw [current_turn, List.nil_append] at hcut
      have hadmits : GreedyAdmits full c.finished.length c.current (item :: rest) := by
        refine ⟨hfits, fun other later heq hother => ?_⟩
        rw [List.cons.injEq] at heq
        exact absurd (heq.1 ▸ hmark) hother
      obtain ⟨groups', hgroups, hcut'⟩ :=
        cutInto_turn hmarks (fun _ => hadmits) (CutInto.mark hmark hcut)
      exact ⟨groups', hd.trans hgroups, hcut'⟩
  | @turn c d item rest hmark hfull _ ih =>
      obtain ⟨groups, hd, hcut⟩ := ih (by simpa [push, current_turn] using hmark)
        (by simp [push, current_turn])
      simp only [push, current_turn, List.nil_append, List.singleton_append] at hd hcut
      have hadmits : GreedyAdmits full c.finished.length c.current (item :: rest) := by
        refine ⟨hfits, fun other later heq _ => ?_⟩
        rw [List.cons.injEq] at heq
        exact heq.1 ▸ hfull
      obtain ⟨groups', hgroups, hcut'⟩ := cutInto_turn hmarks (fun _ => hadmits) hcut
      exact ⟨groups', hd.trans hgroups, hcut'⟩
  | @stay c d item rest hmark hfits' _ ih =>
      have hmarks' : ∀ other ∈ (c.push item).current, ¬ other.isMark := by
        rw [push, List.forall_mem_append]
        exact ⟨hmarks, by simpa using hmark⟩
      obtain ⟨groups, hd, hcut⟩ := ih hmarks' fun _ => hfits'
      exact ⟨groups, hd, by simpa [push] using hcut⟩

end Folio.Paginate
