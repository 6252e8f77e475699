import Mathlib.Data.List.Forall2
import Folio.Proofs.Paginate.Greedy

/-!
Who places items greedily falls behind. Two ways to place the same items are compared item by item:
their pages begin at different items, but no item stands on a later page where the items are placed
greedily than where pages are finished earlier than they have to be, or have less room. So no way to
place the items takes fewer pages.
-/
namespace Folio.Paginate

/-- For each item of some flows, in order, the index of the flow in which it stands. -/
def pageIndices (flows : List (List Node)) : List Nat :=
  (flows.mapIdx fun i flow => List.replicate flow.length i).flatten

theorem pageIndices_concat (flows : List (List Node)) (flow : List Node) :
    pageIndices (flows ++ [flow]) =
      pageIndices flows ++ List.replicate flow.length flows.length := by
  simp [pageIndices, List.mapIdx_append]

namespace Cut

/-- An item that is placed stands on the page under way. -/
theorem pageIndices_push (c : Cut) (item : Node) :
    pageIndices (c.push item).flows = pageIndices c.flows ++ [c.finished.length] := by
  rw [flows, flows, pageIndices_concat, pageIndices_concat, push, List.length_append,
    List.length_singleton, List.replicate_succ', List.append_assoc]

theorem pageIndices_turn (c : Cut) : pageIndices c.turn.flows = pageIndices c.flows := by
  rcases eq_or_ne c.current [] with hempty | hne
  · rw [turn_of_nil hempty]
  · rw [turn_of_ne_nil hne, flows, pageIndices_concat, List.length_nil, List.replicate_zero,
      List.append_nil, flows]

theorem length_finished_turn {c : Cut} (h : c.current ≠ []) :
    c.turn.finished.length = c.finished.length + 1 := by
  rw [turn_of_ne_nil h, List.length_append, List.length_singleton]

theorem turn_turn (c : Cut) : c.turn.turn = c.turn :=
  turn_of_nil c.current_turn

/-- Items are placed in some way: a page is finished at a mark, or before any item; it has to be
finished before an item that is too much for it, unless it has none yet. -/
inductive Places (full : Nat → List Node → Bool) : Cut → List Node → Cut → Prop
  | done (c : Cut) : Places full c [] c
  | mark {c d : Cut} {item : Node} {rest : List Node} (hmark : item.isMark)
      (hrest : Places full c.turn rest d) : Places full c (item :: rest) d
  | turn {c d : Cut} {item : Node} {rest : List Node} (hmark : ¬ item.isMark)
      (hrest : Places full (c.turn.push item) rest d) : Places full c (item :: rest) d
  | stay {c d : Cut} {item : Node} {rest : List Node} (hmark : ¬ item.isMark)
      (hfits : c.current ≠ [] → full c.finished.length (c.current ++ [item]) = false)
      (hrest : Places full (c.push item) rest d) : Places full c (item :: rest) d

theorem Steps.places {full : Nat → List Node → Bool} {items : List Node} {c d : Cut}
    (h : Steps full c items d) : Places full c items d := by
  induction h with
  | done c => exact Places.done c
  | mark hmark _ ih => exact Places.mark hmark ih
  | turn hmark _ _ ih => exact Places.turn hmark ih
  | stay hmark hfits _ ih => exact Places.stay hmark (fun _ => hfits) ih

/-- No item that was placed by the second cut stands on an earlier page than by the first one. And
the second cut is as far as the first one: it has finished more pages, or as many, and then its
page under way was begun at the same item or before. -/
structure Behind (c d : Cut) : Prop where
  placed : List.Forall₂ (· ≤ ·) (pageIndices c.flows) (pageIndices d.flows)
  far : c.finished.length < d.finished.length ∨
    c.finished.length = d.finished.length ∧ c.current <:+ d.current

namespace Behind

variable {c d cut cut' : Cut} {items : List Node}

theorem refl (c : Cut) : c.Behind c :=
  ⟨List.forall₂_refl _, Or.inr ⟨rfl, List.suffix_refl _⟩⟩

theorem length_le (h : c.Behind d) : c.finished.length ≤ d.finished.length := by
  rcases h.far with hless | ⟨hequal, -⟩
  · exact hless.le
  · exact hequal.le

theorem push (h : c.Behind d) (item : Node) : (c.push item).Behind (d.push item) := by
  constructor
  · rw [pageIndices_push, pageIndices_push]
    exact List.rel_append h.placed (List.Forall₂.cons h.length_le List.Forall₂.nil)
  · refine h.far.imp_right fun ⟨hequal, hsuffix⟩ => ⟨hequal, ?_⟩
    obtain ⟨before, hbefore⟩ := hsuffix
    exact ⟨before, by rw [Cut.push, Cut.push, ← hbefore, List.append_assoc]⟩

theorem turn_right (h : c.Behind d) : c.Behind d.turn := by
  by_cases hempty : d.current = []
  · rwa [turn_of_nil hempty]
  · constructor
    · rw [pageIndices_turn]
      exact h.placed
    · rw [length_finished_turn hempty]
      exact Or.inl (Nat.lt_succ_of_le h.length_le)

/-- A cut with fewer finished pages may finish one more. -/
theorem turn_left (h : c.Behind d) (hless : c.finished.length < d.finished.length) :
    c.turn.Behind d := by
  by_cases hempty : c.current = []
  · rwa [turn_of_nil hempty]
  · constructor
    · rw [pageIndices_turn]
      exact h.placed
    · rw [length_finished_turn hempty, current_turn]
      exact (Nat.lt_or_eq_of_le hless).imp_right fun hequal => ⟨hequal, List.nil_suffix⟩

theorem turn (h : c.Behind d) : c.turn.Behind d.turn := by
  rcases h.far with hless | ⟨hequal, hsuffix⟩
  · exact (h.turn_left hless).turn_right
  · by_cases hempty : c.current = []
    · rw [turn_of_nil hempty]
      exact h.turn_right
    · have hother : d.current ≠ [] := fun hnil => hempty (List.suffix_nil.1 (hnil ▸ hsuffix))
      constructor
      · rw [pageIndices_turn, pageIndices_turn]
        exact h.placed
      · rw [length_finished_turn hempty, length_finished_turn hother, hequal, current_turn,
          current_turn]
        exact Or.inr ⟨rfl, List.suffix_refl _⟩

/-- What is too much for a page is too much for the page of the same index that has less room and
holds the same items and others before them. -/
theorem turn_left_of_full {full full' : Nat → List Node → Bool} {item : Node} (h : c.Behind d)
    (hfull : ∀ before group, d.current ++ [item] = before ++ group →
      full c.finished.length group → full' c.finished.length (before ++ group))
    (hover : full c.finished.length (c.current ++ [item]) = true)
    (hfits : d.current ≠ [] → full' d.finished.length (d.current ++ [item]) = false) :
    c.turn.Behind d := by
  by_cases hempty : c.current = []
  · rwa [turn_of_nil hempty]
  · refine h.turn_left (h.far.resolve_right ?_)
    rintro ⟨hequal, before, hbefore⟩
    have hother : d.current ≠ [] := by
      rw [← hbefore]
      exact List.append_ne_nil_of_right_ne_nil before hempty
    have hsame : d.current ++ [item] = before ++ (c.current ++ [item]) := by
      rw [← List.append_assoc, hbefore]
    have hover' := hfull before (c.current ++ [item]) hsame hover
    rw [← hsame, hequal, hfits hother] at hover'
    contradiction

/-- Of two ways to place the same items, the greedy one falls behind the one with less room. -/
theorem run {full full' : Nat → List Node → Bool} (good : Node → Prop)
    (hfull : ∀ k before group, (∀ node ∈ before ++ group, good node) → full k group →
      full' k (before ++ group))
    (h : c.Behind d) (hcurrent : ∀ node ∈ d.current, good node)
    (hitems : ∀ item ∈ items, good item) (hsteps : Steps full c items cut)
    (hplaces : Places full' d items cut') : cut.Behind cut' := by
  induction hsteps generalizing d with
  | done c =>
      cases hplaces
      exact h
  | @mark c cut item rest hmark _ ih =>
      have hrest := (List.forall_mem_cons.1 hitems).2
      cases hplaces with
      | mark _ hplaces => exact ih h.turn (by simp [current_turn]) hrest hplaces
      | turn hnot => exact absurd hmark hnot
      | stay hnot => exact absurd hmark hnot
  | @turn c cut item rest hmark hover _ ih =>
      obtain ⟨hitem, hrest⟩ := List.forall_mem_cons.1 hitems
      cases hplaces with
      | mark hmark' => exact absurd hmark' hmark
      | turn _ hplaces =>
          exact ih (h.turn.push item) (by simpa [Cut.push, current_turn] using hitem) hrest hplaces
      | stay _ hfits hplaces =>
          have hgood : ∀ node ∈ d.current ++ [item], good node :=
            List.forall_mem_append.2 ⟨hcurrent, by simpa using hitem⟩
          have hbehind := h.turn_left_of_full
            (fun before group hsame => hfull _ before group (hsame ▸ hgood)) hover hfits
          exact ih (hbehind.push item) hgood hrest hplaces
  | @stay c cut item rest hmark _ _ ih =>
      obtain ⟨hitem, hrest⟩ := List.forall_mem_cons.1 hitems
      cases hplaces with
      | mark hmark' => exact absurd hmark' hmark
      | turn _ hplaces =>
          exact ih (h.turn_right.push item) (by simpa [Cut.push, current_turn] using hitem) hrest
            hplaces
      | stay _ _ hplaces =>
          have hgood : ∀ node ∈ d.current ++ [item], good node :=
            List.forall_mem_append.2 ⟨hcurrent, by simpa using hitem⟩
          exact ih (h.push item) hgood hrest hplaces

end Behind

section Fewest

variable {full : Nat → List Node → Bool} {good : Node → Prop}
  (hgrow : ∀ k left group right, (∀ node ∈ left ++ group ++ right, good node) → full k group →
    full k (left ++ group ++ right))
include hgrow

/-- The items of a group that is not too much for its page can be placed on it. -/
theorem places_append {group rest : List Node} {c d : Cut}
    (hgood : ∀ item ∈ c.current ++ group, good item) (hmarks : ∀ item ∈ group, ¬ item.isMark)
    (hfits : group ≠ [] → full c.finished.length (c.current ++ group) = false)
    (hrest : Places full { c with current := c.current ++ group } rest d) :
    Places full c (group ++ rest) d := by
  induction group generalizing c with
  | nil => simpa using hrest
  | cons item group ih =>
      obtain ⟨hmark, hmarks⟩ := List.forall_mem_cons.1 hmarks
      have hall := hfits (by simp)
      rw [List.append_cons] at hall hgood hrest
      have hitem : full c.finished.length (c.current ++ [item]) = false := by
        by_contra hover
        have hmore := hgrow _ [] (c.current ++ [item]) group hgood (by simpa using hover)
        rw [List.nil_append, hall] at hmore
        contradiction
      exact Places.stay hmark (fun _ => hitem) (ih hgood hmarks (fun _ => hall) hrest)

/-- Items that are cut into groups can be placed on as many pages. -/
theorem exists_places {k : Nat} {items : List Node} {groups : List (List Node)}
    (hgood : ∀ item ∈ items, good item)
    (hcut : CutInto (fun k group _ => 2 ≤ group.length → full k group = false) k items groups)
    {c : Cut} (hc : c.turn.finished.length = k) :
    ∃ d, Places full c items d ∧ d.turn.finished.length = k + groups.length := by
  induction hcut generalizing c with
  | done k => exact ⟨c, Places.done c, hc⟩
  | @mark k item rest groups hmark _ ih =>
      obtain ⟨d, hd, hlength⟩ := ih (List.forall_mem_cons.1 hgood).2 (c := c.turn)
        (by rw [turn_turn, hc])
      exact ⟨d, Places.mark hmark hd, hlength⟩
  | @group k group rest groups hne hmarks hfits _ ih =>
      obtain ⟨hgroup, hrest⟩ := List.forall_mem_append.1 hgood
      obtain ⟨item, more, rfl⟩ := List.exists_cons_of_ne_nil hne
      obtain ⟨d, hd, hlength⟩ := ih hrest (c := ⟨c.turn.finished, item :: more⟩)
        (by rw [length_finished_turn (by simp), hc])
      refine ⟨d, ?_, by rw [hlength, List.length_cons]; omega⟩
      refine Places.turn (hmarks item List.mem_cons_self) ?_
      refine places_append hgrow (by simpa [push, current_turn] using hgroup)
        (fun other hother => hmarks other (List.mem_cons_of_mem item hother)) (fun hmore => ?_) ?_
      · rw [push, current_turn]
        dsimp only
        rw [hc]
        refine hfits ?_
        rw [List.length_cons]
        have := List.length_pos_of_ne_nil hmore
        omega
      · rw [push, current_turn]
        exact hd

/-- No way to cut the items into groups takes fewer pages than to place them greedily. -/
theorem Steps.length_le {items : List Node} {groups : List (List Node)} {d : Cut}
    (h : Steps full Cut.start items d) (hgood : ∀ item ∈ items, good item)
    (hcut : CutInto (fun k group _ => 2 ≤ group.length → full k group = false) 0 items groups) :
    d.turn.finished.length ≤ groups.length := by
  obtain ⟨e, he, hlength⟩ := exists_places hgrow hgood hcut (c := Cut.start) rfl
  have hbehind : d.Behind e := (Behind.refl Cut.start).run good
    (fun k before group hnodes hover => by
      simpa using hgrow k before group [] (by simpa using hnodes) hover)
    (by simp [Cut.start]) hgood h he
  have hle := hbehind.turn.length_le
  omega

end Fewest

end Cut

end Folio.Paginate
