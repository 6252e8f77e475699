import Mathlib.Data.List.Forall2
import Folio.Markup.Node
import Folio.Proofs.Outcomes

/-!
Building a tree inside an element. Events whose end tags all close something of their own build the
same nodes inside an element as by themselves, whatever stands before them in it.
-/
namespace Folio.Markup

/-- An element that was opened before, what is finished outside it, and the void elements whose end
tags were to be passed over when it was opened. -/
structure Surroundings where
  element : OpenElement
  done : List Node
  passed : List Chars

/-- Blank text inside the element is not kept as it is, and only end tags of void elements are to
be passed over. -/
structure Surroundings.Plain (o : Surroundings) : Prop where
  blanks : keepsBlanks o.element.name = false
  passed : ∀ name ∈ o.passed, isVoid name

namespace Builder

/-- The same tree under construction, inside an element. -/
def within (b : Builder) (o : Surroundings) : Builder where
  opened := b.opened ++ [{ o.element with children := b.done ++ o.element.children }]
  done := o.done
  pending := b.pending
  passed := b.passed ++ o.passed

/-- The names of the open elements. -/
def names (b : Builder) : List Chars := b.opened.map OpenElement.name

/-- Void elements are not open, and only their end tags are passed over. -/
structure Sound (b : Builder) : Prop where
  opened : ∀ name ∈ b.names, isVoid name = false
  passed : ∀ name ∈ b.passed, isVoid name

/-- Whether an end tag has something to close: an open element, or a void element before it. -/
def expects (b : Builder) : Event → Bool
  | .close name => b.passed.contains name || b.opened.any fun e => e.name == name
  | _ => true

section Steps

variable {b : Builder} {o : Surroundings}

theorem sound_empty : empty.Sound :=
  ⟨fun _ hname => absurd hname List.not_mem_nil, fun _ hname => absurd hname List.not_mem_nil⟩

/-- No other element is opened, and no other end tag is to be passed over. -/
theorem Sound.of_subset {b' : Builder} (h : b.Sound) (hopened : b'.names ⊆ b.names)
    (hpassed : b'.passed ⊆ b.passed) : b'.Sound :=
  ⟨fun name hname => h.opened name (hopened hname), fun name hname => h.passed name (hpassed hname)⟩

theorem Sound.of_eq {b' : Builder} (h : b.Sound) (hopened : b'.names = b.names)
    (hpassed : b'.passed = b.passed) : b'.Sound :=
  ⟨hopened ▸ h.opened, hpassed ▸ h.passed⟩

@[simp] theorem add_passed (b : Builder) (node : Node) : (b.add node).passed = b.passed := by
  unfold add
  split <;> rfl

/-- Only the children of an open element change. -/
@[simp] theorem add_names (b : Builder) (node : Node) : (b.add node).names = b.names := by
  unfold add names
  split
  · rename_i hnil
    rw [hnil]
  · rename_i hcons
    rw [hcons]
    rfl

@[simp] theorem flush_pending (b : Builder) (kind : TextKind) : (b.flush kind).pending = none := by
  unfold flush
  split
  · assumption
  · unfold add
    split <;> rfl

@[simp] theorem flush_passed (b : Builder) (kind : TextKind) : (b.flush kind).passed = b.passed := by
  unfold flush
  split
  · rfl
  · rw [add_passed]

@[simp] theorem flush_names (b : Builder) (kind : TextKind) : (b.flush kind).names = b.names := by
  unfold flush
  split
  · rfl
  · rw [add_names]
    rfl

@[simp] theorem special_passed (b : Builder) (kind : TextKind) (text : Chars) :
    (b.special kind text).passed = b.passed := by
  rw [special, flush_passed]
  exact flush_passed b .plain

@[simp] theorem special_names (b : Builder) (kind : TextKind) (text : Chars) :
    (b.special kind text).names = b.names := by
  rw [special, flush_names]
  exact flush_names b .plain

@[simp] theorem closeLast_passed (b : Builder) : b.closeLast.passed = b.passed := by
  unfold closeLast
  split
  · rfl
  · rw [add_passed]

@[simp] theorem closeLast_names (b : Builder) : b.closeLast.names = b.names.tail := by
  unfold closeLast
  split
  · rename_i hnil
    rw [names, hnil]
    rfl
  · rename_i hcons
    rw [add_names, names, names, hcons]
    rfl

theorem closeTo_passed (name : Chars) (n : Nat) (b : Builder) :
    (closeTo name n b).passed = b.passed := by
  induction n generalizing b with
  | zero => rfl
  | succ n ih =>
      rw [closeTo]
      split
      · rfl
      · split
        · exact closeLast_passed b
        · rw [ih, closeLast_passed]

theorem closeTo_names (name : Chars) (n : Nat) (b : Builder) :
    (closeTo name n b).names ⊆ b.names := by
  induction n generalizing b with
  | zero => exact List.Subset.refl _
  | succ n ih =>
      rw [closeTo]
      split
      · exact List.Subset.refl _
      · have htail : b.closeLast.names ⊆ b.names := by
          rw [closeLast_names]
          exact (List.tail_sublist _).subset
        split
        · exact htail
        · exact List.Subset.trans (ih b.closeLast) htail

theorem within_add (b : Builder) (o : Surroundings) (node : Node) :
    (b.add node).within o = (b.within o).add node := by
  obtain ⟨opened, done, pending, passed⟩ := b
  cases opened <;> rfl

theorem within_collapse (ho : o.Plain) (b : Builder) (text : Chars) :
    (b.within o).collapse text = b.collapse text := by
  simp [collapse, within, ho.blanks]

theorem within_flush (ho : o.Plain) (b : Builder) (kind : TextKind) :
    (b.flush kind).within o = (b.within o).flush kind := by
  have hpending : (b.within o).pending = b.pending := rfl
  rw [flush, flush, hpending]
  cases b.pending with
  | none => rfl
  | some text =>
      dsimp only
      rw [within_add, within_collapse ho]
      rfl

theorem within_special (ho : o.Plain) (b : Builder) (kind : TextKind) (text : Chars) :
    (b.special kind text).within o = (b.within o).special kind text := by
  rw [special, special, within_flush ho, ← within_flush ho b .plain]
  rfl

theorem within_closeLast (hopened : b.names ≠ []) :
    b.closeLast.within o = (b.within o).closeLast := by
  obtain ⟨_ | ⟨e, rest⟩, done, pending, passed⟩ := b
  · exact absurd rfl hopened
  · exact within_add ⟨rest, done, pending, passed⟩ o _

theorem closeTo_cons {e : OpenElement} {rest : List OpenElement} (h : b.opened = e :: rest)
    (name : Chars) (n : Nat) : closeTo name (n + 1) b =
      if e.name == name then b.closeLast else closeTo name n b.closeLast := by
  rw [closeTo, h]

/-- To close up to an element that is open changes nothing outside. -/
theorem within_closeTo {name : Chars} {n m : Nat} (hopened : name ∈ b.names)
    (hn : b.names.length ≤ n) (hm : b.names.length ≤ m) :
    (closeTo name n b).within o = closeTo name m (b.within o) := by
  induction n generalizing b m with
  | zero =>
      have hpositive := List.length_pos_of_mem hopened
      omega
  | succ n ih =>
      have hpositive := List.length_pos_of_mem hopened
      have hclose := within_closeLast (o := o) (List.ne_nil_of_mem hopened)
      obtain ⟨m, rfl⟩ : ∃ less, m = less + 1 := ⟨m - 1, by omega⟩
      obtain ⟨e, rest, hcons⟩ : ∃ e rest, b.opened = e :: rest :=
        List.exists_cons_of_ne_nil fun hnil => by simp [names, hnil] at hopened
      have hcons' : (b.within o).opened = e :: (rest ++
          [{ o.element with children := b.done ++ o.element.children }]) := by
        rw [within, hcons]
        rfl
      rw [closeTo_cons hcons, closeTo_cons hcons']
      split
      · exact hclose
      · rename_i hne
        have hnames : b.names = e.name :: b.closeLast.names := by
          rw [closeLast_names, names, hcons]
          rfl
        rw [hnames, List.length_cons] at hn hm
        rw [hnames] at hopened
        have hlater : name ∈ b.closeLast.names := by
          refine (List.mem_cons.1 hopened).resolve_left ?_
          rintro rfl
          exact hne (beq_self_eq_true _)
        rw [ih hlater (Nat.le_of_succ_le_succ hn) (Nat.le_of_succ_le_succ hm), hclose]

theorem mem_names_iff {name : Chars} :
    (b.opened.any fun e => e.name == name) = true ↔ name ∈ b.names := by
  simp [names]

/-- An end tag that has something to close. -/
theorem within_close (ho : o.Plain) (hb : b.Sound) {name : Chars}
    (hexpects : b.expects (.close name)) : (b.close name).within o = (b.within o).close name := by
  unfold close
  have hpassed : (b.within o).passed = b.passed ++ o.passed := rfl
  rw [hpassed]
  by_cases hpass : name ∈ b.passed
  · rw [List.contains_iff_mem.2 hpass, List.contains_iff_mem.2 (List.mem_append_left _ hpass),
      if_pos rfl, if_pos rfl]
    simp only [within, List.erase_append_left _ hpass]
  · have hopened : name ∈ b.names := by
      rw [expects, Bool.or_eq_true, List.contains_iff_mem] at hexpects
      exact mem_names_iff.1 (hexpects.resolve_left hpass)
    have hnot : name ∉ b.passed ++ o.passed := by
      rw [List.mem_append, not_or]
      refine ⟨hpass, fun hmem => ?_⟩
      have hvoid := ho.passed name hmem
      rw [hb.opened name hopened] at hvoid
      contradiction
    have hflush := (flush_names b .plain).symm ▸ hopened
    have hinside : name ∈ ((b.within o).flush .plain).names := by
      rw [flush_names, names, within, List.map_append]
      exact List.mem_append_left _ hopened
    rw [← List.contains_iff_mem] at hpass hnot
    dsimp only
    rw [if_neg hpass, if_neg hnot, if_pos (mem_names_iff.2 hflush),
      if_pos (mem_names_iff.2 hinside), ← within_flush ho]
    refine within_closeTo hflush ?_ ?_
    · exact Nat.le_of_eq (List.length_map _)
    · rw [names, List.length_map, within, List.length_append]
      exact Nat.le_add_right _ _

theorem within_start (ho : o.Plain) (b : Builder) (tag : StartTag) :
    (b.start tag).within o = (b.within o).start tag := by
  unfold start
  dsimp only
  split
  · rw [within_add, within_flush ho]
  · split
    · rw [← within_flush ho, ← within_add]
      rfl
    · rw [← within_flush ho]
      rfl

/-- One event inside an element. -/
theorem within_event (ho : o.Plain) (hb : b.Sound) {event : Event} (hexpects : b.expects event) :
    (b.within o).event event = (b.event event).map (·.within o) := by
  cases event with
  | text content => rfl
  | reference r =>
      rw [Builder.event, Builder.event]
      cases referenceText r <;> rfl
  | start tag => exact congrArg Except.ok (within_start ho b tag).symm
  | close name => exact congrArg Except.ok (within_close ho hb hexpects).symm
  | comment content => exact congrArg Except.ok (within_special ho b _ _).symm
  | doctype content => exact congrArg Except.ok (within_special ho b _ _).symm
  | instruction content => exact congrArg Except.ok (within_special ho b _ _).symm
  | marked content => exact congrArg Except.ok (within_special ho b _ _).symm

theorem Sound.close (hb : b.Sound) (name : Chars) : (b.close name).Sound := by
  unfold Builder.close
  split
  · exact hb.of_subset (List.Subset.refl _) (List.erase_subset)
  · have hflush : (b.flush .plain).Sound :=
      hb.of_eq (flush_names b _) (flush_passed b _)
    dsimp only
    split
    · refine hflush.of_subset (closeTo_names _ _ _) ?_
      rw [closeTo_passed]
      exact List.Subset.refl _
    · exact hflush

theorem Sound.start (hb : b.Sound) (tag : StartTag) : (b.start tag).Sound := by
  have hflush : (b.flush .plain).Sound :=
    hb.of_eq (flush_names b _) (flush_passed b _)
  unfold Builder.start
  dsimp only
  split
  · exact hflush.of_eq (add_names _ _) (add_passed _ _)
  · split
    · rename_i hvoid
      constructor
      · intro name hname
        exact hflush.opened name (add_names _ _ ▸ hname)
      · intro name hname
        rcases List.mem_cons.1 hname with rfl | hold
        · exact hvoid
        · exact hflush.passed name hold
    · rename_i hvoid
      constructor
      · intro name hname
        rcases List.mem_cons.1 hname with rfl | hold
        · exact Bool.eq_false_iff.2 hvoid
        · exact hflush.opened name hold
      · exact hflush.passed

theorem Sound.event (hb : b.Sound) {event : Event} {b' : Builder} (h : b.event event = .ok b') :
    b'.Sound := by
  have hspecial : ∀ kind text, (b.special kind text).Sound := fun kind text =>
    hb.of_eq (special_names b kind text) (special_passed b kind text)
  cases event with
  | text content => exact Except.ok.inj h ▸ hb.of_eq rfl rfl
  | reference r =>
      obtain ⟨text, -, rfl⟩ := exists_of_map_eq_ok h
      exact hb.of_eq rfl rfl
  | start tag => exact Except.ok.inj h ▸ hb.start tag
  | close name => exact Except.ok.inj h ▸ hb.close name
  | comment content => exact Except.ok.inj h ▸ hspecial _ _
  | doctype content => exact Except.ok.inj h ▸ hspecial _ _
  | instruction content => exact Except.ok.inj h ▸ hspecial _ _
  | marked content => exact Except.ok.inj h ▸ hspecial _ _

end Steps

end Builder

/-- Every end tag among some events has something to close when it comes. -/
def endTagsMatch : Builder → List Event → Bool
  | _, [] => true
  | b, event :: rest => b.expects event && match b.event event with
      | .ok b => endTagsMatch b rest
      | .error _ => true

section Runs

variable {b b' : Builder} {o : Surroundings} {events : List Event}

/-- Some events inside an element. -/
theorem foldlM_within (ho : o.Plain) (hb : b.Sound) (hmatch : endTagsMatch b events)
    (h : events.foldlM Builder.event b = .ok b') :
    events.foldlM Builder.event (b.within o) = .ok (b'.within o) ∧ b'.Sound := by
  induction events generalizing b with
  | nil =>
      obtain rfl := Except.ok.inj h
      exact ⟨rfl, hb⟩
  | cons event events ih =>
      rw [List.foldlM_cons] at h
      obtain ⟨next, hnext, h⟩ := exists_of_bind_eq_ok h
      rw [endTagsMatch, hnext, Bool.and_eq_true] at hmatch
      obtain ⟨hrun, hsound⟩ := ih (hb.event hnext) hmatch.2 h
      refine ⟨?_, hsound⟩
      rw [List.foldlM_cons, Builder.within_event ho hb hmatch.1, hnext]
      exact hrun

/-- The events build the nodes by themselves: a start tag comes first, every end tag closes
something, and nothing is left open. -/
structure StandsAlone (events : List Event) (nodes : List Node) : Prop where
  head : ∃ tag more, events = .start tag :: more
  matched : endTagsMatch .empty events
  built : ∃ b, events.foldlM Builder.event .empty = .ok b ∧ b.opened = [] ∧
    nodes = (b.flush .plain).done.reverse

theorem flush_opened_nil (h : b.opened = []) : (b.flush .plain).opened = [] := by
  have hnames := Builder.flush_names b .plain
  rw [Builder.names, Builder.names, h, List.map_nil] at hnames
  exact List.map_eq_nil_iff.1 hnames

theorem StandsAlone.ofEvents {nodes : List Node} (h : StandsAlone events nodes) :
    Node.ofEvents events = .ok nodes := by
  obtain ⟨b, hrun, hopened, rfl⟩ := h.built
  rw [Node.ofEvents, hrun]
  refine congrArg Except.ok ?_
  rw [Builder.finish, flush_opened_nil hopened, List.foldl_nil]

/-- A start tag ends the text before it. -/
theorem start_flush (b : Builder) (tag : StartTag) : (b.flush .plain).start tag = b.start tag := by
  have htwice : (b.flush .plain).flush .plain = b.flush .plain := by
    rw [Builder.flush, Builder.flush_pending]
  rw [Builder.start, htwice]
  rfl

/-- The surroundings of what comes after some nodes in the same element. -/
def Surroundings.after (o : Surroundings) (nodes : List Node) (passed : List Chars) :
    Surroundings where
  element := { o.element with children := nodes.reverse ++ o.element.children }
  done := o.done
  passed := passed

/-- Nodes that are built by themselves are built inside an element, after the text before them. -/
theorem StandsAlone.inside {nodes : List Node} (h : StandsAlone events nodes) (ho : o.Plain)
    {c : Builder} (hc : c.flush .plain = Builder.empty.within o) :
    ∃ c' passed, events.foldlM Builder.event c = .ok c' ∧ (o.after nodes passed).Plain ∧
      c'.flush .plain = Builder.empty.within (o.after nodes passed) := by
  obtain ⟨b, hrun, hopened, rfl⟩ := h.built
  obtain ⟨tag, more, hcons⟩ := h.head
  obtain ⟨hinside, hsound⟩ := foldlM_within ho Builder.sound_empty h.matched hrun
  refine ⟨b.within o, b.passed ++ o.passed, ?_, ⟨ho.blanks, ?_⟩, ?_⟩
  · rw [← hinside, hcons, List.foldlM_cons, List.foldlM_cons, Builder.event, Builder.event, ← hc,
      start_flush]
  · intro name hname
    rcases List.mem_append.1 hname with hown | houter
    · exact hsound.passed name hown
    · exact ho.passed name houter
  · rw [← Builder.within_flush ho, Builder.within, flush_opened_nil hopened,
      Builder.flush_pending, Builder.flush_passed]
    simp [Builder.within, Builder.empty, Surroundings.after]

/-- One after the other. -/
theorem StandsAlone.all_inside {parts : List (List Event)} {trees : List (List Node)}
    (h : List.Forall₂ StandsAlone parts trees) (ho : o.Plain) {c : Builder}
    (hc : c.flush .plain = Builder.empty.within o) :
    ∃ c' passed, parts.flatten.foldlM Builder.event c = .ok c' ∧
      (o.after trees.flatten passed).Plain ∧
      c'.flush .plain = Builder.empty.within (o.after trees.flatten passed) := by
  induction h generalizing o c with
  | nil => exact ⟨c, o.passed, rfl, ⟨ho.blanks, ho.passed⟩, hc⟩
  | @cons events nodes parts trees hfirst _ ih =>
      obtain ⟨next, passed, hrun, hplain, hnext⟩ := hfirst.inside ho hc
      obtain ⟨last, passed', hrest, hplain', hlast⟩ := ih hplain hnext
      have hafter : (o.after nodes passed).after trees.flatten passed' =
          o.after (nodes :: trees).flatten passed' := by
        simp [Surroundings.after]
      rw [hafter] at hplain' hlast
      refine ⟨last, passed', ?_, hplain', hlast⟩
      rw [List.flatten_cons, List.foldlM_append, hrun]
      exact hrest

/-- The events build the node after any others at the top of a tree. -/
def BuildsNode (events : List Event) (node : Node) : Prop :=
  ∀ done passed, (∀ name ∈ passed, isVoid name) → ∃ passed', (∀ name ∈ passed', isVoid name) ∧
    events.foldlM Builder.event ⟨[], done, none, passed⟩ = .ok ⟨[], node :: done, none, passed'⟩

/-- An element around parts that are built by themselves. -/
theorem buildsNode_element {tag : StartTag} (hopen : tag.selfClosing = false)
    (hvoid : isVoid tag.name = false) (hblanks : keepsBlanks tag.name = false)
    {parts : List (List Event)} {trees : List (List Node)}
    (h : List.Forall₂ StandsAlone parts trees) :
    BuildsNode (.start tag :: (parts.flatten ++ [.close tag.name]))
      (.element tag.name (treeAttributes tag.attrs) trees.flatten) := by
  intro done passed hpassed
  let o : Surroundings := ⟨⟨tag.name, treeAttributes tag.attrs, []⟩, done, passed⟩
  have hstart : Builder.start ⟨[], done, none, passed⟩ tag = Builder.empty.within o := by
    simp [Builder.start, Builder.flush, hopen, hvoid, Builder.within, Builder.empty, o]
  obtain ⟨last, passed', hrun, hplain, hlast⟩ :=
    StandsAlone.all_inside h (o := o) ⟨hblanks, hpassed⟩ (c := Builder.empty.within o) rfl
  refine ⟨passed', hplain.passed, ?_⟩
  have hnot : ¬ last.passed.contains tag.name = true := by
    rw [← Builder.flush_passed last .plain, hlast, List.contains_iff_mem]
    intro hmem
    have hname := hplain.passed tag.name hmem
    rw [hvoid] at hname
    contradiction
  have hclose : last.close tag.name =
      ⟨[], .element tag.name (treeAttributes tag.attrs) trees.flatten :: done, none, passed'⟩ := by
    rw [Builder.close, if_neg hnot, hlast]
    simp [Builder.within, Builder.empty, Surroundings.after, Builder.closeTo, Builder.closeLast,
      Builder.add, o]
  rw [List.foldlM_cons, Builder.event, hstart]
  change List.foldlM Builder.event (Builder.empty.within o) _ = _
  rw [List.foldlM_append, hrun]
  change List.foldlM Builder.event last _ = _
  rw [List.foldlM_cons, Builder.event, hclose]
  rfl

/-- The nodes at the top of a tree. -/
theorem BuildsNode.ofEvents {groups : List (List Event)} {nodes : List Node}
    (h : List.Forall₂ BuildsNode groups nodes) : Node.ofEvents groups.flatten = .ok nodes := by
  have hrun : ∀ done passed, (∀ name ∈ passed, isVoid name) → ∃ passed',
      groups.flatten.foldlM Builder.event ⟨[], done, none, passed⟩ =
        .ok ⟨[], nodes.reverse ++ done, none, passed'⟩ := by
    induction h with
    | nil => exact fun done passed _ => ⟨passed, rfl⟩
    | @cons events node groups nodes hfirst _ ih =>
        intro done passed hpassed
        obtain ⟨next, hnext, hevents⟩ := hfirst done passed hpassed
        obtain ⟨last, hlast⟩ := ih (node :: done) next hnext
        refine ⟨last, ?_⟩
        rw [List.flatten_cons, List.foldlM_append, hevents, List.reverse_cons, List.append_assoc]
        exact hlast
  obtain ⟨passed, hevents⟩ := hrun [] [] fun _ hname => absurd hname List.not_mem_nil
  rw [Node.ofEvents, Builder.empty, hevents, List.append_nil]
  refine congrArg Except.ok ?_
  rw [Builder.finish, Builder.flush]
  exact List.reverse_reverse nodes

end Runs

end Folio.Markup
