import Folio.Proofs.Markup.WrittenNodes

/-!
A tree that is written and read again. Its start tags are read in their order, each raw text with
its element, and where every end tag is read with the name that it was written with, the elements
are nested as they were.
-/
namespace Folio.Markup

/-- The elements of a tree under construction: those that are open, the innermost first, with the
outlines of what is in them, and the outlines of those that are finished. -/
structure Shape where
  opened : List (Chars × List (Chars × Chars) × List Outline)
  done : List Outline

/-- Adds outlines to the innermost open element. -/
def Shape.add (s : Shape) (os : List Outline) : Shape :=
  match s.opened with
  | [] => { s with done := s.done ++ os }
  | (name, attrs, inside) :: rest => { s with opened := (name, attrs, inside ++ os) :: rest }

theorem Shape.add_nil (s : Shape) : s.add [] = s := by
  obtain ⟨_ | ⟨⟨name, attrs, inside⟩, rest⟩, done⟩ := s <;> simp [add]

theorem Shape.add_add (s : Shape) (os more : List Outline) :
    (s.add os).add more = s.add (os ++ more) := by
  obtain ⟨_ | ⟨⟨name, attrs, inside⟩, rest⟩, done⟩ := s <;> simp [add]

namespace Builder

/-- The elements of a tree under construction. -/
def shape (b : Builder) : Shape where
  opened := b.opened.map fun e => (e.name, e.attrs, outlines e.children.reverse)
  done := outlines b.done.reverse

section Shapes

variable {b b' : Builder} {kind : TextKind} {name : Chars} {attrs : List (Chars × Chars)}

theorem shape_add (b : Builder) (node : Node) : (b.add node).shape = b.shape.add node.outline := by
  obtain ⟨_ | ⟨e, rest⟩, done, pending, passed⟩ := b <;>
    simp [shape, add, Shape.add, outlines]

theorem shape_flush (b : Builder) (kind : TextKind) : (b.flush kind).shape = b.shape := by
  unfold flush
  split
  · rfl
  · rw [shape_add]
    exact Shape.add_nil _

theorem shape_special (b : Builder) (kind : TextKind) (text : Chars) :
    (b.special kind text).shape = b.shape := by
  rw [special_eq, shape_add, shape_flush]
  exact Shape.add_nil _

/-- An event that adds text leaves the elements as they are. -/
theorem exists_of_isTextual {e : Event} (he : e.IsTextual) (b : Builder) :
    ∃ b', b.event e = .ok b' ∧ b'.passed = b.passed ∧ b'.shape = b.shape := by
  cases e with
  | start tag => exact he.elim
  | close name => exact he.elim
  | text content => exact ⟨_, rfl, rfl, rfl⟩
  | reference r =>
      cases r with
      | name name => exact ⟨_, rfl, rfl, rfl⟩
      | decimal digits => exact he.elim
      | hexadecimal digits => exact he.elim
  | comment content => exact ⟨_, rfl, special_passed b _ _, shape_special b _ _⟩
  | doctype content => exact ⟨_, rfl, special_passed b _ _, shape_special b _ _⟩
  | instruction content => exact ⟨_, rfl, special_passed b _ _, shape_special b _ _⟩
  | marked content => exact ⟨_, rfl, special_passed b _ _, shape_special b _ _⟩

/-- The end tag of the innermost open element. -/
theorem close_eq_closeLast {e : OpenElement} {rest : List OpenElement} (hopened : b.opened = e :: rest)
    (hpassed : b.passed = []) : b.close e.name = (b.flush .plain).closeLast := by
  obtain ⟨opened, done, pending, passed⟩ := b
  obtain rfl : opened = e :: rest := hopened
  obtain rfl : passed = [] := hpassed
  cases pending <;> simp [close, flush, add, closeTo]

/-- The innermost open element, if it has no text of its own, as it is closed. -/
theorem shape_closeLast {os : List Outline} {rest : List (Chars × List (Chars × Chars) × List Outline)}
    {done : List Outline} (h : b.shape = ⟨(name, attrs, os) :: rest, done⟩)
    (hraw : isRawText name = false) : b.closeLast.shape =
      (⟨rest, done⟩ : Shape).add [.element name (sortAttributes attrs) [] os] := by
  obtain ⟨_ | ⟨e, opened⟩, nodes, pending, passed⟩ := b
  · simp [shape] at h
  · obtain ⟨hopened, rfl⟩ := Shape.mk.inj h
    obtain ⟨he, rfl⟩ := List.cons.inj hopened
    obtain ⟨rfl, heq⟩ := Prod.mk.inj he
    obtain ⟨rfl, rfl⟩ := Prod.mk.inj heq
    change (add ⟨opened, nodes, pending, passed⟩ _).shape = _
    rw [shape_add, Node.outline, hraw]
    rfl

theorem Sound.foldlM {events : List Event} (hb : b.Sound)
    (h : events.foldlM Builder.event b = .ok b') : b'.Sound := by
  induction events generalizing b with
  | nil => exact Except.ok.inj h ▸ hb
  | cons e events ih =>
      rw [List.foldlM_cons] at h
      obtain ⟨next, hnext, h⟩ := exists_of_bind_eq_ok h
      exact ih (hb.event hnext) h

end Shapes

end Builder

/-- The events add elements with these outlines to any tree under construction that waits for no
end tag of a void element. -/
def Builds (events : List Event) (os : List Outline) : Prop :=
  ∀ b : Builder, b.passed = [] → ∃ b', events.foldlM Builder.event b = .ok b' ∧ b'.passed = [] ∧
    b'.shape = b.shape.add os

section Builds

variable {events more : List Event} {os rest : List Outline} {name : Chars}
  {attrs : List (Chars × Chars)} {tag : StartTag}

theorem builds_nil : Builds [] [] := fun b hb => ⟨b, rfl, hb, b.shape.add_nil.symm⟩

theorem Builds.append (h : Builds events os) (hmore : Builds more rest) :
    Builds (events ++ more) (os ++ rest) := by
  intro b hb
  obtain ⟨b', hevents, hb', hshape⟩ := h b hb
  obtain ⟨b'', hevents', hb'', hshape'⟩ := hmore b' hb'
  refine ⟨b'', ?_, hb'', ?_⟩
  · rw [List.foldlM_append, hevents]
    exact hevents'
  · rw [hshape', hshape, Shape.add_add]

/-- Text adds no element. -/
theorem builds_text (h : ∀ e ∈ events, e.IsTextual) : Builds events [] := by
  induction events with
  | nil => exact builds_nil
  | cons e events ih =>
      obtain ⟨he, hlater⟩ := List.forall_mem_cons.1 h
      intro b hb
      obtain ⟨b', hevent, hpassed, hshape⟩ := Builder.exists_of_isTextual he b
      obtain ⟨b'', hevents, hb'', hshape'⟩ := ih hlater b' (hpassed.trans hb)
      refine ⟨b'', ?_, hb'', ?_⟩
      · rw [List.foldlM_cons, hevent]
        exact hevents
      · rw [hshape', hshape]

/-- An element without content. -/
theorem builds_empty (hself : tag.selfClosing = true) : Builds [.start tag]
    [.element tag.name (sortAttributes (treeAttributes tag.attrs)) [] []] := by
  intro b hb
  have hstart : b.start tag =
      (b.flush .plain).add (.element tag.name (treeAttributes tag.attrs) []) := by
    unfold Builder.start
    dsimp only
    rw [if_pos hself]
  have htext : (if isRawText tag.name then shownText (ownText []) else []) = [] := ite_self []
  refine ⟨b.start tag, rfl, ?_, ?_⟩
  · rw [hstart, Builder.add_passed, Builder.flush_passed, hb]
  · rw [hstart, Builder.shape_add, Builder.shape_flush, Node.outline, htext, outlines_nil]

theorem start_open (hself : tag.selfClosing = false) (hvoid : isVoid tag.name = false)
    (b : Builder) : b.start tag = { b.flush .plain with
      opened := ⟨tag.name, treeAttributes tag.attrs, []⟩ :: (b.flush .plain).opened } := by
  unfold Builder.start
  dsimp only
  rw [hself, hvoid, if_neg Bool.false_ne_true, if_neg Bool.false_ne_true]

/-- An element with its content between its tags. -/
theorem Builds.element (hself : tag.selfClosing = false) (hvoid : isVoid tag.name = false)
    (hraw : isRawText tag.name = false) (h : Builds events os) :
    Builds (.start tag :: (events ++ [.close tag.name]))
      [.element tag.name (sortAttributes (treeAttributes tag.attrs)) [] os] := by
  intro b hb
  have hstart := start_open hself hvoid b
  have hpassed : (b.start tag).passed = [] := by
    rw [hstart]
    exact (Builder.flush_passed b .plain).trans hb
  have hopened : (b.start tag).shape = { b.shape with
      opened := (tag.name, treeAttributes tag.attrs, []) :: b.shape.opened } := by
    rw [← Builder.shape_flush b .plain, hstart]
    rfl
  obtain ⟨b', hevents, hb', hshape⟩ := h _ hpassed
  have hinside : b'.shape =
      ⟨(tag.name, treeAttributes tag.attrs, os) :: b.shape.opened, b.shape.done⟩ := by
    rw [hshape, hopened]
    rfl
  obtain ⟨e, rest, hcons, hname⟩ : ∃ e rest, b'.opened = e :: rest ∧ e.name = tag.name := by
    obtain ⟨_ | ⟨e, rest⟩, done, pending, passed⟩ := b'
    · simp [Builder.shape] at hinside
    · exact ⟨e, rest, rfl, congrArg Prod.fst (List.cons.inj (Shape.mk.inj hinside).1).1⟩
  have hclose : b'.close tag.name = (b'.flush .plain).closeLast :=
    hname ▸ Builder.close_eq_closeLast hcons hb'
  refine ⟨b'.close tag.name, ?_, ?_, ?_⟩
  · rw [List.foldlM_cons]
    change (events ++ [Event.close tag.name]).foldlM Builder.event (b.start tag) = _
    rw [List.foldlM_append, hevents]
    rfl
  · rw [hclose, Builder.closeLast_passed, Builder.flush_passed, hb']
  · rw [hclose]
    exact Builder.shape_closeLast ((Builder.shape_flush b' .plain).trans hinside) hraw

/-- Texts that are read one after the other. -/
theorem foldlM_texts (texts : List Chars) (b : Builder) : ∃ b',
    (texts.map Event.text).foldlM Builder.event b = .ok b' ∧ b'.opened = b.opened ∧
      b'.done = b.done ∧ b'.passed = b.passed ∧
        b'.pending.getD [] = b.pending.getD [] ++ texts.flatten := by
  induction texts generalizing b with
  | nil => exact ⟨b, rfl, rfl, rfl, rfl, (List.append_nil _).symm⟩
  | cons text texts ih =>
      obtain ⟨b', hb', hopened, hdone, hpassed, hpending⟩ := ih (b.write text)
      refine ⟨b', hb', hopened, hdone, hpassed, ?_⟩
      rw [hpending, List.flatten_cons, ← List.append_assoc]
      rfl

/-- Blanks may shrink, but they stay blanks. -/
theorem shownText_collapse (b : Builder) (text : Chars) :
    shownText (b.collapse text) = shownText text := by
  unfold Builder.collapse
  split
  · rfl
  · rename_i h
    simp only [Bool.or_eq_true, Bool.not_eq_true', not_or, Bool.not_eq_false] at h
    have hblank : text.all Text.isSpace := h.2
    rw [shownText_of_blank hblank]
    split
    · exact shownText_of_blank (by decide)
    · exact shownText_of_blank (by decide)

theorem shownText_pendingNodes (b : Builder) :
    shownText (ownText (b.pendingNodes .plain)) = shownText (b.pending.getD []) := by
  unfold Builder.pendingNodes
  cases b.pending with
  | none => rfl
  | some text => exact shownText_collapse b text

/-- The end tag of a raw text element closes it with its text. -/
theorem close_raw {b b' : Builder} (hself : tag.selfClosing = false) (hraw : isRawText tag.name)
    (hb : tag.name ∉ b.passed) {texts : List Chars}
    (hb' : (texts.map Event.text).foldlM Builder.event (b.start tag) = .ok b') :
    b'.close tag.name = { b' with opened := (b.flush .plain).opened, pending := none }.add
      (.element tag.name (treeAttributes tag.attrs) (b'.pendingNodes .plain)) ∧
        b'.done = (b.flush .plain).done ∧ b'.passed = b.passed ∧
          shownText (ownText (b'.pendingNodes .plain)) = shownText texts.flatten := by
  have hstart := start_open hself (Builder.not_isVoid_of_isRawText hraw) b
  obtain ⟨last, hlast, hopened, hdone, hpassed, hpending⟩ := foldlM_texts texts (b.start tag)
  obtain rfl := Except.ok.inj (hlast.symm.trans hb')
  rw [hstart] at hopened hdone hpassed hpending
  have hflush : last.passed = b.passed := hpassed.trans (Builder.flush_passed b .plain)
  refine ⟨Builder.close_innermost hopened (hflush ▸ hb), hdone, hflush, ?_⟩
  rw [shownText_pendingNodes, hpending, Builder.flush_pending]
  rfl

/-- A raw text element with its text. -/
theorem builds_raw (hself : tag.selfClosing = false) (hraw : isRawText tag.name)
    (texts : List Chars) : Builds (.start tag :: (texts.map Event.text ++ [.close tag.name]))
      [.element tag.name (sortAttributes (treeAttributes tag.attrs)) (shownText texts.flatten) []] := by
  intro b hb
  obtain ⟨b', hb', -⟩ := foldlM_texts texts (b.start tag)
  obtain ⟨hclose, hdone, hpassed, htext⟩ :=
    close_raw hself hraw (fun hmem => by simp [hb] at hmem) hb'
  have hinside : outlines (b'.pendingNodes .plain) = [] := by
    unfold Builder.pendingNodes
    split <;> rfl
  refine ⟨b'.close tag.name, ?_, ?_, ?_⟩
  · rw [List.foldlM_cons]
    change (texts.map Event.text ++ [Event.close tag.name]).foldlM Builder.event (b.start tag) = _
    rw [List.foldlM_append, hb']
    rfl
  · rw [hclose, Builder.add_passed]
    exact hpassed.trans hb
  · rw [hclose, Builder.shape_add, Node.outline, if_pos hraw, htext, hinside,
      ← Builder.shape_flush b .plain, Builder.shape, hdone]
    rfl

/-- A raw text element that is reported with its text is one of the tree. -/
theorem exists_element_of_reportsRaw {nodes : List Node} {block : Chars}
    (h : ReportsRaw tag tag.name block events) (hself : tag.selfClosing = false)
    (hraw : isRawText tag.name) (hnodes : Node.ofEvents events = .ok nodes) :
    ∃ e ∈ elements nodes, e.name = tag.name ∧ shownText (ownText e.children) = shownText block := by
  obtain ⟨before, texts, later, rfl, rfl⟩ := h
  obtain ⟨last, hlast, rfl⟩ := exists_of_map_eq_ok hnodes
  rw [List.foldlM_append] at hlast
  obtain ⟨b, hb, hlast⟩ := exists_of_bind_eq_ok hlast
  rw [List.foldlM_cons] at hlast
  obtain ⟨opened, hopened, hlast⟩ := exists_of_bind_eq_ok hlast
  obtain rfl := Except.ok.inj hopened
  rw [List.foldlM_append] at hlast
  obtain ⟨b', hb', hlast⟩ := exists_of_bind_eq_ok hlast
  rw [List.foldlM_cons] at hlast
  obtain ⟨closed, hclosed, hlast⟩ := exists_of_bind_eq_ok hlast
  obtain rfl := Except.ok.inj hclosed
  have hsound : tag.name ∉ b.passed := fun hmem =>
    absurd ((Builder.sound_empty.foldlM hb).passed tag.name hmem)
      (Bool.eq_false_iff.1 (Builder.not_isVoid_of_isRawText hraw))
  obtain ⟨hclose, -, -, htext⟩ := close_raw hself hraw hsound hb'
  by_contra hnone
  have hall : AllOf (fun e => ¬ (e.name = tag.name ∧
      shownText (ownText e.children) = shownText texts.flatten)) (fun _ _ => True) last.finish :=
    ⟨fun e he hboth => hnone ⟨e, he, hboth⟩, fun _ _ => trivial⟩
  have hclosed := (Builder.AllOf.of_finish hall).of_foldlM hlast
  rw [hclose, Builder.allOf_add, allOf_element] at hclosed
  exact hclosed.2.1 ⟨rfl, htext⟩

end Builds

/-- An element that is read as it is written. -/
structure Element.Writable (e : Element) : Prop where
  sound : e.Sound
  void (h : isVoid e.name) : e.children = []
  raw (h : isRawText e.name) : (e.children = [] ∨ e.children = [.text .plain (ownText e.children)]) ∧
    NoEnd (rawClose? e.name) (ownText e.children) []

/-- A text that is read as one when it is written. A declaration is not written as it was read, and
ends at the first `>`. -/
def TextKind.Writable (kind : TextKind) (content : Chars) : Prop :=
  kind.Sound content ∧ (kind = .declaration → .of '>' ∉ content)

/-- The start tag of the element, with what follows it: the text of a raw text element up to its end
tag. -/
def Element.InPlace (e : Element) (place : StartTag × Chars) : Prop :=
  place.1 = e.startTag (e.children.isEmpty && isVoid e.name) ∧ (isRawText e.name →
    ∃ after, upTo? (rawClose? e.name) place.2 = some (ownText e.children, after))

/-- What is read of some nodes as they are written. -/
structure Rereads (nodes : List Node) (places : List (Event × Chars)) : Prop where
  starts : List.Forall₂ Element.InPlace (elements nodes) (startsOf places)
  builds (hclose : ∀ e ∈ elements nodes, closedName e.name = e.name) :
    Builds (places.map Prod.fst) (writtenOutlines (outlines nodes))

section Writing

variable {name content t : Chars} {attrs : List (Chars × Chars)} {children rest : List Node}
  {kind : TextKind} {places ws : List (Event × Chars)} {e : Element}

theorem write_void (hvoid : isVoid name) : (Node.element name attrs []).write false ++ t =
    .of '<' :: (name ++ (writeAttributes name attrs ++ (tagClose true ++ t))) := by
  simp [Node.write, hvoid, tagClose, String.runes]

theorem write_open (h : (children.isEmpty && isVoid name) = false) :
    (Node.element name attrs children).write false ++ t =
      .of '<' :: (name ++ (writeAttributes name attrs ++ (tagClose false ++
        (writeNodes (isRawText name) children ++
          .of '<' :: .of '/' :: (name ++ .of '>' :: t))))) := by
  simp [Node.write, h, tagClose, String.runes]

/-- The attributes of the start tag that is written of an element. -/
theorem Element.Sound.sortAttributes_startTag (he : e.Sound) (selfClosing : Bool) :
    sortAttributes (treeAttributes (e.startTag selfClosing).attrs) =
      writtenAttributes e.name (sortAttributes e.attrs) := by
  have hattrs : e.writtenAttrs = writtenAttributes e.name (sortAttributes e.attrs) :=
    (writtenAttributes_sortAttributes he.nodup e.name).symm
  have hnodup : (e.writtenAttrs.map Prod.fst).Nodup := by
    rw [hattrs, keys_writtenAttributes]
    exact nodup_sortAttributes he.nodup
  have htree : treeAttributes (e.startTag selfClosing).attrs = e.writtenAttrs :=
    treeAttributes_of_nodup hnodup
  rw [htree, hattrs]
  exact sortAttributes_of_pairwise
    (pairwise_writtenAttributes e.name (pairwise_sortAttributes e.attrs))

theorem startsOf_texts (h : ∀ w ∈ ws, w.1.IsTextual) : startsOf ws = [] := by
  rw [startsOf, List.filterMap_eq_nil_iff]
  rintro ⟨e, rest⟩ hw
  have he := h _ hw
  cases e with
  | start tag => exact he.elim
  | _ => rfl

theorem rereads_nil : Rereads [] [] := ⟨.nil, fun _ => builds_nil⟩

theorem Rereads.append {nodes more : List Node} {later : List (Event × Chars)}
    (h : Rereads nodes ws) (hlater : Rereads more later) : Rereads (nodes ++ more) (ws ++ later) where
  starts := by
    rw [elements_append, startsOf_append]
    exact List.rel_append h.starts hlater.starts
  builds hclose := by
    rw [elements_append, List.forall_mem_append] at hclose
    rw [List.map_append, outlines_append, writtenOutlines_append]
    exact (h.builds hclose.1).append (hlater.builds hclose.2)

theorem rereads_text (h : ∀ w ∈ ws, w.1.IsTextual) : Rereads [.text kind content] ws where
  starts := by
    rw [startsOf_texts h]
    exact .nil
  builds _ := builds_text (List.forall_mem_map.2 h)

/-- An element that is written as a single tag. -/
theorem exists_laid_void (he : (Element.mk name attrs []).Sound) (hvoid : isVoid name)
    (hlater : Laid none t places) :
    ∃ ws, Laid none ((Node.element name attrs []).write false ++ t) (ws ++ places) ∧
      Rereads [.element name attrs []] ws := by
  have hraw : isRawText name = false := by
    rw [Bool.eq_false_iff]
    intro hraw
    exact absurd ((Builder.not_isVoid_of_isRawText hraw).symm.trans hvoid) Bool.false_ne_true
  have hstep := he.step_startTag true t
  rw [write_void hvoid]
  refine ⟨[(.start _, t)], .step hstep hlater, ?_, ?_⟩
  · refine .cons ⟨?_, fun h => absurd (hraw.symm.trans h) Bool.false_ne_true⟩ .nil
    simp [hvoid]
  · intro _
    have hself : ((Element.mk name attrs []).startTag true).selfClosing = true := rfl
    have hbuilds := builds_empty hself
    rw [he.sortAttributes_startTag] at hbuilds
    rw [outlines_element, hraw]
    exact hbuilds

theorem rawClose?_endTag (hname : isRawText name) (t : Chars) :
    rawClose? name (.of '<' :: .of '/' :: (name ++ .of '>' :: t)) = some t := by
  have hmem := List.contains_iff_mem.1 hname
  have hend : rawEnd? name (.of '<' :: .of '/' :: (name ++ .of '>' :: t)) = some t := by
    simp only [rawTextElements, List.mem_cons, List.not_mem_nil, or_false] at hmem
    rcases hmem with rfl | rfl <;> rfl
  have hplain : ∀ n ∈ rawTextElements, plainName? n == some n := by decide
  have hsplit : Rune.of '<' :: .of '/' :: (name ++ .of '>' :: t) =
      (Rune.of '<' :: .of '/' :: (name ++ [.of '>'])) ++ t := by simp
  rw [rawClose?, hend, Option.filter_some, hsplit, List.length_append, Nat.add_sub_cancel,
    List.take_left]
  refine if_pos ?_
  change plainName? (name ++ [Rune.of '>']).dropLast == some name
  rw [List.dropLast_concat]
  exact hplain name hmem

theorem startsOf_element (tag : StartTag) (inside t : Chars) :
    startsOf ((.start tag, inside) :: (ws ++ [(.close name, t)])) = (tag, inside) :: startsOf ws := by
  rw [← List.append_nil (startsOf ws)]
  exact congrArg ((tag, inside) :: ·) (startsOf_append ws [(.close name, t)])

/-- The content of a raw text element. -/
theorem write_raw (h : children = [] ∨ children = [.text .plain (ownText children)]) :
    writeNodes true children = ownText children ∧ elements children = [] ∧
      outlines children = [] := by
  rcases h with rfl | htext
  · exact ⟨rfl, rfl, rfl⟩
  · rw [htext]
    exact ⟨List.append_nil _, rfl, rfl⟩

/-- A raw text element is written with its text as it is. -/
theorem exists_laid_raw (he : e.Writable) (hraw : isRawText e.name) (hlater : Laid none t places) :
    ∃ ws, Laid none ((Node.element e.name e.attrs e.children).write false ++ t) (ws ++ places) ∧
      Rereads [.element e.name e.attrs e.children] ws := by
  obtain ⟨hchildren, hnone⟩ := he.raw hraw
  have hvoid := Builder.not_isVoid_of_isRawText hraw
  have htag : (e.children.isEmpty && isVoid e.name) = false := by rw [hvoid, Bool.and_false]
  obtain ⟨hwrite, helements, houtlines⟩ := write_raw hchildren
  let inside := ownText e.children ++ .of '<' :: .of '/' :: (e.name ++ .of '>' :: t)
  have hblock : upTo? (rawClose? e.name) inside = some (ownText e.children, t) :=
    upTo?_of_end (noEnd_raw hraw hnone _) (rawClose?_endTag hraw t) (List.cons_ne_nil _ _)
  have hopen : (Event.start (e.startTag false)).raw? = some e.name := by
    simp [Event.raw?, Element.startTag, hraw]
  have hstep := he.sound.step_startTag false inside
  rw [hopen] at hstep
  obtain ⟨texts, parts, hlaid, htexts, hparts⟩ := Laid.rawText hraw hblock hlater
  rw [write_open htag, hraw, hwrite]
  refine ⟨(.start (e.startTag false), inside) :: (texts ++ [(.close e.name, t)]), ?_, ?_, ?_⟩
  · rw [List.cons_append, List.append_assoc]
    exact .step hstep hlaid
  · have hnone : startsOf texts = [] := by
      refine startsOf_texts fun w hw => ?_
      have hfst : w.1 ∈ parts.map Event.text := htexts ▸ List.mem_map_of_mem hw
      obtain ⟨content, -, heq⟩ := List.mem_map.1 hfst
      rw [← heq]
      trivial
    rw [startsOf_element, hnone, elements_element, elements_nil, List.append_nil, helements]
    refine .cons ⟨?_, fun _ => ⟨t, hblock⟩⟩ .nil
    rw [htag]
  · intro _
    have hself : (e.startTag false).selfClosing = false := rfl
    have hbuilds := builds_raw hself hraw parts
    rw [he.sound.sortAttributes_startTag, hparts] at hbuilds
    rw [List.map_cons, List.map_append, htexts, outlines_element, if_pos hraw, houtlines]
    exact hbuilds

/-- Any other element is written with its content between its tags. -/
theorem exists_laid_element (he : e.Writable) (hraw : isRawText e.name = false)
    (hvoid : isVoid e.name = false)
    (hchildren : ∀ {t places}, Laid none t places →
      ∃ ws, Laid none (writeNodes false e.children ++ t) (ws ++ places) ∧ Rereads e.children ws)
    (hlater : Laid none t places) :
    ∃ ws, Laid none ((Node.element e.name e.attrs e.children).write false ++ t) (ws ++ places) ∧
      Rereads [.element e.name e.attrs e.children] ws := by
  have htag : (e.children.isEmpty && isVoid e.name) = false := by rw [hvoid, Bool.and_false]
  let tag := .of '<' :: .of '/' :: (e.name ++ .of '>' :: t)
  have hend : Laid none tag ((.close (closedName e.name), t) :: places) :=
    .step (he.sound.name.step_endTag he.sound.lower t) hlater
  obtain ⟨inner, hlaid, hreads⟩ := hchildren hend
  have hopen : (Event.start (e.startTag false)).raw? = none := by
    simp [Event.raw?, Element.startTag, hraw]
  have hstep := he.sound.step_startTag false (writeNodes false e.children ++ tag)
  rw [hopen] at hstep
  rw [write_open htag, hraw]
  refine ⟨(.start (e.startTag false), writeNodes false e.children ++ tag) ::
    (inner ++ [(.close (closedName e.name), t)]), ?_, ?_, ?_⟩
  · rw [List.cons_append, List.append_assoc]
    exact .step hstep hlaid
  · rw [startsOf_element, elements_element, elements_nil, List.append_nil]
    refine .cons ⟨?_, fun h => absurd (hraw.symm.trans h) Bool.false_ne_true⟩ hreads.starts
    rw [htag]
  · intro hclose
    rw [elements_element, elements_nil, List.append_nil, List.forall_mem_cons] at hclose
    have hself : (e.startTag false).selfClosing = false := rfl
    have hbuilds := (hreads.builds hclose.2).element hself hvoid hraw
    rw [he.sound.sortAttributes_startTag] at hbuilds
    rw [List.map_cons, List.map_append, outlines_element, hraw, hclose.1]
    exact hbuilds

/-- Nodes that are read as they are written. -/
theorem exists_laid_writeNodes {nodes : List Node}
    (h : AllOf Element.Writable TextKind.Writable nodes) (hlater : Laid none t places) :
    ∃ ws, Laid none (writeNodes false nodes ++ t) (ws ++ places) ∧ Rereads nodes ws := by
  induction nodes using nodesInduction generalizing t places with
  | nil => exact ⟨[], hlater, rereads_nil⟩
  | text kind content rest ih =>
      obtain ⟨htext, hrest⟩ := allOf_cons.1 h
      obtain ⟨hsound, hdeclaration⟩ := allOf_text.1 htext
      obtain ⟨later, hlaid, hreads⟩ := ih hrest hlater
      obtain ⟨ws, hwritten, htextual⟩ := laidAsText_writeText hsound hdeclaration hlaid
      refine ⟨ws ++ later, ?_, (rereads_text htextual).append hreads⟩
      rw [writeNodes, Node.write, List.append_assoc, List.append_assoc]
      exact hwritten
  | element name attrs children rest ihchildren ihrest =>
      obtain ⟨helement, hrest⟩ := allOf_cons.1 h
      obtain ⟨he, hchildren⟩ := allOf_element.1 helement
      obtain ⟨later, hlaid, hreads⟩ := ihrest hrest hlater
      have hnode : ∃ ws, Laid none ((Node.element name attrs children).write false ++
          (writeNodes false rest ++ t)) (ws ++ (later ++ places)) ∧
            Rereads [.element name attrs children] ws := by
        cases hvoid : isVoid name with
        | true =>
            obtain rfl : children = [] := he.void hvoid
            exact exists_laid_void he.sound hvoid hlaid
        | false =>
            cases hraw : isRawText name with
            | true => exact exists_laid_raw he hraw hlaid
            | false => exact exists_laid_element he hraw hvoid (ihchildren hchildren) hlaid
      obtain ⟨ws, hwritten, hreads'⟩ := hnode
      refine ⟨ws ++ later, ?_, hreads'.append hreads⟩
      rw [writeNodes, List.append_assoc, List.append_assoc]
      exact hwritten

/-- The start tags of a tree that is written. -/
theorem startPlaces_writeAll {nodes : List Node}
    (h : AllOf Element.Writable TextKind.Writable nodes) :
    List.Forall₂ Element.InPlace (elements nodes) (startPlaces (Node.writeAll nodes)) ∧
      ∃ events, readEvents (Node.writeAll nodes) = .ok events := by
  obtain ⟨ws, hlaid, hreads⟩ := exists_laid_writeNodes h .nil
  rw [List.append_nil, List.append_nil] at hlaid
  obtain ⟨hstarts, events, hevents, -⟩ := hlaid.read
  rw [Node.writeAll, hstarts]
  exact ⟨hreads.starts, events, hevents⟩

/-- A start tag that is read of a tree that is written is the one of an element. -/
theorem exists_element_of_mem_startTags {nodes : List Node} {events : List Event} {tag : StartTag}
    (h : AllOf Element.Writable TextKind.Writable nodes)
    (hevents : readEvents (Node.writeAll nodes) = .ok events) (htag : tag ∈ startTags events) :
    ∃ e ∈ elements nodes, ∃ selfClosing, tag = e.startTag selfClosing := by
  rw [← map_fst_startPlaces hevents] at htag
  have hplaces := (startPlaces_writeAll h).1
  generalize elements nodes = es at *
  generalize startPlaces (Node.writeAll nodes) = places at *
  induction hplaces with
  | nil => exact absurd htag List.not_mem_nil
  | cons hfirst _ ih =>
      rw [List.map_cons, List.mem_cons] at htag
      rcases htag with rfl | hlater
      · exact ⟨_, List.mem_cons_self, _, hfirst.1⟩
      · obtain ⟨e, he, htag⟩ := ih hlater
        exact ⟨e, List.mem_cons_of_mem _ he, htag⟩

/-- A tree without open elements, as it is finished. -/
theorem outlines_finish {b : Builder} {os : List Outline} (h : b.shape = ⟨[], os⟩) :
    outlines b.finish = os := by
  have hflush : (b.flush .plain).shape = ⟨[], os⟩ := (Builder.shape_flush b .plain).trans h
  obtain ⟨hopened, hdone⟩ := Shape.mk.inj hflush
  rw [Builder.finish, List.map_eq_nil_iff.1 hopened]
  exact hdone

/-- The elements of a tree that is written, where every name is read in its end tag as it is. -/
theorem exists_read_writeAll {nodes : List Node}
    (h : AllOf Element.Writable TextKind.Writable nodes)
    (hclose : ∀ e ∈ elements nodes, closedName e.name = e.name) :
    ∃ again, Node.read (Node.writeAll nodes) = .ok again ∧
      outlines again = writtenOutlines (outlines nodes) := by
  obtain ⟨ws, hlaid, hreads⟩ := exists_laid_writeNodes h .nil
  rw [List.append_nil, List.append_nil] at hlaid
  obtain ⟨-, events, hevents, hsame⟩ := hlaid.read
  obtain ⟨b, hb, -, hshape⟩ := hreads.builds hclose Builder.empty rfl
  refine ⟨b.finish, ?_, outlines_finish hshape⟩
  rw [Node.writeAll, Node.read, hevents]
  dsimp only
  rw [Node.ofEvents, hsame, hb]
  rfl

end Writing

end Folio.Markup
