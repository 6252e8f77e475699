import Folio.Proofs.Markup.Nesting

/-!
The elements of a tree and its texts, in document order. The elements of a tree that is built of
some events are the start tags among these, one for each and in the same order, however their end
tags are matched.
-/
namespace Folio.Markup

/-- Induction on the nodes of a tree: an element stands for its own children and for the nodes
after it. -/
theorem nodesInduction {motive : List Node → Prop} (nil : motive [])
    (element : ∀ name attrs children rest, motive children → motive rest →
      motive (.element name attrs children :: rest))
    (text : ∀ kind content rest, motive rest → motive (.text kind content :: rest))
    (nodes : List Node) : motive nodes :=
  @Node.rec_1 (fun node => ∀ rest, motive rest → motive (node :: rest)) motive
    (fun name attrs children hchildren rest hrest =>
      element name attrs children rest hchildren hrest)
    text nil (fun _ tail hhead htail => hhead tail htail) nodes

/-- An element of a tree. -/
structure Element where
  name : Chars
  attrs : List (Chars × Chars)
  children : List Node

mutual
/-- The node if it is an element, and the elements below it, in document order. -/
def Node.elements : Node → List Element
  | .element name attrs children => ⟨name, attrs, children⟩ :: elements children
  | .text .. => []

/-- The elements of some nodes, in document order. -/
def elements : List Node → List Element
  | [] => []
  | node :: rest => node.elements ++ elements rest
end

mutual
/-- The texts of a node, in document order. -/
def Node.texts : Node → List (TextKind × Chars)
  | .element _ _ children => texts children
  | .text kind content => [(kind, content)]

/-- The texts of some nodes, in document order. -/
def texts : List Node → List (TextKind × Chars)
  | [] => []
  | node :: rest => node.texts ++ texts rest
end

section Lists

variable {name : Chars} {attrs : List (Chars × Chars)} {children rest : List Node}

@[simp] theorem elements_nil : elements [] = [] := rfl

@[simp] theorem elements_element : elements (.element name attrs children :: rest) =
    ⟨name, attrs, children⟩ :: (elements children ++ elements rest) := rfl

@[simp] theorem elements_append (first second : List Node) :
    elements (first ++ second) = elements first ++ elements second := by
  induction first with
  | nil => rfl
  | cons node rest ih => rw [List.cons_append, elements, elements, ih, List.append_assoc]

@[simp] theorem texts_nil : texts [] = [] := rfl

@[simp] theorem texts_element : texts (.element name attrs children :: rest) =
    texts children ++ texts rest := rfl

@[simp] theorem texts_append (first second : List Node) :
    texts (first ++ second) = texts first ++ texts second := by
  induction first with
  | nil => rfl
  | cons node rest ih => rw [List.cons_append, texts, texts, ih, List.append_assoc]

end Lists

/-- The names of the elements of some nodes with their attributes, in document order. -/
def tagsOf (nodes : List Node) : List (Chars × List (Chars × Chars)) :=
  (elements nodes).map fun e => (e.name, e.attrs)

/-- The name of a start tag with the attributes of its element. -/
def StartTag.inTree (tag : StartTag) : Chars × List (Chars × Chars) :=
  (tag.name, treeAttributes tag.attrs)

namespace Builder

/-- The elements of a tree under construction, the open ones among them, in document order. -/
def tags (b : Builder) : List (Chars × List (Chars × Chars)) :=
  tagsOf b.done.reverse ++ b.opened.reverse.flatMap fun e =>
    (e.name, e.attrs) :: tagsOf e.children.reverse

section Events

variable {b b' : Builder}

theorem add_tags (b : Builder) (node : Node) : (b.add node).tags = b.tags ++ tagsOf [node] := by
  obtain ⟨opened, done, pending, passed⟩ := b
  cases opened with
  | nil => simp [add, tags, tagsOf]
  | cons e rest => simp [add, tags, tagsOf]

theorem flush_tags (b : Builder) (kind : TextKind) : (b.flush kind).tags = b.tags := by
  unfold flush
  split
  · rfl
  · rw [add_tags]
    exact List.append_nil _

theorem special_tags (b : Builder) (kind : TextKind) (text : Chars) :
    (b.special kind text).tags = b.tags := by
  rw [special, flush_tags]
  exact flush_tags b .plain

theorem closeLast_tags (b : Builder) : b.closeLast.tags = b.tags := by
  obtain ⟨_ | ⟨e, rest⟩, done, pending, passed⟩ := b
  · rfl
  · change (add ⟨rest, done, pending, passed⟩ _).tags = _
    rw [add_tags]
    simp [tags, tagsOf]

theorem closeTo_tags (name : Chars) (n : Nat) (b : Builder) : (closeTo name n b).tags = b.tags := by
  induction n generalizing b with
  | zero => rfl
  | succ n ih =>
      rw [closeTo]
      split
      · rfl
      · split
        · exact closeLast_tags b
        · rw [ih, closeLast_tags]

theorem close_tags (b : Builder) (name : Chars) : (b.close name).tags = b.tags := by
  unfold close
  split
  · rfl
  · dsimp only
    split
    · rw [closeTo_tags, flush_tags]
    · exact flush_tags b .plain

theorem start_tags (b : Builder) (tag : StartTag) : (b.start tag).tags = b.tags ++ [tag.inTree] := by
  have hadd : ((b.flush .plain).add
      (.element tag.name (treeAttributes tag.attrs) [])).tags = b.tags ++ [tag.inTree] := by
    rw [add_tags, flush_tags]
    rfl
  unfold start
  dsimp only
  split
  · exact hadd
  · split
    · exact hadd
    · rw [← flush_tags b .plain]
      simp [tags, tagsOf, StartTag.inTree]

theorem event_tags {event : Event} (h : b.event event = .ok b') :
    b'.tags = b.tags ++ (startTags [event]).map StartTag.inTree := by
  have hsame : b.tags = b.tags ++ (startTags []).map StartTag.inTree := (List.append_nil _).symm
  cases event with
  | text content => exact Except.ok.inj h ▸ hsame
  | reference r =>
      obtain ⟨text, -, rfl⟩ := exists_of_map_eq_ok h
      exact hsame
  | start tag => exact Except.ok.inj h ▸ start_tags b tag
  | close name => exact Except.ok.inj h ▸ (close_tags b name).trans hsame
  | comment content => exact Except.ok.inj h ▸ (special_tags b _ _).trans hsame
  | doctype content => exact Except.ok.inj h ▸ (special_tags b _ _).trans hsame
  | instruction content => exact Except.ok.inj h ▸ (special_tags b _ _).trans hsame
  | marked content => exact Except.ok.inj h ▸ (special_tags b _ _).trans hsame

theorem foldlM_tags {events : List Event} (h : events.foldlM event b = .ok b') :
    b'.tags = b.tags ++ (startTags events).map StartTag.inTree := by
  induction events generalizing b with
  | nil =>
      obtain rfl := Except.ok.inj h
      exact (List.append_nil _).symm
  | cons event events ih =>
      rw [List.foldlM_cons] at h
      obtain ⟨next, hnext, h⟩ := exists_of_bind_eq_ok h
      have hcons : startTags (event :: events) = startTags [event] ++ startTags events :=
        List.filterMap_append (l := [event])
      rw [ih h, event_tags hnext, hcons, List.map_append, List.append_assoc]

/-- Everything that was open is closed. -/
theorem opened_foldl_closeLast {α : Type} {opened : List α} (h : b.opened.length ≤ opened.length) :
    (opened.foldl (fun b _ => b.closeLast) b).opened = [] := by
  induction opened generalizing b with
  | nil => exact List.length_eq_zero_iff.1 (Nat.le_zero.1 h)
  | cons _ opened ih =>
      have hlength := congrArg List.length (closeLast_names b)
      rw [List.length_tail, names, names, List.length_map, List.length_map] at hlength
      rw [List.length_cons] at h
      have hnext : b.closeLast.opened.length ≤ opened.length := by omega
      exact ih hnext

theorem foldl_closeLast_tags {α : Type} (opened : List α) (b : Builder) :
    (opened.foldl (fun b _ => b.closeLast) b).tags = b.tags := by
  induction opened generalizing b with
  | nil => rfl
  | cons _ opened ih => rw [List.foldl_cons, ih, closeLast_tags]

theorem tagsOf_finish (b : Builder) : tagsOf b.finish = b.tags := by
  have hopened := opened_foldl_closeLast (Nat.le_refl (b.flush .plain).opened.length)
  have htags := foldl_closeLast_tags (b.flush .plain).opened (b.flush .plain)
  rw [tags, hopened, List.reverse_nil, List.flatMap_nil, List.append_nil, flush_tags] at htags
  exact htags

end Events

end Builder

/-- A text that is read as a tree, taken apart. -/
theorem exists_events_of_read {s : Chars} {nodes : List Node} (h : Node.read s = .ok nodes) :
    ∃ events b, readEvents s = .ok events ∧ events.foldlM Builder.event Builder.empty = .ok b ∧
      nodes = b.finish := by
  unfold Node.read at h
  split at h
  · contradiction
  · rename_i events hevents
    obtain ⟨b, hb, rfl⟩ := exists_of_map_eq_ok h
    exact ⟨events, b, hevents, hb, rfl⟩

/-- The elements of a tree are the start tags, in the same order. -/
theorem tagsOf_read {s : Chars} {nodes : List Node} {events : List Event}
    (h : Node.read s = .ok nodes) (hevents : readEvents s = .ok events) :
    tagsOf nodes = (startTags events).map StartTag.inTree := by
  obtain ⟨events', b, hread, hb, rfl⟩ := exists_events_of_read h
  obtain rfl := Except.ok.inj (hevents.symm.trans hread)
  rw [Builder.tagsOf_finish, Builder.foldlM_tags hb]
  rfl

end Folio.Markup
