import Folio.Document.Section
import Folio.Proofs.Markup.Elements
import Folio.Proofs.Markup.Enclosed

/-!
Fragments in the elements of their parts. An element around a fragment stands at the top of what is
read, so to wrap a second time changes nothing; and the enclosed fragment is refused only for an
unfinished end that the end tag goes on.
-/
namespace Folio.Document

open Markup (Builder Event MarkupError Node OpenElement StartTag TextKind)

section Outermost

variable {found : Node → Bool} {b b' : Builder}

/-- The node of an element that is still open, without its content. -/
def emptied (e : OpenElement) : Node := .element e.name e.attrs []

/-- The node that is looked for stands at the top of the tree, or its element is the outermost one
that is open. -/
def IsOnTop (found : Node → Bool) (b : Builder) : Prop :=
  (∃ e ∈ b.opened.getLast?, found (emptied e)) ∨ ∃ node ∈ b.done, found node

/-- What is looked for does not depend on the content of an element. -/
def IgnoresContent (found : Node → Bool) : Prop :=
  ∀ name attrs children, found (.element name attrs children) = found (.element name attrs [])

theorem IsOnTop.add (h : IsOnTop found b) (node : Node) : IsOnTop found (b.add node) := by
  unfold Builder.add
  split
  · rename_i hnil
    rw [IsOnTop, hnil] at h
    rcases h with ⟨e, he, -⟩ | ⟨n, hn, hfound⟩
    · contradiction
    · exact Or.inr ⟨n, List.mem_cons_of_mem node hn, hfound⟩
  · rename_i e rest hopened
    rcases h with ⟨last, hlast, hfound⟩ | hdone
    · rw [hopened] at hlast
      refine Or.inl ?_
      cases rest with
      | nil =>
          obtain rfl : e = last := by simpa using hlast
          exact ⟨_, rfl, hfound⟩
      | cons e' rest =>
          rw [List.getLast?_cons_cons] at hlast
          exact ⟨last, by rw [List.getLast?_cons_cons]; exact hlast, hfound⟩
    · exact Or.inr hdone

theorem IsOnTop.flush (h : IsOnTop found b) (kind : TextKind) : IsOnTop found (b.flush kind) := by
  unfold Builder.flush
  split
  · exact h
  · exact IsOnTop.add (b := { b with pending := none }) h _

theorem IsOnTop.special (h : IsOnTop found b) (kind : TextKind) (text : Chars) :
    IsOnTop found (b.special kind text) :=
  IsOnTop.flush (b := (b.flush .plain).write text) (h.flush .plain) kind

theorem IsOnTop.closeLast (hfound : IgnoresContent found) (h : IsOnTop found b) :
    IsOnTop found b.closeLast := by
  unfold Builder.closeLast
  split
  · exact h
  · rename_i e rest hopened
    rcases h with ⟨last, hlast, htop⟩ | hdone
    · rw [hopened] at hlast
      cases rest with
      | nil =>
          obtain rfl : e = last := by simpa using hlast
          refine Or.inr ⟨_, List.mem_cons_self, ?_⟩
          rw [hfound]
          exact htop
      | cons e' rest =>
          rw [List.getLast?_cons_cons] at hlast
          exact IsOnTop.add (b := { b with opened := e' :: rest }) (Or.inl ⟨last, hlast, htop⟩) _
    · exact IsOnTop.add (b := { b with opened := rest }) (Or.inr hdone) _

theorem IsOnTop.closeTo (hfound : IgnoresContent found) (name : Chars) (n : Nat)
    (h : IsOnTop found b) : IsOnTop found (b.closeTo name n) := by
  induction n generalizing b with
  | zero => exact h
  | succ n ih =>
      rw [Builder.closeTo]
      split
      · exact h
      · split
        · exact h.closeLast hfound
        · exact ih (h.closeLast hfound)

theorem IsOnTop.close (hfound : IgnoresContent found) (h : IsOnTop found b) (name : Chars) :
    IsOnTop found (b.close name) := by
  unfold Builder.close
  split
  · exact h
  · dsimp only
    split
    · exact (h.flush .plain).closeTo hfound name _
    · exact h.flush .plain

theorem IsOnTop.start (h : IsOnTop found b) (tag : StartTag) : IsOnTop found (b.start tag) := by
  have hflushed := h.flush .plain
  unfold Builder.start
  dsimp only
  split
  · exact hflushed.add _
  · split
    · exact hflushed.add _
    · rcases hflushed with ⟨last, hlast, htop⟩ | hdone
      · obtain ⟨front, hopened⟩ := List.getLast?_eq_some_iff.1 hlast
        refine Or.inl ⟨last, ?_, htop⟩
        rw [hopened, ← List.cons_append]
        exact List.getLast?_concat
      · exact Or.inr hdone

/-- What stands on top stays there, whatever is read. -/
theorem IsOnTop.event (hfound : IgnoresContent found) (h : IsOnTop found b) {event : Event}
    (hevent : b.event event = .ok b') : IsOnTop found b' := by
  cases event with
  | reference r =>
      obtain ⟨text, -, rfl⟩ := exists_of_map_eq_ok hevent
      exact h
  | text content => exact Except.ok.inj hevent ▸ h
  | start tag => exact Except.ok.inj hevent ▸ h.start tag
  | close name => exact Except.ok.inj hevent ▸ h.close hfound name
  | comment content => exact Except.ok.inj hevent ▸ h.special _ _
  | doctype content => exact Except.ok.inj hevent ▸ h.special _ _
  | instruction content => exact Except.ok.inj hevent ▸ h.special _ _
  | marked content => exact Except.ok.inj hevent ▸ h.special _ _

theorem IsOnTop.foldlM (hfound : IgnoresContent found) {events : List Event} (h : IsOnTop found b)
    (hevents : events.foldlM Builder.event b = .ok b') : IsOnTop found b' := by
  induction events generalizing b with
  | nil => exact Except.ok.inj hevents ▸ h
  | cons event events ih =>
      rw [List.foldlM_cons] at hevents
      obtain ⟨next, hnext, hlater⟩ := exists_of_bind_eq_ok hevents
      exact ih (h.event hfound hnext) hlater

/-- What stands on top is among the nodes when everything is closed. -/
theorem IsOnTop.finish (hfound : IgnoresContent found) (h : IsOnTop found b) :
    b.finish.any found := by
  have hclosed (opened : List OpenElement) (b : Builder) (hb : IsOnTop found b) :
      IsOnTop found (opened.foldl (fun b _ => b.closeLast) b) := by
    induction opened generalizing b with
    | nil => exact hb
    | cons _ opened ih => exact ih _ (hb.closeLast hfound)
  have hnone := Builder.opened_foldl_closeLast (Nat.le_refl (b.flush .plain).opened.length)
  rcases hclosed _ _ (h.flush .plain) with ⟨e, he, -⟩ | ⟨node, hnode, htop⟩
  · rw [hnone] at he
    contradiction
  · exact List.any_eq_true.2 ⟨node, List.mem_reverse.2 hnode, htop⟩

end Outermost

/-- The parts of a page that stand in an element of their own. -/
inductive Part where
  | body
  | band (which : Band)
deriving DecidableEq, Repr

namespace Part

/-- The name of a part's element. -/
def name : Part → Chars
  | .body => "main".runes
  | .band which => which.name

/-- The class that the element has to have. -/
def cls : Part → Option Chars
  | .body => some "body".runes
  | .band _ => none

/-- The attributes of the element that is put around a fragment, as they are written. -/
def attrs : Part → Chars
  | .body => " class=\"body\"".runes
  | .band _ => []

def wrap : Part → Chars → Except MarkupError Chars
  | .body => wrapBody
  | .band which => wrapBand which

theorem wrap_eq (part : Part) (fragment : Chars) : part.wrap fragment =
    (hasTopLevel part.name part.cls fragment).map fun has =>
      if has then fragment else enclose part.name part.attrs fragment := by
  cases part <;> rfl

/-- The start tag of a part's element. -/
def tag : Part → StartTag
  | .body => ⟨"main".runes, [("class".runes, some "body".runes)], false⟩
  | .band which => ⟨which.name, [], false⟩

/-- The text of this tag. -/
def opening (part : Part) : Chars := .of '<' :: part.name ++ part.attrs ++ [.of '>']

/-- The text of the end tag. -/
def ending (part : Part) : Chars := .of '<' :: .of '/' :: part.name ++ [.of '>']

variable {part : Part} {fragment out : Chars}

theorem enclose_eq (part : Part) (fragment : Chars) :
    enclose part.name part.attrs fragment = part.opening ++ fragment ++ part.ending := by
  simp [enclose, opening, ending]

theorem readStartTag_opening (part : Part) (t : Chars) :
    Markup.readStartTag (part.name ++ part.attrs ++ .of '>' :: t) = .ok (.tag part.tag t) := by
  have hopening : part.name ++ part.attrs ++ .of '>' :: t =
      part.name ++ part.attrs ++ [.of '>'] ++ t := by simp
  have hclosed : .of '>' ∈ (Markup.tagAttributes (part.name ++ part.attrs ++ [.of '>'])).2.rest ∧
      Markup.tagClosed (part.name ++ part.attrs ++ [.of '>']) := by
    rcases part with _ | _ | _ <;> decide
  have hread : Markup.readStartTag (part.name ++ part.attrs ++ [.of '>']) =
      .ok (.tag part.tag []) := by
    rcases part with _ | _ | _ <;> rfl
  rw [hopening, Markup.readStartTag_append hread hclosed.1 hclosed.2]
  rfl

theorem opens (part : Part) : Markup.Opens part.opening part.tag := by
  refine ⟨List.cons_ne_nil _ _, fun t => ?_⟩
  have hread := readStartTag_opening part t
  have hopening : part.opening ++ t = .of '<' :: (part.name ++ part.attrs ++ .of '>' :: t) := by
    simp [opening]
  obtain ⟨c, rest, hname, hletter⟩ : ∃ c rest, part.name = c :: rest ∧ c.isAlpha := by
    rcases part with _ | _ | _ <;> exact ⟨_, _, rfl, by decide⟩
  have hplain : Markup.isRawText part.tag.name = false := by
    rcases part with _ | _ | _ <;> decide
  rw [hopening]
  change Markup.stepAngle false _ = _
  rw [hname, List.cons_append, List.cons_append] at hread ⊢
  rw [Markup.stepAngle_letter hletter, hread]
  simp only [Except.map, Markup.tagStep, hplain, Bool.and_false, if_neg Bool.false_ne_true]

theorem isEndTag_ending (part : Part) : Markup.IsEndTag part.ending where
  starts := ⟨part.name ++ [.of '>'], rfl⟩
  unquoted := by rcases part with _ | _ | _ <;> exact ⟨by decide, by decide⟩
  acceptable := by rcases part with _ | _ | _ <;> decide
  passed := by
    have hall : ∀ name ∈ Markup.rawTextElements,
        Markup.NoEnd (Markup.rawClose? name) part.ending [] := by
      rcases part with _ | _ | _ <;> decide
    exact fun name hname => hall name (List.contains_iff_mem.1 hname)

theorem isOnTop_start (part : Part) :
    IsOnTop (isElement part.name part.cls) (Builder.empty.start part.tag) := by
  refine Or.inl ⟨⟨part.tag.name, Markup.treeAttributes part.tag.attrs, []⟩, ?_, ?_⟩
  · rcases part with _ | _ | _ <;> rfl
  · rcases part with _ | _ | _ <;> decide

/-- The element of a part stands at the top of a text that begins with its start tag. -/
theorem hasTopLevel_opening {t : Chars} (h : (Node.read (part.opening ++ t)).isOk) :
    hasTopLevel part.name part.cls (part.opening ++ t) = .ok true := by
  have hignores : IgnoresContent (isElement part.name part.cls) := fun _ _ _ => rfl
  obtain ⟨nodes, hnodes⟩ := exists_of_isOk h
  have hany : nodes.any (isElement part.name part.cls) := by
    rw [Node.read] at hnodes
    split at hnodes
    · contradiction
    · rename_i events hevents
      obtain ⟨built, hbuilt, rfl⟩ := exists_of_map_eq_ok hnodes
      obtain ⟨later, rfl⟩ := part.opens.exists_events hevents
      rw [List.foldlM_cons] at hbuilt
      exact (part.isOnTop_start.foldlM hignores hbuilt).finish hignores
  rw [hasTopLevel, hnodes]
  exact congrArg Except.ok hany

/-- A part that has its element at the top is left as it is. -/
theorem wrap_of_hasTopLevel (h : hasTopLevel part.name part.cls fragment = .ok true) :
    part.wrap fragment = .ok fragment := by
  rw [wrap_eq, h]
  rfl

/-- A wrapped fragment is the fragment, which has the element of its part at the top, or the
enclosed fragment. -/
theorem wrap_cases (h : part.wrap fragment = .ok out) :
    out = fragment ∧ hasTopLevel part.name part.cls fragment = .ok true ∨
      out = part.opening ++ fragment ++ part.ending := by
  rw [wrap_eq] at h
  obtain ⟨has, hhas, rfl⟩ := exists_of_map_eq_ok h
  cases has with
  | true => exact Or.inl ⟨rfl, hhas⟩
  | false => exact Or.inr (part.enclose_eq fragment)

theorem isOk_read_of_wrap (h : part.wrap fragment = .ok out) : (Node.read fragment).isOk := by
  rw [wrap_eq, hasTopLevel] at h
  obtain ⟨has, hhas, -⟩ := exists_of_map_eq_ok h
  obtain ⟨nodes, hnodes, -⟩ := exists_of_map_eq_ok hhas
  rw [hnodes]
  rfl

/-- To wrap is idempotent: the result is the fragment or the enclosed fragment; if it is read, the
element of the part is found at its top, and to wrap it again changes nothing. It is read unless
what the fragment leaves unfinished at its end may be refused. -/
theorem wrap_idempotent (h : part.wrap fragment = .ok out) :
    (out = fragment ∨ out = enclose part.name part.attrs fragment) ∧
      ((Node.read out).isOk →
        hasTopLevel part.name part.cls out = .ok true ∧ part.wrap out = .ok out) ∧
      (Markup.isAcceptable (Markup.unfinishedEnd fragment) → (Node.read out).isOk) := by
  have hread := isOk_read_of_wrap h
  rcases wrap_cases h with ⟨rfl, htop⟩ | rfl
  · exact ⟨Or.inl rfl, fun _ => ⟨htop, h⟩, fun _ => hread⟩
  · refine ⟨Or.inr (part.enclose_eq fragment).symm, fun hok => ?_, fun hleft => ?_⟩
    · rw [List.append_assoc] at hok ⊢
      have htop := hasTopLevel_opening hok
      exact ⟨htop, wrap_of_hasTopLevel htop⟩
    · exact part.opens.isOk_read part.isEndTag_ending hread hleft

/-- A body that breaks off inside a tag is enclosed; the end tag closes the tag. -/
theorem wrap_idempotent_brokenOff :
    body.wrap "<p>x</p><br".runes = .ok "<main class=\"body\"><p>x</p><br</main>".runes ∧
      (Node.read "<main class=\"body\"><p>x</p><br</main>".runes).isOk ∧
      body.wrap "<main class=\"body\"><p>x</p><br</main>".runes =
        .ok "<main class=\"body\"><p>x</p><br</main>".runes := by
  have hwrap : body.wrap "<p>x</p><br".runes =
      .ok "<main class=\"body\"><p>x</p><br</main>".runes := by rfl
  have hread := (wrap_idempotent hwrap).2.2 (by decide)
  exact ⟨hwrap, hread, ((wrap_idempotent hwrap).2.1 hread).2⟩

/-- A marked section that breaks off in its name is read as text; the end tag makes it one that is
refused. -/
theorem not_isOk_read_of_every_wrap : ¬ ∀ (part : Part) (fragment out : Chars),
    part.wrap fragment = .ok out → (Node.read out).isOk := by
  intro hall
  have hread := hall .body "<![foo".runes "<main class=\"body\"><![foo</main>".runes rfl
  exact absurd hread (by decide)

end Part

end Folio.Document
