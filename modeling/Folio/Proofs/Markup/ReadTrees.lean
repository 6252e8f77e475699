import Folio.Proofs.Markup.Elements
import Folio.Proofs.Markup.ReadEvents
import Folio.Proofs.Markup.TreeAttributes

/-!
Trees that are read. Their names can be written in tags again, void elements have no content, a raw
text element has at most one text, which stands in the source and holds no end tag of it, and no
other construct holds its own end.
-/
namespace Folio.Markup

/-- Every element and every text among some nodes is as it should be. -/
structure AllOf (p : Element → Prop) (q : TextKind → Chars → Prop) (nodes : List Node) : Prop where
  elements : ∀ e ∈ elements nodes, p e
  texts : ∀ t ∈ texts nodes, q t.1 t.2

section AllOf

variable {p : Element → Prop} {q : TextKind → Chars → Prop} {name content : Chars}
  {attrs : List (Chars × Chars)} {nodes first second children : List Node} {kind : TextKind}

theorem allOf_nil : AllOf p q [] :=
  ⟨fun _ he => absurd he List.not_mem_nil, fun _ ht => absurd ht List.not_mem_nil⟩

theorem allOf_append : AllOf p q (first ++ second) ↔ AllOf p q first ∧ AllOf p q second := by
  constructor
  · rintro ⟨helements, htexts⟩
    rw [elements_append, List.forall_mem_append] at helements
    rw [texts_append, List.forall_mem_append] at htexts
    exact ⟨⟨helements.1, htexts.1⟩, helements.2, htexts.2⟩
  · rintro ⟨hfirst, hsecond⟩
    constructor
    · rw [elements_append, List.forall_mem_append]
      exact ⟨hfirst.elements, hsecond.elements⟩
    · rw [texts_append, List.forall_mem_append]
      exact ⟨hfirst.texts, hsecond.texts⟩

theorem allOf_cons {node : Node} :
    AllOf p q (node :: nodes) ↔ AllOf p q [node] ∧ AllOf p q nodes :=
  @allOf_append p q [node] nodes

theorem allOf_reverse : AllOf p q nodes.reverse ↔ AllOf p q nodes := by
  induction nodes with
  | nil => rfl
  | cons node nodes ih =>
      rw [List.reverse_cons, allOf_append, ih, and_comm]
      exact allOf_cons.symm

theorem allOf_element : AllOf p q [.element name attrs children] ↔
    p ⟨name, attrs, children⟩ ∧ AllOf p q children := by
  constructor
  · rintro ⟨helements, htexts⟩
    rw [elements_element, elements_nil, List.append_nil, List.forall_mem_cons] at helements
    rw [texts_element, texts_nil, List.append_nil] at htexts
    exact ⟨helements.1, helements.2, htexts⟩
  · rintro ⟨hp, hchildren⟩
    constructor
    · rw [elements_element, elements_nil, List.append_nil, List.forall_mem_cons]
      exact ⟨hp, hchildren.elements⟩
    · rw [texts_element, texts_nil, List.append_nil]
      exact hchildren.texts

theorem allOf_text : AllOf p q [.text kind content] ↔ q kind content := by
  constructor
  · intro h
    exact h.texts (kind, content) List.mem_cons_self
  · intro h
    refine ⟨fun _ he => absurd he List.not_mem_nil, fun t ht => ?_⟩
    rw [List.mem_singleton.1 ht]
    exact h

end AllOf

namespace Builder

/-- Every finished element and every finished text of a tree under construction is as it should
be. -/
def AllOf (p : Element → Prop) (q : TextKind → Chars → Prop) (b : Builder) : Prop :=
  Markup.AllOf p q b.done ∧ ∀ e ∈ b.opened, Markup.AllOf p q e.children

section AllOf

variable {p : Element → Prop} {q : TextKind → Chars → Prop} {b b' : Builder} {kind : TextKind}

theorem allOf_add (node : Node) :
    (b.add node).AllOf p q ↔ b.AllOf p q ∧ Markup.AllOf p q [node] := by
  obtain ⟨opened, done, pending, passed⟩ := b
  cases opened with
  | nil =>
      simp only [AllOf, add, @allOf_cons p q done node]
      tauto
  | cons e rest =>
      simp only [AllOf, add, List.forall_mem_cons, @allOf_cons p q e.children node]
      tauto

/-- The text that may still grow, as a node. -/
def pendingNodes (b : Builder) (kind : TextKind) : List Node :=
  match b.pending with
  | none => []
  | some text => [.text kind (b.collapse text)]

theorem allOf_flush :
    (b.flush kind).AllOf p q ↔ b.AllOf p q ∧ Markup.AllOf p q (b.pendingNodes kind) := by
  unfold flush pendingNodes
  cases b.pending with
  | none => exact (and_iff_left allOf_nil).symm
  | some text => exact allOf_add _

/-- Whether blanks are kept depends on the open elements only. -/
theorem collapse_congr (h : b.names = b'.names) (text : Chars) :
    b.collapse text = b'.collapse text := by
  have hany : ∀ b : Builder, (b.opened.any fun e => keepsBlanks e.name) =
      b.names.any keepsBlanks := fun b => by rw [names, List.any_map]; rfl
  rw [collapse, collapse, hany, hany, h]

/-- A construct that is a node of its own ends the text before it. -/
theorem special_eq (b : Builder) (kind : TextKind) (text : Chars) :
    b.special kind text = (b.flush .plain).add (.text kind (b.collapse text)) := by
  have hpending := flush_pending b .plain
  have hcollapse := collapse_congr (flush_names b .plain) text
  rw [special, write, hpending, ← hcollapse]
  cases hflush : b.flush .plain with
  | mk opened done pending passed =>
      rw [hflush] at hpending
      obtain rfl : pending = none := hpending
      rfl

theorem allOf_special {text : Chars} : (b.special kind text).AllOf p q ↔
    (b.flush .plain).AllOf p q ∧ q kind (b.collapse text) := by
  rw [special_eq, allOf_add, allOf_text]

theorem allOf_closeLast : b.closeLast.AllOf p q ↔ b.AllOf p q ∧
    ∀ e ∈ b.opened.head?, p ⟨e.name, e.attrs, e.children.reverse⟩ := by
  obtain ⟨_ | ⟨e, rest⟩, done, pending, passed⟩ := b
  · simp [closeLast]
  · change (add ⟨rest, done, pending, passed⟩ _).AllOf p q ↔ _
    rw [allOf_add, allOf_element, allOf_reverse]
    simp only [AllOf, List.forall_mem_cons, List.head?_cons, Option.mem_def, Option.some.injEq,
      forall_eq']
    tauto

theorem AllOf.of_closeTo {name : Chars} {n : Nat} (h : (closeTo name n b).AllOf p q) :
    b.AllOf p q := by
  induction n generalizing b with
  | zero => exact h
  | succ n ih =>
      rw [closeTo] at h
      split at h
      · exact h
      · split at h
        · exact (allOf_closeLast.1 h).1
        · exact (allOf_closeLast.1 (ih h)).1

/-- What is finished stays. -/
theorem AllOf.of_event {event : Event} (h : b'.AllOf p q) (hevent : b.event event = .ok b') :
    b.AllOf p q := by
  have hspecial : ∀ kind text, (b.special kind text).AllOf p q → b.AllOf p q := fun kind text h =>
    (allOf_flush.1 (allOf_special.1 h).1).1
  cases event with
  | text content =>
      rw [← Except.ok.inj hevent] at h
      exact h
  | reference r =>
      obtain ⟨text, -, rfl⟩ := exists_of_map_eq_ok hevent
      exact h
  | start tag =>
      rw [← Except.ok.inj hevent, start] at h
      dsimp only at h
      split at h
      · exact (allOf_flush.1 ((allOf_add _).1 h).1).1
      · split at h
        · exact (allOf_flush.1 ((allOf_add (b := b.flush .plain) _).1 h).1).1
        · have hflush : (b.flush .plain).AllOf p q :=
            ⟨h.1, fun e he => h.2 e (List.mem_cons_of_mem _ he)⟩
          exact (allOf_flush.1 hflush).1
  | close name =>
      rw [← Except.ok.inj hevent, close] at h
      split at h
      · exact h
      · dsimp only at h
        split at h
        · exact (allOf_flush.1 h.of_closeTo).1
        · exact (allOf_flush.1 h).1
  | comment content => exact hspecial _ _ (Except.ok.inj hevent ▸ h)
  | doctype content => exact hspecial _ _ (Except.ok.inj hevent ▸ h)
  | instruction content => exact hspecial _ _ (Except.ok.inj hevent ▸ h)
  | marked content => exact hspecial _ _ (Except.ok.inj hevent ▸ h)

theorem AllOf.of_foldlM {events : List Event} (h : b'.AllOf p q)
    (hevents : events.foldlM event b = .ok b') : b.AllOf p q := by
  induction events generalizing b with
  | nil =>
      obtain rfl := Except.ok.inj hevents
      exact h
  | cons event events ih =>
      rw [List.foldlM_cons] at hevents
      obtain ⟨next, hnext, hevents⟩ := exists_of_bind_eq_ok hevents
      exact (ih hevents).of_event hnext

theorem AllOf.of_foldl_closeLast {α : Type} {opened : List α}
    (h : (opened.foldl (fun b _ => b.closeLast) b).AllOf p q) : b.AllOf p q := by
  induction opened generalizing b with
  | nil => exact h
  | cons _ opened ih => exact (allOf_closeLast.1 (ih h)).1

theorem AllOf.of_finish (h : Markup.AllOf p q b.finish) : b.AllOf p q := by
  have hopened := opened_foldl_closeLast (Nat.le_refl (b.flush .plain).opened.length)
  have hdone : ((b.flush .plain).opened.foldl (fun b _ => b.closeLast) (b.flush .plain)).AllOf p q :=
    ⟨allOf_reverse.1 h, fun e he => absurd (hopened ▸ he) List.not_mem_nil⟩
  exact (allOf_flush.1 hdone.of_foldl_closeLast).1

/-- Elements that may have any content can be closed. -/
theorem AllOf.closeTo (h : b.AllOf p q)
    (hopened : ∀ name ∈ b.names, ∀ attrs children, p ⟨name, attrs, children⟩) (name : Chars)
    (n : Nat) : (closeTo name n b).AllOf p q := by
  induction n generalizing b with
  | zero => exact h
  | succ n ih =>
      have hlast : b.closeLast.AllOf p q := by
        refine allOf_closeLast.2 ⟨h, fun e he => hopened e.name ?_ _ _⟩
        exact List.mem_map_of_mem (List.mem_of_mem_head? he)
      have hnames : ∀ name ∈ b.closeLast.names, ∀ attrs children, p ⟨name, attrs, children⟩ :=
        fun name hname => hopened name (List.mem_of_mem_tail (closeLast_names b ▸ hname))
      rw [Builder.closeTo]
      split
      · exact h
      · split
        · exact hlast
        · exact ih hlast hnames

theorem AllOf.foldl_closeLast {α : Type} {opened : List α} (h : b.AllOf p q)
    (hhead : ∀ e ∈ b.opened.head?, p ⟨e.name, e.attrs, e.children.reverse⟩)
    (htail : ∀ name ∈ b.names.tail, ∀ attrs children, p ⟨name, attrs, children⟩) :
    (opened.foldl (fun b _ => b.closeLast) b).AllOf p q := by
  induction opened generalizing b with
  | nil => exact h
  | cons _ opened ih =>
      rw [← closeLast_names] at htail
      exact ih (allOf_closeLast.2 ⟨h, hhead⟩)
        (fun e he => htail e.name (List.mem_map_of_mem (List.mem_of_mem_head? he)) _ _)
        fun name hname => htail name (List.mem_of_mem_tail hname)

end AllOf

end Builder

/-- The content of an element that is read from the source. -/
structure Element.Content (source : Chars) (e : Element) : Prop where
  void (h : isVoid e.name) : e.children = []
  raw (h : isRawText e.name) : e.children = [] ∨ ∃ text, e.children = [.text .plain text] ∧
    NoEnd (rawClose? e.name) text [] ∧ (text <:+: source ∨ text.all Text.isSpace)

/-- A text that does not hold the end of its construct. -/
def TextKind.Sound : TextKind → Chars → Prop
  | .comment, content => NoEnd commentEnd? content []
  | .cdata, content => NoEnd sectionEnd? content []
  | .instruction, content => .of '>' ∉ content
  | .doctype, content => .of '>' ∉ content
  | .plain, _ => True
  | .declaration, _ => True

namespace Builder

variable {source : Chars} {o o' : OpenText} {b b' : Builder} {kind : TextKind} {text : Chars}

theorem collapse_cases (b : Builder) (text : Chars) :
    b.collapse text = text ∨ b.collapse text = [.of '\n'] ∨ b.collapse text = [' '] := by
  unfold collapse
  split
  · exact Or.inl rfl
  · split
    · exact Or.inr (Or.inl rfl)
    · exact Or.inr (Or.inr rfl)

/-- Blanks end no construct. -/
theorem sound_collapse (h : kind.Sound text) : kind.Sound (b.collapse text) := by
  have hblank : ∀ c : Rune, c ≠ '>' → kind.Sound [c] := by
    intro c hc
    have hmem : .of '>' ∉ [c] := fun h => hc (List.mem_singleton.1 h).symm
    cases kind with
    | comment => exact endsAtAngle_commentEnd?.noEnd_of_not_mem hmem
    | cdata => exact endsAtAngle_sectionEnd?.noEnd_of_not_mem hmem
    | instruction => exact hmem
    | doctype => exact hmem
    | plain => trivial
    | declaration => trivial
  rcases b.collapse_cases text with heq | heq | heq
  · rwa [heq]
  · rw [heq]
    exact hblank _ (by decide)
  · rw [heq]
    exact hblank _ (by decide)

theorem allOf_pendingNodes {p : Element → Prop} :
    Markup.AllOf p TextKind.Sound (b.pendingNodes .plain) := by
  unfold pendingNodes
  split
  · exact allOf_nil
  · exact allOf_text.2 trivial

/-- Plain text may be anything. -/
theorem AllOf.flush_plain {p : Element → Prop} (hb : b.AllOf p TextKind.Sound) :
    (b.flush .plain).AllOf p TextKind.Sound :=
  allOf_flush.2 ⟨hb, allOf_pendingNodes⟩

/-- The innermost open element is a raw text element without content; the text that may grow is
what was read of it. -/
structure InRaw (source name before : Chars) (b : Builder) : Prop where
  raw : isRawText name
  opened : ∃ attrs rest, b.opened = ⟨name, attrs, []⟩ :: rest ∧
    ∀ e ∈ rest, isRawText e.name = false
  pending : b.pending.getD [] = before
  noEnd : NoEnd (rawClose? name) before []
  found : before <:+: source

/-- The elements that are open are as the events left them. -/
def Inside (source : Chars) : OpenText → Builder → Prop
  | none, b => ∀ name ∈ b.names, isRawText name = false
  | some (name, before), b => b.InRaw source name before

/-- A tree under construction, between two events that were read from the source. -/
structure Fits (source : Chars) (o : OpenText) (b : Builder) : Prop where
  all : b.AllOf (Element.Content source) TextKind.Sound
  sound : b.Sound
  inside : b.Inside source o

theorem content_of_plain {name : Chars} (hvoid : isVoid name = false)
    (hraw : isRawText name = false) (attrs : List (Chars × Chars)) (children : List Node) :
    Element.Content source ⟨name, attrs, children⟩ :=
  ⟨fun h => absurd (hvoid.symm.trans h) Bool.false_ne_true,
    fun h => absurd (hraw.symm.trans h) Bool.false_ne_true⟩

/-- The text under way becomes the content of the innermost element. -/
theorem opened_flush {name : Chars} {attrs : List (Chars × Chars)} {rest : List OpenElement}
    (hopened : b.opened = ⟨name, attrs, []⟩ :: rest) :
    (b.flush kind).opened = ⟨name, attrs, b.pendingNodes kind⟩ :: rest := by
  obtain ⟨opened, done, pending, passed⟩ := b
  obtain rfl : opened = ⟨name, attrs, []⟩ :: rest := hopened
  cases pending <;> rfl

theorem reverse_pendingNodes : (b.pendingNodes kind).reverse = b.pendingNodes kind := by
  unfold pendingNodes
  split <;> rfl

/-- An end tag closes the innermost element, which has no content but the text that may grow. -/
theorem close_innermost {name : Chars} {attrs : List (Chars × Chars)} {rest : List OpenElement}
    (hopened : b.opened = ⟨name, attrs, []⟩ :: rest) (hpassed : name ∉ b.passed) :
    b.close name = { b with opened := rest, pending := none }.add
      (.element name attrs (b.pendingNodes .plain)) := by
  obtain ⟨opened, done, pending, passed⟩ := b
  obtain rfl : opened = ⟨name, attrs, []⟩ :: rest := hopened
  rw [← List.contains_iff_mem] at hpassed
  rw [close, if_neg hpassed]
  cases pending <;> simp [flush, pendingNodes, add, closeTo, closeLast]

theorem not_isVoid_of_isRawText {name : Chars} (h : isRawText name) : isVoid name = false := by
  have hall : ∀ n ∈ rawTextElements, isVoid n = false := by decide
  exact hall name (List.contains_iff_mem.1 h)

/-- The content of a raw text element when its end tag is read. -/
theorem InRaw.content {name before : Chars} (hb : b.InRaw source name before)
    (attrs : List (Chars × Chars)) :
    Element.Content source ⟨name, attrs, b.pendingNodes .plain⟩ := by
  have hvoid := not_isVoid_of_isRawText hb.raw
  refine ⟨fun h => absurd (hvoid.symm.trans h) Bool.false_ne_true, fun _ => ?_⟩
  have hpending := hb.pending
  unfold pendingNodes
  cases hcase : b.pending with
  | none => exact Or.inl rfl
  | some text =>
      rw [hcase] at hpending
      obtain rfl : text = before := hpending
      refine Or.inr ⟨_, rfl, ?_⟩
      rcases b.collapse_cases text with heq | heq | heq
      · rw [heq]
        exact ⟨hb.noEnd, Or.inl hb.found⟩
      · rw [heq]
        exact ⟨noEnd_of_not_mem (by decide) [], Or.inr (by decide)⟩
      · rw [heq]
        exact ⟨noEnd_of_not_mem (by decide) [], Or.inr (by decide)⟩

theorem content_of_nil (name : Chars) (attrs : List (Chars × Chars)) :
    Element.Content source ⟨name, attrs, []⟩ :=
  ⟨fun _ => rfl, fun _ => Or.inl rfl⟩

theorem not_isRawText_of_mem_opened (h : ∀ name ∈ b.names, isRawText name = false) :
    ∀ e ∈ b.opened, isRawText e.name = false := fun _ he => h _ (List.mem_map_of_mem he)

/-- The start tag of a raw text element. -/
theorem inRaw_start {tag : StartTag} (hself : tag.selfClosing = false) (hraw : isRawText tag.name)
    (hb : ∀ name ∈ b.names, isRawText name = false) : (b.start tag).InRaw source tag.name [] := by
  rw [start, hself, not_isVoid_of_isRawText hraw]
  refine ⟨hraw, ⟨_, _, rfl, not_isRawText_of_mem_opened fun name hname => hb name ?_⟩, ?_, trivial,
    List.nil_infix⟩
  · rwa [flush_names] at hname
  · dsimp only
    rw [if_neg Bool.false_ne_true, if_neg Bool.false_ne_true]
    exact congrArg (Option.getD · []) (flush_pending b .plain)

/-- The start tag of another element. -/
theorem names_start {tag : StartTag} (hraw : (Event.start tag).raw? = none)
    (hb : ∀ name ∈ b.names, isRawText name = false) :
    ∀ name ∈ (b.start tag).names, isRawText name = false := by
  rw [Event.raw?, ite_eq_right_iff] at hraw
  unfold start
  dsimp only
  split
  · rwa [add_names, flush_names]
  · rename_i hself
    split
    · change ∀ name ∈ ((b.flush .plain).add _).names, _
      rwa [add_names, flush_names]
    · have hname : isRawText tag.name = false := by
        rw [Bool.eq_false_iff]
        intro htrue
        rw [htrue, Bool.eq_false_iff.2 hself] at hraw
        exact absurd (hraw rfl) (Option.some_ne_none _)
      refine List.forall_mem_cons.2 ⟨hname, ?_⟩
      change ∀ name ∈ (b.flush .plain).names, _
      rwa [flush_names]

theorem allOf_start {tag : StartTag} (hb : b.AllOf (Element.Content source) TextKind.Sound) :
    (b.start tag).AllOf (Element.Content source) TextKind.Sound := by
  have hflush := hb.flush_plain
  have hnode : Markup.AllOf (Element.Content source) TextKind.Sound
      [.element tag.name (treeAttributes tag.attrs) []] :=
    allOf_element.2 ⟨content_of_nil _ _, allOf_nil⟩
  have hadd := (allOf_add _).2 ⟨hflush, hnode⟩
  unfold start
  dsimp only
  split
  · exact hadd
  · split
    · exact hadd
    · exact ⟨hflush.1, List.forall_mem_cons.2 ⟨allOf_nil, hflush.2⟩⟩

theorem Fits.start {tag : StartTag} (hb : b.Fits source none) :
    (b.start tag).Fits source ((Event.start tag).raw?.map fun name => (name, [])) := by
  refine ⟨allOf_start hb.all, hb.sound.start tag, ?_⟩
  cases hraw : (Event.start tag).raw? with
  | none => exact names_start hraw hb.inside
  | some name =>
      rw [Event.raw?, Option.ite_none_right_eq_some, Bool.and_eq_true, Bool.not_eq_true'] at hraw
      obtain ⟨⟨hself, hname⟩, heq⟩ := hraw
      obtain rfl := Option.some.inj heq
      exact inRaw_start hself hname hb.inside

/-- A construct that is a node of its own. -/
theorem Fits.special (hb : b.Fits source none) (h : kind.Sound text) :
    (b.special kind text).Fits source none where
  all := allOf_special.2 ⟨hb.all.flush_plain, sound_collapse h⟩
  sound := hb.sound.of_eq (special_names b kind text) (special_passed b kind text)
  inside := by
    rw [Inside, special_names]
    exact hb.inside

theorem sound_markedText (h : NoEnd sectionEnd? text []) :
    (markedText text).1.Sound (markedText text).2 := by
  unfold markedText
  split
  · exact h.suffix (List.drop_suffix 6 text)
  · trivial

/-- An end tag outside raw text closes elements that may have any content. -/
theorem Fits.close (hb : b.Fits source none) (name : Chars) :
    (b.close name).Fits source none := by
  have hflush := hb.all.flush_plain
  have hopened : ∀ name ∈ (b.flush .plain).names, ∀ attrs children,
      Element.Content source ⟨name, attrs, children⟩ := by
    rw [flush_names]
    exact fun name hname => content_of_plain (hb.sound.opened name hname) (hb.inside name hname)
  refine ⟨?_, hb.sound.close name, ?_⟩
  · unfold Builder.close
    split
    · exact hb.all
    · dsimp only
      split
      · exact hflush.closeTo hopened name _
      · exact hflush
  · have hsub : (b.close name).names ⊆ b.names := by
      unfold Builder.close
      split
      · exact List.Subset.refl _
      · dsimp only
        rw [← flush_names b .plain]
        split
        · exact closeTo_names _ _ _
        · exact List.Subset.refl _
    exact fun other hother => hb.inside other (hsub hother)

/-- The end tag of a raw text element. -/
theorem Fits.closeRaw {name before : Chars} (hb : b.Fits source (some (name, before))) :
    (b.close name).Fits source none := by
  obtain ⟨attrs, rest, hopened, hrest⟩ := hb.inside.opened
  have hpassed : name ∉ b.passed := fun hmem =>
    absurd (hb.sound.passed name hmem) (Bool.eq_false_iff.1 (not_isVoid_of_isRawText hb.inside.raw))
  have hclose := close_innermost hopened hpassed
  refine ⟨?_, hb.sound.close name, ?_⟩
  · rw [hclose, allOf_add, allOf_element]
    have hall := hb.all
    rw [AllOf, hopened, List.forall_mem_cons] at hall
    exact ⟨⟨hall.1, hall.2.2⟩, hb.inside.content attrs, allOf_pendingNodes⟩
  · rw [hclose, Inside, add_names]
    exact List.forall_mem_map.2 hrest

theorem Fits.event {event : Event} (hb : b.Fits source o) (hcomes : event.Comes source o o')
    (h : b.event event = .ok b') : b'.Fits source o' := by
  cases hcomes with
  | outside hsound =>
      cases event with
      | text content =>
          rw [← Except.ok.inj h]
          exact ⟨hb.all, hb.sound.of_eq rfl rfl, hb.inside⟩
      | reference r =>
          obtain ⟨text, -, rfl⟩ := exists_of_map_eq_ok h
          exact ⟨hb.all, hb.sound.of_eq rfl rfl, hb.inside⟩
      | start tag => exact Except.ok.inj h ▸ hb.start
      | close name => exact Except.ok.inj h ▸ hb.close name
      | comment content => exact Except.ok.inj h ▸ hb.special hsound
      | doctype content =>
          exact Except.ok.inj h ▸ hb.special fun hmem => hsound (List.mem_of_mem_drop hmem)
      | instruction content => exact Except.ok.inj h ▸ hb.special hsound
      | marked content => exact Except.ok.inj h ▸ hb.special (sound_markedText hsound)
  | text hend hsource =>
      rw [← Except.ok.inj h]
      obtain ⟨hraw, hopened, hpending, -, -⟩ := hb.inside
      refine ⟨hb.all, hb.sound.of_eq rfl rfl, hraw, hopened, ?_, hend, hsource⟩
      rw [write, hpending]
      rfl
  | close => exact Except.ok.inj h ▸ hb.closeRaw

theorem Fits.foldlM {events : List Event} (hb : b.Fits source o)
    (horder : InOrder source o events o') (h : events.foldlM Builder.event b = .ok b') :
    b'.Fits source o' := by
  induction horder generalizing b with
  | nil => exact Except.ok.inj h ▸ hb
  | cons he _ ih =>
      rw [List.foldlM_cons] at h
      obtain ⟨next, hnext, h⟩ := exists_of_bind_eq_ok h
      exact ih (hb.event he hnext) h

/-- The innermost element that is open, with the text under way. -/
theorem Fits.content_head (hb : b.Fits source o) : ∀ e ∈ (b.flush .plain).opened.head?,
    Element.Content source ⟨e.name, e.attrs, e.children.reverse⟩ := by
  intro e he
  cases o with
  | none =>
      have hname : e.name ∈ b.names :=
        flush_names b .plain ▸ List.mem_map_of_mem (List.mem_of_mem_head? he)
      exact content_of_plain (hb.sound.opened e.name hname) (hb.inside e.name hname) _ _
  | some text =>
      obtain ⟨name, before⟩ := text
      obtain ⟨attrs, rest, hopened, -⟩ := hb.inside.opened
      rw [opened_flush hopened] at he
      obtain rfl := Option.some.inj he
      rw [reverse_pendingNodes]
      exact hb.inside.content attrs

/-- No raw text element is open but the innermost one. -/
theorem Fits.plain_tail (hb : b.Fits source o) :
    ∀ name ∈ b.names.tail, isRawText name = false := by
  cases o with
  | none => exact fun name hname => hb.inside name (List.mem_of_mem_tail hname)
  | some text =>
      obtain ⟨name, before⟩ := text
      obtain ⟨attrs, rest, hopened, hrest⟩ := hb.inside.opened
      rw [names, hopened, List.map_cons, List.tail_cons]
      exact List.forall_mem_map.2 hrest

theorem Fits.finish (hb : b.Fits source o) :
    Markup.AllOf (Element.Content source) TextKind.Sound b.finish := by
  have htail : ∀ name ∈ (b.flush .plain).names.tail, ∀ attrs children,
      Element.Content source ⟨name, attrs, children⟩ := by
    rw [flush_names]
    exact fun name hname =>
      content_of_plain (hb.sound.opened name (List.mem_of_mem_tail hname)) (hb.plain_tail name hname)
  exact allOf_reverse.2 (hb.all.flush_plain.foldl_closeLast hb.content_head htail).1

theorem fits_empty : empty.Fits source none :=
  ⟨⟨allOf_nil, fun _ he => absurd he List.not_mem_nil⟩, sound_empty,
    fun _ hname => absurd hname List.not_mem_nil⟩

end Builder

/-- A tree that is read. -/
theorem allOf_read {s : Chars} {nodes : List Node} (h : Node.read s = .ok nodes) :
    AllOf (Element.Content s) TextKind.Sound nodes := by
  obtain ⟨events, b, hevents, hb, rfl⟩ := exists_events_of_read h
  obtain ⟨o, horder⟩ := inOrder_readEvents hevents
  exact (Builder.fits_empty.foldlM horder hb).finish

/-- An element whose names can be written in a tag again, its attributes under different names. -/
structure Element.Sound (e : Element) : Prop where
  name : TagName e.name
  lower : Text.lower e.name = e.name
  attrs : ∀ a ∈ e.attrs, AttributeName a.1 ∧ Text.lower a.1 = a.1
  nodup : (e.attrs.map Prod.fst).Nodup

theorem InOrder.sound {source : Chars} {o o' : OpenText} {events : List Event}
    (h : InOrder source o events o') : ∀ e ∈ events, e.Sound source := by
  induction h with
  | nil => exact fun e he => absurd he List.not_mem_nil
  | cons he _ ih =>
      refine List.forall_mem_cons.2 ⟨?_, ih⟩
      cases he with
      | outside hsound => exact hsound
      | text => trivial
      | close => trivial

theorem mem_startTags {tag : StartTag} {events : List Event} :
    tag ∈ startTags events ↔ Event.start tag ∈ events := by
  rw [startTags, List.mem_filterMap]
  constructor
  · rintro ⟨event, hevent, heq⟩
    cases event with
    | start other => exact Option.some.inj heq ▸ hevent
    | _ => contradiction
  · exact fun h => ⟨_, h, rfl⟩

/-- The elements of a tree that is read. -/
theorem sound_of_read {s : Chars} {nodes : List Node} (h : Node.read s = .ok nodes) :
    ∀ e ∈ elements nodes, e.Sound := by
  intro e he
  obtain ⟨events, b, hevents, -, -⟩ := exists_events_of_read h
  obtain ⟨o, horder⟩ := inOrder_readEvents hevents
  have hmem : (e.name, e.attrs) ∈ (startTags events).map StartTag.inTree := by
    rw [← tagsOf_read h hevents]
    exact List.mem_map_of_mem he
  obtain ⟨tag, htag, heq⟩ := List.mem_map.1 hmem
  obtain ⟨hname, hattrs⟩ := Prod.mk.inj heq
  have hsound : tag.Sound s := horder.sound _ (mem_startTags.1 htag)
  refine ⟨hname ▸ hsound.name, hname ▸ hsound.lower, fun a ha => ?_,
    hattrs ▸ nodup_treeAttributes tag.attrs⟩
  have hkey : a.1 ∈ tag.attrs.map Prod.fst := by
    rw [← mem_keys_treeAttributes, hattrs]
    exact List.mem_map_of_mem ha
  obtain ⟨written, hwritten, heq'⟩ := List.mem_map.1 hkey
  exact heq' ▸ hsound.attrs written hwritten

end Folio.Markup
