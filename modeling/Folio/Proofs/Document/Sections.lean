import Folio.Document.Normalize
import Folio.Proofs.Document.SectionTags
import Folio.Proofs.Markup.Joining
import Folio.Proofs.Markup.Nesting

/-!
The sections of a document, read again. If every part of every page is an element or several, and
closes its quotes, then the tree of the text is one section for each page, and the children of a
section are the nodes of its page's parts, each read by itself.
-/
namespace Folio.Document

open Markup (Builder Event MarkupError Node Reads StandsAlone BuildsNode)

/-- Whether the events begin with a start tag and end with an end tag. -/
def isTagged (events : List Event) : Bool :=
  (events.head?.any fun
    | .start _ => true
    | _ => false) &&
  (events.getLast?.any fun
    | .close _ => true
    | _ => false)

/-- Whether all end tags among the events close something, and no element is left open. -/
def isMatched (events : List Event) : Bool :=
  Markup.endTagsMatch .empty events && match events.foldlM Builder.event .empty with
    | .ok b => b.opened.isEmpty
    | .error _ => false

/-- Whether a text is read completely, without the step at the end of the input, and is made of
elements: it begins with a start tag and ends with an end tag, every end tag has a start tag, and
nothing is left open. -/
def isBalanced (s : Chars) : Bool :=
  match Markup.pass false (s.length + 1) none s with
  | .ok ⟨events, none, []⟩ => isTagged events && isMatched events
  | _ => false

/-- Whether no value of an attribute begins with a quote that the text does not close. -/
def closesQuotes (s : Chars) : Bool := Markup.quotesClosed (s.length + 1) none s

/-- The parts of a page before they are cleaned: its header if it is shown, its body, its footer if
it is shown. -/
def Page.parts (b : Bundle) (p : Page) : List (Except MarkupError Chars) :=
  (if p.showsHeader then [bandPart .header p.header b.header] else []) ++ [wrapBody p.body] ++
    (if p.showsFooter then [bandPart .footer p.footer b.footer] else [])

/-- The element of a page: its section, with the nodes of all its parts, each read by itself. -/
def sectionNode (b : Bundle) (p : Page) : Except MarkupError Node := do
  let texts ← (p.parts b).mapM id
  let trees ← texts.mapM Node.read
  return .element "section".runes p.sectionTag.attributes trees.flatten

section Parts

variable {s : Chars} {events : List Event}

theorem endsInClose_of_isTagged (h : isTagged events) : Markup.EndsInClose events := by
  rw [isTagged, Bool.and_eq_true, Option.any_eq_true, Option.any_eq_true] at h
  obtain ⟨-, last, hlast, hclose⟩ := h
  intro event hevent
  obtain rfl := Option.some.inj (hlast.symm.trans hevent)
  cases last with
  | close name => exact ⟨name, rfl⟩
  | _ => contradiction

theorem exists_start_of_isTagged (h : isTagged events) : ∃ tag more, events = .start tag :: more := by
  rw [isTagged, Bool.and_eq_true, Option.any_eq_true] at h
  obtain ⟨⟨first, hfirst, hstart⟩, -⟩ := h
  obtain ⟨more, rfl⟩ := List.head?_eq_some_iff.1 hfirst
  cases first with
  | start tag => exact ⟨tag, more, rfl⟩
  | _ => contradiction

theorem exists_standsAlone (htagged : isTagged events) (hmatched : isMatched events) :
    ∃ nodes, StandsAlone events nodes := by
  rw [isMatched, Bool.and_eq_true] at hmatched
  obtain ⟨hmatch, hrun⟩ := hmatched
  cases hbuilt : events.foldlM Builder.event .empty with
  | error e =>
      rw [hbuilt] at hrun
      contradiction
  | ok b =>
      rw [hbuilt] at hrun
      exact ⟨_, exists_start_of_isTagged htagged, hmatch, b, hbuilt, List.isEmpty_iff.1 hrun, rfl⟩

/-- A part is read in the same way whatever follows it, and its events build its nodes. -/
theorem exists_of_isBalanced (hbalanced : isBalanced s) (hclosed : closesQuotes s) :
    ∃ events nodes, StandsAlone events nodes ∧ Node.read s = .ok nodes ∧
      ∀ t, Reads none (s ++ t) events none t := by
  unfold isBalanced at hbalanced
  split at hbalanced
  · rename_i events hpass
    obtain ⟨htagged, hmatched⟩ := Bool.and_eq_true_iff.1 hbalanced
    obtain ⟨nodes, hnodes⟩ := exists_standsAlone htagged hmatched
    have hreads := Reads.of_pass hpass
    refine ⟨events, nodes, hnodes, ?_, fun t => ?_⟩
    · rw [Node.read, hreads.readEvents]
      exact hnodes.ofEvents
    · exact hreads.append Markup.rawText_none (endsInClose_of_isTagged htagged)
        (Nat.lt_succ_self _) hclosed t
  · contradiction

/-- Parts one after the other. -/
theorem exists_of_all_balanced {texts : List Chars}
    (h : ∀ text ∈ texts, isBalanced text ∧ closesQuotes text) :
    ∃ groups trees, List.Forall₂ StandsAlone groups trees ∧
      texts.mapM Node.read = .ok trees ∧
      ∀ t, Reads none (texts.flatten ++ t) groups.flatten none t := by
  induction texts with
  | nil => exact ⟨[], [], .nil, rfl, fun t => .done none t⟩
  | cons text texts ih =>
      obtain ⟨groups, trees, hall, htrees, hlater⟩ :=
        ih fun other hother => h other (List.mem_cons_of_mem text hother)
      obtain ⟨hbalanced, hclosed⟩ := h text List.mem_cons_self
      obtain ⟨events, nodes, halone, hnodes, hfirst⟩ := exists_of_isBalanced hbalanced hclosed
      refine ⟨events :: groups, nodes :: trees, .cons halone hall, ?_, fun t => ?_⟩
      · rw [List.mapM_cons, hnodes, htrees]
        rfl
      · rw [List.flatten_cons, List.flatten_cons, List.append_assoc]
        exact (hfirst (texts.flatten ++ t)).trans (hlater t)

end Parts

section Assembly

variable {b : Bundle} {p : Page}

theorem joinParts_value {parts : List (Recorded MarkupError Chars)} {texts : List Chars}
    (h : parts.map (·.value) = texts.map Except.ok) : (joinParts parts).value = .ok texts.flatten := by
  induction parts generalizing texts with
  | nil =>
      obtain rfl := List.map_eq_nil_iff.1 h.symm
      rfl
  | cons part parts ih =>
      cases texts with
      | nil => contradiction
      | cons text texts =>
          obtain ⟨hfirst, hlater⟩ := List.cons.inj h
          rw [joinParts, Logged.andThen]
          dsimp only at hfirst ⊢
          rw [hfirst]
          dsimp only [Logged.map]
          rw [ih hlater]
          rfl

theorem exists_texts {parts : List (Except MarkupError Chars)} {q : Chars → Prop}
    (h : ∀ part ∈ parts, ∃ text, part = .ok text ∧ q text) :
    ∃ texts : List Chars, parts = texts.map Except.ok ∧ ∀ text ∈ texts, q text := by
  induction parts with
  | nil => exact ⟨[], rfl, fun text htext => absurd htext List.not_mem_nil⟩
  | cons part parts ih =>
      obtain ⟨text, rfl, hq⟩ := h part List.mem_cons_self
      obtain ⟨texts, rfl, hall⟩ := ih fun other hother => h other (List.mem_cons_of_mem _ hother)
      refine ⟨text :: texts, rfl, fun other hother => ?_⟩
      rcases List.mem_cons.1 hother with rfl | hlater
      · exact hq
      · exact hall other hlater

theorem mapM_ok (texts : List Chars) :
    (texts.map Except.ok : List (Except MarkupError Chars)).mapM id = .ok texts := by
  induction texts with
  | nil => rfl
  | cons text texts ih =>
      rw [List.map_cons, List.mapM_cons, ih]
      rfl

/-- With the security of a bundle that does not describe one, parts stay as they are. -/
theorem pageParts_values (hsecurity : b.security = ⟨false, true⟩) {texts : List Chars}
    (h : p.parts b = texts.map Except.ok) : (pageParts b p).map (·.value) = texts.map Except.ok := by
  have hclean : ∀ part : Except MarkupError Chars, (cleanPart b.security part).value = part := by
    intro part
    rw [hsecurity]
    cases part <;> rfl
  rw [← h, pageParts, Page.parts]
  cases p.showsHeader <;> cases p.showsFooter <;> simp [hclean]

/-- The section of a page whose parts have the given texts, and the events it is read as, whatever
follows. -/
theorem exists_section {texts : List Chars}
    (htexts : (pageParts b p).map (·.value) = texts.map Except.ok)
    (hall : ∀ text ∈ texts, isBalanced text ∧ closesQuotes text) :
    ∃ text events trees, (assemblePage b p).value = .ok text ∧ texts.mapM Node.read = .ok trees ∧
      BuildsNode events (.element "section".runes p.sectionTag.attributes trees.flatten) ∧
      ∀ t, Reads none (text ++ t) events none t := by
  obtain ⟨groups, trees, halone, htrees, hreads⟩ := exists_of_all_balanced hall
  have hvoid : Markup.isVoid "section".runes = false := by decide
  have hblanks : Markup.keepsBlanks "section".runes = false := by decide
  have hopen : p.sectionTag.read.selfClosing = false := rfl
  have hnode := Markup.buildsNode_element hopen hvoid hblanks halone
  rw [p.sectionTag.treeAttributes_read] at hnode
  refine ⟨writeSection p texts.flatten, _, trees, ?_, htrees, hnode, fun t => ?_⟩
  · rw [assemblePage, Logged.map, joinParts_value htexts]
    rfl
  · have hend := Reads.step (step_sectionEnd t) (Reads.done none t)
    have hcontent := (hreads ("</section>".runes ++ t)).trans hend
    exact Reads.step (step_writeSection p texts.flatten t) hcontent

/-- A section by itself is read as one element. -/
theorem read_section {texts : List Chars}
    (htexts : (pageParts b p).map (·.value) = texts.map Except.ok)
    (hall : ∀ text ∈ texts, isBalanced text ∧ closesQuotes text) :
    ∃ text children, (assemblePage b p).value = .ok text ∧
      Node.read text = .ok [.element "section".runes p.sectionTag.attributes children] := by
  obtain ⟨text, events, trees, hvalue, -, hbuilds, hreads⟩ := exists_section htexts hall
  have hread := hreads []
  have hnodes := BuildsNode.ofEvents (.cons hbuilds .nil)
  rw [List.append_nil] at hread
  rw [List.flatten_cons, List.flatten_nil, List.append_nil] at hnodes
  refine ⟨text, trees.flatten, hvalue, ?_⟩
  rw [Node.read, hread.readEvents]
  exact hnodes

/-- With the security of a bundle that does not describe one, it is the element of its page. -/
theorem exists_sectionNode (hsecurity : b.security = ⟨false, true⟩)
    (hparts : ∀ part ∈ p.parts b, ∃ text, part = .ok text ∧ isBalanced text ∧ closesQuotes text) :
    ∃ text events node, (assemblePage b p).value = .ok text ∧ sectionNode b p = .ok node ∧
      BuildsNode events node ∧ ∀ t, Reads none (text ++ t) events none t := by
  obtain ⟨texts, htexts, hall⟩ := exists_texts hparts
  obtain ⟨text, events, trees, hvalue, htrees, hbuilds, hreads⟩ :=
    exists_section (pageParts_values hsecurity htexts) hall
  refine ⟨text, events, _, hvalue, ?_, hbuilds, hreads⟩
  rw [sectionNode, htexts, mapM_ok]
  change (texts.mapM Node.read).bind _ = _
  rw [htrees]
  rfl

/-- All pages, in their order. -/
theorem exists_sections (hsecurity : b.security = ⟨false, true⟩) {pages : List Page}
    (hparts : ∀ p ∈ pages, ∀ part ∈ p.parts b,
      ∃ text, part = .ok text ∧ isBalanced text ∧ closesQuotes text) :
    ∃ (texts : List Chars) (groups : List (List Event)) (sections : List Node),
      (pages.map (assemblePage b)).map (·.value) = texts.map Except.ok ∧
      pages.mapM (sectionNode b) = .ok sections ∧ List.Forall₂ BuildsNode groups sections ∧
      Reads none texts.flatten groups.flatten none [] := by
  induction pages with
  | nil => exact ⟨[], [], [], rfl, rfl, .nil, .done none []⟩
  | cons p pages ih =>
      obtain ⟨texts, groups, sections, htexts, hsections, hbuilds, hreads⟩ :=
        ih fun other hother => hparts other (List.mem_cons_of_mem p hother)
      obtain ⟨text, events, node, hvalue, hnode, hfirst, hread⟩ :=
        exists_sectionNode hsecurity (hparts p List.mem_cons_self)
      refine ⟨text :: texts, events :: groups, node :: sections, ?_, ?_, .cons hfirst hbuilds, ?_⟩
      · rw [List.map_cons, List.map_cons, htexts, hvalue]
        rfl
      · rw [List.mapM_cons, hnode, hsections]
        rfl
      · rw [List.flatten_cons, List.flatten_cons]
        exact (hread texts.flatten).trans hreads

end Assembly

/-- Pages do not reach into each other. If every part of every page is made of elements and closes
its quotes, then the text of the sections is read as one section for each page, in the order of the
pages, with the attributes of its page and, as its children, the nodes of the parts of its page. -/
theorem pages_isolated (b : Bundle) (hsecurity : b.security = ⟨false, true⟩)
    (hparts : ∀ p ∈ b.pages, ∀ part ∈ p.parts b,
      ∃ text, part = .ok text ∧ isBalanced text ∧ closesQuotes text) :
    ∃ text sections, (assemblePages b).value = .ok text ∧
      b.pages.mapM (sectionNode b) = .ok sections ∧ Node.read text = .ok sections := by
  obtain ⟨texts, groups, sections, htexts, hsections, hbuilds, hreads⟩ :=
    exists_sections hsecurity hparts
  refine ⟨texts.flatten, sections, joinParts_value htexts, hsections, ?_⟩
  rw [Node.read, hreads.readEvents]
  exact BuildsNode.ofEvents hbuilds

/-- Whether `q` holds of all parts of all pages. -/
def Bundle.allParts (b : Bundle) (q : Chars → Bool) : Bool :=
  b.pages.all fun p => (p.parts b).all fun part => part.toOption.any q

theorem exists_text_of_allParts {b : Bundle} {q : Chars → Bool} (h : b.allParts q) :
    ∀ p ∈ b.pages, ∀ part ∈ p.parts b, ∃ text, part = .ok text ∧ q text := by
  intro p hp part hpart
  have hpart := List.all_eq_true.1 (List.all_eq_true.1 h p hp) part hpart
  rw [Option.any_eq_true] at hpart
  obtain ⟨text, htext, hq⟩ := hpart
  exact ⟨text, eq_ok_of_toOption htext, hq⟩

/-- Two pages, with a header that both show and a void element in each body. -/
def twoPages : Bundle where
  title := "t".runes
  metaEntries := []
  styles := []
  pages := [.ofBody "one<br>".runes, .ofBody "<p>two<img src='x'></p>".runes]
  layout := .standard
  security := ⟨false, true⟩
  header := "<b title=\"a\">h</b>".runes
  footer := []
  scripts := []
  documentClass := []

theorem twoPages_isolated : ∃ text sections, (assemblePages twoPages).value = .ok text ∧
    twoPages.pages.mapM (sectionNode twoPages) = .ok sections ∧ Node.read text = .ok sections := by
  have hparts : twoPages.allParts fun text => isBalanced text && closesQuotes text := by
    decide +kernel
  apply pages_isolated twoPages rfl
  intro p hp part hpart
  obtain ⟨text, htext, hboth⟩ := exists_text_of_allParts hparts p hp part hpart
  exact ⟨text, htext, Bool.and_eq_true_iff.1 hboth⟩

/-- Two pages as they are sent. The first one has an attribute whose value begins with a quote that
is not closed; the quote of the second section closes it. -/
def swallowingData : Json :=
  let page := fun (body : Chars) => Json.obj [("body", .str body),
    ("options", .obj [("showHeader", .bool false), ("showFooter", .bool false)])]
  .obj [("head", .obj [("title", .str "t")]), ("body", .obj [("pages", .arr [
    page "<main class=\"body\"><p title= \"x></p></main>",
    page "<main class=\"body\"><img src=\"http://e/x.png\"></main>"])])]

def swallowing : Bundle where
  title := "t".runes
  metaEntries := []
  styles := []
  pages := ["<main class=\"body\"><p title= \"x></p></main>",
    "<main class=\"body\"><img src=\"http://e/x.png\"></main>"].map fun body =>
      { Page.ofBody body.toList with showsHeader := false, showsFooter := false }
  layout := .standard
  security := ⟨false, true⟩
  header := []
  footer := []
  scripts := []
  documentClass := []

theorem read_swallowingData : Bundle.read swallowingData = .ok swallowing := by
  rfl

/-- That the parts are made of elements is not enough. -/
theorem pages_not_isolated_of_isBalanced :
    ¬∀ (data : Json) (b : Bundle), Bundle.read data = .ok b → b.security = ⟨false, true⟩ →
      (∀ p ∈ b.pages, ∀ part ∈ p.parts b, ∃ text, part = .ok text ∧ isBalanced text) →
      ∃ text sections, (assemblePages b).value = .ok text ∧
        b.pages.mapM (sectionNode b) = .ok sections ∧ Node.read text = .ok sections := by
  intro hisolated
  have hbalanced : swallowing.allParts isBalanced := by decide +kernel
  have htwo : ((swallowing.pages.mapM (sectionNode swallowing)).map List.length).toOption =
      some 2 := by decide +kernel
  have hone : (((assemblePages swallowing).value.bind Node.read).map List.length).toOption =
      some 1 := by decide +kernel
  obtain ⟨text, sections, htext, hsections, hread⟩ :=
    hisolated swallowingData swallowing read_swallowingData rfl
      (exists_text_of_allParts hbalanced)
  have hwhole : (assemblePages swallowing).value.bind Node.read = .ok sections :=
    (congrArg (fun value => value.bind Node.read) htext).trans hread
  have hlengths : some 2 = some 1 :=
    (htwo.symm.trans (congrArg (fun nodes => (nodes.map List.length).toOption) hsections)).trans
      ((congrArg (fun nodes => (nodes.map List.length).toOption) hwhole).symm.trans hone)
  exact absurd hlengths (by decide)

end Folio.Document
