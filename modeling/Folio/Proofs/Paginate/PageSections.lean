import Folio.Paginate.Row
import Folio.Proofs.Paginate.Rows

/-!
The sections of a document that are pages, those inside others included, and what becomes of them
when each is replaced by a group of pages.
-/
namespace Folio.Paginate

/-- The element that a section is. -/
def Section.node (s : Section) : Node := .element s.tag s.children

theorem Section.node_inj {s t : Section} (h : s.node = t.node) : s = t := by
  obtain ⟨tag, children⟩ := s
  obtain ⟨htag, hchildren⟩ := Node.element.inj h
  subst htag hchildren
  rfl

mutual
/-- The sections in a node that are pages: those of the class that are children of a document
element, in document order, whether or not they are inside each other. -/
def Node.pageSections (inDocument : Bool) (rank : Nat) : Node → List Placed
  | .element tag children =>
      (if inDocument && tag.isPage then [⟨rank, tag, children⟩] else []) ++
        pageSectionsFrom tag.isDocument 0 children
  | .text _ => []
  | .comment _ => []

/-- The sections in a row of siblings that are pages; `rank` sections stand before the row. -/
def pageSectionsFrom (inDocument : Bool) (rank : Nat) : List Node → List Placed
  | [] => []
  | node :: rest =>
      node.pageSections inDocument rank ++
        pageSectionsFrom inDocument (if node.isTagged Tag.isSection then rank + 1 else rank) rest
end

/-- The sections of a document that are pages. -/
def pageSections (document : List Node) : List Placed := pageSectionsFrom false 0 document

/-- The pages inside a section. -/
def Section.inner (s : Section) : List Placed := pageSectionsFrom s.tag.isDocument 0 s.children

/-- No page of the document lies inside another one. -/
def Unnested (document : List Node) : Prop := ∀ p ∈ pageSections document, p.page.inner = []

instance (document : List Node) : Decidable (Unnested document) :=
  inferInstanceAs (Decidable (∀ p ∈ pageSections document, p.page.inner = []))

theorem pagesFrom_element (inDocument : Bool) (rank : Nat) (tag : Tag)
    (children rest : List Node) :
    pagesFrom inDocument rank (.element tag children :: rest) =
      (if inDocument && tag.isPage then [⟨rank, tag, children⟩]
        else pagesFrom tag.isDocument 0 children) ++
      pagesFrom inDocument (if tag.isSection then rank + 1 else rank) rest := rfl

theorem pageSectionsFrom_element (inDocument : Bool) (rank : Nat) (tag : Tag)
    (children rest : List Node) :
    pageSectionsFrom inDocument rank (.element tag children :: rest) =
      ((if inDocument && tag.isPage then [⟨rank, tag, children⟩] else []) ++
        pageSectionsFrom tag.isDocument 0 children) ++
      pageSectionsFrom inDocument (if tag.isSection then rank + 1 else rank) rest := rfl

theorem mem_pageSectionsFrom {inDocument : Bool} {rank : Nat} {nodes : List Node} {p : Placed}
    (hp : p ∈ pageSectionsFrom inDocument rank nodes) :
    p.page.tag.isPage ∧ p.page.node ∈ allNodes nodes := by
  induction nodes using rowInduction generalizing inDocument rank with
  | nil => simp [pageSectionsFrom] at hp
  | element tag children rest ihChildren ihRest =>
      rw [pageSectionsFrom_element, List.mem_append, List.mem_append] at hp
      rw [allNodes_element, List.mem_cons, List.mem_append]
      rcases hp with (hhere | hbelow) | hlater
      · by_cases hpage : (inDocument && tag.isPage) = true
        · rw [if_pos hpage, List.mem_singleton] at hhere
          subst hhere
          exact ⟨(Bool.and_eq_true_iff.1 hpage).2, Or.inl rfl⟩
        · simp [hpage] at hhere
      · obtain ⟨htag, hmem⟩ := ihChildren hbelow
        exact ⟨htag, Or.inr (Or.inl hmem)⟩
      · obtain ⟨htag, hmem⟩ := ihRest hlater
        exact ⟨htag, Or.inr (Or.inr hmem)⟩
  | text content rest ih =>
      obtain ⟨htag, hmem⟩ := ih (by simpa [pageSectionsFrom, Node.pageSections] using hp)
      exact ⟨htag, by simp [hmem]⟩
  | comment content rest ih =>
      obtain ⟨htag, hmem⟩ := ih (by simpa [pageSectionsFrom, Node.pageSections] using hp)
      exact ⟨htag, by simp [hmem]⟩

theorem mem_pageSectionsFrom_of_mem_pagesFrom {inDocument : Bool} {rank : Nat}
    {nodes : List Node} {p : Placed} (hp : p ∈ pagesFrom inDocument rank nodes) :
    p ∈ pageSectionsFrom inDocument rank nodes := by
  induction nodes using rowInduction generalizing inDocument rank with
  | nil => simp [pagesFrom] at hp
  | element tag children rest ihChildren ihRest =>
      rw [pagesFrom_element, List.mem_append] at hp
      rw [pageSectionsFrom_element, List.mem_append, List.mem_append]
      rcases hp with hhere | hlater
      · by_cases hpage : (inDocument && tag.isPage) = true
        · rw [if_pos hpage] at hhere
          rw [if_pos hpage]
          exact Or.inl (Or.inl hhere)
        · rw [if_neg hpage] at hhere
          exact Or.inl (Or.inr (ihChildren hhere))
      · exact Or.inr (ihRest hlater)
  | text content rest ih =>
      simpa [pageSectionsFrom, Node.pageSections] using
        ih (by simpa [pagesFrom, Node.pages] using hp)
  | comment content rest ih =>
      simpa [pageSectionsFrom, Node.pageSections] using
        ih (by simpa [pagesFrom, Node.pages] using hp)

theorem mem_pagesFrom {inDocument : Bool} {rank : Nat} {nodes : List Node} {p : Placed}
    (hp : p ∈ pagesFrom inDocument rank nodes) :
    p.page.tag.isPage ∧ p.page.node ∈ allNodes nodes :=
  mem_pageSectionsFrom (mem_pageSectionsFrom_of_mem_pagesFrom hp)

theorem pageSectionsFrom_eq_pagesFrom {inDocument : Bool} {rank : Nat} {nodes : List Node}
    (hinner : ∀ p ∈ pagesFrom inDocument rank nodes, p.page.inner = []) :
    pageSectionsFrom inDocument rank nodes = pagesFrom inDocument rank nodes := by
  induction nodes using rowInduction generalizing inDocument rank with
  | nil => simp [pageSectionsFrom, pagesFrom]
  | element tag children rest ihChildren ihRest =>
      rw [pagesFrom_element] at hinner ⊢
      rw [pageSectionsFrom_element]
      rw [ihRest fun p hp => hinner p (List.mem_append.2 (Or.inr hp))]
      congr 1
      by_cases hpage : (inDocument && tag.isPage) = true
      · rw [if_pos hpage] at hinner ⊢
        have hnone : pageSectionsFrom tag.isDocument 0 children = [] :=
          hinner ⟨rank, tag, children⟩ (by simp)
        rw [if_pos hpage, hnone, List.append_nil]
      · rw [if_neg hpage] at hinner ⊢
        rw [if_neg hpage, List.nil_append]
        exact ihChildren fun p hp => hinner p (List.mem_append.2 (Or.inl hp))
  | text content rest ih =>
      simpa [pageSectionsFrom, pagesFrom, Node.pageSections, Node.pages] using
        ih (by simpa [pagesFrom, Node.pages] using hinner)
  | comment content rest ih =>
      simpa [pageSectionsFrom, pagesFrom, Node.pageSections, Node.pages] using
        ih (by simpa [pagesFrom, Node.pages] using hinner)

/-- A document is unnested if no page holds another one, and then its pages are all there are. -/
theorem pageSections_eq_pages_of_inner {document : List Node}
    (hinner : ∀ p ∈ pages document, p.page.inner = []) : pageSections document = pages document :=
  pageSectionsFrom_eq_pagesFrom hinner

theorem Unnested.pageSections_eq_pages {document : List Node} (hunnested : Unnested document) :
    pageSections document = pages document :=
  pageSections_eq_pages_of_inner fun p hp =>
    hunnested p (mem_pageSectionsFrom_of_mem_pagesFrom hp)

/-- Nothing in the row or below it is a page. -/
def Clear (inDocument : Bool) (nodes : List Node) : Prop :=
  pageSectionsFrom inDocument 0 nodes = []

theorem Section.inner_eq_nil_iff (s : Section) :
    s.inner = [] ↔ Clear s.tag.isDocument s.children := Iff.rfl

/-- Whether a row is clear does not depend on what stands before it. -/
theorem pageSectionsFrom_eq_nil_iff {inDocument : Bool} (first second : Nat) {nodes : List Node} :
    pageSectionsFrom inDocument first nodes = [] ↔
      pageSectionsFrom inDocument second nodes = [] := by
  induction nodes generalizing first second with
  | nil => simp [pageSectionsFrom]
  | cons head rest ih =>
      simp only [pageSectionsFrom, List.append_eq_nil_iff]
      refine and_congr ?_ (ih _ _)
      cases head with
      | element tag children =>
          by_cases hpage : (inDocument && tag.isPage) = true <;> simp [Node.pageSections, hpage]
      | text content => simp [Node.pageSections]
      | comment content => simp [Node.pageSections]

@[simp] theorem clear_nil (inDocument : Bool) : Clear inDocument [] := by
  simp [Clear, pageSectionsFrom]

@[simp] theorem clear_element {inDocument : Bool} {tag : Tag} {children rest : List Node} :
    Clear inDocument (.element tag children :: rest) ↔
      (inDocument && tag.isPage) = false ∧ Clear tag.isDocument children ∧
        Clear inDocument rest := by
  rw [Clear, pageSectionsFrom_element, List.append_eq_nil_iff, List.append_eq_nil_iff,
    and_assoc]
  refine and_congr ?_ (and_congr Iff.rfl (pageSectionsFrom_eq_nil_iff _ 0))
  by_cases hpage : (inDocument && tag.isPage) = true <;> simp [hpage]

@[simp] theorem clear_text {inDocument : Bool} {content : Chars} {rest : List Node} :
    Clear inDocument (.text content :: rest) ↔ Clear inDocument rest := by
  simp [Clear, pageSectionsFrom, Node.pageSections]

@[simp] theorem clear_comment {inDocument : Bool} {content : Chars} {rest : List Node} :
    Clear inDocument (.comment content :: rest) ↔ Clear inDocument rest := by
  simp [Clear, pageSectionsFrom, Node.pageSections]

/-- A row is clear if each of its nodes is. -/
theorem clear_iff_forall {inDocument : Bool} {nodes : List Node} :
    Clear inDocument nodes ↔ ∀ node ∈ nodes, Clear inDocument [node] := by
  induction nodes with
  | nil => simp
  | cons head rest ih =>
      rw [List.forall_mem_cons, ← ih]
      cases head <;> simp [and_assoc]

/-- Outside of a document element fewer sections are pages. -/
theorem Clear.outside {inDocument : Bool} {nodes : List Node} (h : Clear inDocument nodes) :
    Clear false nodes := by
  induction nodes with
  | nil => simp
  | cons head rest ih => cases head <;> simp_all

theorem clear_of_none {nodes : List Node}
    (hnone : ∀ node ∈ allNodes nodes, ¬ node.isTagged Tag.isPage) (inDocument : Bool) :
    Clear inDocument nodes := by
  rw [Clear, List.eq_nil_iff_forall_not_mem]
  intro p hp
  obtain ⟨hpage, hmem⟩ := mem_pageSectionsFrom hp
  exact hnone _ hmem hpage

theorem isSection_of_isPage {tag : Tag} (h : tag.isPage) : tag.isSection :=
  (Bool.and_eq_true_iff.1 h).1

/-- Where no section is inside another one, no page is. -/
theorem Apart.unnested {document : List Node}
    (hsections : Apart Tag.isSection Tag.isSection document) : Unnested document := by
  intro p hp
  obtain ⟨hpage, hmem⟩ := mem_pageSectionsFrom hp
  have hnone := hsections _ _ hmem (isSection_of_isPage hpage)
  refine clear_of_none (fun node hnode hinner => hnone node hnode ?_) _
  cases node with
  | element tag children => exact isSection_of_isPage hinner
  | text content => simp at hinner
  | comment content => simp at hinner

/-- The pages of a row, whatever stands before it. -/
def pageNodes (inDocument : Bool) (nodes : List Node) : List Node :=
  (pagesFrom inDocument 0 nodes).map (·.page.node)

theorem map_node_pagesFrom (inDocument : Bool) (rank : Nat) (nodes : List Node) :
    (pagesFrom inDocument rank nodes).map (·.page.node) = pageNodes inDocument nodes := by
  induction nodes using rowInduction generalizing rank with
  | nil => simp [pagesFrom, pageNodes]
  | element tag children rest _ ih =>
      simp only [pageNodes, pagesFrom_element, List.map_append]
      rw [ih, ih]
      split <;> simp [Section.node]
  | text content rest ih => simpa [pagesFrom, pageNodes, Node.pages] using ih rank
  | comment content rest ih => simpa [pagesFrom, pageNodes, Node.pages] using ih rank

@[simp] theorem pageNodes_nil (inDocument : Bool) : pageNodes inDocument [] = [] := by
  simp [pageNodes, pagesFrom]

@[simp] theorem pageNodes_element (inDocument : Bool) (tag : Tag) (children rest : List Node) :
    pageNodes inDocument (.element tag children :: rest) =
      (if inDocument && tag.isPage then [.element tag children]
        else pageNodes tag.isDocument children) ++ pageNodes inDocument rest := by
  simp only [pageNodes, pagesFrom_element, List.map_append]
  rw [map_node_pagesFrom inDocument _ rest, pageNodes]
  split <;> simp [Section.node]

@[simp] theorem pageNodes_text (inDocument : Bool) (content : Chars) (rest : List Node) :
    pageNodes inDocument (.text content :: rest) = pageNodes inDocument rest := by
  simp [pageNodes, pagesFrom, Node.pages]

@[simp] theorem pageNodes_comment (inDocument : Bool) (content : Chars) (rest : List Node) :
    pageNodes inDocument (.comment content :: rest) = pageNodes inDocument rest := by
  simp [pageNodes, pagesFrom, Node.pages]

@[simp] theorem pageNodes_append (inDocument : Bool) (left right : List Node) :
    pageNodes inDocument (left ++ right) =
      pageNodes inDocument left ++ pageNodes inDocument right := by
  induction left with
  | nil => simp
  | cons head rest ih => cases head <;> simp [ih]

/-- A group of pages in a document element is a row of just these pages. -/
theorem pageNodes_group {group : List Node} (hgroup : ∀ node ∈ group, node.isTagged Tag.isPage) :
    pageNodes true group = group := by
  induction group with
  | nil => simp
  | cons head rest ih =>
      have hrest := ih fun node hnode => hgroup node (List.mem_cons_of_mem head hnode)
      have hhead := hgroup head List.mem_cons_self
      cases head with
      | element tag children =>
          have hpage : tag.isPage = true := by simpa using hhead
          simp [hpage, hrest]
      | text content => simp at hhead
      | comment content => simp at hhead

/-- All nodes of the groups are pages. -/
def AllPages (groups : List (List Node)) : Prop :=
  ∀ group ∈ groups, ∀ node ∈ group, node.isTagged Tag.isPage

/-- Each page of a row takes one group, as long as there are any. -/
theorem regroupFrom_snd (inDocument : Bool) (groups : List (List Node)) (nodes : List Node) :
    (regroupFrom inDocument groups nodes).2 = groups.drop (pageNodes inDocument nodes).length := by
  induction nodes using rowInduction generalizing inDocument groups with
  | nil => simp [regroupFrom]
  | element tag children rest ihChildren ihRest =>
      by_cases hpage : (inDocument && tag.isPage) = true
      · cases groups with
        | nil => simp [regroupFrom, Node.regroup, hpage, ihRest]
        | cons group groups => simp [regroupFrom, Node.regroup, hpage, ihRest]
      · simp [regroupFrom, Node.regroup, hpage, ihChildren, ihRest, Nat.add_comm]
  | text content rest ih => simp [regroupFrom, Node.regroup, ih]
  | comment content rest ih => simp [regroupFrom, Node.regroup, ih]

/-- The pages of a row with its first pages replaced are the groups, and the pages for which there
was no group. -/
theorem pageNodes_regroupFrom (inDocument : Bool) {groups : List (List Node)}
    (hgroups : AllPages groups) (nodes : List Node) :
    pageNodes inDocument (regroupFrom inDocument groups nodes).1 =
      (groups.take (pageNodes inDocument nodes).length).flatten ++
        (pageNodes inDocument nodes).drop groups.length := by
  induction nodes using rowInduction generalizing inDocument groups with
  | nil => simp [regroupFrom]
  | element tag children rest ihChildren ihRest =>
      by_cases hpage : (inDocument && tag.isPage) = true
      · have hdocument : inDocument = true := (Bool.and_eq_true_iff.1 hpage).1
        cases groups with
        | nil => simp [regroupFrom, Node.regroup, hpage, ihRest inDocument hgroups]
        | cons group groups =>
            have hhead : pageNodes inDocument group = group := by
              rw [hdocument]
              exact pageNodes_group (hgroups group List.mem_cons_self)
            have htail : AllPages groups := fun g hg => hgroups g (List.mem_cons_of_mem group hg)
            simp [regroupFrom, Node.regroup, hpage, ihRest inDocument htail, hhead]
      · have hleft : AllPages (groups.drop (pageNodes tag.isDocument children).length) :=
          fun g hg => hgroups g (List.mem_of_mem_drop hg)
        simp only [regroupFrom, Node.regroup, hpage, Bool.false_eq_true, if_false,
          List.singleton_append, pageNodes_element, regroupFrom_snd,
          ihChildren tag.isDocument hgroups, ihRest inDocument hleft, List.length_append,
          List.take_add, List.flatten_append, List.drop_append, List.length_drop]
        rcases Nat.le_total groups.length (pageNodes tag.isDocument children).length with hle | hle
        · simp [List.drop_eq_nil_of_le hle, Nat.sub_eq_zero_of_le hle]
        · simp [List.drop_eq_nil_of_le hle]
  | text content rest ih => simp [regroupFrom, Node.regroup, ih inDocument hgroups]
  | comment content rest ih => simp [regroupFrom, Node.regroup, ih inDocument hgroups]

/-- The pages of the document with a group for each of its first pages. -/
theorem map_node_pages_regroup {groups : List (List Node)} (hgroups : AllPages groups)
    {document : List Node} (hlength : groups.length ≤ (pages document).length) :
    (pages (regroup groups document)).map (·.page.node) =
      groups.flatten ++ ((pages document).map (·.page.node)).drop groups.length := by
  have hpages : (pageNodes false document).length = (pages document).length := by
    simp [pageNodes, pages]
  have hall := pageNodes_regroupFrom false hgroups document
  rw [List.take_of_length_le (hpages ▸ hlength)] at hall
  exact hall

/-- A document of one page. -/
def onePage (children : List Node) : List Node :=
  [.element (.plain "div".runes "document".runes)
    [.element (.plain "section".runes "page".runes) children]]

end Folio.Paginate
