import Mathlib.Data.List.Forall2
import Folio.Paginate.Numbering
import Folio.Proofs.Paginate.PageSections

/-!
What showing numbers does to a row: the content of some elements becomes a text, and everything
else stays. So no element comes or changes its tag, and nothing comes to stand below anything.
-/
namespace Folio.Paginate

/-- The second row is the first one with the content of some elements replaced by texts. -/
inductive Filled : List Node → List Node → Prop
  | nil : Filled [] []
  | text (content : Chars) {rest filled : List Node} (hrest : Filled rest filled) :
      Filled (.text content :: rest) (.text content :: filled)
  | comment (content : Chars) {rest filled : List Node} (hrest : Filled rest filled) :
      Filled (.comment content :: rest) (.comment content :: filled)
  | inside (tag : Tag) {children inner rest filled : List Node} (hinner : Filled children inner)
      (hrest : Filled rest filled) :
      Filled (.element tag children :: rest) (.element tag inner :: filled)
  | replaced (tag : Tag) (children : List Node) (content : Chars) {rest filled : List Node}
      (hrest : Filled rest filled) :
      Filled (.element tag children :: rest) (.element tag [.text content] :: filled)

namespace Filled

theorem refl (nodes : List Node) : Filled nodes nodes := by
  induction nodes using rowInduction with
  | nil => exact nil
  | element tag children rest ihChildren ihRest => exact inside tag ihChildren ihRest
  | text content rest ih => exact text content ih
  | comment content rest ih => exact comment content ih

theorem trans {first second third : List Node} (h₁ : Filled first second)
    (h₂ : Filled second third) : Filled first third := by
  induction h₁ generalizing third with
  | nil => exact h₂
  | text content _ ih =>
      cases h₂ with
      | text _ hrest => exact text content (ih hrest)
  | comment content _ ih =>
      cases h₂ with
      | comment _ hrest => exact comment content (ih hrest)
  | inside tag _ _ ihInner ihRest =>
      cases h₂ with
      | inside _ hinner hrest => exact inside tag (ihInner hinner) (ihRest hrest)
      | replaced _ _ content hrest => exact replaced tag _ content (ihRest hrest)
  | replaced tag children content _ ih =>
      cases h₂ with
      | inside _ hinner hrest =>
          cases hinner with
          | text _ hnil =>
              cases hnil with
              | nil => exact replaced tag children content (ih hrest)
      | replaced _ _ other hrest => exact replaced tag children other (ih hrest)

theorem append {left left' right right' : List Node} (hleft : Filled left left')
    (hright : Filled right right') : Filled (left ++ right) (left' ++ right') := by
  induction hleft with
  | nil => exact hright
  | text content _ ih => exact text content ih
  | comment content _ ih => exact comment content ih
  | inside tag hinner _ _ ih => exact inside tag hinner ih
  | replaced tag children content _ ih => exact replaced tag children content ih

theorem map {f : Node → Node} {nodes : List Node} (hf : ∀ node ∈ nodes, Filled [node] [f node]) :
    Filled nodes (nodes.map f) := by
  induction nodes with
  | nil => exact nil
  | cons head rest ih =>
      have hrest := ih fun node hnode => hf node (List.mem_cons_of_mem head hnode)
      exact append (hf head List.mem_cons_self) hrest

theorem modify {f : Node → Node} (hf : ∀ node, Filled [node] [f node]) (nodes : List Node)
    (i : Nat) : Filled nodes (nodes.modify i f) := by
  induction nodes generalizing i with
  | nil => simpa using nil
  | cons head rest ih =>
      cases i with
      | zero => exact append (hf head) (refl rest)
      | succ i => exact append (refl [head]) (ih i)

theorem setContent (s : Chars) (way : Path) (nodes : List Node) :
    Filled nodes (setContent [.text s] way nodes) := by
  induction way generalizing nodes with
  | nil => exact refl nodes
  | cons i way ih =>
      refine modify (fun node => ?_) nodes i
      cases node with
      | text content => exact refl _
      | comment content => exact refl _
      | element tag children =>
          by_cases hway : way.isEmpty
          · simpa [hway] using replaced tag children s nil
          · simpa [hway] using inside tag (ih children) nil

theorem length_eq {nodes filled : List Node} (h : Filled nodes filled) :
    filled.length = nodes.length := by
  induction h with
  | nil => rfl
  | text _ _ ih => rw [List.length_cons, List.length_cons, ih]
  | comment _ _ ih => rw [List.length_cons, List.length_cons, ih]
  | inside _ _ _ _ ih => rw [List.length_cons, List.length_cons, ih]
  | replaced _ _ _ _ ih => rw [List.length_cons, List.length_cons, ih]

/-- Every element of the filled row was there, and what is below it now is a text or was below it
before. -/
theorem element_before {nodes filled : List Node} (h : Filled nodes filled) {tag : Tag}
    {inner : List Node} (helement : .element tag inner ∈ allNodes filled) :
    ∃ children, .element tag children ∈ allNodes nodes ∧
      (Filled children inner ∨ ∃ content, inner = [.text content]) := by
  induction h with
  | nil => simp at helement
  | text content _ ih =>
      simp only [allNodes_text, List.mem_cons, reduceCtorEq, false_or] at helement
      obtain ⟨children, hmem, hinner⟩ := ih helement
      exact ⟨children, by simp [hmem], hinner⟩
  | comment content _ ih =>
      simp only [allNodes_comment, List.mem_cons, reduceCtorEq, false_or] at helement
      obtain ⟨children, hmem, hinner⟩ := ih helement
      exact ⟨children, by simp [hmem], hinner⟩
  | @inside headTag headChildren headInner rest filled hinner _ ihInner ihRest =>
      simp only [allNodes_element, List.mem_cons, List.mem_append, Node.element.injEq] at helement
      rcases helement with ⟨rfl, rfl⟩ | hbelow | hlater
      · exact ⟨headChildren, by simp, Or.inl hinner⟩
      · obtain ⟨children, hmem, h⟩ := ihInner hbelow
        exact ⟨children, by simp [hmem], h⟩
      · obtain ⟨children, hmem, h⟩ := ihRest hlater
        exact ⟨children, by simp [hmem], h⟩
  | replaced headTag headChildren content _ ih =>
      simp only [allNodes_element, allNodes_text, allNodes_nil, List.mem_cons, List.mem_append,
        Node.element.injEq, reduceCtorEq, List.not_mem_nil, or_false, false_or] at helement
      rcases helement with ⟨rfl, rfl⟩ | hlater
      · exact ⟨headChildren, by simp, Or.inr ⟨content, rfl⟩⟩
      · obtain ⟨children, hmem, h⟩ := ih hlater
        exact ⟨children, by simp [hmem], h⟩

theorem none_of_none {p : Tag → Bool} {nodes filled : List Node} (h : Filled nodes filled)
    (hnone : ∀ node ∈ allNodes nodes, ¬ node.isTagged p) :
    ∀ node ∈ allNodes filled, ¬ node.isTagged p := by
  intro node hnode
  cases node with
  | element tag inner =>
      obtain ⟨children, hmem, -⟩ := h.element_before hnode
      simpa using hnone _ hmem
  | text content => simp
  | comment content => simp

theorem apart {p q : Tag → Bool} {nodes filled : List Node} (h : Filled nodes filled)
    (hapart : Apart p q nodes) : Apart p q filled := by
  intro tag inner hmem htag
  obtain ⟨children, hbefore, hinner⟩ := h.element_before hmem
  have hnone := hapart tag children hbefore htag
  rcases hinner with hfilled | ⟨content, rfl⟩
  · exact hfilled.none_of_none hnone
  · simp

theorem clear {inDocument : Bool} {nodes filled : List Node} (h : Filled nodes filled)
    (hclear : Clear inDocument nodes) : Clear inDocument filled := by
  induction h generalizing inDocument with
  | nil => exact hclear
  | text content _ ih => simpa using ih (by simpa using hclear)
  | comment content _ ih => simpa using ih (by simpa using hclear)
  | inside tag _ _ ihInner ihRest =>
      rw [clear_element] at hclear ⊢
      exact ⟨hclear.1, ihInner hclear.2.1, ihRest hclear.2.2⟩
  | replaced tag children content _ ih =>
      rw [clear_element] at hclear ⊢
      exact ⟨hclear.1, by simp, ih hclear.2.2⟩

end Filled

namespace Numbers

theorem filled_fill (n : Numbers) (nodes : List Node) : Filled nodes (n.fill nodes) := by
  unfold fill
  cases find? Tag.isCurrent nodes with
  | none =>
      cases find? Tag.isTotal nodes with
      | none => exact Filled.refl nodes
      | some way => exact Filled.setContent _ way nodes
  | some current =>
      have hcurrent := Filled.setContent (Text.decimal n.current) current nodes
      cases find? Tag.isTotal nodes with
      | none => exact hcurrent
      | some way => exact hcurrent.trans (Filled.setContent _ way _)

theorem filled_showBelow (n : Numbers) (depth : Nat) (node : Node) :
    Filled [node] [n.showBelow depth node] := by
  induction depth generalizing node with
  | zero => cases node <;> exact Filled.refl _
  | succ depth ih =>
      cases node with
      | text content => exact Filled.refl _
      | comment content => exact Filled.refl _
      | element tag children =>
          refine Filled.inside tag ?_ Filled.nil
          have hmap : ∀ nodes : List Node, Filled nodes (nodes.map (n.showBelow depth)) :=
            fun nodes => Filled.map fun node _ => ih node
          by_cases hcount : tag.isPageCount
          · simpa [hcount] using (n.filled_fill children).trans (hmap _)
          · simpa [hcount] using hmap children

theorem filled_showInBand (n : Numbers) (node : Node) : Filled [node] [n.showInBand node] := by
  cases node with
  | text content => exact Filled.refl _
  | comment content => exact Filled.refl _
  | element tag children =>
      by_cases hband : tag.showsNumbers
      · simpa [showInBand, hband] using
          Filled.inside tag (Filled.map fun node _ => n.filled_showBelow _ node) Filled.nil
      · simpa [showInBand, hband] using Filled.refl _

theorem tag?_showBelow (n : Numbers) (depth : Nat) (node : Node) :
    (n.showBelow depth node).tag? = node.tag? := by
  cases depth <;> cases node <;> rfl

theorem tag?_showInBand (n : Numbers) (node : Node) : (n.showInBand node).tag? = node.tag? := by
  cases node with
  | text content => rfl
  | comment content => rfl
  | element tag children =>
      by_cases hband : tag.showsNumbers <;> simp [showInBand, hband, Node.tag?]

theorem tag?_showOn (n : Numbers) (node : Node) : (n.showOn node).tag? = node.tag? := by
  cases node <;> rfl

end Numbers

/-- Numbers leave the sizes of the groups. -/
theorem map_length_numbered (total first : Nat) (groups : List (List Node)) :
    (numbered total first groups).map List.length = groups.map List.length := by
  induction groups generalizing first with
  | nil => rfl
  | cons group rest ih => simp [numbered, ih]

theorem length_numbered (total first : Nat) (groups : List (List Node)) :
    (numbered total first groups).length = groups.length := by
  simpa using congrArg List.length (map_length_numbered total first groups)

/-- Each group is numbered on from some number. -/
theorem numbered_forall₂ {α : Type} {P : α → List Node → Prop} {sources : List α}
    {groups : List (List Node)} (h : List.Forall₂ P sources groups) (total first : Nat) :
    List.Forall₂ (fun source shown => ∃ group start, P source group ∧
        shown = group.mapIdx fun i page => Numbers.showOn ⟨start + i, total⟩ page)
      sources (numbered total first groups) := by
  induction h generalizing first with
  | nil => exact List.Forall₂.nil
  | cons hhead _ ih => exact List.Forall₂.cons ⟨_, first, hhead, rfl⟩ (ih _)

/-- The numbers go on from group to group. -/
theorem flatten_numbered (total first : Nat) (groups : List (List Node)) :
    (numbered total first groups).flatten =
      groups.flatten.mapIdx fun i page => Numbers.showOn ⟨first + i, total⟩ page := by
  induction groups generalizing first with
  | nil => rfl
  | cons group rest ih =>
      have hshift : ∀ i, first + group.length + i = first + (i + group.length) := by
        intro i
        omega
      simp [numbered, ih, List.mapIdx_append, hshift]

theorem flatten_numberPages (groups : List (List Node)) :
    (numberPages groups).flatten =
      groups.flatten.mapIdx fun i page =>
        Numbers.showOn ⟨1 + i, groups.flatten.length⟩ page :=
  flatten_numbered _ _ groups

theorem length_numberPages (groups : List (List Node)) :
    (numberPages groups).length = groups.length :=
  length_numbered _ _ groups

/-- Pages with numbers are pages. -/
theorem allPages_numberPages {groups : List (List Node)} (hgroups : AllPages groups) :
    AllPages (numberPages groups) := by
  intro group hgroup node hnode
  have hmem : node ∈ (numberPages groups).flatten := List.mem_flatten.2 ⟨group, hgroup, hnode⟩
  rw [flatten_numberPages, List.mem_mapIdx] at hmem
  obtain ⟨i, hi, rfl⟩ := hmem
  obtain ⟨original, horiginal, hpage⟩ := List.mem_flatten.1 (List.getElem_mem hi)
  rw [Node.isTagged, Numbers.tag?_showOn]
  exact hgroups original horiginal _ hpage

end Folio.Paginate
