import Folio.Proofs.Paginate.Filling

/-!
The places for the numbers in a page count: the first element for each of them. A number is put
into its place, and the places stay the first ones as long as they do not lie inside each other.
-/
namespace Folio.Paginate

/-- The first element of a row or below it whose tag satisfies the test. -/
def first? (p : Tag → Bool) (nodes : List Node) : Option Node :=
  (allNodes nodes).find? (Node.isTagged p)

@[simp] theorem first?_nil (p : Tag → Bool) : first? p [] = none := rfl

@[simp] theorem first?_element (p : Tag → Bool) (tag : Tag) (children rest : List Node) :
    first? p (.element tag children :: rest) =
      if p tag then some (.element tag children) else (first? p children).or (first? p rest) := by
  by_cases htag : p tag <;> simp [first?, htag]

theorem first?_append (p : Tag → Bool) (left right : List Node) :
    first? p (left ++ right) = (first? p left).or (first? p right) := by
  simp [first?]

theorem first?_eq_none_iff {p : Tag → Bool} {nodes : List Node} :
    first? p nodes = none ↔ ∀ node ∈ allNodes nodes, ¬ node.isTagged p := by
  simp [first?]

/-- The element with other content. -/
def Node.withContent (content : List Node) : Node → Node
  | .element tag _ => .element tag content
  | node => node

section Ways

variable {p q : Tag → Bool}

/-- The way on in a row behind a node. -/
def behind : Path → Path
  | [] => []
  | i :: way => (i + 1) :: way

theorem findFrom?_succ (i : Nat) (nodes : List Node) :
    findFrom? p (i + 1) nodes = (findFrom? p i nodes).map behind := by
  induction nodes generalizing i with
  | nil => rfl
  | cons head rest ih =>
      simp only [findFrom?]
      cases head.find? p with
      | some way => rfl
      | none => exact ih (i + 1)

theorem find?_cons (head : Node) (rest : List Node) :
    find? p (head :: rest) =
      ((head.find? p).map (0 :: ·)).or ((find? p rest).map behind) := by
  simp only [find?, findFrom?]
  cases head.find? p with
  | some way => rfl
  | none => exact findFrom?_succ 0 rest

theorem find?_element (tag : Tag) (children : List Node) :
    (Node.element tag children).find? p = if p tag then some [] else find? p children := by
  simp [Node.find?, find?]

theorem find?_eq_none_iff {nodes : List Node} :
    find? p nodes = none ↔ ∀ node ∈ allNodes nodes, ¬ node.isTagged p := by
  induction nodes using rowInduction with
  | nil => simp [find?, findFrom?]
  | element tag children rest ihChildren ihRest =>
      by_cases htag : p tag
      · simp [find?_cons, find?_element, htag]
      · simp [find?_cons, find?_element, htag, ihChildren, ihRest, or_imp, forall_and]
  | text content rest ih => simp [find?_cons, Node.find?, ih]
  | comment content rest ih => simp [find?_cons, Node.find?, ih]

/-- The way leads from the row to the first element whose tag satisfies the test. -/
inductive Leads (p : Tag → Bool) : List Node → Path → Prop
  | here {tag : Tag} (children rest : List Node) (htag : p tag) :
      Leads p (.element tag children :: rest) [0]
  | inside {tag : Tag} {children : List Node} {way : Path} (rest : List Node) (htag : ¬ p tag)
      (hway : Leads p children way) : Leads p (.element tag children :: rest) (0 :: way)
  | later {head : Node} {rest : List Node} {i : Nat} {way : Path}
      (hhead : ∀ node ∈ allNodes [head], ¬ node.isTagged p) (hway : Leads p rest (i :: way)) :
      Leads p (head :: rest) ((i + 1) :: way)

theorem Leads.ne_nil {nodes : List Node} {way : Path} (h : Leads p nodes way) : way ≠ [] := by
  cases h <;> simp

theorem Leads.first?_isSome {nodes : List Node} {way : Path} (h : Leads p nodes way) :
    ∃ place, first? p nodes = some place := by
  induction h with
  | @here tag children rest htag => exact ⟨.element tag children, by simp [htag]⟩
  | @inside tag children way rest htag _ ih =>
      obtain ⟨place, hplace⟩ := ih
      exact ⟨place, by simp [htag, hplace]⟩
  | @later head rest i way hhead _ ih =>
      obtain ⟨place, hplace⟩ := ih
      refine ⟨place, ?_⟩
      rw [← List.singleton_append, first?_append, first?_eq_none_iff.2 hhead, Option.none_or,
        hplace]

theorem leads_of_find? {nodes : List Node} {way : Path} (h : find? p nodes = some way) :
    Leads p nodes way := by
  have hlater : ∀ {head : Node} {rest : List Node} {way : Path},
      (∀ node ∈ allNodes [head], ¬ node.isTagged p) →
      (∀ {later}, find? p rest = some later → Leads p rest later) →
      (find? p rest).map behind = some way → Leads p (head :: rest) way := by
    intro head rest way hhead ih hrest
    obtain ⟨later, hfound, rfl⟩ := Option.map_eq_some_iff.1 hrest
    have hleads := ih hfound
    cases later with
    | nil => exact absurd rfl hleads.ne_nil
    | cons i later => exact Leads.later hhead hleads
  induction nodes using rowInduction generalizing way with
  | nil => simp [find?, findFrom?] at h
  | element tag children rest ihChildren ihRest =>
      rw [find?_cons, find?_element] at h
      by_cases htag : p tag
      · simp only [htag, if_true, Option.map_some, Option.some_or, Option.some.injEq] at h
        subst h
        exact Leads.here children rest htag
      · simp only [htag, Bool.false_eq_true, if_false] at h
        cases hchildren : find? p children with
        | some inner =>
            simp only [hchildren, Option.map_some, Option.some_or, Option.some.injEq] at h
            subst h
            exact Leads.inside rest htag (ihChildren hchildren)
        | none =>
            rw [hchildren, Option.map_none, Option.none_or] at h
            refine hlater ?_ ihRest h
            rw [find?_eq_none_iff] at hchildren
            simpa [htag] using hchildren
  | text content rest ih =>
      rw [find?_cons, Node.find?, Option.map_none, Option.none_or] at h
      exact hlater (by simp) ih h
  | comment content rest ih =>
      rw [find?_cons, Node.find?, Option.map_none, Option.none_or] at h
      exact hlater (by simp) ih h

theorem setContent_here (content : List Node) (tag : Tag) (children rest : List Node) :
    setContent content [0] (.element tag children :: rest) = .element tag content :: rest := rfl

theorem setContent_inside (content : List Node) {way : Path} (hway : way ≠ []) (tag : Tag)
    (children rest : List Node) :
    setContent content (0 :: way) (.element tag children :: rest) =
      .element tag (setContent content way children) :: rest := by
  have hne : way.isEmpty = false := by simpa using hway
  simp [setContent, hne]

theorem setContent_later (content : List Node) (i : Nat) (way : Path) (head : Node)
    (rest : List Node) :
    setContent content ((i + 1) :: way) (head :: rest) =
      head :: setContent content (i :: way) rest := rfl

/-- What is put at the end of the way is the content of the first element of the kind. -/
theorem Leads.first?_setContent {nodes : List Node} {way : Path} (h : Leads p nodes way)
    (content : List Node) :
    first? p (setContent content way nodes) = (first? p nodes).map (Node.withContent content) := by
  induction h with
  | @here tag children rest htag => simp [setContent_here, htag, Node.withContent]
  | @inside tag children way rest htag hway ih =>
      obtain ⟨place, hplace⟩ := hway.first?_isSome
      simp [setContent_inside content hway.ne_nil, htag, ih, hplace]
  | @later head rest i way hhead hway ih =>
      rw [setContent_later, ← List.singleton_append, first?_append, first?_eq_none_iff.2 hhead,
        Option.none_or, ih, ← List.singleton_append (x := head), first?_append,
        first?_eq_none_iff.2 hhead, Option.none_or]

/-- No element of either kind is below one of the other, and none is of both. -/
def Separate (p q : Tag → Bool) (nodes : List Node) : Prop :=
  Apart p q nodes ∧ Apart q p nodes ∧
    ∀ node ∈ allNodes nodes, ¬ node.isTagged fun tag => p tag && q tag

instance (p q : Tag → Bool) (nodes : List Node) : Decidable (Separate p q nodes) :=
  inferInstanceAs (Decidable (_ ∧ _ ∧ _))

theorem Separate.mono {smaller larger : List Node} (h : Separate p q larger)
    (hsub : ∀ node ∈ smaller, node ∈ allNodes larger) : Separate p q smaller :=
  ⟨h.1.mono hsub, h.2.1.mono hsub, fun node hnode => h.2.2 node (allNodes_subset hsub node hnode)⟩

theorem Separate.symm {nodes : List Node} (h : Separate p q nodes) : Separate q p nodes := by
  refine ⟨h.2.1, h.1, fun node hnode hboth => h.2.2 node hnode ?_⟩
  cases node with
  | element tag children => simpa [and_comm] using hboth
  | text content => simp at hboth
  | comment content => simp at hboth

theorem Filled.separate {nodes filled : List Node} (h : Filled nodes filled)
    (hseparate : Separate p q nodes) : Separate p q filled :=
  ⟨h.apart hseparate.1, h.apart hseparate.2.1, h.none_of_none hseparate.2.2⟩

/-- At the first element of the one kind there is none of the other kind. -/
theorem Separate.here {tag : Tag} {children rest : List Node}
    (h : Separate p q (.element tag children :: rest)) (htag : p tag) :
    q tag = false ∧ ∀ node ∈ allNodes children, ¬ node.isTagged q := by
  have hmem : .element tag children ∈ allNodes (.element tag children :: rest) := by simp
  refine ⟨?_, h.1 tag children hmem htag⟩
  simpa [htag] using h.2.2 _ hmem

/-- An element around the first element of the one kind is not of the other kind. -/
theorem Separate.around {tag : Tag} {children rest : List Node} {way : Path}
    (h : Separate p q (.element tag children :: rest)) (hway : Leads p children way) :
    q tag = false := by
  by_contra htag
  obtain ⟨place, hplace⟩ := hway.first?_isSome
  have hnone := h.2.1 tag children (by simp) (by simpa using htag)
  rw [first?_eq_none_iff.2 hnone] at hplace
  contradiction

section Separate

variable {nodes : List Node} {way : Path} (h : Leads p nodes way) (hseparate : Separate p q nodes)
  (s : Chars)
include h hseparate

/-- What is put into the first element of one kind leaves the first element of the other. -/
theorem first?_setContent_of_separate :
    first? q (setContent [.text s] way nodes) = first? q nodes := by
  induction h with
  | @here tag children rest htag =>
      obtain ⟨hq, hnone⟩ := hseparate.here htag
      have hcontent : first? q [.text s] = none := first?_eq_none_iff.2 (by simp)
      simp [setContent_here, hq, first?_eq_none_iff.2 hnone, hcontent]
  | @inside tag children way rest htag hway ih =>
      have hq := hseparate.around hway
      have hchildren := ih (hseparate.mono fun node hnode => by
        simp [mem_allNodes_of_mem hnode])
      simp [setContent_inside _ hway.ne_nil, hq, hchildren]
  | @later head rest i way hhead hway ih =>
      have hrest := ih (hseparate.mono fun node hnode =>
        mem_allNodes_of_mem (List.mem_cons_of_mem head hnode))
      rw [setContent_later, ← List.singleton_append, first?_append, hrest, ← first?_append,
        List.singleton_append]

theorem find?_setContent_of_separate :
    find? q (setContent [.text s] way nodes) = find? q nodes := by
  induction h with
  | @here tag children rest htag =>
      obtain ⟨hq, hnone⟩ := hseparate.here htag
      have hcontent : find? q [.text s] = none := find?_eq_none_iff.2 (by simp)
      simp [setContent_here, find?_cons, find?_element, hq, find?_eq_none_iff.2 hnone, hcontent]
  | @inside tag children way rest htag hway ih =>
      have hq := hseparate.around hway
      have hchildren := ih (hseparate.mono fun node hnode => by
        simp [mem_allNodes_of_mem hnode])
      simp [setContent_inside _ hway.ne_nil, find?_cons, find?_element, hq, hchildren]
  | @later head rest i way hhead hway ih =>
      have hrest := ih (hseparate.mono fun node hnode =>
        mem_allNodes_of_mem (List.mem_cons_of_mem head hnode))
      rw [setContent_later, find?_cons, hrest, ← find?_cons]

end Separate

end Ways

namespace Numbers

/-- Both numbers are shown in what a page count holds, each in the first place for it. -/
theorem first?_fill (n : Numbers) {nodes : List Node}
    (hseparate : Separate Tag.isCurrent Tag.isTotal nodes) :
    first? Tag.isCurrent (n.fill nodes) =
        (first? Tag.isCurrent nodes).map (Node.withContent (text n.current)) ∧
      first? Tag.isTotal (n.fill nodes) =
        (first? Tag.isTotal nodes).map (Node.withContent (text n.total)) := by
  obtain ⟨shown, hnone, hsome, hfilled, hcurrent, htotal, hfind⟩ : ∃ shown,
      (find? Tag.isTotal nodes = none → n.fill nodes = shown) ∧
      (∀ way, find? Tag.isTotal nodes = some way →
        n.fill nodes = setContent (text n.total) way shown) ∧
      Separate Tag.isCurrent Tag.isTotal shown ∧
      first? Tag.isCurrent shown =
        (first? Tag.isCurrent nodes).map (Node.withContent (text n.current)) ∧
      first? Tag.isTotal shown = first? Tag.isTotal nodes ∧
      find? Tag.isTotal shown = find? Tag.isTotal nodes := by
    cases hway : find? Tag.isCurrent nodes with
    | none =>
        refine ⟨nodes, fun h => by simp [fill, hway, h], fun way h => by simp [fill, hway, h],
          hseparate, ?_, rfl, rfl⟩
        rw [find?_eq_none_iff, ← first?_eq_none_iff] at hway
        rw [hway, Option.map_none]
    | some way =>
        have hleads := leads_of_find? hway
        exact ⟨setContent (text n.current) way nodes, fun h => by simp [fill, hway, h],
          fun other h => by simp [fill, hway, h],
          (Filled.setContent _ way nodes).separate hseparate, hleads.first?_setContent _,
          first?_setContent_of_separate hleads hseparate _,
          find?_setContent_of_separate hleads hseparate _⟩
  cases hway : find? Tag.isTotal nodes with
  | none =>
      rw [hway, find?_eq_none_iff, ← first?_eq_none_iff] at hfind
      rw [hnone hway]
      refine ⟨hcurrent, ?_⟩
      rw [← htotal, hfind, Option.map_none]
  | some way =>
      have hleads := leads_of_find? (hfind.trans hway)
      rw [hsome way hway]
      constructor
      · rw [← hcurrent]
        exact first?_setContent_of_separate hleads hfilled.symm _
      · rw [← htotal]
        exact hleads.first?_setContent _

end Numbers

end Folio.Paginate
