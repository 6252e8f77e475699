import Folio.Paginate.Node

/-!
Rows of nodes as trees: induction on a row, the nodes of a row with those below them, and what it
is to be the first element of some kind in a row.
-/
namespace Folio.Paginate

/-- Induction on a row: an element stands for its own children and for the rest of the row. -/
theorem rowInduction {motive : List Node → Prop} (nil : motive [])
    (element : ∀ tag children rest, motive children → motive rest →
      motive (.element tag children :: rest))
    (text : ∀ content rest, motive rest → motive (.text content :: rest))
    (comment : ∀ content rest, motive rest → motive (.comment content :: rest))
    (nodes : List Node) : motive nodes :=
  @Node.rec_1 (fun node => ∀ rest, motive rest → motive (node :: rest)) motive
    (fun tag children hchildren rest hrest => element tag children rest hchildren hrest)
    text comment nil (fun _ tail hhead htail => hhead tail htail) nodes

mutual
/-- The node and the nodes below it, in document order. -/
def Node.all : Node → List Node
  | .element tag children => .element tag children :: allNodes children
  | .text content => [.text content]
  | .comment content => [.comment content]

/-- The nodes of a row and those below them, in document order. -/
def allNodes : List Node → List Node
  | [] => []
  | node :: rest => node.all ++ allNodes rest
end

@[simp] theorem allNodes_nil : allNodes [] = [] := by
  simp [allNodes]

@[simp] theorem allNodes_element (tag : Tag) (children rest : List Node) :
    allNodes (.element tag children :: rest) =
      .element tag children :: (allNodes children ++ allNodes rest) := by
  simp [allNodes, Node.all]

@[simp] theorem allNodes_text (content : Chars) (rest : List Node) :
    allNodes (.text content :: rest) = .text content :: allNodes rest := by
  simp [allNodes, Node.all]

@[simp] theorem allNodes_comment (content : Chars) (rest : List Node) :
    allNodes (.comment content :: rest) = .comment content :: allNodes rest := by
  simp [allNodes, Node.all]

@[simp] theorem allNodes_append (left right : List Node) :
    allNodes (left ++ right) = allNodes left ++ allNodes right := by
  induction left with
  | nil => simp
  | cons node rest ih => simp [allNodes, ih]

theorem mem_allNodes_of_mem {node : Node} {nodes : List Node} (hnode : node ∈ nodes) :
    node ∈ allNodes nodes := by
  induction nodes with
  | nil => simp at hnode
  | cons head rest ih =>
      rcases List.mem_cons.mp hnode with rfl | hrest
      · cases node <;> simp
      · simp [allNodes, ih hrest]

/-- What is below an element of a row is below the row. -/
theorem mem_allNodes_of_element {tag : Tag} {children nodes : List Node}
    (helement : .element tag children ∈ allNodes nodes) {node : Node}
    (hnode : node ∈ allNodes children) : node ∈ allNodes nodes := by
  induction nodes using rowInduction with
  | nil => simp at helement
  | element headTag headChildren rest ihChildren ihRest =>
      simp only [allNodes_element, List.mem_cons, List.mem_append, Node.element.injEq] at helement
      rcases helement with ⟨rfl, rfl⟩ | hbelow | hrest
      · simp [hnode]
      · simp [ihChildren hbelow]
      · simp [ihRest hrest]
  | text content rest ih =>
      simp only [allNodes_text, List.mem_cons, reduceCtorEq, false_or] at helement
      simp [ih helement]
  | comment content rest ih =>
      simp only [allNodes_comment, List.mem_cons, reduceCtorEq, false_or] at helement
      simp [ih helement]

/-- A selection of nodes has no more below it than the row. -/
theorem allNodes_subset {smaller larger : List Node}
    (hsub : ∀ node ∈ smaller, node ∈ allNodes larger) :
    ∀ node ∈ allNodes smaller, node ∈ allNodes larger := by
  induction smaller with
  | nil => simp
  | cons head rest ih =>
      intro node hnode
      have hhead := hsub head List.mem_cons_self
      have hrest := ih fun other hother => hsub other (List.mem_cons_of_mem head hother)
      cases head with
      | element tag children =>
          simp only [allNodes_element, List.mem_cons, List.mem_append] at hnode
          rcases hnode with rfl | hbelow | hlater
          · exact hhead
          · exact mem_allNodes_of_element hhead hbelow
          · exact hrest node hlater
      | text content =>
          simp only [allNodes_text, List.mem_cons] at hnode
          rcases hnode with rfl | hlater
          · exact hhead
          · exact hrest node hlater
      | comment content =>
          simp only [allNodes_comment, List.mem_cons] at hnode
          rcases hnode with rfl | hlater
          · exact hhead
          · exact hrest node hlater

/-- No element that satisfies `q` is below one that satisfies `p`. -/
def Apart (p q : Tag → Bool) (nodes : List Node) : Prop :=
  ∀ tag children, .element tag children ∈ allNodes nodes → p tag →
    ∀ node ∈ allNodes children, ¬ node.isTagged q

theorem Apart.mono {p q : Tag → Bool} {smaller larger : List Node}
    (hapart : Apart p q larger) (hsub : ∀ node ∈ smaller, node ∈ allNodes larger) :
    Apart p q smaller := by
  intro tag children hmem
  exact hapart tag children (allNodes_subset hsub _ hmem)

/-- The nodes that stand directly below a node. -/
def Node.children : Node → List Node
  | .element _ children => children
  | _ => []

theorem apart_iff {p q : Tag → Bool} {nodes : List Node} :
    Apart p q nodes ↔ ∀ node ∈ allNodes nodes, node.isTagged p →
      ∀ inner ∈ allNodes node.children, ¬ inner.isTagged q := by
  constructor
  · intro hapart node hnode htag
    cases node with
    | element tag children => exact hapart tag children hnode htag
    | text content => simp [Node.children]
    | comment content => simp [Node.children]
  · intro h tag children hmem htag
    exact h (.element tag children) hmem htag

instance (p q : Tag → Bool) (nodes : List Node) : Decidable (Apart p q nodes) :=
  decidable_of_iff _ apart_iff.symm

@[simp] theorem isTagged_element (p : Tag → Bool) (tag : Tag) (children : List Node) :
    Node.isTagged p (.element tag children) = p tag := rfl

@[simp] theorem isTagged_text (p : Tag → Bool) (content : Chars) :
    Node.isTagged p (.text content) = false := rfl

@[simp] theorem isTagged_comment (p : Tag → Bool) (content : Chars) :
    Node.isTagged p (.comment content) = false := rfl

/-- The first element of some kind satisfies the test, and no node before it does. -/
theorem split?_sound {p : Tag → Bool} {nodes : List Node} {s : Split}
    (h : split? p nodes = some s) :
    p s.tag ∧ ∀ node ∈ s.before, ¬ node.isTagged p := by
  induction nodes generalizing s with
  | nil => simp [split?] at h
  | cons head rest ih =>
      cases head with
      | element tag children =>
          by_cases htag : p tag
          · simp only [split?, htag, if_true, Option.some.injEq] at h
            subst h
            simpa using htag
          · simp only [split?, htag, Bool.false_eq_true, if_false] at h
            obtain ⟨t, ht, rfl⟩ := Option.map_eq_some_iff.1 h
            simpa [htag] using ih ht
      | text content =>
          obtain ⟨t, ht, rfl⟩ := Option.map_eq_some_iff.1 h
          simpa using ih ht
      | comment content =>
          obtain ⟨t, ht, rfl⟩ := Option.map_eq_some_iff.1 h
          simpa using ih ht

theorem split?_eq_none_iff {p : Tag → Bool} {nodes : List Node} :
    split? p nodes = none ↔ ∀ node ∈ nodes, ¬ node.isTagged p := by
  induction nodes with
  | nil => simp [split?]
  | cons head rest ih =>
      cases head with
      | element tag children => by_cases htag : p tag <;> simp [split?, htag, ih]
      | text content => simp [split?, ih]
      | comment content => simp [split?, ih]

/-- A row is split at an element of the kind, if there is none before it. -/
theorem split?_append_element {p : Tag → Bool} {before : List Node} {tag : Tag}
    (hbefore : ∀ node ∈ before, ¬ node.isTagged p) (htag : p tag) (children after : List Node) :
    split? p (before ++ .element tag children :: after) = some ⟨before, tag, children, after⟩ := by
  induction before with
  | nil => simp [split?, htag]
  | cons head rest ih =>
      have hrest := ih fun node hnode => hbefore node (List.mem_cons_of_mem head hnode)
      have hhead := hbefore head List.mem_cons_self
      cases head with
      | element headTag headChildren =>
          have hno : p headTag = false := by simpa using hhead
          simp [split?, hno, hrest]
      | text content => simp [split?, hrest]
      | comment content => simp [split?, hrest]

/-- A change of nodes that keeps their tags keeps the place of the first element of some kind. -/
theorem split?_map {p : Tag → Bool} {f : Node → Node} (htag : ∀ node, (f node).tag? = node.tag?)
    {nodes : List Node} {s : Split} (h : split? p nodes = some s) {children : List Node}
    (hf : f (.element s.tag s.children) = .element s.tag children) :
    split? p (nodes.map f) = some ⟨s.before.map f, s.tag, children, s.after.map f⟩ := by
  obtain ⟨hs, hbefore⟩ := split?_sound h
  rw [← row_of_split? h, Split.row, List.map_append, List.map_cons, hf]
  refine split?_append_element ?_ hs children _
  intro node hnode
  obtain ⟨original, horiginal, rfl⟩ := List.mem_map.1 hnode
  simpa [Node.isTagged, htag] using hbefore original horiginal

end Folio.Paginate
