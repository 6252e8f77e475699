import Folio.Decimal.Arithmetic
import Folio.Entries
import Folio.Text.Blank

/-!
The tree of a document on its pages: elements with their classes, attributes and inline styles,
texts, and comments. Elements are found by a test on their tags, in document order.
-/
namespace Folio.Paginate

/-- Names with values, in the order in which they were set. -/
abbrev Properties := List (Chars × Chars)

/-- What an element is, its content apart. -/
structure Tag where
  name : Chars
  /-- The names of its classes, with white space between them. -/
  classText : Chars
  attrs : Properties
  style : Properties
  /-- The height of an element that does not take it from its content. -/
  height : Option Decimal.Binary64
deriving DecidableEq, Inhabited

inductive Node where
  | element (tag : Tag) (children : List Node)
  | text (content : Chars)
  | comment (content : Chars)
deriving Inhabited

mutual
/-- Decides whether two nodes are the same, and by it whether two rows are. -/
def Node.decEq : (left right : Node) → Decidable (left = right)
  | .element tag children, .element tag' children' =>
      match decEq tag tag', rowDecEq children children' with
      | isTrue htag, isTrue hchildren => isTrue (by rw [htag, hchildren])
      | isFalse htag, _ => isFalse fun heq => htag (Node.element.inj heq).1
      | _, isFalse hchildren => isFalse fun heq => hchildren (Node.element.inj heq).2
  | .text content, .text content' => decidable_of_iff (content = content') (by simp)
  | .comment content, .comment content' => decidable_of_iff (content = content') (by simp)
  | .element .., .text _ | .element .., .comment _ | .text _, .element ..
  | .text _, .comment _ | .comment _, .element .. | .comment _, .text _ => isFalse (by simp)

def rowDecEq : (left right : List Node) → Decidable (left = right)
  | [], [] => isTrue rfl
  | [], _ :: _ => isFalse (by simp)
  | _ :: _, [] => isFalse (by simp)
  | node :: rest, node' :: rest' =>
      match Node.decEq node node', rowDecEq rest rest' with
      | isTrue hnode, isTrue hrest => isTrue (by rw [hnode, hrest])
      | isFalse hnode, _ => isFalse fun heq => hnode (List.cons.inj heq).1
      | _, isFalse hrest => isFalse fun heq => hrest (List.cons.inj heq).2
end

instance : DecidableEq Node := Node.decEq

namespace Tag

/-- A tag with a name and a class, and nothing else. -/
def plain (name classText : Chars) : Tag := ⟨name, classText, [], [], none⟩

def hasClass (tag : Tag) (name : Chars) : Bool :=
  (Text.wordsBy Text.isSpace tag.classText).contains name

def isSection (tag : Tag) : Bool := tag.name == "section".runes

/-- A section that is a page, where it stands in a document. -/
def isPage (tag : Tag) : Bool := tag.isSection && tag.hasClass "page".runes

/-- An element whose child sections are pages. -/
def isDocument (tag : Tag) : Bool := tag.hasClass "document".runes

/-- The part of a page between header and footer. -/
def isBody (tag : Tag) : Bool := tag.name == "main".runes && tag.hasClass "body".runes

/-- The part of a body that goes on to the next page. -/
def isFlow (tag : Tag) : Bool := tag.hasClass "flow".runes

def isHeader (tag : Tag) : Bool := tag.name == "header".runes

def isFooter (tag : Tag) : Bool := tag.name == "footer".runes

/-- Under which page numbers are shown, if it is a child of a page. -/
def showsNumbers (tag : Tag) : Bool := tag.isFooter || tag.hasClass "footer".runes

def isPageCount (tag : Tag) : Bool := tag.hasClass "pagecount".runes

def isCurrent (tag : Tag) : Bool := tag.hasClass "current".runes

def isTotal (tag : Tag) : Bool := tag.hasClass "total".runes

/-- A mark that ends a page. -/
def endsPage (tag : Tag) : Bool := tag.hasClass "forcePageEnd".runes

def id? (tag : Tag) : Option Chars := tag.attrs.lookup "id".runes

def withStyle (name value : Chars) (tag : Tag) : Tag :=
  { tag with style := Entries.put name value tag.style }

end Tag

/-- The tag of an element. -/
def Node.tag? : Node → Option Tag
  | .element tag _ => some tag
  | _ => none

/-- Whether the node is an element whose tag satisfies the test. -/
def Node.isTagged (p : Tag → Bool) (node : Node) : Bool := node.tag?.any p

mutual
/-- How many elements stand one in another, at most. -/
def Node.depth : Node → Nat
  | .element _ children => rowDepth children + 1
  | .text _ => 0
  | .comment _ => 0

def rowDepth : List Node → Nat
  | [] => 0
  | node :: rest => max node.depth (rowDepth rest)
end

/-- A row of siblings around its first element of some kind. -/
structure Split where
  before : List Node
  tag : Tag
  children : List Node
  after : List Node

/-- The row around its first element whose tag satisfies the test. -/
def split? (p : Tag → Bool) : List Node → Option Split
  | [] => none
  | .element tag children :: rest =>
      if p tag then some ⟨[], tag, children, rest⟩
      else (split? p rest).map fun s => { s with before := .element tag children :: s.before }
  | node :: rest => (split? p rest).map fun s => { s with before := node :: s.before }

def Split.row (s : Split) : List Node := s.before ++ .element s.tag s.children :: s.after

/-- The parts of a split row make up the row. -/
theorem row_of_split? {p : Tag → Bool} {nodes : List Node} {s : Split}
    (h : split? p nodes = some s) : s.row = nodes := by
  induction nodes generalizing s with
  | nil => simp [split?] at h
  | cons node rest ih =>
      cases node with
      | element tag children =>
          simp only [split?] at h
          split at h
          · cases h; rfl
          · obtain ⟨t, ht, rfl⟩ := Option.map_eq_some_iff.1 h
            simp [Split.row, ← ih ht]
      | text content =>
          obtain ⟨t, ht, rfl⟩ := Option.map_eq_some_iff.1 h
          simp [Split.row, ← ih ht]
      | comment content =>
          obtain ⟨t, ht, rfl⟩ := Option.map_eq_some_iff.1 h
          simp [Split.row, ← ih ht]

/-- The way down to an element: its index among the nodes of a row, and the way on from there. -/
abbrev Path := List Nat

mutual
/-- The way from a node to the first element whose tag satisfies the test, the node itself
included. -/
def Node.find? (p : Tag → Bool) : Node → Option Path
  | .element tag children => if p tag then some [] else findFrom? p 0 children
  | .text _ => none
  | .comment _ => none

/-- The way to the first such element of a row, whose first node has the index `i`. -/
def findFrom? (p : Tag → Bool) (i : Nat) : List Node → Option Path
  | [] => none
  | node :: rest =>
      match node.find? p with
      | some way => some (i :: way)
      | none => findFrom? p (i + 1) rest
end

/-- The way to the first element of a row or below whose tag satisfies the test. -/
def find? (p : Tag → Bool) (nodes : List Node) : Option Path := findFrom? p 0 nodes

/-- The row with the content of the element at the end of the way replaced; as it is, if there is
no element there. -/
def setContent (content : List Node) : Path → List Node → List Node
  | [], nodes => nodes
  | i :: way, nodes =>
      nodes.modify i fun
        | .element tag children =>
            .element tag (if way.isEmpty then content else setContent content way children)
        | node => node

end Folio.Paginate
