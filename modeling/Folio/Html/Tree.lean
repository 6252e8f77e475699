import Folio.Html.Token

/-!
A tree under construction: the elements by number, the stack of the open ones, and the places where
new elements and text go. Text that does not belong into a table is put before it. A child put
there is not listed: when the content of its parent is moved, it stays behind.
-/
namespace Folio.Html

/-- An element or a comment. Text stands before the first child and after each child, as the tail
of that child. -/
structure Item where
  name : Chars
  /-- Whether the element belongs to a drawing. -/
  drawing : Bool
  isComment : Bool
  attrs : List (Chars × Chars)
  text : Chars
  tail : Chars
  children : Array Nat
  listed : Array Nat
  parent : Option Nat
deriving Repr, Inhabited

def Item.element (name : Chars) (drawing : Bool) (attrs : List (Chars × Chars)) : Item :=
  ⟨name, drawing, false, attrs, [], [], #[], #[], none⟩

def Item.comment : Item := ⟨[], false, true, [], [], [], #[], #[], none⟩

/-- The rules by which the next token is taken. -/
inductive Phase where
  | body
  | table
  | caption
  | columnGroup
  | tableBody
  | row
  | cell
deriving DecidableEq, Repr

/-- A tree under construction. -/
structure Build where
  items : Array Item
  /-- The open elements, the innermost first; the last is the root. -/
  opened : List Nat
  /-- The formatting elements that are to be opened again, the latest first, with a mark for each
  cell and caption entered. -/
  active : List (Option Nat)
  phase : Phase
  /-- Whether what does not belong into a table is put before it. -/
  fostering : Bool
  /-- Text read directly inside a table and not placed yet. -/
  held : Option Chars
  /-- Whether a line break at the start of preformatted text is dropped. -/
  dropBreak : Bool
  /-- Whether an element had to be moved that its parent does not list. -/
  stuck : Bool
deriving Repr

namespace Build

/-- A tree with nothing but its root. -/
def empty : Build :=
  ⟨#[.element "html".runes false []], [0], [], .body, false, none, false, false⟩

def item (b : Build) (i : Nat) : Item := b.items.getD i default

def name (b : Build) (i : Nat) : Chars := (b.item i).name

/-- Whether the item is an element of the given name outside drawings. -/
def isHtml (b : Build) (names : List Chars) (i : Nat) : Bool :=
  !(b.item i).drawing && names.contains (b.name i)

/-- Whether the item has one of the names, in a drawing or outside. -/
def hasName (b : Build) (names : List Chars) (i : Nat) : Bool :=
  names.contains (b.name i)

def modify (b : Build) (i : Nat) (f : Item → Item) : Build :=
  { b with items := b.items.modify i f }

/-- The innermost open element. -/
def current (b : Build) : Nat := b.opened.headD 0

def inDrawing (b : Build) : Bool := (b.item b.current).drawing

/-- A new item, outside the tree; its number is the old size. -/
def add (b : Build) (item : Item) : Build := { b with items := b.items.push item }

/-- Makes `child` the last child of `parent`. -/
def append (b : Build) (parent child : Nat) : Build :=
  (b.modify parent fun p =>
    { p with children := p.children.push child, listed := p.listed.push child }).modify child
      fun c => { c with parent := some parent }

/-- Puts `child` before another child of `parent`. -/
def putBefore (b : Build) (parent child before : Nat) : Build :=
  match (b.item parent).children.toList.idxOf? before with
  | none => { b with stuck := true }
  | some k =>
      (b.modify parent fun p =>
        { p with children := (p.children.toList.insertIdx k child).toArray }).modify child
          fun c => { c with parent := some parent }

/-- Takes an item from its parent, if it has one; its tail goes with it. -/
def detach (b : Build) (child : Nat) : Build :=
  match (b.item child).parent with
  | none => b
  | some parent =>
      if (b.item parent).listed.contains child then
        (b.modify parent fun p =>
          { p with children := p.children.erase child, listed := p.listed.erase child }).modify
            child fun c => { c with parent := none }
      else { b with stuck := true }

/-- A new element like another, without its content; its number is the old size. -/
def clone (b : Build) (i : Nat) : Build :=
  b.add (.element (b.name i) (b.item i).drawing (b.item i).attrs)

/-- Moves the text and the listed children of an element to another, which is empty. -/
def moveContent (b : Build) (source target : Nat) : Build :=
  let it := b.item source
  let b := (b.modify source fun s => { s with text := [], children := #[], listed := #[] }).modify
    target fun t => { t with text := t.text ++ it.text }
  it.listed.foldl (fun b c => b.append target c) b

/-- Adds text to an element: at its end, or before one of its children. -/
def addText (b : Build) (parent : Nat) (before : Option Nat) (s : Chars) : Build :=
  let children := (b.item parent).children.toList
  let addHead := fun (b : Build) => b.modify parent fun p => { p with text := p.text ++ s }
  let addTail := fun (b : Build) (c : Nat) => b.modify c fun i => { i with tail := i.tail ++ s }
  match children.getLast? with
  | none => addHead b
  | some last =>
      match before with
      | none => addTail b last
      | some child =>
          match children.idxOf? child with
          | none => { b with stuck := true }
          | some 0 => addHead b
          | some (k + 1) => addTail b (children.getD k 0)

/-- The elements that only a table's parts may stand in. -/
def tableParts : List Chars := ["table", "tbody", "tfoot", "thead", "tr"]

/-- The place before the innermost open table. -/
def fosterPlace (b : Build) : Nat × Option Nat :=
  match b.opened.dropWhile fun i => !b.hasName ["table"] i with
  | [] => (b.opened.getLastD 0, none)
  | table :: outer =>
      match (b.item table).parent with
      | some parent => (parent, some table)
      | none => (outer.headD 0, none)

/-- Whether what is inserted now goes before the table. -/
def isFostering (b : Build) : Bool := b.fostering && b.hasName tableParts b.current

/-- Text at the place where text goes. -/
def insertText (b : Build) (s : Chars) : Build :=
  if b.isFostering then
    let (parent, before) := b.fosterPlace
    b.addText parent before s
  else b.addText b.current none s

/-- Puts an item at the place where elements go. -/
def place (b : Build) (child : Nat) : Build :=
  if b.isFostering then
    match b.fosterPlace with
    | (parent, none) => b.append parent child
    | (parent, some table) => b.putBefore parent child table
  else b.append b.current child

/-- Opens a new element. -/
def insert (b : Build) (name : Chars) (drawing : Bool) (attrs : List (Chars × Chars)) : Build :=
  let child := b.items.size
  let b := (b.add (.element name drawing attrs)).place child
  { b with opened := child :: b.opened }

/-- Opens the element of a tag. -/
def insertTag (b : Build) (tag : Tag) : Build := b.insert tag.name false tag.attrs

/-- Opens an element that no tag stands for. -/
def insertImplied (b : Build) (name : Chars) : Build := b.insert name false []

/-- A comment at the end of the innermost open element. -/
def insertComment (b : Build) : Build :=
  (b.add .comment).append b.current b.items.size

/-- Closes the innermost open element. -/
def pop (b : Build) : Build := { b with opened := b.opened.drop 1 }

/-- Closes open elements as long as `p` holds. -/
def popWhile (p : Nat → Bool) (b : Build) : Build := { b with opened := b.opened.dropWhile p }

/-- Closes open elements up to and with the first of the names. -/
def popThrough (names : List Chars) (b : Build) : Build :=
  (b.popWhile fun i => !b.hasName names i).pop

/-- Closes open elements up to the first of the names, or to the root. -/
def popTo (names : List Chars) (b : Build) : Build :=
  b.popWhile fun i => !b.hasName ("html" :: names) i

/-- Elements whose end tags may be left out. -/
def impliedNames : List Chars := ["dd", "dt", "li", "option", "optgroup", "p", "rp", "rt"]

/-- Closes elements whose end tags may be left out, except those of one name. -/
def popImplied (except : Chars) (b : Build) : Build :=
  b.popWhile fun i => b.hasName impliedNames i && b.name i != except

/-- The elements that bound a scope. -/
def scopeBounds : List Chars :=
  ["applet", "caption", "html", "marquee", "object", "table", "td", "th"]

/-- The first open element with one of the names, none if a bound comes before it. -/
def inScopeOf (b : Build) (bounds names : List Chars) : Bool :=
  match b.opened.dropWhile fun i => !b.isHtml names i && !b.isHtml bounds i with
  | [] => false
  | i :: _ => b.isHtml names i

def inScope (b : Build) (name : Chars) : Bool := b.inScopeOf scopeBounds [name]

def inButtonScope (b : Build) (name : Chars) : Bool :=
  b.inScopeOf ("button" :: scopeBounds) [name]

def inListScope (b : Build) (name : Chars) : Bool :=
  b.inScopeOf ("ol" :: "ul" :: scopeBounds) [name]

def inTableScope (b : Build) (names : List Chars) : Bool :=
  b.inScopeOf ["html", "table"] names

end Build

/-- The content of a finished tree. -/
inductive Content where
  | text (s : Chars)
  | comment
  | element (name : Chars) (drawing : Bool) (attrs : List (Chars × Chars))
      (children : List Content)
deriving Repr, Inhabited

/-- Text as content, if there is any. -/
def Content.ofText (s : Chars) : List Content := if s.isEmpty then [] else [.text s]

namespace Build

/-- The content of some children with the text after each; `depth` bounds the nesting. -/
def contentOf (b : Build) : Nat → List Nat → List Content
  | 0, _ => []
  | depth + 1, children =>
      children.flatMap fun c =>
        let it := b.item c
        let node := if it.isComment then .comment
          else .element it.name it.drawing it.attrs
            (Content.ofText it.text ++ b.contentOf depth it.children.toList)
        node :: Content.ofText it.tail

/-- The content of the root: its text and its listed children. -/
def content (b : Build) : List Content :=
  let root := b.item 0
  Content.ofText root.text ++ b.contentOf (b.items.size + 1) root.listed.toList

end Build

end Folio.Html
