import Folio.Paginate.Node

/-!
Page numbers. Every page count below a footer of a page shows the number of the page and the
number of all pages, in the first elements that it has for them.
-/
namespace Folio.Paginate

/-- What a page count shows: the number of its page, and the number of all pages. -/
structure Numbers where
  current : Nat
  total : Nat
deriving DecidableEq, Repr

namespace Numbers

def text (n : Nat) : List Node := [.text (Text.decimal n)]

/-- The content of a page count with the numbers shown. Both places are looked up before one of
them is changed. -/
def fill (n : Numbers) (nodes : List Node) : List Node :=
  let current := find? Tag.isCurrent nodes
  let total := find? Tag.isTotal nodes
  let shown := match current with
    | some way => setContent (text n.current) way nodes
    | none => nodes
  match total with
  | some way => setContent (text n.total) way shown
  | none => shown

/-- Shows the numbers in a node and, outer ones first, in the page counts below it; `depth` is at
least the depth of the node. -/
def showBelow (n : Numbers) : Nat → Node → Node
  | depth + 1, .element tag children =>
      let shown := if tag.isPageCount then n.fill children else children
      .element tag (shown.map (showBelow n depth))
  | _, node => node

/-- A child of a page with the numbers shown below it, if it is a footer. -/
def showInBand (n : Numbers) : Node → Node
  | .element tag children =>
      if tag.showsNumbers then
        .element tag (children.map fun node => n.showBelow (node.depth + 1) node)
      else .element tag children
  | node => node

/-- A page with the numbers shown in its footers. -/
def showOn (n : Numbers) : Node → Node
  | .element tag children => .element tag (children.map n.showInBand)
  | node => node

end Numbers

/-- Pages in groups, numbered on from `first`. -/
def numbered (total : Nat) : Nat → List (List Node) → List (List Node)
  | _, [] => []
  | first, group :: rest =>
      group.mapIdx (fun i page => Numbers.showOn ⟨first + i, total⟩ page) ::
        numbered total (first + group.length) rest

/-- All pages numbered through the groups, from one. -/
def numberPages (groups : List (List Node)) : List (List Node) :=
  numbered groups.flatten.length 1 groups

end Folio.Paginate
