import Folio.Paginate.Frame

/-!
The pages of a document in document order, and the document with its pages replaced, each by a
group of pages. A page inside another page is part of that page's content.
-/
namespace Folio.Paginate

/-- A page where it stands: `rank` sections are before it among its siblings. -/
structure Placed where
  rank : Nat
  page : Section

mutual
/-- The pages in a node: itself, or those below it. -/
def Node.pages (inDocument : Bool) (rank : Nat) : Node → List Placed
  | .element tag children =>
      if inDocument && tag.isPage then [⟨rank, tag, children⟩]
      else pagesFrom tag.isDocument 0 children
  | .text _ => []
  | .comment _ => []

/-- The pages in a row of siblings that has `rank` sections before it. -/
def pagesFrom (inDocument : Bool) (rank : Nat) : List Node → List Placed
  | [] => []
  | node :: rest =>
      node.pages inDocument rank ++
        pagesFrom inDocument (if node.isTagged Tag.isSection then rank + 1 else rank) rest
end

/-- The pages of a document. -/
def pages (document : List Node) : List Placed := pagesFrom false 0 document

mutual
/-- What stands in the place of a node when pages are replaced by the groups, and the groups that
are left. -/
def Node.regroup (inDocument : Bool) (groups : List (List Node)) :
    Node → List Node × List (List Node)
  | .element tag children =>
      if inDocument && tag.isPage then
        match groups with
        | [] => ([.element tag children], [])
        | group :: rest => (group, rest)
      else
        let (row, rest) := regroupFrom tag.isDocument groups children
        ([.element tag row], rest)
  | .text content => ([.text content], groups)
  | .comment content => ([.comment content], groups)

def regroupFrom (inDocument : Bool) (groups : List (List Node)) :
    List Node → List Node × List (List Node)
  | [] => ([], groups)
  | node :: rest =>
      let (row, groups) := node.regroup inDocument groups
      let (more, groups) := regroupFrom inDocument groups rest
      (row ++ more, groups)
end

/-- The document with its first pages replaced by the groups, each page by one group; the pages
for which there is no group stay. -/
def regroup (groups : List (List Node)) (document : List Node) : List Node :=
  (regroupFrom false groups document).1

end Folio.Paginate
