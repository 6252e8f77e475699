import Folio.Paginate.Cut
import Folio.Paginate.Numbering
import Folio.Paginate.Layout
import Folio.Paginate.Script

/-!
Laying out a document on pages: every page section is cut into as many pages as its content
takes, and all pages are numbered. The root of the document tells how it went, and nothing is
done twice.
-/
namespace Folio.Paginate

/-- Cuts one section after the other, in document order. `groups` are the pages made of the
sections so far; the document is measured with those in it. -/
def cutSections (gauge : Gauge) (vars : Properties) (document : List Node) :
    List (List Node) → List Section → List (List Node) × Option Fault
  | groups, [] => (groups, none)
  | groups, s :: rest =>
      let (frame, content) := s.prepare vars
      let made := groups.flatten.length
      let crosses := fun flows : List (List Node) =>
        gauge (regroup (groups ++ [flows.map frame.box]) document) (made + flows.length - 1)
      let (cut, fault) := Cut.start.run crosses (flowItems content)
      let groups := groups ++ [cut.flows.map frame.box]
      match fault with
      | some fault => (groups, some fault)
      | none => cutSections gauge vars document groups rest

/-- A document after the attempt to lay it out: with the number of its pages, or the failure that
ended the attempt. -/
structure Laid where
  document : List Node
  outcome : Except Fault Nat

/-- Lays out a document. The pages are numbered when all of them are made. -/
def layOut (gauge : Gauge) (vars : Properties) (document : List Node) : Laid :=
  match cutSections gauge vars document [] ((pages document).map Placed.page) with
  | (groups, some fault) => ⟨regroup groups document, .error fault⟩
  | (groups, none) =>
      ⟨regroup (numberPages groups) document, .ok groups.flatten.length⟩

/-- Two items that do not fit on one page go on two. -/
example :
    let item : Node := .element ⟨"p".runes, [], [], [], some 60⟩ []
    let page : Node := .element (.plain "section".runes "page".runes)
      [.element Section.newBody [item, item]]
    let m : Metrics := ⟨[], 100, 0, noHeight, 20, none⟩
    (layOut m.gauge [] [.element (.plain "div".runes "document".runes) [page]]).outcome.toOption
      = some 2 := by
  decide +kernel

/-- A document that is shown: the attributes of its root, its content, and the failures so far. -/
structure View where
  root : Properties
  document : List Node
  faults : List Fault

namespace View

def doneKey : Chars := doneAttribute.runes

def countKey : Chars := countAttribute.runes

/-- Whether the layout was already tried. -/
def isDone (v : View) : Bool := !((v.root.lookup doneKey).getD []).isEmpty

/-- Lays out the document, if that was not tried before. -/
def trigger (gauge : Gauge) (vars : Properties) (v : View) : View :=
  if v.isDone then v
  else
    match layOut gauge vars v.document with
    | ⟨document, .ok count⟩ =>
        { v with
          root := Entries.put doneKey "true".runes
            (Entries.put countKey (Text.decimal count) v.root)
          document }
    | ⟨document, .error fault⟩ =>
        { root := Entries.put doneKey "error".runes v.root, document,
          faults := v.faults ++ [fault] }

/-- Lays out the document when it is complete: at once, or whenever it is told so. -/
def settle (gauge : Gauge) (vars : Properties) (complete : Bool) (loads : Nat) (v : View) :
    View :=
  if complete then v.trigger gauge vars else loads.repeat (trigger gauge vars) v

end View
end Folio.Paginate
