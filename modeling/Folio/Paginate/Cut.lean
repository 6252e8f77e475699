import Folio.Paginate.Frame

/-!
Cutting the content of a flow into the flows of pages. Items are placed one after the other: one
that crosses the limit of the page under way starts the next page, unless it is alone on its page;
a mark that ends a page starts the next one if the page under way has an item.
-/
namespace Folio.Paginate

/-- A failure while something was measured. -/
structure Fault where
  message : Chars
deriving DecidableEq, Repr

/-- The element in which a loose text takes part in a flow. -/
def textTag : Tag := .plain "div".runes "flow-text".runes

/-- What a node contributes to a flow: an element itself, and a text that is not blank an element
around it. -/
def item? : Node → Option Node
  | .element tag children => some (.element tag children)
  | .text content => if content.all isBlank then none else some (.element textTag [.text content])
  | .comment _ => none

/-- The items of a flow, marks that end a page among them. -/
def flowItems (nodes : List Node) : List Node := nodes.filterMap item?

/-- How far a flow has been cut: the flows of the pages that are finished, and that of the page
under way. -/
structure Cut where
  finished : List (List Node)
  current : List Node

namespace Cut

/-- Nothing is placed yet. -/
def start : Cut := ⟨[], []⟩

/-- The flows of all pages, in order. -/
def flows (c : Cut) : List (List Node) := c.finished ++ [c.current]

/-- An item goes to the page under way. -/
def push (c : Cut) (item : Node) : Cut := { c with current := c.current ++ [item] }

/-- The page under way is finished, if it has an item. -/
def turn (c : Cut) : Cut :=
  if c.current.isEmpty then c else ⟨c.finished ++ [c.current], []⟩

/-- Nothing but the item is added. -/
@[simp] theorem flatten_flows_push (c : Cut) (item : Node) :
    (c.push item).flows.flatten = c.flows.flatten ++ [item] := by
  simp [flows, push]

/-- To finish a page adds nothing and loses nothing. -/
@[simp] theorem flatten_flows_turn (c : Cut) : c.turn.flows.flatten = c.flows.flatten := by
  unfold turn
  split
  · rfl
  · simp [flows]

/-- Places the items. `crosses` tells of the flows of the pages so far whether the last item of
the last page crosses its limit; when measuring fails, nothing more is placed. -/
def run (crosses : List (List Node) → Except Fault Bool) : Cut → List Node → Cut × Option Fault
  | c, [] => (c, none)
  | c, item :: rest =>
      if item.isTagged Tag.endsPage then run crosses c.turn rest
      else
        match crosses (c.push item).flows with
        | .error fault => (c.push item, some fault)
        | .ok true => run crosses (c.turn.push item) rest
        | .ok false => run crosses (c.push item) rest

end Cut
end Folio.Paginate
