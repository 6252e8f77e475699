import Folio.Html.Tree

/-!
Formatting elements that overlap others. A formatting element that is closed by force is opened
again at the next text; one whose end tag stands inside another element is split into a part
before that element and a part inside it.
-/
namespace Folio.Html.Build

/-- Whether two lists hold the same attributes, in any order. -/
def sameAttributes (a b : List (Chars × Chars)) : Bool :=
  a.length == b.length && a.all fun (name, value) => b.lookup name == some value

/-- Whether two elements have one name and the same attributes. -/
def alike (b : Build) (i j : Nat) : Bool :=
  b.name i == b.name j && (b.item i).drawing == (b.item j).drawing &&
    sameAttributes (b.item i).attrs (b.item j).attrs

/-- The formatting elements since the last mark, the latest first. -/
def recent (b : Build) : List Nat := (b.active.takeWhile Option.isSome).filterMap id

/-- Adds a formatting element to be opened again; of more than three alike the earliest goes. -/
def activate (b : Build) (i : Nat) : Build :=
  let same := b.recent.filter fun j => b.alike i j
  let active := match same.drop 2 with
    | [] => b.active
    | j :: _ => b.active.erase (some j)
  { b with active := some i :: active }

/-- A mark, at the start of a cell or caption. -/
def addMark (b : Build) : Build := { b with active := none :: b.active }

/-- Forgets the formatting elements since the last mark, and the mark. -/
def dropMark (b : Build) : Build :=
  { b with active := (b.active.dropWhile Option.isSome).drop 1 }

/-- The latest formatting element of a name. -/
def formatting? (b : Build) (name : Chars) : Option Nat := b.recent.find? fun i => b.name i == name

/-- Opens a new element like each of the given ones, and lists the new ones, the latest first. -/
def reopen (b : Build) : List Nat → Build × List (Option Nat)
  | [] => (b, [])
  | i :: later =>
      let new := b.items.size
      let (b, more) := (b.insert (b.name i) (b.item i).drawing (b.item i).attrs).reopen later
      (b, more ++ [some new])

/-- Opens the formatting elements again that are not open. -/
def reconstruct (b : Build) : Build :=
  let missing := b.recent.takeWhile fun i => !b.opened.contains i
  let (built, new) := b.reopen missing.reverse
  { built with active := new ++ b.active.drop missing.length }

/-- Opens a formatting element. -/
def insertFormatting (b : Build) (tag : Tag) : Build :=
  let i := b.items.size
  (b.insertTag tag).activate i

/-- Elements that a formatting element may not simply run across. -/
def specialNames : List Chars := List.map String.runes [
  "address", "applet", "area", "article", "aside", "base", "basefont", "bgsound", "blockquote",
  "body", "br", "button", "caption", "center", "col", "colgroup", "command", "dd", "details",
  "dir", "div", "dl", "dt", "embed", "fieldset", "figure", "footer", "form", "frame", "frameset",
  "h1", "h2", "h3", "h4", "h5", "h6", "head", "header", "hr", "html", "iframe", "image", "img",
  "input", "isindex", "li", "link", "listing", "marquee", "menu", "meta", "nav", "noembed",
  "noframes", "noscript", "object", "ol", "p", "param", "plaintext", "pre", "script", "section",
  "select", "style", "table", "tbody", "td", "textarea", "tfoot", "th", "thead", "title", "tr",
  "ul", "wbr", "xmp"]

def isSpecial (b : Build) (i : Nat) : Bool := b.isHtml specialNames i

/-- An end tag that closes the innermost open element of its name, unless a special element comes
before it. -/
def closeOther (b : Build) (name : Chars) : Build :=
  match b.opened.dropWhile fun i => b.name i != name && !b.isSpecial i with
  | [] => b
  | i :: _ =>
      if b.name i == name then (((b.popImplied name).popWhile fun j => j != i)).pop else b

/-- The element `i` replaced by `j` in a list. -/
def replaceIn (i j : Nat) (l : List (Option Nat)) : List (Option Nat) :=
  l.map fun e => if e == some i then some j else e

/-- How often a formatting element is to be opened again: the place where it goes, counted from the
earliest. -/
def activePlace (b : Build) (i : Nat) : Nat := b.active.reverse.idxOf (some i)

/-- A formatting element being split: the tree, the open elements between the formatting element
and the block, innermost first; the last element moved; the place for the new element. -/
structure Split where
  build : Build
  between : List Nat
  last : Nat
  bookmark : Nat

/-- Goes up from the block towards the formatting element, three elements at most: an element that
is not to be opened again is closed, any other is replaced by a new one around what was moved. -/
def splitUp (formatting block : Nat) : Nat → List Nat → Split → Split
  | 0, above, s => { s with between := s.between ++ above }
  | _ + 1, [], s => s
  | n + 1, i :: above, s =>
      if !s.build.active.contains (some i) then splitUp formatting block n above s
      else if i == formatting then { s with between := s.between ++ i :: above }
      else
        let b := s.build
        let bookmark := if s.last == block then b.activePlace i + 1 else s.bookmark
        let new := b.items.size
        let b := b.clone i
        let b := { b with active := replaceIn i new b.active }
        let b := (b.detach s.last).append new s.last
        splitUp formatting block n above ⟨b, s.between ++ [new], new, bookmark⟩

/-- An item put at a place of a list, or at its end. -/
def putAt (k : Nat) (e : Option Nat) (l : List (Option Nat)) : List (Option Nat) :=
  l.take k ++ e :: l.drop k

/-- Splits a formatting element at a block inside it. `inner` and `outer` are the open elements
inside the block and those outside it. -/
def splitAt (b : Build) (formatting block : Nat) (inner outer : List Nat) : Build :=
  let ancestor := ((outer.dropWhile (· != formatting)).drop 1).headD 0
  let s := splitUp formatting block 3 outer ⟨b, [], block, b.activePlace formatting⟩
  let b := s.build.detach s.last
  let b :=
    if b.hasName tableParts ancestor then
      match b.fosterPlace with
      | (_, none) => { b with stuck := true }
      | (parent, some table) => b.putBefore parent s.last table
    else b.append ancestor s.last
  let new := b.items.size
  let b := ((b.clone formatting).moveContent block new).append block new
  let active := putAt s.bookmark (some new) (b.active.erase (some formatting)).reverse
  { b with
    active := active.reverse
    opened := inner ++ new :: block :: s.between.filter (· != formatting) }

/-- One round for the end tag of a formatting element, and whether it was the last. -/
def closeFormattingOnce (b : Build) (name : Chars) : Build × Bool :=
  match b.formatting? name with
  | none => (b.closeOther name, true)
  | some f =>
      if !b.opened.contains f then ({ b with active := b.active.erase (some f) }, true)
      else if !b.inScope name then (b.closeOther name, true)
      else
        let inside := b.opened.takeWhile (· != f)
        match (inside.reverse.find? fun i => b.isSpecial i) with
        | none =>
            ({ b with
              opened := (b.opened.dropWhile (· != f)).drop 1
              active := b.active.erase (some f) }, true)
        | some block =>
            let inner := b.opened.takeWhile (· != block)
            let outer := (b.opened.dropWhile (· != block)).drop 1
            (b.splitAt f block inner outer, false)

/-- The end tag of a formatting element, in `n` rounds at most. -/
def closeFormatting : Nat → Chars → Build → Build
  | 0, _, b => b
  | n + 1, name, b =>
      match b.closeFormattingOnce name with
      | (b, true) => b
      | (b, false) => closeFormatting n name b

end Folio.Html.Build
