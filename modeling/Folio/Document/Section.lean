import Folio.Document.Sheet
import Folio.Markup.Escape
import Folio.Markup.Node

/-!
The section of a page: the attributes of its tag, and the elements around the fragments inside it.
-/
namespace Folio.Document

open Markup (MarkupError Node)

/-- The attributes of a section's tag. -/
structure SectionTag where
  classes : List Chars
  title : Option Chars
  headerHeight : Option Chars
  footerHeight : Option Chars
  style : Chars
deriving DecidableEq, Repr

/-- A list with one more item, unless it has it. -/
def addMissing (xs : List Chars) (x : Chars) : List Chars :=
  if xs.contains x then xs else xs ++ [x]

/-- The class of every section. -/
def pageClass : Chars := "page".runes

/-- The classes of a section: those the author gives, the page's own class in front unless it is
there, and a marker for each band that is not shown. -/
def Page.classes (p : Page) : List Chars :=
  let given := Text.words p.sectionClass
  let named := if given.contains pageClass then given else pageClass :: given
  let markers := (if p.showsHeader then [] else ["no-header".runes]) ++
    (if p.showsFooter then [] else ["no-footer".runes])
  markers.foldl addMissing named

/-- The heights that a page sets for its bands. A band that is not shown gets none, the rule of
its marker holds. -/
def Page.heights (p : Page) : List (Chars × Chars) :=
  let height := fun (name : Chars) (shows : Bool) (text : Option Chars) =>
    if shows then ((text.bind Length.ofText).map fun h => (name, h)).toList else []
  height "--header-h" p.showsHeader p.headerHeight ++
    height "--footer-h" p.showsFooter p.footerHeight

/-- The attributes of a page's section. -/
def Page.sectionTag (p : Page) : SectionTag where
  classes := p.classes
  title := p.title
  headerHeight := p.headerHeight.bind Length.ofText
  footerHeight := p.footerHeight.bind Length.ofText
  style := p.heights.flatMap fun h => writeDeclaration h.1 h.2

/-- The attributes by name, as they are written. -/
def SectionTag.attributes (t : SectionTag) : List (Chars × Chars) :=
  [("class".runes, Text.spaced t.classes)] ++
    (t.title.map fun v => ("data-title".runes, v)).toList ++
    (t.headerHeight.map fun v => ("data-header-height".runes, v)).toList ++
    (t.footerHeight.map fun v => ("data-footer-height".runes, v)).toList ++
    (if t.style.isEmpty then [] else [("style".runes, t.style)])

def SectionTag.write (t : SectionTag) : Chars :=
  Text.spaced (t.attributes.map fun a => Markup.writeAttribute a.1 a.2)

/-- Whether a node is an element of the name, and of the class if one is given. -/
def isElement (name : Chars) (cls : Option Chars) : Node → Bool
  | .text .. => false
  | .element n attrs _ =>
      n == name && cls.all fun c =>
        (Text.words ((attrs.lookup "class".runes).getD [])).contains c

/-- Whether such an element stands at the top of a fragment. -/
def hasTopLevel (name : Chars) (cls : Option Chars) (fragment : Chars) :
    Except MarkupError Bool :=
  (Node.read fragment).map fun nodes => nodes.any (isElement name cls)

/-- The bands of a page. -/
inductive Band where
  | header
  | footer
deriving DecidableEq, Repr

def Band.name : Band → Chars
  | .header => "header".runes
  | .footer => "footer".runes

/-- A fragment in an element. -/
def enclose (name : Chars) (attrs fragment : Chars) : Chars :=
  .of '<' :: name ++ attrs ++ .of '>' :: fragment ++ .of '<' :: .of '/' :: name ++ [.of '>']

/-- A band's fragment in the element of the band, unless it brings one. -/
def wrapBand (band : Band) (fragment : Chars) : Except MarkupError Chars :=
  (hasTopLevel band.name none fragment).map fun has =>
    if has then fragment else enclose band.name [] fragment

/-- A body's fragment in the element of the body, unless it brings one. -/
def wrapBody (fragment : Chars) : Except MarkupError Chars :=
  (hasTopLevel "main".runes (some "body".runes) fragment).map fun has =>
    if has then fragment else enclose "main".runes " class=\"body\"".runes fragment

end Folio.Document
