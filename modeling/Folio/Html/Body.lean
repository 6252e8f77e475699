import Folio.Entries
import Folio.Html.Formatting

/-!
Tags outside the frame of a table: which open elements a start tag or an end tag closes, and where
the new element goes. Tags of forms, scripts, frames and formulas have no rules of their own.
-/
namespace Folio.Html.Build

/-- Containers, which end a paragraph before them. -/
def containerNames : List Chars := [
  "address", "article", "aside", "blockquote", "center", "details", "dir", "div", "dl",
  "fieldset", "figcaption", "figure", "footer", "header", "hgroup", "main", "menu", "nav", "ol",
  "section", "summary", "ul"]

def headingNames : List Chars := ["h1", "h2", "h3", "h4", "h5", "h6"]

def formattingNames : List Chars :=
  ["b", "big", "code", "em", "font", "i", "s", "small", "strike", "strong", "tt", "u"]

def tableOnlyNames : List Chars :=
  ["caption", "col", "colgroup", "frame", "head", "tbody", "td", "tfoot", "th", "thead", "tr"]

/-- Closes the paragraph in scope. -/
def popParagraph (b : Build) : Build := (b.popImplied ['p']).popThrough ["p"]

/-- Closes a paragraph if one is in scope. -/
def endParagraph (b : Build) : Build := if b.inButtonScope "p" then b.popParagraph else b

/-- The end tag of a paragraph; without a paragraph it makes an empty one. -/
def closeParagraph (b : Build) : Build :=
  if b.inButtonScope "p" then b.popParagraph else (b.insertImplied "p").popParagraph

/-- The end tag of a container. -/
def closeContainer (b : Build) (name : Chars) : Build :=
  if b.inScope name then (b.popImplied []).popThrough [name] else b

/-- The end tag of an item of a list. -/
def closeListItem (b : Build) (name : Chars) : Build :=
  if (if name == "li".runes then b.inListScope name else b.inScope name) then
    (b.popImplied name).popThrough [name]
  else b

/-- The end tag of a heading closes a heading of any level. -/
def closeHeading (b : Build) : Build :=
  if headingNames.any fun h => b.inScope h then
    (b.popImplied []).popThrough headingNames
  else b

/-- The end tag of a line break makes one. -/
def closeBreak (b : Build) : Build := (b.reconstruct.insertImplied "br").pop

/-- An end tag in the body. -/
def bodyEnd (b : Build) (name : Chars) : Build :=
  if name == "p" then b.closeParagraph
  else if name == "pre" then { b with dropBreak := false }.closeContainer name
  else if containerNames.contains name || name == "button" || name == "listing" then
    b.closeContainer name
  else if (["dd", "dt", "li"] : List Chars).contains name then b.closeListItem name
  else if headingNames.contains name then b.closeHeading
  else if name == "a" || name == "nobr" || formattingNames.contains name then
    closeFormatting 8 name b
  else if name == "br" then b.closeBreak
  else b.closeOther name

/-- The open item of a list that a new item ends: the innermost, unless another special element
comes before it. -/
def openItem? (b : Build) (stop : List Chars) : Option Nat :=
  let passes := fun i => !b.hasName stop i &&
    (!b.isSpecial i || b.isHtml ["address", "div", "p"] i)
  match b.opened.dropWhile passes with
  | [] => none
  | i :: _ => if b.hasName stop i then some i else none

/-- The start tag of an item of a list; `endTag` takes an end tag by the rules of the phase. -/
def startListItem (b : Build) (endTag : Build → Chars → Build) (tag : Tag) : Build :=
  let stop : List Chars := if tag.name == "li".runes then ["li"] else ["dt", "dd"]
  let b := match b.openItem? stop with
    | some i => endTag b (b.name i)
    | none => b
  (if b.inButtonScope "p" then endTag b ['p'] else b).insertTag tag

/-- The start tag of a heading: a heading right around it is closed. -/
def startHeading (b : Build) (tag : Tag) : Build :=
  let b := b.endParagraph
  (if b.hasName headingNames b.current then b.pop else b).insertTag tag

/-- The start tag of a link: links are not nested. -/
def startLink (b : Build) (tag : Tag) : Build :=
  let b := match b.formatting? ['a'] with
    | none => b
    | some i =>
        let b := closeFormatting 8 ['a'] b
        { b with opened := b.opened.erase i, active := b.active.erase (some i) }
  b.reconstruct.insertFormatting tag

/-- The names of attributes of drawings that are not in lower case. -/
def drawingAttributes : List Chars := List.map String.runes [
  "attributeName", "attributeType", "baseFrequency", "baseProfile", "calcMode", "clipPathUnits",
  "contentScriptType", "contentStyleType", "diffuseConstant", "edgeMode",
  "externalResourcesRequired", "filterRes", "filterUnits", "glyphRef", "gradientTransform",
  "gradientUnits", "kernelMatrix", "kernelUnitLength", "keyPoints", "keySplines", "keyTimes",
  "lengthAdjust", "limitingConeAngle", "markerHeight", "markerUnits", "markerWidth",
  "maskContentUnits", "maskUnits", "numOctaves", "pathLength", "patternContentUnits",
  "patternTransform", "patternUnits", "pointsAtX", "pointsAtY", "pointsAtZ", "preserveAlpha",
  "preserveAspectRatio", "primitiveUnits", "refX", "refY", "repeatCount", "repeatDur",
  "requiredExtensions", "requiredFeatures", "specularConstant", "specularExponent",
  "spreadMethod", "startOffset", "stdDeviation", "stitchTiles", "surfaceScale",
  "systemLanguage", "tableValues", "targetX", "targetY", "textLength", "viewBox", "viewTarget",
  "xChannelSelector", "yChannelSelector", "zoomAndPan"]

/-- The address of a name space, in braces, before a name. -/
def inSpace (space name : Chars) : Chars := .of '\x7b' :: space ++ .of '\x7d' :: name

def xlinkSpace : Chars := "http://www.w3.org/1999/xlink"

def xmlSpace : Chars := "http://www.w3.org/XML/1998/namespace"

def xmlnsSpace : Chars := "http://www.w3.org/2000/xmlns/"

/-- The names of attributes that belong to a name space. -/
def spacedAttributes : List (Chars × Chars) :=
  ((["actuate", "arcrole", "href", "role", "show", "title", "type"] : List Chars).map fun n =>
    ("xlink:".runes ++ n, inSpace xlinkSpace n)) ++
  ((["base", "lang", "space"] : List Chars).map fun n => ("xml:".runes ++ n, inSpace xmlSpace n)) ++
  [("xmlns".runes, inSpace xmlnsSpace "xmlns"), ("xmlns:xlink".runes, inSpace xmlnsSpace "xlink")]

/-- The name of an attribute inside a drawing. -/
def drawingName (name : Chars) : Chars :=
  match drawingAttributes.find? fun n => Text.lowerAscii n == name with
  | some n => n
  | none => (spacedAttributes.lookup name).getD name

/-- Opens an element of a drawing, and closes it if its tag does. -/
def insertDrawing (b : Build) (tag : Tag) : Build :=
  let attrs := tag.attrs.foldl (fun done a => Entries.put (drawingName a.1) a.2 done) []
  let b := b.insert tag.name true attrs
  if tag.selfClosing then b.pop else b

/-- A start tag in the body; `endTag` takes an end tag by the rules of the phase. -/
def bodyStart (b : Build) (endTag : Build → Chars → Build) (tag : Tag) : Build :=
  let name := tag.name
  if name == "p" || containerNames.contains name then b.endParagraph.insertTag tag
  else if headingNames.contains name then b.startHeading tag
  else if name == "pre" || name == "listing" then
    { b.endParagraph.insertTag tag with dropBreak := true }
  else if (["li", "dd", "dt"] : List Chars).contains name then b.startListItem endTag tag
  else if name == "a" then b.startLink tag
  else if formattingNames.contains name then b.reconstruct.insertFormatting tag
  else if name == "table" then { b.endParagraph.insertTag tag with phase := .table }
  else if (["area", "br", "embed", "img", "keygen", "wbr"] : List Chars).contains name then
    (b.reconstruct.insertTag tag).pop
  else if (["param", "source", "track"] : List Chars).contains name then (b.insertTag tag).pop
  else if name == "hr" then (b.endParagraph.insertTag tag).pop
  else if name == "svg" then b.reconstruct.insertDrawing tag
  else if tableOnlyNames.contains name then b
  else b.reconstruct.insertTag tag

/-- Text in the body. The character zero is dropped. -/
def bodyText (b : Build) (s : Chars) : Build :=
  if s == [.of '\x00'] then b else b.reconstruct.insertText s

/-- White space in the body; a line break right after the start of preformatted text is dropped. -/
def bodySpace (b : Build) (s : Chars) : Build :=
  let it := b.item b.current
  let drops := b.dropBreak && s.head? == some (.of '\n') &&
    b.hasName ["pre", "listing", "textarea"] b.current && it.text.isEmpty && it.children.isEmpty
  let s := if drops then s.drop 1 else s
  let b := { b with dropBreak := false }
  if s.isEmpty then b else b.reconstruct.insertText s

end Folio.Html.Build
