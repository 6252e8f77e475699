import Folio.Markup.Printer
import Folio.Resource.Stylesheet

/-!
Fragments without resources from outside: external links disappear, external addresses lose their
attribute, and style sheets are stripped. A fragment that has none of these stays as it is,
character for character.
-/
namespace Folio.Resource

open Markup (Node)

/-- The attributes that hold an address. -/
def urlAttributes : List Chars :=
  ["src", "href", "srcset", "poster", "data-src", "data", "xlink:href", "background", "action",
    "formaction"].map String.runes

/-- Whether the value of an attribute leaves the document. -/
def isExternalAttribute (name value : Chars) : Bool :=
  urlAttributes.contains name &&
    if name == "srcset".runes then hasExternalCandidate value else isExternal value

/-- Whether an element is a link to the outside. -/
def isExternalLink (name : Chars) (attrs : List (Chars × Chars)) : Bool :=
  name == "link".runes && isExternal ((attrs.lookup "href".runes).getD [])

/-- The attributes without external addresses, the style stripped. -/
def stripAttributes (attrs : List (Chars × Chars)) : List (Chars × Chars) :=
  (attrs.map fun (name, value) =>
    (name, if name == "style".runes then stripCss value else value)).filter
      fun (name, value) => !isExternalAttribute name value

/-- The text of a style element that holds nothing else. -/
def soleText : List Node → Chars
  | [.text _ content] => content
  | _ => []

/-- The content of a style element, stripped. -/
def stripStyleText (children : List Node) : List Node :=
  let css := soleText children
  if stripCss css == css then children else [.text .plain (stripCss css)]

mutual

/-- A node without resources from outside; an external link is no node at all, and takes nothing
else away, as a link is void. -/
def stripNode : Node → List Node
  | .text kind content => [.text kind content]
  | .element name attrs children =>
      if isExternalLink name attrs then []
      else
        let stripped := stripNodes children
        [.element name (stripAttributes attrs)
          (if name == "style".runes then stripStyleText stripped else stripped)]

/-- Nodes without resources from outside. -/
def stripNodes : List Node → List Node
  | [] => []
  | node :: rest => stripNode node ++ stripNodes rest

end

mutual

/-- Whether a node has something to strip. -/
def isTainted : Node → Bool
  | .text .. => false
  | .element name attrs children =>
      isExternalLink name attrs || stripAttributes attrs != attrs ||
        (name == "style".runes && stripCss (soleText children) != soleText children) ||
        anyTainted children

/-- Whether one of the nodes has something to strip. -/
def anyTainted : List Node → Bool
  | [] => false
  | node :: rest => isTainted node || anyTainted rest

end

/-- A fragment without resources from outside, by way of its tree. -/
def stripParsed (html : Chars) : Except Markup.MarkupError Chars :=
  (Node.read html).map fun nodes =>
    if anyTainted nodes then Node.writeAll (stripNodes nodes) else html

/-- A fragment without resources from outside. One that cannot hold any is not parsed. -/
def stripFragment (html : Chars) : Except Markup.MarkupError Chars :=
  if mayLeave html then stripParsed html else .ok html

example : (stripFragment "<br><i/>text<br/><img src='//x'>".runes).toOption =
    some "<br/><i></i>text<br/><img/>".runes := by
  decide +kernel

end Folio.Resource
