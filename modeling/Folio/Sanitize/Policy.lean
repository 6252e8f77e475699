import Folio.Html.Token

/-!
What a sanitized fragment may hold: elements of layout and print, their attributes, the schemes of
addresses, and the properties of inline styles.
-/
namespace Folio.Sanitize

/-- The elements that are kept. -/
def allowedTags : List Chars := List.map String.runes [
  "header", "footer", "main", "section", "article", "aside", "nav", "figure", "figcaption", "div",
  "span", "p", "br", "hr", "strong", "b", "em", "i", "u", "s", "small", "sub", "sup", "mark",
  "abbr", "cite", "q", "time", "a", "h1", "h2", "h3", "h4", "h5", "h6", "blockquote", "ol", "ul",
  "li", "dl", "dt", "dd", "pre", "code", "table", "caption", "colgroup", "col", "thead", "tbody",
  "tfoot", "tr", "th", "td", "img", "picture", "source", "svg", "path", "g", "rect", "circle",
  "line", "polyline", "polygon"]

def isAllowedTag (name : Chars) : Bool := allowedTags.contains name

/-- The attributes that every element may have. -/
def sharedAttributes : List Chars := ["class", "id", "style", "title", "lang", "dir"]

/-- The attributes that some elements may have besides. -/
def ownAttributes : List (Chars × List Chars) := [
  ("a", ["href", "title", "target", "rel"]),
  ("img", ["src", "alt", "title", "width", "height", "srcset"]),
  ("source", ["src", "srcset", "type", "media"]),
  ("table", ["border", "cellpadding", "cellspacing"]),
  ("td", ["colspan", "rowspan"]),
  ("th", ["colspan", "rowspan", "scope"]),
  ("col", ["span"]),
  ("time", ["datetime"]),
  ("svg", ["viewbox", "width", "height", "xmlns", "fill", "stroke"]),
  ("path", ["d", "fill", "stroke", "stroke-width"]),
  ("rect", ["x", "y", "width", "height", "rx", "ry", "fill", "stroke"]),
  ("circle", ["cx", "cy", "r", "fill", "stroke"]),
  ("line", ["x1", "y1", "x2", "y2", "stroke", "stroke-width"]),
  ("polyline", ["points", "fill", "stroke"]),
  ("polygon", ["points", "fill", "stroke"]),
  ("g", ["fill", "stroke", "transform"])]

/-- Whether an element may have an attribute: one of its own, a shared one, or a data attribute. -/
def isAllowedAttribute (tag name : Chars) : Bool :=
  "data-".runes.isPrefixOf name || sharedAttributes.contains name ||
    ((ownAttributes.lookup tag).getD []).contains name

/-- The schemes that an address may have. -/
def allowedSchemes : List Chars := ["http", "https", "mailto", "data"]

/-- The properties that an inline style may set. -/
def allowedProperties : List Chars := List.map String.runes [
  "azimuth", "background-color", "border-bottom-color", "border-collapse", "border-color",
  "border-left-color", "border-right-color", "border-top-color", "clear", "color", "cursor",
  "direction", "display", "elevation", "float", "font", "font-family", "font-size", "font-style",
  "font-variant", "font-weight", "height", "letter-spacing", "line-height", "overflow", "pause",
  "pause-after", "pause-before", "pitch", "pitch-range", "richness", "speak", "speak-header",
  "speak-numeral", "speak-punctuation", "speech-rate", "stress", "text-align",
  "text-decoration", "text-indent", "unicode-bidi", "vertical-align", "voice-family", "volume",
  "white-space", "width", "fill", "fill-opacity", "fill-rule", "stroke", "stroke-linecap",
  "stroke-linejoin", "stroke-opacity", "stroke-width"]

def isAllowedProperty (name : Chars) : Bool :=
  allowedProperties.contains (Text.lowerAscii name)

/-- The elements that stand on lines of their own. -/
def blockTags : List Chars := List.map String.runes [
  "address", "article", "aside", "blockquote", "details", "dialog", "dd", "div", "dl", "dt",
  "fieldset", "figcaption", "figure", "footer", "form", "h1", "h2", "h3", "h4", "h5", "h6",
  "header", "hgroup", "hr", "li", "main", "nav", "ol", "p", "pre", "section", "table", "ul"]

def isBlockTag (name : Chars) : Bool := blockTags.contains name

/-- As what a token is taken: a tag that is not kept is empty text, or a line break if it begins a
block after another tag; an end tag without a name is text, unless an element that is kept has its
content as a name. -/
def accept (seen : Bool) : Html.Token → Html.Token
  | .start tag =>
      let name := Text.lower tag.name
      if isAllowedTag name then .start tag
      else .text (if seen && isBlockTag name then ['\n'] else [])
  | .close name => if isAllowedTag (Text.lower name) then .close name else .text []
  | .strayEnd source content =>
      if isAllowedTag (Text.trim (Text.lower content)) then .comment else .text source
  | token => token

end Folio.Sanitize
