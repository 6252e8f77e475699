import Folio.Markup.Reference

/-!
The events of marked-up text: tags, text, references and the constructs between `<!` or `<?` and
`>`, in the order in which they stand.
-/
namespace Folio.Markup

/-- A start tag. An attribute without an equals sign has no value; names may be repeated. -/
structure StartTag where
  name : Chars
  attrs : List (Chars × Option Chars)
  selfClosing : Bool
deriving DecidableEq, Repr

inductive Event where
  | text (content : Chars)
  | reference (r : Reference)
  | start (tag : StartTag)
  | close (name : Chars)
  | comment (content : Chars)
  /-- A document type; the content begins with the word itself. -/
  | doctype (content : Chars)
  | instruction (content : Chars)
  /-- A marked section; the content begins with its status word. -/
  | marked (content : Chars)
deriving DecidableEq, Repr

/-- The start tags among some events. -/
def startTags (events : List Event) : List StartTag :=
  events.filterMap fun
    | .start tag => some tag
    | _ => none

/-- Elements whose content is text up to their end tag. -/
def rawTextElements : List Chars := ["script".runes, "style".runes]

def isRawText (name : Chars) : Bool := rawTextElements.contains name

end Folio.Markup
