import Folio.Document.Bundle
import Folio.Json.Display
import Folio.Markup.Escape
import Folio.Resource.Stylesheet
import Folio.Log

/-!
The tags of a document's head and its scripts: meta tags, style sheets and scripts, each as it is
given, and those that are left when nothing from outside is allowed.
-/
namespace Folio.Document

/-- Whether a value of a meta entry is written. -/
def isWritten : Json → Bool
  | .null => false
  | .str s => !s.isEmpty
  | _ => true

/-- The name of an attribute for a name with humps: each capital becomes a hyphen and the letter. -/
def hyphenate (name : Chars) : Chars :=
  name.flatMap fun c => if c.isUpper then ['-', c.toLower] else [c]

/-- The attributes of a meta tag. -/
def metaAttributes (entry : MetaEntry) : List (Chars × Chars) :=
  (entry.filter fun e => isWritten e.2).map fun e => (hyphenate e.1, e.2.display)

/-- A meta tag; an entry without values has none. -/
def metaTag (entry : MetaEntry) : Chars :=
  match metaAttributes entry with
  | [] => []
  | attrs =>
      "<meta ".runes ++ Text.spaced (attrs.map fun a => Markup.writeAttribute a.1 a.2) ++
        " />".runes

/-- The meta tags of a document. -/
def metaTags (entries : List MetaEntry) : Chars := entries.flatMap metaTag

/-- The address of a reference that can be written. -/
def ResourceRef.address? (r : ResourceRef) : Option Chars :=
  if r.kind == .reference then r.url.filter fun u => !Text.isBlankText u else none

/-- The text of a resource that is given by its text. -/
def ResourceRef.text? (r : ResourceRef) : Option Chars :=
  if r.kind == .inline then r.content else none

/-- The tag of a style sheet. -/
def styleTag (r : ResourceRef) : Chars :=
  match r.text?, r.address? with
  | some css, _ => "<style>".runes ++ css ++ "</style>".runes
  | none, some url =>
      "<link rel=\"stylesheet\" ".runes ++ Markup.writeAttribute "href".runes url ++
        " />".runes
  | none, none => []

def styleTags (refs : List ResourceRef) : Chars := refs.flatMap styleTag

/-- The tag of a script. -/
def scriptTag (r : ResourceRef) : Chars :=
  match r.text?, r.address? with
  | some code, _ => "<script>".runes ++ code ++ "</script>".runes
  | none, some url =>
      "<script ".runes ++ Markup.writeAttribute "src".runes url ++ "></script>".runes
  | none, none => []

def scriptTags (refs : List ResourceRef) : Chars := refs.flatMap scriptTag

/-- Whether a reference leads out of the document. -/
def ResourceRef.isExternal (r : ResourceRef) : Bool :=
  r.kind == .reference && Resource.isExternal (r.url.getD [])

/-- A style sheet without resources from outside. -/
def ResourceRef.stripped (r : ResourceRef) : ResourceRef :=
  if r.kind == .inline then { r with content := r.content.map Resource.stripCss } else r

/-- The record of a reference that is dropped. -/
def dropRecord (r : ResourceRef) : Record :=
  ⟨.info, "Dropping external resource reference: ".runes ++ r.url.getD "None".runes⟩

/-- The references that stay when nothing from outside is allowed; style sheets are stripped. -/
def localRefs (areStyles : Bool) (refs : List ResourceRef) : Logged (List ResourceRef) where
  value :=
    (refs.filter fun r => !r.isExternal).map fun r => if areStyles then r.stripped else r
  records := (refs.filter ResourceRef.isExternal).map dropRecord

end Folio.Document
