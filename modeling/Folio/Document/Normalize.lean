import Folio.Document.Bundle
import Folio.Length

/-!
From a value that was sent to a bundle. What is missing or of the wrong kind takes its default; a
title, a list of pages, and a page with a body have to be there.
-/
namespace Folio.Document

open Decimal (NumeralError)

/-- Why a value is no bundle. -/
inductive StructureError where
  | notAnObject
  | missingTitle
  | pagesNotAList
  | noPages
  /-- A request has neither markup nor a bundle. -/
  | nothingToPrint
deriving DecidableEq, Repr

def StructureError.message : StructureError → Chars
  | .notAnObject => "pdfDocumentBundle must be an object".runes
  | .missingTitle => "head.title is required".runes
  | .pagesNotAList => "body.pages must be a list".runes
  | .noPages => "no valid pages to render (all pages are missing a body)".runes
  | .nothingToPrint =>
      "Either \"html\", \"htmlContent\", or \"pdfDocumentBundle\" must be provided".runes

/-- Why a value cannot be made a bundle. -/
inductive NormalizeError where
  | structural (e : StructureError)
  /-- A length is no number that can be kept. -/
  | numeral (e : NumeralError)
deriving DecidableEq, Repr

/-- A length as it is kept. -/
def readLength (j : Json) : Except NormalizeError (Option Chars) :=
  (Length.stored j).mapError .numeral

/-- A length with a default. -/
def readLengthOr (default : Chars) (j : Json) : Except NormalizeError Chars :=
  (readLength j).map fun s => s.getD default

/-- The text of a string value. -/
def text? (j : Json) : Option Chars := j.str?

/-- The display text of a value that says something, or nothing. -/
def said (j : Json) : Chars := if j.holds then j.display else []

/-- The words that declare a reference by its address. -/
def referenceWords : List Chars :=
  ["src", "url", "reference", "link", "href"].map String.runes

/-- A style sheet or script. Without a declared kind, what is there decides; a value that gives
nothing to go by is none. -/
def ResourceRef.read (raw : Json) : Option ResourceRef :=
  if !raw.isObj then none
  else
    let content := text? (raw.get "content")
    let url := text? (raw.get "url")
    let word := if (raw.get "type").holds then raw.get "type" else raw.get "kind"
    let declared := Text.lower (Text.trim (said word))
    if declared == "inline".runes then some ⟨.inline, content, url⟩
    else if referenceWords.contains declared then some ⟨.reference, content, url⟩
    else if content.isSome then some ⟨.inline, content, url⟩
    else if url.isSome then some ⟨.reference, content, url⟩
    else none

/-- The style sheets or scripts of a list that can be used. -/
def readRefs (raw : Json) : List ResourceRef := (raw.arr?.getD []).filterMap ResourceRef.read

/-- The size of a page: two sides, or a name. -/
def PageSize.read (raw : Json) : Except NormalizeError PageSize :=
  if raw.isObj then do
    let width ← readLength (raw.get "width")
    let height ← readLength (raw.get "height")
    return .sides width height
  else if raw.isNull || (text? raw).any Text.isBlankText then
    .ok (.named Settings.pageSize)
  else .ok (.named (Text.trim raw.display))

/-- A colour without blanks and semicolons at its end. -/
def readColor (raw : Json) : Chars :=
  let s := Text.trim (Text.dropEnd (· == .of ';') (Text.trim (said raw)))
  if s.isEmpty then Settings.frameColor else s

def SafeFrame.read (raw : Json) : Except NormalizeError SafeFrame := do
  let stroke ← readLengthOr Settings.frameStroke (raw.get "stroke")
  let top ← readLengthOr ['0'] (raw.get "topOffset")
  let bottom ← readLengthOr ['0'] (raw.get "bottomOffset")
  let left ← readLengthOr ['0'] (raw.get "leftOffset")
  let right ← readLengthOr ['0'] (raw.get "rightOffset")
  return {
    enabled := !(raw.get "enabled").isFalse
    color := readColor (raw.get "color")
    stroke, top, bottom, left, right }

def Layout.read (raw : Json) : Except NormalizeError Layout := do
  let page := raw.get "page"
  let size ← PageSize.read (page.get "size")
  let headerHeight ← readLength (page.get "headerHeight")
  let footerHeight ← readLength (page.get "footerHeight")
  let frame ← SafeFrame.read (raw.get "safeFrame")
  return {
    paginates := !(raw.get "useBuiltInPaginator").isFalse
    size, headerHeight, footerHeight, frame }

/-- Whether a value is a page with a body. -/
def hasBody (raw : Json) : Bool :=
  (text? (raw.get "body")).any fun body => !Text.isBlankText body

/-- A page; `raw` has a body. -/
def Page.read (raw : Json) : Except NormalizeError Page := do
  let about := raw.get "section"
  let options := raw.get "options"
  let title := about.get "dataTitle"
  let headerHeight ← readLength (raw.get "headerHeight")
  let footerHeight ← readLength (raw.get "footerHeight")
  return {
    body := (text? (raw.get "body")).getD []
    sectionClass := Text.trim (said (about.get "class"))
    title := if title.isNull then none else some title.display
    header := text? (raw.get "header")
    footer := text? (raw.get "footer")
    showsHeader := !(options.get "showHeader").isFalse
    showsFooter := !(options.get "showFooter").isFalse
    headerHeight, footerHeight }

def Security.read (raw : Json) : Security :=
  ⟨(raw.get "sanitizeHtml").isTrue, !(raw.get "allowExternalResources").isFalse⟩

/-- The bundle that a value stands for. -/
def Bundle.read (data : Json) : Except NormalizeError Bundle := do
  if !data.isObj then throw (.structural .notAnObject)
  let head := data.get "head"
  let title := head.get "title"
  if title.isNull || Text.isBlankText title.display then throw (.structural .missingTitle)
  let body := data.get "body"
  let some raw := (body.get "pages").arr? | throw (.structural .pagesNotAList)
  let pages ← (raw.filter hasBody).mapM Page.read
  if pages.isEmpty then throw (.structural .noPages)
  let layout ← Layout.read (data.get "layout")
  return {
    title := title.display
    metaEntries := (((head.get "meta").arr?.getD []).filter Json.isObj).map Json.entries
    styles := readRefs (head.get "styles")
    security := Security.read (data.get "security")
    header := (text? (data.get "header")).getD []
    footer := (text? (data.get "footer")).getD []
    scripts := readRefs (data.get "scripts")
    documentClass := Text.trim (said ((body.get "document").get "class"))
    pages, layout }

end Folio.Document
