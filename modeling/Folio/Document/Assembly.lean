import Folio.Document.Section
import Folio.Resource.Fragment
import Folio.Sanitize.Fragment

/-!
The sections of a document: each page's header, body and footer, wrapped and cleaned as the bundle
asks for.
-/
namespace Folio.Document

open Markup (MarkupError)

/-- A fragment as the security of the bundle asks for: first without resources from outside, then
sanitized. -/
def Security.clean (s : Security) (fragment : Chars) : Except MarkupError (Logged Chars) :=
  (if s.allowsExternal then .ok fragment else Resource.stripFragment fragment).map fun f =>
    if s.sanitizes then Sanitize.sanitize .ready f else .quiet f

/-- The content of a band: that of the page, or else that of the document. -/
def bandContent (own : Option Chars) (shared : Chars) : Option Chars :=
  match own.filter fun s => !Text.isBlankText s with
  | some s => some s
  | none => if Text.isBlankText shared then none else some shared

/-- A band with its content; without content it is an empty element. -/
def bandPart (band : Band) (own : Option Chars) (shared : Chars) : Except MarkupError Chars :=
  match bandContent own shared with
  | some s => wrapBand band s
  | none => .ok (enclose band.name [] [])

/-- A part of a page, wrapped and cleaned. -/
def cleanPart (s : Security) (part : Except MarkupError Chars) : Recorded MarkupError Chars :=
  match part.bind s.clean with
  | .ok x => x.map .ok
  | .error e => .quiet (.error e)

/-- The texts of some parts joined, up to the first that fails. -/
def joinParts : List (Recorded MarkupError Chars) → Recorded MarkupError Chars
  | [] => .quiet (.ok [])
  | part :: rest =>
      part.andThen fun
        | .error e => .quiet (.error e)
        | .ok s => (joinParts rest).map fun r => r.map (s ++ ·)

/-- The parts of a page: its header if it is shown, its body, its footer if it is shown. -/
def pageParts (b : Bundle) (p : Page) : List (Recorded MarkupError Chars) :=
  let part := cleanPart b.security
  (if p.showsHeader then [part (bandPart .header p.header b.header)] else []) ++
    [part (wrapBody p.body)] ++
    (if p.showsFooter then [part (bandPart .footer p.footer b.footer)] else [])

/-- The section around the parts of a page. -/
def writeSection (p : Page) (content : Chars) : Chars :=
  enclose "section".runes (.of ' ' :: p.sectionTag.write) content

/-- The section of a page. -/
def assemblePage (b : Bundle) (p : Page) : Recorded MarkupError Chars :=
  (joinParts (pageParts b p)).map fun r => r.map (writeSection p)

/-- The number of pages, as it is recorded. -/
def pageCountText (b : Bundle) : Chars := Text.decimal b.pages.length ++ " page(s)".runes

/-- The sections of all pages. -/
def assemblePages (b : Bundle) : Recorded MarkupError Chars :=
  let start : Logged Unit := ⟨(), [⟨.debug, "Assembling ".runes ++ pageCountText b⟩]⟩
  start.andThen fun _ => joinParts (b.pages.map (assemblePage b))

end Folio.Document
