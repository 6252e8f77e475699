import Folio.Paginate.Script
import Folio.Print.Session
import Folio.Settings

/-!
Printing a document: it is loaded into a browser, which waits for the fonts and, if asked, for the
pages to be laid out, and prints. The browser is closed in any case.
-/
namespace Folio.Print

/-- A document that was printed, with the number of its pages if that is known. -/
structure Rendered where
  pdf : Chars
  pageCount : Option Int
deriving DecidableEq, Repr

/-- What is printed, and how. -/
structure Job where
  html : Chars
  options : Options
  /-- The markup was made from a bundle. -/
  fromBundle : Bool
  /-- The pages are laid out by the document itself. -/
  waits : Bool

/-- The number of pages that a document tells, if it tells any. -/
def readCount : Option Chars → Session (Option Int)
  | none => .done none
  | some text =>
      if text.isEmpty then .done none
      else match Decimal.readWhole text with
        | .ok n => .done (some n)
        | .error e => .fail (.numeral e)

/-- Waits for the pages to be laid out; yields their number. -/
def awaitPages (settings : Settings) (b : Browser) : Session (Option Int) := do
  Session.take b (.wait Paginate.completionExpression settings.paginationTimeout) ()
  let state ← Session.take b (.state Paginate.stateExpression) b.state
  if state != some "true".runes then Session.fail .notLaidOut
  else
    let count ← Session.take b (.count Paginate.countExpression) b.count
    readCount count

/-- The record of fonts that cannot be waited for. -/
def fontsRecord (message : Chars) : Record :=
  ⟨.debug, "document.fonts.ready unavailable: ".runes ++ message⟩

/-- The state of a document of which nothing is loading any more. -/
def idle : Chars := "networkidle".runes

/-- Waits for the fonts, where there are any, so that measures are those of the printed glyphs. -/
def fontsExpression : Chars :=
  "async () => \x7b if (document.fonts && document.fonts.ready) ".runes ++
    "\x7b await document.fonts.ready; \x7d \x7d".runes

/-- The session between launching the browser and closing it. -/
def printSession (settings : Settings) (b : Browser) (job : Job) : Session Rendered := do
  Session.take b .newPage ()
  Session.take b (.setTimeout settings.renderTimeout) ()
  Session.take b (.setContent job.html idle) ()
  Session.attempt b (.fonts fontsExpression) fontsRecord
  let pageCount ← if job.waits then awaitPages settings b else Session.done none
  let pdf ← Session.take b (.print (job.options.arguments job.fromBundle)) b.pdf
  return ⟨pdf, pageCount⟩

/-- The whole session. -/
def session (settings : Settings) (b : Browser) (job : Job) : Session Rendered := do
  Session.take b (.launch settings.browserArguments) ()
  Session.closing b (printSession settings b job)

def countText : Option Int → Chars
  | none => "None".runes
  | some n => (toString n).runes



/-- Packs a document. What cannot be packed stays as it is. -/
def compress (b : Browser) (pdf : Chars) : Logged Chars :=
  match b.pack pdf with
  | .ok packed =>
      ⟨packed, [⟨.info, "PDF compressed: ".runes ++ Text.decimal pdf.length ++ " bytes -> ".runes ++
        Text.decimal packed.length ++ " bytes".runes⟩]⟩
  | .error message =>
      ⟨pdf, [⟨.warning, "PDF compression failed, returning original PDF: ".runes ++ message⟩]⟩

/-- The record of a document that was printed. -/
def renderedRecord (r : Rendered) : Record :=
  ⟨.info, "Successfully rendered PDF: ".runes ++ Text.decimal r.pdf.length ++
    " bytes, page boxes: ".runes ++ countText r.pageCount⟩

/-- What is recorded of a failure: nothing when it was only found that the pages were not laid
out. -/
def failureRecords (e : RenderError) : List Record :=
  if e = .notLaidOut then [] else [⟨.error, "Failed to render PDF: ".runes ++ e.message⟩]

/-- The printed document as the options ask for it. -/
def finish (b : Browser) (options : Options) (r : Rendered) : Logged Rendered :=
  let packed := if options.compresses then compress b r.pdf else .quiet r.pdf
  let r := { r with pdf := packed.value }
  ⟨r, packed.records ++ [renderedRecord r]⟩

/-- Prints a document. -/
def render (settings : Settings) (b : Browser) (job : Job) : Session Rendered :=
  let s := session settings b job
  match s.outcome with
  | .error e => ⟨s.steps, s.records ++ failureRecords e, .error e⟩
  | .ok r =>
      let finished := finish b job.options r
      ⟨s.steps, s.records ++ finished.records, .ok finished.value⟩

end Folio.Print
