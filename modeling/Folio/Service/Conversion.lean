import Folio.Document.Compile
import Folio.ErrorPage
import Folio.Print.Render
import Folio.Service.Payload

/-!
Conversions: the markup of a request is printed, and if anything goes wrong with that, a document
that tells what went wrong. Each print launches a browser of its own.
-/
namespace Folio.Service

open Decimal (NumeralError)
open Document (CompileError)

/-- Markup to be printed. -/
structure Markup where
  html : Chars
  fromBundle : Bool
  waits : Bool

/-- Why a conversion failed. -/
inductive ConversionError where
  | compile (e : CompileError)
  | options (e : NumeralError)
  | render (e : Print.RenderError)
deriving DecidableEq, Repr

def ConversionError.message : ConversionError → Chars
  | .compile e => e.message
  | .options e => e.message
  | .render e => e.message

/-- A request without anything to print. -/
def nothingToPrint : ConversionError := .compile (.normalize (.structural .nothingToPrint))

/-- The text that a request names, if it is not empty; the second one only if the first is. -/
def ConversionRequest.text (r : ConversionRequest) : Chars :=
  match r.html.getD [] with
  | [] => r.htmlContent.getD []
  | html => html

/-- The markup that a request asks to be printed: its bundle before its texts. -/
def ConversionRequest.markup (r : ConversionRequest) : Recorded ConversionError Markup :=
  match r.bundle with
  | some entries =>
      match Document.Bundle.read (.obj entries) with
      | .error e => .quiet (.error (.compile (.normalize e)))
      | .ok b =>
          b.compile.map fun
            | .error e => .error (.compile (.markup e))
            | .ok html => .ok ⟨html, true, b.layout.paginates⟩
  | none =>
      if Text.isBlankText r.text then .quiet (.error nothingToPrint)
      else .quiet (.ok ⟨r.text, false, false⟩)

/-- What a request asks to be printed, with its options. -/
def ConversionRequest.job (r : ConversionRequest) : Recorded ConversionError Print.Job :=
  r.markup.andThen fun
    | .error e => .quiet (.error e)
    | .ok m =>
        (Print.Options.read r.options).map fun
          | .error e => .error (.options e)
          | .ok options => .ok ⟨m.html, options, m.fromBundle, m.waits⟩

/-- What was done on the way to a value, and the browsers that were not launched. -/
structure Work (α : Type) where
  value : α
  steps : List Print.Step
  records : List Record
  browsers : List Print.Browser

/-- The browser that is launched next; one of which nothing special is said if there is no other. -/
def nextBrowser (browsers : List Print.Browser) : Print.Browser :=
  browsers.headD Print.Browser.standard

/-- Prints a job in the next browser. -/
def printNext (settings : Settings) (browsers : List Print.Browser) (job : Print.Job) :
    Work (Except Print.RenderError Print.Rendered) :=
  let s := Print.render settings (nextBrowser browsers) job
  ⟨s.outcome, s.steps, s.records, browsers.drop 1⟩

/-- The first attempt: what the request asks for. -/
def attempt (settings : Settings) (browsers : List Print.Browser) (r : ConversionRequest) :
    Work (Except ConversionError Print.Rendered) :=
  match r.job with
  | ⟨.error e, records⟩ => ⟨.error e, [], records, browsers⟩
  | ⟨.ok job, records⟩ =>
      let w := printNext settings browsers job
      ⟨w.value.mapError .render, w.steps, records ++ w.records, w.browsers⟩

/-- A message, or another text in the place of an empty one. -/
def orElseText (message : Chars) (other : Chars) : Chars :=
  if message.isEmpty then other else message

/-- The document that tells of a failed conversion. -/
def failureDocument (message : Chars) : Chars :=
  ErrorPage.ofText ("PDF generation failed: ".runes ++ message ++
    "\n\nPlease check your input and try again.".runes)

/-- The print of that document. -/
def failureJob (message : Chars) : Print.Job :=
  ⟨failureDocument message, { Print.Options.standard with format := some (.str "A4") }, false,
    false⟩

/-- How a conversion ends. -/
inductive Conversion where
  | printed (pdf : Chars)
  /-- A document that tells what went wrong. -/
  | explained (pdf : Chars)
  /-- Not even that document could be printed. -/
  | failed (message fallbackMessage : Chars)

def printedRecord (pdf : Chars) : Record :=
  ⟨.info, "PDF generated successfully. Size: ".runes ++ Text.decimal pdf.length ++
    " bytes".runes⟩

def failedRecord (message : Chars) : Record := ⟨.error, "Error generating PDF: ".runes ++ message⟩

def fallbackRecord (message : Chars) : Record := ⟨.error, "Fallback PDF failed: ".runes ++ message⟩

/-- Prints what the request asks for, or else a document that tells why not. -/
def convert (settings : Settings) (browsers : List Print.Browser) (r : ConversionRequest) :
    Work Conversion :=
  let first := attempt settings browsers r
  match first.value with
  | .ok rendered =>
      ⟨.printed rendered.pdf, first.steps, first.records ++ [printedRecord rendered.pdf],
        first.browsers⟩
  | .error e =>
      let message := orElseText e.message "An unknown error occurred"
      let second := printNext settings first.browsers (failureJob message)
      let steps := first.steps ++ second.steps
      let records := first.records ++ failedRecord message :: second.records
      match second.value with
      | .ok rendered => ⟨.explained rendered.pdf, steps, records, second.browsers⟩
      | .error f =>
          ⟨.failed message (orElseText f.message "Unknown fallback error"), steps,
            records ++ [fallbackRecord f.message], second.browsers⟩

/-- The time, as it is written into a file name and into a message. -/
structure Stamp where
  inName : Chars
  inMessage : Chars

/-- A response with a printed document. -/
def pdfResponse (pdf : Chars) (fileName : Chars) : Response :=
  (Response.bytes 200 "application/pdf" pdf).withHeaders [
    ("content-disposition".runes, "attachment; filename=\"".runes ++ fileName ++ [.of '"']),
    ("cache-control".runes, "no-store".runes),
    ("x-content-type-options".runes, "nosniff".runes)]

/-- The response of a conversion. -/
def Conversion.response (stamp : Stamp) : Conversion → Response
  | .printed pdf =>
      pdfResponse pdf (Settings.filePrefix ++ .of '-' :: stamp.inName ++ ".pdf".runes)
  | .explained pdf =>
      (pdfResponse pdf Settings.errorFile).withHeaders [("x-error".runes, "true".runes)]
  | .failed message fallbackMessage =>
      .json 500 (.obj [("success", .bool false), ("error", .obj [
        ("message", .str "PDF generation failed and fallback also failed"),
        ("originalError", .str message),
        ("fallbackError", .str fallbackMessage),
        ("timestamp", .str stamp.inMessage)])])

end Folio.Service
