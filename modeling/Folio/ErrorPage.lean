import Folio.Json.Display
import Folio.Markup.Escape

/-!
The document that is printed when no other can be: it tells what went wrong.
-/
namespace Folio.ErrorPage

/-- The lines before the one with the message. -/
def openingLines : List String := [
  "<!DOCTYPE html>",
  "<html lang=\"en\">",
  "<head>",
  "  <meta charset=\"utf-8\" />",
  "  <title>PDF Error</title>",
  "  <style>",
  "    html, body \x7b height: 100%; margin: 0; font-family: system-ui, -apple-system, \"Segoe UI\", Roboto, Arial, sans-serif; \x7d",
  "    .page \x7b width: 210mm; height: 297mm; padding: 20mm; box-sizing: border-box; \x7d",
  "    h1 \x7b color: #b91c1c; margin: 0 0 12px; \x7d",
  "    p \x7b line-height: 1.5; color: #374151; \x7d",
  "    code \x7b background: #f3f4f6; padding: 2px 6px; border-radius: 4px; white-space: pre-wrap; word-break: break-word; \x7d",
  "    @page \x7b size: A4; margin: 0; \x7d",
  "  </style>",
  "</head>",
  "<body>",
  "  <section class=\"page\">",
  "    <h1>Something went wrong</h1>",
  "    <p>The document could not be generated. Please check the request and try again.</p>"]

/-- What stands before the message on its line. -/
def beforeMessage : String := "    <p><strong>Detail:</strong> <code>"

/-- What stands after the message on its line. -/
def afterMessage : String := "</code></p>"

/-- The lines after the one with the message. -/
def closingLines : List String := [
  "  </section>",
  "</body>",
  "</html>"]

/-- The document around a text that is written into it. -/
def around (written : Chars) : Chars :=
  openingLines.flatMap (fun line => line.runes ++ [.of '\n']) ++ beforeMessage.runes ++ written ++
    afterMessage.runes ++ closingLines.flatMap fun line => .of '\n' :: line.runes

/-- A message of any type, as far as its document depends on it. -/
inductive Message where
  | absent
  | written (text : Chars)
  /-- The text of the value cannot be made; its type has a name. -/
  | unwritable (type : Chars)
deriving DecidableEq, Repr

/-- The text that is shown for a message. -/
def Message.shown : Message → Chars
  | .absent => []
  | .written text => text
  | .unwritable type => type

/-- The message that a value is. -/
def Message.ofJson (value : Json) : Message :=
  if value.isNull then .absent else .written value.display

/-- The document that shows a message. -/
def document (message : Message) : Chars := around (Markup.escape message.shown)

/-- The document that shows a text. -/
def ofText (text : Chars) : Chars := document (.written text)

/-- The document that shows a value. -/
def ofMessage (value : Json) : Chars := document (.ofJson value)

end Folio.ErrorPage
