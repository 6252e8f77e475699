import Folio.Document.Assembly
import Folio.Document.Head
import Folio.Document.Normalize
import Folio.Paginate.Script

/-!
The document of a bundle, in one text. The style sheet of the layout comes before those of the
author, which may change it; the author's scripts come after the one that lays out the pages.
-/
namespace Folio.Document

open Markup (MarkupError)

/-- The style sheets that the security of a bundle lets through. -/
def Bundle.keptStyles (b : Bundle) : Logged (List ResourceRef) :=
  if b.security.allowsExternal then .quiet b.styles else localRefs true b.styles

/-- The scripts that the security of a bundle lets through. -/
def Bundle.keptScripts (b : Bundle) : Logged (List ResourceRef) :=
  if b.security.allowsExternal then .quiet b.scripts else localRefs false b.scripts

/-- The classes of the element around all pages. -/
def Bundle.classText (b : Bundle) : Chars :=
  Text.spaced (["document".runes, b.documentClass].filter fun c => !c.isEmpty)

/-- The head of a document. -/
def writeHead (b : Bundle) (styles : List ResourceRef) : Chars :=
  "<head><meta charset=\"utf-8\" />".runes ++
    "<meta name=\"viewport\" content=\"width=device-width,initial-scale=1\" />".runes ++
    "<title>".runes ++ Markup.escape b.title ++ "</title>".runes ++ metaTags b.metaEntries ++
    b.layout.sheet.write ++ styleTags styles ++ "</head>".runes

/-- The body of a document around its sections. -/
def writeBody (b : Bundle) (sections : Chars) (scripts : List ResourceRef) : Chars :=
  "<body><div ".runes ++ Markup.writeAttribute "class".runes b.classText ++ .of '>' :: sections ++
    "</div>".runes ++ (if b.layout.paginates then Paginate.scriptTag else []) ++
    scriptTags scripts ++ "</body>".runes

/-- A document with the given style sheets, sections and scripts. -/
def writeDocument (b : Bundle) (styles : List ResourceRef) (sections : Chars)
    (scripts : List ResourceRef) : Chars :=
  "<!DOCTYPE html><html lang=\"en\">".runes ++ writeHead b styles ++
    writeBody b sections scripts ++ "</html>".runes

/-- The document of a bundle. -/
def Bundle.compile (b : Bundle) : Recorded MarkupError Chars :=
  b.keptStyles.andThen fun styles =>
    b.keptScripts.andThen fun scripts =>
      (assemblePages b).map fun r => r.map fun sections =>
        writeDocument b styles sections scripts

/-- Why a value is not made a document. -/
inductive CompileError where
  | normalize (e : NormalizeError)
  | markup (e : MarkupError)
deriving DecidableEq, Repr

/-- The wording of an error. -/
def CompileError.message : CompileError → Chars
  | .normalize (.structural e) => e.message
  | .normalize (.numeral e) => e.message
  | .markup e => e.message

/-- The record of a document that is finished. -/
def compiledRecord (b : Bundle) (html : Chars) : Record :=
  ⟨.info, "Compiled bundle '".runes ++ b.title ++ "': ".runes ++ pageCountText b ++
    ", paginator=".runes ++ (if b.layout.paginates then "on" else "off").runes ++
    ", ".runes ++ Text.decimal html.length ++ " chars".runes⟩

/-- The document of a value that was sent. -/
def compile (data : Json) : Recorded CompileError Chars :=
  match Bundle.read data with
  | .error e => .quiet (.error (.normalize e))
  | .ok b =>
      b.compile.andThen fun
        | .error e => .quiet (.error (.markup e))
        | .ok html => ⟨.ok html, [compiledRecord b html]⟩

end Folio.Document
