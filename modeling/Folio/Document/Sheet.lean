import Folio.Document.Bundle
import Folio.Length

/-!
The style sheet of a document: its measures as custom properties of the root, from which the rules
of pages, bands and bodies take them.
-/
namespace Folio.Document

/-- The measures of a document, each as it is written. -/
structure Sheet where
  width : Chars
  height : Chars
  headerHeight : Chars
  footerHeight : Chars
  stroke : Chars
  color : Chars
  top : Chars
  bottom : Chars
  left : Chars
  right : Chars
  /-- Whether the frame around the safe area is shown. -/
  framed : Bool
deriving DecidableEq, Repr

/-- The sides of the sizes that have names. -/
def namedSizes : List (Chars × Chars × Chars) := [
  ("A3", "297mm", "420mm"),
  ("A4", "210mm", "297mm"),
  ("A5", "148mm", "210mm"),
  ("LETTER", "8.5in", "11in"),
  ("LEGAL", "8.5in", "14in"),
  ("TABLOID", "11in", "17in")]

/-- The sides of a page that does not say its size. -/
def standardSides : Chars × Chars := ("210mm".runes, "297mm".runes)

/-- A length, or its default where there is none. -/
def lengthOr (default : Chars) (text : Option Chars) : Chars :=
  (text.bind Length.ofText).getD default

/-- The sides of a page. A name is looked up without regard to case; a side that is not given is
that of the standard size. -/
def PageSize.resolve : PageSize → Chars × Chars
  | .named name =>
      match namedSizes.lookup (Text.upper (Text.trim name)) with
      | some (width, height) => (width, height)
      | none => standardSides
  | .sides width height => (lengthOr standardSides.1 width, lengthOr standardSides.2 height)

/-- The size that a value stands for: two sides, or a name. -/
def PageSize.ofValue (j : Json) : Except Decimal.NumeralError PageSize :=
  if j.isObj then do
    let width ← Length.canonical (j.get "width")
    let height ← Length.canonical (j.get "height")
    return .sides width height
  else .ok (.named (if j.holds then j.display else []))

/-- The measures of a layout. -/
def Layout.sheet (l : Layout) : Sheet where
  width := l.size.resolve.1
  height := l.size.resolve.2
  headerHeight := lengthOr Settings.headerHeight l.headerHeight
  footerHeight := lengthOr Settings.footerHeight l.footerHeight
  stroke := lengthOr Settings.frameStroke (some l.frame.stroke)
  color := l.frame.color
  top := lengthOr ['0'] (some l.frame.top)
  bottom := lengthOr ['0'] (some l.frame.bottom)
  left := lengthOr ['0'] (some l.frame.left)
  right := lengthOr ['0'] (some l.frame.right)
  framed := l.frame.enabled

/-- The custom properties of the root, in groups. -/
def Sheet.properties (s : Sheet) : List (List (Chars × Chars)) := [
  [("--page-width", s.width), ("--page-height", s.height), ("--header-h", s.headerHeight),
    ("--footer-h", s.footerHeight)],
  [("--pad-v", "5mm".runes), ("--pad-h", "10mm".runes)],
  [("--frame-stroke", s.stroke), ("--frame-color", s.color), ("--safe-top-offset", s.top),
    ("--safe-bottom-offset", s.bottom), ("--safe-left-offset", s.left),
    ("--safe-right-offset", s.right)]]

/-- The markers of pages without a band, and the property that each sets to nothing. -/
def markerRules : List (Chars × Chars) :=
  [("no-header", "--header-h"), ("no-footer", "--footer-h")]

/-- The height of a band that is hidden. -/
def hiddenHeight : Chars := "0px".runes

/-- The rules of pages, bands and bodies. -/
def pageRules : List String := [
  "html,body\x7bmargin:0;padding:0;background:#fff;font-family:system-ui,-apple-system,\"Segoe UI\",Roboto,\"Helvetica Neue\",Arial,\"Noto Sans\";\x7d",
  ".document\x7bbackground:#fff;\x7d",
  ".page\x7b",
  "  width:var(--page-width);",
  "  height:var(--page-height);",
  "  margin:0 auto;",
  "  position:relative;",
  "  overflow:hidden;",
  "  box-sizing:border-box;",
  "  page-break-after:always;",
  "  break-after:page;",
  "  background:#fff;",
  "\x7d",
  ".page:last-child\x7bpage-break-after:auto;break-after:auto;\x7d",
  "",
  ".page > header\x7b",
  "  height:var(--header-h);",
  "  padding:0 var(--pad-h);",
  "  display:flex;align-items:center;justify-content:space-between;",
  "  border-bottom:1px solid #e5e7eb;box-sizing:border-box;overflow:hidden;",
  "\x7d",
  ".page > footer\x7b",
  "  height:var(--footer-h);",
  "  padding:0 var(--pad-h);",
  "  display:flex;align-items:center;justify-content:space-between;",
  "  color:#6b7280;font-size:10px;border-top:1px solid #e5e7eb;",
  "  position:absolute;left:0;right:0;bottom:0;box-sizing:border-box;overflow:hidden;",
  "\x7d",
  "",
  ".page > main.body\x7b",
  "  position:absolute;left:0;right:0;",
  "  top:var(--header-h);bottom:var(--footer-h);",
  "  padding:var(--pad-v) var(--pad-h);",
  "  box-sizing:border-box;overflow:hidden;",
  "\x7d"]

/-- The rules of the frame around the safe area. -/
def frameRules : List String := [
  "main.body::before\x7b",
  "  content:\"\";",
  "  position:absolute;",
  "  left:var(--safe-left-offset);",
  "  right:var(--safe-right-offset);",
  "  top:var(--safe-top-offset);",
  "  bottom:var(--safe-bottom-offset);",
  "  box-shadow:inset 0 0 0 var(--frame-stroke) var(--frame-color);",
  "  pointer-events:none;",
  "  box-sizing:border-box;",
  "  z-index:2;",
  "\x7d"]

/-- The rules of the content of a body. -/
def flowRules : List String := [
  ".flow\x7bpadding-bottom:3mm;\x7d",
  ".flow > *\x7bbreak-inside:avoid;\x7d",
  ".forcePageEnd\x7bpage-break-after:always;break-after:page;\x7d",
  "",
  "@media print\x7b"]

/-- The rules of printed pages. -/
def printRules : List String := [
  "  body\x7b-webkit-print-color-adjust:exact;print-color-adjust:exact;\x7d",
  "  .page\x7bbox-shadow:none;margin:0;\x7d",
  "\x7d",
  "</style>"]

/-- A property set to a value. -/
def writeDeclaration (name : Chars) (value : Chars) : Chars :=
  name ++ .of ':' :: value ++ [.of ';']

/-- The lines of the custom properties, an empty line between two groups. -/
def Sheet.propertyLines (s : Sheet) : List Chars :=
  List.intercalate [[]] (s.properties.map fun group =>
    group.map fun p => .of ' ' :: .of ' ' :: writeDeclaration p.1 p.2)

/-- The rule of a marker. -/
def markerLine (rule : Chars × Chars) : Chars :=
  ".page.".runes ++ rule.1 ++ .of '\x7b' :: writeDeclaration rule.2 hiddenHeight ++ [.of '\x7d']

/-- The rules that hide a band. -/
def hidingRules : List String :=
  [".page.no-header > header,", ".page.no-footer > footer\x7bdisplay:none;\x7d", ""]

/-- The rule of the printed page. -/
def Sheet.pageLine (s : Sheet) : Chars :=
  "  @page\x7bsize:".runes ++ s.width ++ .of ' ' :: s.height ++ ";margin:0;\x7d".runes

/-- The lines of the frame's rules, with an empty line before and after them. -/
def Sheet.frameLines (s : Sheet) : List Chars :=
  if s.framed then [] :: frameRules.map String.runes ++ [[]] else [[]]

/-- The lines of the style sheet. -/
def Sheet.lines (s : Sheet) : List Chars :=
  [[], "<style id=\"bundle-layout\">".runes, ":root\x7b".runes] ++ s.propertyLines ++
    ["\x7d".runes, []] ++ pageRules.map String.runes ++ s.frameLines ++
    markerRules.map markerLine ++ hidingRules.map String.runes ++ flowRules.map String.runes ++
    [s.pageLine] ++ printRules.map String.runes

/-- The style sheet in its tag. -/
def Sheet.write (s : Sheet) : Chars := List.intercalate [.of '\n'] s.lines

end Folio.Document
