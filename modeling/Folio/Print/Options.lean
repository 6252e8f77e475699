import Folio.Entries
import Folio.Json.Display
import Folio.Decimal.Numeral
import Folio.Log

/-!
The options of printing: as a request names them, as they are kept, and as the browser takes them.
Some keys of a request set a field, some are handed on under the browser's own name, and any other
is ignored with a warning.
-/
namespace Folio.Print

open Decimal (NumeralError Binary64)

/-- The options of a print. -/
structure Options where
  format : Option Json
  landscape : Bool
  scale : Binary64
  margin : Option (List (Chars × Json))
  printsBackground : Bool
  prefersSheetSize : Option Json
  compresses : Bool
  /-- Options that are handed on, under the browser's names. -/
  extra : List (Chars × Json)

/-- The keys that set a field. -/
def fieldKeys : List Chars :=
  ["margin", "format", "landscape", "scale", "printBackground", "preferCSSPageSize", "compress"]

/-- The keys that are handed on, with the browser's names for them. -/
def passedKeys : List (Chars × Chars) := [
  ("pageRanges", "page_ranges"),
  ("displayHeaderFooter", "display_header_footer"),
  ("headerTemplate", "header_template"),
  ("footerTemplate", "footer_template"),
  ("width", "width"),
  ("height", "height"),
  ("outline", "outline"),
  ("tagged", "tagged")]

/-- What a key of a request is. -/
inductive KeyKind where
  | field
  /-- Handed on under another name. -/
  | passed (name : Chars)
  | unsupported
deriving DecidableEq, Repr

def KeyKind.ofKey (key : Chars) : KeyKind :=
  if fieldKeys.contains key then .field
  else match passedKeys.lookup key with
    | some name => .passed name
    | none => .unsupported

/-- A scale as a number: texts are read, and an absent or empty value is one. -/
def readScale (j : Json) : Except NumeralError Binary64 :=
  if !j.holds then .ok (.ofInt 1)
  else match j with
    | .int n =>
        let x := Binary64.ofInt n
        if x.isFinite then .ok x else .error .tooLarge
    | .real x => .ok x
    | .str s => Decimal.readNumber s
    | .arr _ => .error (.wrongKind "list")
    | .obj _ => .error (.wrongKind "dict")
    | _ => .ok (.ofInt 1)

/-- A value, if it says something. -/
def holding? (j : Json) : Option Json := if j.holds then some j else none

/-- A value, if it is not `null`. -/
def present? (j : Json) : Option Json := if j.isNull then none else some j

namespace Options

/-- The options of a request that names none. -/
def standard : Options where
  format := none
  landscape := false
  scale := .ofInt 1
  margin := none
  printsBackground := true
  prefersSheetSize := none
  compresses := false
  extra := []

/-- The entries that are handed on: values other than `null`, under the browser's names. -/
def passed (raw : List (Chars × Json)) : List (Chars × Json) :=
  raw.filterMap fun (key, value) =>
    match KeyKind.ofKey key with
    | .passed name => (present? value).map fun v => (name, v)
    | _ => none

/-- The keys that are ignored. -/
def ignored (raw : List (Chars × Json)) : List Chars :=
  (raw.map Prod.fst).filter fun key => KeyKind.ofKey key == .unsupported

theorem mem_ignored {raw : List (Chars × Json)} {key : Chars} :
    key ∈ ignored raw ↔ key ∈ raw.map Prod.fst ∧ KeyKind.ofKey key = .unsupported := by
  simp [ignored]

/-- The warning about ignored keys, which are named in order. -/
def warning (keys : List Chars) : Record :=
  ⟨.warning, "Ignoring unsupported pdfOptions: ".runes ++
    List.intercalate [.of ',', .of ' '] (keys.mergeSort fun a b => decide (a ≤ b))⟩

/-- The options that the entries of a request make. -/
def read (raw : List (Chars × Json)) : Recorded NumeralError Options :=
  let value := fun key => (Json.obj raw).get key
  match readScale (value "scale") with
  | .error e => .quiet (.error e)
  | .ok scale =>
      let keys := ignored raw
      ⟨.ok {
          format := holding? (value "format")
          landscape := (value "landscape").holds
          scale
          margin := if (value "margin").isObj then some (value "margin").entries else none
          printsBackground := !(value "printBackground").isFalse
          prefersSheetSize := present? (value "preferCSSPageSize")
          compresses := (value "compress").holds
          extra := passed raw },
        if keys.isEmpty then [] else [warning keys]⟩

/-- The same margin at all four sides. -/
def evenMargin (width : Chars) : List (Chars × Json) :=
  (["top", "right", "bottom", "left"] : List Chars).map fun side => (side, .str width)

/-- The margin of a document that names none: a bundle keeps its own bands and gets none, other
markup gets a centimetre. -/
def standardMargin (fromBundle : Bool) : List (Chars × Json) :=
  evenMargin (if fromBundle then "0" else "1cm")

/-- The format: the one that is named; A4 for markup of its own without any size. -/
def formatFor (o : Options) (fromBundle : Bool) : Option Json :=
  match o.format.bind holding? with
  | some format => some format
  | none =>
      if !fromBundle && (o.extra.lookup "width".runes).isNone &&
          (o.extra.lookup "height".runes).isNone then
        some (.str "A4")
      else none

/-- The browser's arguments that come from the fields. -/
def fieldArguments (o : Options) (fromBundle : Bool) : List (Chars × Json) :=
  [("print_background".runes, .bool o.printsBackground), ("landscape".runes, .bool o.landscape),
    ("scale".runes, .real o.scale),
    ("prefer_css_page_size".runes,
      .bool ((o.prefersSheetSize.map Json.holds).getD fromBundle)),
    ("margin".runes, .obj (match o.margin with
      | some (side :: sides) => side :: sides
      | _ => standardMargin fromBundle))] ++
  match o.formatFor fromBundle with
  | some format => [("format".runes, format)]
  | none => []

/-- The browser's arguments: those from the fields, and over them those that are handed on. -/
def arguments (o : Options) (fromBundle : Bool) : List (Chars × Json) :=
  o.extra.foldl (fun done e => Entries.put e.1 e.2 done) (o.fieldArguments fromBundle)

end Options

example : KeyKind.ofKey "pageRanges" = .passed "page_ranges" := by decide
example : KeyKind.ofKey "page_ranges" = .unsupported := by decide

end Folio.Print
