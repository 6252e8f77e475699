import Folio.Html.Body

/-!
Tags inside a table: row groups, rows and cells are opened and closed as the parts of a table need
it. A tag that is taken again after its phase has changed is reported as such.
-/
namespace Folio.Html.Build

def rowGroupNames : List Chars := ["tbody", "tfoot", "thead"]

/-- The parts of a table, from its caption to its cells. -/
def partNames : List Chars :=
  ["caption", "col", "colgroup", "tbody", "td", "tfoot", "th", "thead", "tr"]

/-- The phase that the open elements call for. -/
def phaseFor (b : Build) : List Nat → Phase
  | [] => .body
  | [_] => .body
  | i :: outer =>
      if b.isHtml ["td", "th"] i then .cell
      else if b.isHtml ["tr"] i then .row
      else if b.isHtml rowGroupNames i then .tableBody
      else if b.isHtml ["caption"] i then .caption
      else if b.isHtml ["colgroup"] i then .columnGroup
      else if b.isHtml ["table"] i then .table
      else b.phaseFor outer

/-- The end tag of a table. -/
def closeTable (b : Build) : Build :=
  if b.inTableScope ["table"] then
    let b := (b.popImplied []).popThrough ["table"]
    { b with phase := b.phaseFor b.opened }
  else b

/-- An end tag directly inside a table; one that does not belong there acts on what is put before
the table. -/
def tableEnd (b : Build) (name : Chars) : Build :=
  if name == "table" then b.closeTable
  else if partNames.contains name then b
  else { { b with fostering := true }.bodyEnd name with fostering := false }

/-- The end of a caption. -/
def closeCaption (b : Build) : Build :=
  { ((b.popImplied []).popThrough ["caption"]).dropMark with phase := .table }

/-- The end of a group of columns. -/
def closeColumns (b : Build) : Build := { b.pop with phase := .table }

/-- Whether the innermost open element is the root. -/
def atRoot (b : Build) : Bool := b.hasName ["html"] b.current

/-- The end of a group of rows. -/
def closeRowGroup (b : Build) : Build := { (b.popTo rowGroupNames).pop with phase := .table }

/-- The end of a row. -/
def closeRow (b : Build) : Build := { (b.popTo ["tr"]).pop with phase := .tableBody }

/-- The end of a cell of the given name. -/
def closeCell (b : Build) (name : Chars) : Build :=
  { ((b.popImplied name).popThrough [name]).dropMark with phase := .row }

/-- The end of the cell in scope. -/
def closeAnyCell (b : Build) : Build :=
  if b.inTableScope ["td"] then b.closeCell "td"
  else if b.inTableScope ["th"] then b.closeCell "th"
  else b

/-- An end tag by the rules of the phase, and whether it is to be taken again. -/
def phaseEnd (b : Build) (name : Chars) : Build × Bool :=
  let ignored := partNames.contains name
  match b.phase with
  | .body => (b.bodyEnd name, false)
  | .table => (b.tableEnd name, false)
  | .caption =>
      if name == "caption" || name == "table" then
        if b.inTableScope ["caption"] then (b.closeCaption, name == "table") else (b, false)
      else if ignored then (b, false)
      else (b.bodyEnd name, false)
  | .columnGroup =>
      if name == "col" || b.atRoot then (b, false) else (b.closeColumns, name != "colgroup")
  | .tableBody =>
      if rowGroupNames.contains name then
        (if b.inTableScope [name] then b.closeRowGroup else b, false)
      else if name == "table" then
        if b.inTableScope rowGroupNames then (b.closeRowGroup, true) else (b, false)
      else (b.tableEnd name, false)
  | .row =>
      if name == "tr" || name == "table" then
        if b.inTableScope ["tr"] then (b.closeRow, name == "table") else (b, false)
      else if rowGroupNames.contains name then
        if b.inTableScope [name] then
          (if b.inTableScope ["tr"] then b.closeRow else b, true)
        else (b, false)
      else (b.tableEnd name, false)
  | .cell =>
      if name == "td" || name == "th" then
        (if b.inTableScope [name] then b.closeCell name else b, false)
      else if name == "table" || name == "tr" || rowGroupNames.contains name then
        if b.inTableScope [name] then (b.closeAnyCell, true) else (b, false)
      else if ignored then (b, false)
      else (b.bodyEnd name, false)

/-- An end tag that comes from a start tag. -/
def endTag (b : Build) (name : Chars) : Build := (b.phaseEnd name).1

/-- Opens a part of a table after closing what is open up to one of the given elements. -/
def openPart (b : Build) (upTo : List Chars) (tag : Tag) (phase : Phase) : Build :=
  { (b.popTo upTo).insertTag tag with phase := phase }

/-- A tag that nobody wrote. -/
def impliedTag (name : Chars) : Tag := ⟨name, [], false⟩

/-- A start tag directly inside a table. -/
def tableStart (b : Build) (tag : Tag) : Build × Bool :=
  let name := tag.name
  if name == "caption" then (b.addMark.openPart ["table"] tag .caption, false)
  else if name == "colgroup" then (b.openPart ["table"] tag .columnGroup, false)
  else if name == "col" then (b.openPart ["table"] (impliedTag "colgroup") .columnGroup, true)
  else if rowGroupNames.contains name then (b.openPart ["table"] tag .tableBody, false)
  else if (["td", "th", "tr"] : List Chars).contains name then
    (b.openPart ["table"] (impliedTag "tbody") .tableBody, true)
  else if name == "table" then (b.endTag tag.name, false)
  else ({ { b with fostering := true }.bodyStart endTag tag with fostering := false }, false)

/-- A start tag by the rules of the phase, and whether it is to be taken again. -/
def phaseStart (b : Build) (tag : Tag) : Build × Bool :=
  let name := tag.name
  let isPart := partNames.contains name
  match b.phase with
  | .body => (b.bodyStart endTag tag, false)
  | .table => b.tableStart tag
  | .caption =>
      if isPart then
        if b.inTableScope ["caption"] then (b.closeCaption, true) else (b, false)
      else (b.bodyStart endTag tag, false)
  | .columnGroup =>
      if name == "col" then ((b.insertTag tag).pop, false)
      else if b.atRoot then (b, false)
      else (b.closeColumns, true)
  | .tableBody =>
      if name == "tr" then (b.openPart rowGroupNames tag .row, false)
      else if name == "td" || name == "th" then
        (b.openPart rowGroupNames (impliedTag "tr") .row, true)
      else if isPart then
        if b.inTableScope rowGroupNames then (b.closeRowGroup, true) else (b, false)
      else b.tableStart tag
  | .row =>
      if name == "td" || name == "th" then ((b.openPart ["tr"] tag .cell).addMark, false)
      else if isPart then
        if b.inTableScope ["tr"] then (b.closeRow, true) else (b, false)
      else b.tableStart tag
  | .cell =>
      if isPart then
        if b.inTableScope ["td", "th"] then (b.closeAnyCell, true) else (b, false)
      else (b.bodyStart endTag tag, false)

end Folio.Html.Build
