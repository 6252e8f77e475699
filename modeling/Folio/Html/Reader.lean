import Folio.Html.Table

/-!
From tokens to the tree: each token is taken by the rules of its phase, or by those of drawings if
the innermost open element belongs to one.
-/
namespace Folio.Html

namespace Build

/-- The elements that end a drawing. -/
def breakoutNames : List Chars := List.map String.runes [
  "b", "big", "blockquote", "body", "br", "center", "code", "dd", "div", "dl", "dt", "em",
  "embed", "h1", "h2", "h3", "h4", "h5", "h6", "head", "hr", "i", "img", "li", "listing", "menu",
  "meta", "nobr", "ol", "p", "pre", "ruby", "s", "small", "span", "strong", "strike", "sub", "sup",
  "table", "tt", "u", "ul", "var"]

/-- An end tag inside a drawing: it closes the innermost element of its name in the drawing, or is
taken as outside of drawings. -/
def drawingEnd (b : Build) (name : Chars) : Build × Bool :=
  match b.opened.dropWhile fun i => (b.item i).drawing && Text.lowerAscii (b.name i) != name with
  | [] => (b, false)
  | i :: _ =>
      if (b.item i).drawing then ((b.popWhile fun j => j != i).pop, false) else b.phaseEnd name

/-- A token inside a drawing, and whether it is to be taken again. -/
def drawingToken (b : Build) : Token → Build × Bool
  | .text s => (b.insertText (if s == [.of '\x00'] then ['\uFFFD'] else s), false)
  | .space s => (b.insertText s, false)
  | .start tag =>
      if breakoutNames.contains tag.name then
        (b.popWhile fun i => (b.item i).drawing, true)
      else (b.insertDrawing tag, false)
  | .close name => b.drawingEnd name
  | .comment => (b.insertComment, false)
  | .strayEnd _ _ => (b.insertComment, false)
  | .nothing => (b, false)

/-- Places the text held back inside a table: white space into the table, any other text before
it. -/
def flush (b : Build) : Build :=
  match b.held with
  | none => b
  | some s =>
      let b := { b with held := none }
      if s.all Text.isSpace then (if s.isEmpty then b else b.insertText s)
      else { { b with fostering := true }.bodyText s with fostering := false }

/-- Text or white space by the rules of the phase, and whether it is to be taken again. -/
def phaseText (b : Build) (isText : Bool) (s : Chars) : Build × Bool :=
  match b.phase with
  | .body => (if isText then b.bodyText s else b.bodySpace s, false)
  | .caption | .cell => (if isText then b.bodyText s else b.insertText s, false)
  | .columnGroup =>
      if !isText then (b.insertText s, false)
      else if b.atRoot then (b, false)
      else (b.closeColumns, true)
  | .table | .tableBody | .row =>
      ({ b with held := some (if s == [.of '\x00'] then [] else s) }, false)

/-- A token outside of drawings, and whether it is to be taken again. -/
def phaseToken (b : Build) : Token → Build × Bool
  | .text s => b.phaseText true s
  | .space s => b.phaseText false s
  | .start tag => b.phaseStart tag
  | .close name => b.phaseEnd name
  | .comment => (b.insertComment, false)
  | .strayEnd _ _ => (b.insertComment, false)
  | .nothing => (b, false)

/-- One step for a token, and whether it is to be taken again. -/
def takeOnce (b : Build) (t : Token) : Build × Bool :=
  if b.inDrawing then b.drawingToken t
  else match b.held, t with
    | none, _ => b.phaseToken t
    | some h, .text s => (if s == [.of '\x00'] then b else { b with held := some (h ++ s) }, false)
    | some h, .space s => ({ b with held := some (h ++ s) }, false)
    | some _, .nothing => (b, false)
    | some _, _ => (b.flush, true)

/-- Takes a token, in `n` steps at most. -/
def takeWithin : Nat → Build → Token → Build
  | 0, b, _ => b
  | n + 1, b, t =>
      match b.takeOnce t with
      | (b, false) => b
      | (b, true) => takeWithin n b t

/-- Takes a token. A token is taken again at most once for each part of a table that it closes or
opens, for a drawing that it ends, and for text held back; that is fewer times than the bound. -/
def take (b : Build) (t : Token) : Build := takeWithin 16 b t

end Build

/-- The tree of a text. `accept` says as what a token is taken, given whether a tag was seen
before. -/
def readBuild (accept : Bool → Token → Token) : Nat → Bool → Chars → Build → Build
  | 0, _, _, b => b.flush
  | _ + 1, _, [], b => b.flush
  | n + 1, seen, c :: rest, b =>
      let (token, rest) := readToken b.inDrawing c rest
      let seen' := match token with
        | .start _ | .close _ => true
        | _ => seen
      readBuild accept n seen' rest (b.take (accept seen token))

/-- The content of a fragment; `none` if an element had to be moved that its parent does not
list. -/
def read (accept : Bool → Token → Token) (s : Chars) : Option (List Content) :=
  let s := normalizeLines s
  let b := readBuild accept (s.length + 1) false s .empty
  if b.stuck then none else some b.content

end Folio.Html
