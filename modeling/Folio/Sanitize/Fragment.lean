import Folio.Html.Reader
import Folio.Markup.Printer
import Folio.Sanitize.Address
import Folio.Sanitize.Style
import Folio.Log

/-!
Sanitized fragments: the fragment is read as a browser reads it, and what is allowed of its tree is
written again. References in text and values are kept as they were written.
-/
namespace Folio.Sanitize

open Html (Content)

/-- Why a fragment cannot be sanitized. -/
inductive SanitizeError where
  | longNumeral (e : LongNumeral)
  /-- An element had to be moved out of a place that does not list it. -/
  | lostChild
deriving DecidableEq, Repr

def SanitizeError.message : SanitizeError → Chars
  | .longNumeral e => (Decimal.NumeralError.tooLong e.digits).message
  | .lostChild => "list.remove(x): x not in list".runes

/-- The name space in braces before a name, if there is one, and the name. -/
def splitSpace (name : Chars) : Option Chars × Chars :=
  match name with
  | [] => (none, [])
  | c :: rest =>
      if c != '\x7b' then (none, name)
      else match Text.splitAtFirst? '\x7d' rest with
        | none => (none, name)
        | some (space, name) => (some space, name)

/-- Whether the attribute of a name space holds an address. -/
def isAddress (space : Option Chars) (name : Chars) : Bool :=
  addressAttributes.contains (space, name)

/-- The value of an attribute as it is kept, if it is. -/
def cleanValue (space : Option Chars) (name value : Chars) :
    Except LongNumeral (Option Chars) := do
  if isAddress space name then
    return if ← isAllowedAddress value then some value else none
  else if space.isNone && paintAttributes.contains name then
    return cleanPaint value
  else if space.isNone && name == "style".runes then
    return some (← cleanStyle value)
  else
    return some value

/-- The attribute of an element as it is kept, if it is. -/
def cleanAttribute (tag : Chars) (attr : Chars × Chars) :
    Except LongNumeral (Option (Chars × Chars)) :=
  let (space, name) := splitSpace attr.1
  if isAllowedAttribute tag name then
    (cleanValue space name attr.2).map fun value => value.map fun v => (name, v)
  else .ok none

/-- The attributes of an element that are kept. -/
def cleanAttributes (tag : Chars) (attrs : List (Chars × Chars)) :
    Except LongNumeral (List (Chars × Chars)) :=
  (attrs.mapM (cleanAttribute tag)).map fun kept => kept.filterMap id

/-- A piece of the text that is written. -/
inductive Piece where
  | space (s : Chars)
  | text (s : Chars)
  | reference (name : Chars)
  | start (name : Chars) (attrs : List (Chars × Chars))
  | close (name : Chars)
deriving DecidableEq, Repr

/-- Controls that are not white space, which are shown as question marks. -/
def showControl (c : Rune) : Rune :=
  let n := c.toNat
  if n ≤ 8 || n == 11 || n == 12 || (14 ≤ n && n ≤ 31) then '?' else c

/-- What stands after an ampersand in text. A reference to the ampersand itself is text. -/
def referencePieces (piece : Chars) : List Piece :=
  match splitReference? piece with
  | none => [.text (.of '&' :: piece)]
  | some (name, after) =>
      (if name == "amp".runes then .text ['&'] else .reference name) ::
        if after.isEmpty then [] else [.text after]

/-- The pieces of a text: white space at its ends, and text and references between. -/
def textPieces (s : Chars) : List Piece :=
  let left := s.takeWhile Text.isSpace
  let rest := s.drop left.length
  let middle := Text.dropEnd Text.isSpace rest
  let right := rest.drop middle.length
  let spaces := fun (s : Chars) => if s.isEmpty then [] else [Piece.space s]
  let (head, pieces) := ampersandPieces (middle.map showControl)
  spaces left ++ (if head.isEmpty then [] else [.text head]) ++ pieces.flatMap referencePieces ++
    spaces right

/-- Elements without content outside drawings. -/
def voidNames : List Chars := [
  "base", "command", "event-source", "link", "meta", "hr", "br", "img", "embed", "param", "area",
  "col", "input", "source", "track"]

mutual

/-- The pieces of one node. -/
def nodePieces : Content → Except LongNumeral (List Piece)
  | .text s => .ok (textPieces s)
  | .comment => .ok []
  | .element name drawing attrs children => do
      let allowed := isAllowedTag name
      let opening ← if allowed then
          (cleanAttributes name attrs).map fun kept => [Piece.start name kept]
        else .ok []
      if !drawing && voidNames.contains name then
        return opening
      else
        let inner ← piecesOf children
        return opening ++ inner ++ if allowed then [.close name] else []

/-- The pieces of some nodes. -/
def piecesOf : List Content → Except LongNumeral (List Piece)
  | [] => .ok []
  | node :: rest => do
      let first ← nodePieces node
      return first ++ (← piecesOf rest)

end

/-- Neighbouring texts joined. -/
def joinTexts : List Piece → List Piece
  | [] => []
  | .text s :: rest =>
      match joinTexts rest with
      | .text t :: rest => .text (s ++ t) :: rest
      | rest => .text s :: rest
  | piece :: rest => piece :: joinTexts rest

/-- A value and the quote around it: the double one, unless only the single one is free. -/
def quoteValue (value : Chars) : Rune × Chars :=
  let s := Text.replaceAll ['<'] "&lt;".runes (Text.replaceAll ['&'] "&amp;".runes value)
  if s.contains '"' && !s.contains '\'' then ('\'', s)
  else ('"', Text.replaceAll ['"'] "&quot;".runes s)

/-- The parts of a written attribute. -/
def attributeParts (attr : Chars × Chars) : List Chars :=
  let (quote, value) := quoteValue attr.2
  [[' '], attr.1, ['='], [quote], value, [quote]]

/-- The parts of a written piece. -/
def Piece.parts : Piece → List Chars
  | .space s => [s]
  | .text s => [Markup.escapeText s]
  | .reference name => [.of '&' :: name ++ [.of ';']]
  | .start name attrs => (.of '<' :: name) :: attrs.flatMap attributeParts ++ [[.of '>']]
  | .close name => [.of '<' :: .of '/' :: name ++ [.of '>']]

/-- The parts with the references in values restored. A value is the first part after an equals
sign that is no double quote, as long as a tag is open; `inTag` and `atValue` tell whether one is
and whether such a sign came. -/
def restoreReferences : Bool → Bool → List Chars → Except LongNumeral Chars
  | _, _, [] => .ok []
  | false, atValue, part :: rest => do
      return part ++ (← restoreReferences (part.head? == some (.of '<')) atValue rest)
  | true, atValue, part :: rest => do
      if part == [.of '>'] then
        return part ++ (← restoreReferences false atValue rest)
      else if atValue && part != [.of '"'] then
        let value ← escapeAmpersands (Text.replaceAll "&amp;".runes ['&'] part)
        return value ++ (← restoreReferences true false rest)
      else
        return part ++ (← restoreReferences true (atValue || part == [.of '=']) rest)

/-- Pieces as text. -/
def write (pieces : List Piece) : Except LongNumeral Chars :=
  restoreReferences false false ((joinTexts pieces).flatMap Piece.parts)

/-- The sanitized fragment. -/
def clean (html : Chars) : Except SanitizeError Chars :=
  match Html.read accept html with
  | none => .error .lostChild
  | some content =>
      match (piecesOf content).bind write with
      | .ok s => .ok s
      | .error e => .error (.longNumeral e)

/-- The means at hand for sanitizing. -/
inductive Means where
  | ready
  | missing
  /-- Every fragment fails with the text. -/
  | failing (text : Chars)
deriving DecidableEq, Repr

def unchangedMessage (cause : Chars) : Chars :=
  "HTML sanitization failed, using fragment unmodified: ".runes ++ cause

def missingMessage : Chars :=
  ("Bleach is not installed. HTML sanitization skipped. " ++
    "Install with: pip install 'bleach[css]'").runes

/-- The fragment sanitized. One that cannot be sanitized stays as it is, and a record says so. -/
def sanitize (means : Means) (html : Chars) : Logged Chars :=
  if html.isEmpty then .quiet html
  else match means with
    | .missing => ⟨html, [⟨.warning, missingMessage⟩]⟩
    | .failing text => ⟨html, [⟨.error, unchangedMessage text⟩]⟩
    | .ready =>
        match clean html with
        | .ok s => .quiet s
        | .error e => ⟨html, [⟨.error, unchangedMessage e.message⟩]⟩

end Folio.Sanitize
