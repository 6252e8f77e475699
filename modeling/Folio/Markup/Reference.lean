import Std.Data.HashMap
import Folio.Markup.EntityTable
import Folio.Decimal.Numeral
import Folio.Text.Search
import Folio.Text.Hex

/-!
Character references, by name and by number, and the two ways in which they are decoded: inside an
attribute value, where a name may run on into other text, and as a reference on its own.
-/
namespace Folio.Markup

/-- A named character: the text it stands for, and whether its name counts without a semicolon. -/
structure Entity where
  bare : Bool
  value : Chars
deriving DecidableEq, Repr, Inhabited

/-- The code points of an entry. -/
def entityValue (s : Chars) : Chars :=
  (Text.splitOn '+' s).map fun n => Rune.ofNat (Text.hexNumber n)

/-- One entry of the table. -/
def parseEntity (s : Chars) : Chars × Entity :=
  let name := s.takeWhile fun c => c != .of '!' && c != .of ':'
  match s.drop name.length with
  | [] => (name, ⟨false, []⟩)
  | mark :: value => (name, ⟨mark == '!', entityValue value⟩)

/-- The names that markup itself depends on. -/
def basicEntities : List (Chars × Entity) := [
  ("amp", ⟨true, ['&']⟩), ("lt", ⟨true, ['<']⟩), ("gt", ⟨true, ['>']⟩), ("quot", ⟨true, ['"']⟩)]

/-- The named characters. -/
def entities : Std.HashMap Chars Entity :=
  Std.HashMap.ofList (entityRows.flatMap fun row => (Text.splitOn ' ' row.runes).map parseEntity)

/-- The named character, the name given without a semicolon. -/
def entity? (name : Chars) : Option Entity :=
  match basicEntities.lookup name with
  | some e => some e
  | none => entities.get? name

/-- The text a name stands for when it is written as in `name`, with its semicolon or without. -/
def named? (name : Chars) : Option Chars :=
  match name.getLast? with
  | some ';' => (entity? name.dropLast).map (·.value)
  | _ => (entity? name).bind fun e => if e.bare then some e.value else none

/-- The characters that stand in the code page of Windows where the standard has controls. -/
def windowsTable : List (Nat × Rune) := [
  (0x80, '\u20ac'), (0x82, '\u201a'), (0x83, '\u0192'), (0x84, '\u201e'), (0x85, '\u2026'),
  (0x86, '\u2020'), (0x87, '\u2021'), (0x88, '\u02c6'), (0x89, '\u2030'), (0x8A, '\u0160'),
  (0x8B, '\u2039'), (0x8C, '\u0152'), (0x8E, '\u017d'), (0x91, '\u2018'), (0x92, '\u2019'),
  (0x93, '\u201c'), (0x94, '\u201d'), (0x95, '\u2022'), (0x96, '\u2013'), (0x97, '\u2014'),
  (0x98, '\u02dc'), (0x99, '\u2122'), (0x9A, '\u0161'), (0x9B, '\u203a'), (0x9C, '\u0153'),
  (0x9E, '\u017e'), (0x9F, '\u0178')]

/-- Code points that are no character of a document: controls and the reserved ones. -/
def isForbidden (n : Nat) : Bool :=
  (1 ≤ n && n ≤ 8) || n == 0xB || (0xE ≤ n && n ≤ 0x1F) || (0x7F ≤ n && n ≤ 0x9F) ||
    (0xFDD0 ≤ n && n ≤ 0xFDEF) || n % 0x10000 == 0xFFFE || n % 0x10000 == 0xFFFF

/-- Whether a number is no code point of text. -/
def isOutside (n : Nat) : Bool := 0x10FFFF < n || (0xD800 ≤ n && n ≤ 0xDFFF)

/-- What a number stands for inside an attribute value: the characters of the Windows code page,
the replacement character for zero and for numbers outside the range, and nothing for the
forbidden ones. -/
def numbered (n : Nat) : Chars :=
  match windowsTable.lookup n with
  | some c => [c]
  | none =>
      if n == 0 || isOutside n then ['\uFFFD']
      else if 0x80 ≤ n && n ≤ 0x9F then [Rune.ofNat n]
      else if isForbidden n then []
      else [Rune.ofNat n]

/-- What a number stands for as a reference in text: the character that Windows gives a byte, or
that of its number; the replacement character for zero and for a number that is no character. (So
does beautifulsoup4 in release 4.15.0.) -/
def numberedInText (n : Nat) : Rune :=
  match windowsTable.lookup n with
  | some c => c
  | none => if n == 0 || isOutside n then '\uFFFD' else Rune.ofNat n

/-- A reference at the start of a text, after its ampersand. -/
inductive Reference where
  | decimal (digits : Chars)
  | hexadecimal (digits : Chars)
  | name (text : Chars)
deriving DecidableEq, Repr

/-- The characters of a name that runs on. -/
def isNameChar (c : Rune) : Bool :=
  !(c == '\t' || c == '\n' || c == '\x0c' || c == ' ' || c == '<' || c == '&' || c == '#' ||
    c == ';')

/-- Drops a semicolon. -/
def dropSemicolon : Chars → Chars
  | ';' :: rest => rest
  | s => s

/-- The reference that begins a text, and the rest. -/
def reference? : Chars → Option (Reference × Chars)
  | [] => none
  | '#' :: rest =>
      let digits := rest.takeWhile Rune.isDigit
      if !digits.isEmpty then some (.decimal digits, dropSemicolon (rest.drop digits.length))
      else match rest with
        | [] => none
        | x :: rest =>
            let digits := rest.takeWhile Text.isHexDigit
            if (x == 'x' || x == 'X') && !digits.isEmpty then
              some (.hexadecimal digits, dropSemicolon (rest.drop digits.length))
            else none
  | s =>
      let name := (s.takeWhile isNameChar).take 32
      if name.isEmpty then none
      else match s.drop name.length with
        | ';' :: rest => some (.name (name ++ [.of ';']), rest)
        | rest => some (.name name, rest)

/-- The longest start of a name, of at least two characters, that is a named character, with what
is left of the name. -/
def longestName? (name : Chars) : Nat → Option Chars
  | 0 => none
  | n + 1 =>
      if n + 1 < 2 then none
      else match named? (name.take (n + 1)) with
        | some value => some (value ++ name.drop (n + 1))
        | none => longestName? name n

/-- Why markup is refused. -/
inductive MarkupError where
  /-- A marked section opens with a word that is not known. -/
  | unknownSection (status : Chars)
  /-- A marked section opens without a word; the text shows where. -/
  | expectedName (context : Chars)
  /-- A numeric reference has more digits than are read. -/
  | longNumeral (digits : Nat)
deriving DecidableEq, Repr

/-- The value of decimal digits. -/
def decimalNumber (digits : Chars) : Except MarkupError Nat :=
  if Decimal.maxDigits < digits.length then .error (.longNumeral digits.length)
  else .ok (Decimal.valueOf digits)

/-- The text of a reference inside an attribute value. -/
def Reference.inValue : Reference → Except MarkupError Chars
  | .decimal digits => (decimalNumber digits).map numbered
  | .hexadecimal digits => .ok (numbered (Text.hexNumber digits))
  | .name text =>
      .ok <| match named? text with
        | some value => value
        | none => (longestName? text (text.length - 1)).getD (.of '&' :: text)

/-- An attribute value with its references decoded. -/
def decodeValueGo : Nat → Chars → Except MarkupError Chars
  | 0, s => .ok s
  | _ + 1, [] => .ok []
  | fuel + 1, c :: rest =>
      if c == '&' then
        match reference? rest with
        | some (r, rest') => do
            let text ← r.inValue
            let tail ← decodeValueGo fuel rest'
            return text ++ tail
        | none => (decodeValueGo fuel rest).map (.of '&' :: ·)
      else (decodeValueGo fuel rest).map (c :: ·)

/-- An attribute value with its references decoded. -/
def decodeValue (s : Chars) : Except MarkupError Chars := decodeValueGo s.length s

end Folio.Markup
