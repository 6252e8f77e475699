import Folio.Markup.Reference

/-!
Character references that a sanitized text keeps: those that end in a semicolon. Every other
ampersand is one of the text.
-/
namespace Folio.Sanitize

open Markup (Entity)

/-- The digits of a decimal reference are more than are read. -/
structure LongNumeral where
  digits : Nat
deriving DecidableEq, Repr

/-- The characters that end the name of a reference. -/
def endsName (c : Rune) : Bool :=
  c == '<' || c == '&' || c == '=' || c == ';' || c == ' ' || (9 ≤ c.toNat && c.toNat ≤ 13)

/-- Whether some named character begins with the text. -/
def beginsEntity (s : Chars) : Bool :=
  Markup.basicEntities.any (fun e => s.isPrefixOf e.1) ||
    Markup.entities.any fun name _ => s.isPrefixOf name

/-- Whether a semicolon comes next, or after one character that could not be read. -/
def closesNumber : Chars → Bool
  | [] => false
  | c :: rest => if endsName c then c == ';' else rest.head? == some (.of ';')

/-- The name of the reference after an ampersand: a number sign and digits, or the beginning of
the name of a character, with a semicolon behind. -/
def referenceName? (s : Chars) : Option Chars :=
  match s with
  | [] => none
  | c :: rest =>
      if c == '#' then
        let mark := (rest.takeWhile fun x => x == .of 'x' || x == .of 'X').take 1
        let digits := (rest.drop mark.length).takeWhile
          (if mark.isEmpty then Rune.isDigit else Text.isHexDigit)
        if closesNumber (rest.drop (mark.length + digits.length)) then
          some (.of '#' :: mark ++ digits)
        else none
      else
        let name := s.takeWhile fun x => !endsName x
        if !name.isEmpty && (s.drop name.length).head? == some (.of ';') && beginsEntity name then
          some name
        else none

/-- A piece of text that begins with an ampersand: the name of its reference and what follows, or
none. -/
def splitReference? (s : Chars) : Option (Chars × Chars) :=
  (referenceName? s).map fun name => (name, s.drop (name.length + 1))

/-- The code point of a number. -/
def numberText (n : Nat) : Option Chars :=
  if n == 0 || 0x10FFFF < n then none
  else some [Rune.ofNat n]

/-- The text a reference stands for. Names count that need no semicolon. -/
def referenceText (name : Chars) : Except LongNumeral (Option Chars) :=
  match name with
  | '#' :: [] => .ok none
  | '#' :: c :: rest =>
      if c == 'x' || c == 'X' then
        .ok (if rest.isEmpty then none else numberText (Text.hexNumber rest))
      else if Decimal.maxDigits < rest.length + 1 then .error ⟨rest.length + 1⟩
      else .ok (numberText (Decimal.valueOf (c :: rest)))
  | _ => .ok ((Markup.entity? name).bind fun (e : Entity) => if e.bare then some e.value else none)

/-- The text before the first ampersand, and the pieces after each. -/
def ampersandPieces (s : Chars) : Chars × List Chars :=
  match Text.splitOn '&' s with
  | [] => ([], [])
  | head :: pieces => (head, pieces)

/-- One piece after an ampersand; `known` and `unknown` write a reference that stands for
something, and an ampersand of the text. -/
def writePiece (known : Chars → Chars → Chars) (unknown : Chars → Chars) (piece : Chars) :
    Except LongNumeral Chars :=
  match splitReference? piece with
  | none => .ok (unknown piece)
  | some (name, after) =>
      (referenceText name).map fun
        | some value => known name value ++ after
        | none => unknown piece

/-- The text with each ampersand written anew. -/
def mapReferences (known : Chars → Chars → Chars) (unknown : Chars → Chars) (s : Chars) :
    Except LongNumeral Chars :=
  let (head, pieces) := ampersandPieces s
  (pieces.mapM (writePiece known unknown)).map fun texts => head ++ texts.flatten

/-- The text with its references decoded. -/
def decode (s : Chars) : Except LongNumeral Chars :=
  mapReferences (fun _ value => value) (.of '&' :: ·) s

/-- The text with its ampersands escaped, except in references that stand for something. -/
def escapeAmpersands (s : Chars) : Except LongNumeral Chars :=
  mapReferences (fun name _ => .of '&' :: name ++ [.of ';']) ("&amp;".runes ++ ·) s

end Folio.Sanitize
