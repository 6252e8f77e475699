import Folio.Entries
import Folio.Json.Basic
import Folio.Decimal.Numeral
import Folio.Text.Search

/-!
Reading JSON. Objects keep the order of their keys, a repeated key keeps its first place and its
last value, and an error names what was expected and where.
-/
namespace Folio.Json

/-- What is wrong with a text that is not JSON. -/
inductive Problem where
  | expectedValue
  | expectedKey
  | expectedColon
  | expectedComma
  | unterminatedString
  | controlCharacter
  | badEscape
  | badUnicodeEscape
  | extraData
  /-- A whole number of more digits than are read. -/
  | numberTooLong
  /-- Lists and objects nested deeper than are read. -/
  | nestedTooDeep
deriving DecidableEq, Repr

/-- A problem and the number of characters before it. -/
structure ReadError where
  problem : Problem
  position : Nat
deriving DecidableEq, Repr

/-- The wording of a problem. -/
def Problem.message : Problem → Chars
  | .expectedValue => "Expecting value"
  | .expectedKey => "Expecting property name enclosed in double quotes"
  | .expectedColon => "Expecting ':' delimiter"
  | .expectedComma => "Expecting ',' delimiter"
  | .unterminatedString => "Unterminated string starting at"
  | .controlCharacter => "Invalid control character at"
  | .badEscape => "Invalid \\escape"
  | .badUnicodeEscape => "Invalid \\uXXXX escape"
  | .extraData => "Extra data"
  | .numberTooLong => "Number too long"
  | .nestedTooDeep => "Nested too deep"

/-- The space between tokens. -/
def isSpace (c : Rune) : Bool := c == ' ' || c == '\n' || c == '\r' || c == '\t'

def skipSpace (s : Chars) : Chars := s.dropWhile isSpace

/-- An error at the place where `rest` begins, `back` characters before it. -/
def failAt {α : Type} (total : Nat) (rest : Chars) (problem : Problem) (back : Nat := 0) :
    Except ReadError α :=
  .error ⟨problem, total - rest.length - back⟩

/-- Four hexadecimal digits that something follows. -/
def fourHex? : Chars → Option (Nat × Chars)
  | a :: b :: c :: d :: e :: rest => do
      let a ← Text.hexValue? a
      let b ← Text.hexValue? b
      let c ← Text.hexValue? c
      let d ← Text.hexValue? d
      return (((a * 16 + b) * 16 + c) * 16 + d, e :: rest)
  | _ => none

/-- The character of a pair of units of sixteen bits. -/
def joinUnits (high low : Nat) : Rune :=
  Rune.ofNat (0x10000 + (high - 0xD800) * 0x400 + (low - 0xDC00))

/-- The low half of a pair after a high half, where an escape for one follows. -/
def lowUnit? (s : Chars) : Option (Nat × Chars) := do
  let rest ← Text.dropPrefix? ['\\', 'u'] s
  let (low, after) ← fourHex? rest
  if 0xDC00 ≤ low && low < 0xE000 then some (low, after) else none

/-- The code point after `\u`, from one escape or a pair of them; half a pair may stand alone. -/
def unicodeEscape? (s : Chars) : Option (Rune × Chars) :=
  (fourHex? s).map fun (unit, rest) =>
    if 0xD800 ≤ unit && unit < 0xDC00 then
      match lowUnit? rest with
      | some (low, after) => (joinUnits unit low, after)
      | none => (Rune.ofNat unit, rest)
    else (Rune.ofNat unit, rest)

/-- The character that a one-letter escape stands for. -/
def simpleEscape? : Rune → Option Rune
  | '"' => some (.of '"')
  | '\\' => some (.of '\\')
  | '/' => some (.of '/')
  | 'b' => some (.of '\x08')
  | 'f' => some (.of '\x0c')
  | 'n' => some (.of '\n')
  | 'r' => some (.of '\r')
  | 't' => some (.of '\t')
  | _ => none

/-- What an escape stands for; `s` follows its backslash. -/
def readEscape (total start : Nat) : Chars → Except ReadError (Rune × Chars)
  | [] => .error ⟨.unterminatedString, start⟩
  | e :: rest =>
      if e == 'u' then
        match unicodeEscape? rest with
        | some found => .ok found
        | none => failAt total rest .badUnicodeEscape 1
      else
        match simpleEscape? e with
        | some c => .ok (c, rest)
        | none => failAt total rest .badEscape 2

/-- The rest of a string whose opening quote stood at `start`; `done` is what was read, from its
last character to its first. -/
def readString (total start : Nat) : Nat → Chars → Chars → Except ReadError (Chars × Chars)
  | 0, _, _ => .error ⟨.unterminatedString, start⟩
  | _ + 1, _, [] => .error ⟨.unterminatedString, start⟩
  | fuel + 1, done, c :: rest =>
      if c == '"' then .ok (done.reverse, rest)
      else if c == '\\' then
        match readEscape total start rest with
        | .ok (e, rest') => readString total start fuel (e :: done) rest'
        | .error e => .error e
      else if c.toNat < 32 then failAt total (c :: rest) .controlCharacter
      else readString total start fuel (c :: done) rest

/-- The digits at the start of a text, and the rest. -/
def spanDigits (s : Chars) : Chars × Chars := (s.takeWhile Rune.isDigit, s.dropWhile Rune.isDigit)

/-- The whole part of a number: a zero, or digits that begin with another. -/
def wholePart? : Chars → Option (Chars × Chars)
  | [] => none
  | '0' :: rest => some (['0'], rest)
  | c :: rest => if c.isDigit then some (spanDigits (c :: rest)) else none

/-- The fraction after a point, if there is one with digits. -/
def fractionPart : Chars → Chars × Chars
  | '.' :: rest => if (spanDigits rest).1.isEmpty then ([], .of '.' :: rest) else spanDigits rest
  | s => ([], s)

/-- The exponent, if there is one with digits. -/
def exponentPart (s : Chars) : Option Int × Chars :=
  match s with
  | [] => (none, s)
  | c :: rest =>
      if c == 'e' || c == 'E' then
        let (negative, digits) := Decimal.splitSign rest
        let (ds, after) := spanDigits digits
        if ds.isEmpty then (none, s)
        else
          let n : Int := Decimal.valueOf ds
          (some (if negative then -n else n), after)
      else (none, s)

/-- A number. -/
def readNumber (total : Nat) (s : Chars) : Except ReadError (Json × Chars) :=
  let (negative, body) := match s with
    | '-' :: rest => (true, rest)
    | _ => (false, s)
  match wholePart? body with
  | none => failAt total s .expectedValue
  | some (whole, rest) =>
      let (fraction, rest) := fractionPart rest
      let (exponent, rest) := exponentPart rest
      if fraction.isEmpty && exponent.isNone then
        if Decimal.maxDigits < whole.length then failAt total s .numberTooLong
        else
          let n : Int := Decimal.valueOf whole
          .ok (.int (if negative then -n else n), rest)
      else
        let digits := whole ++ fraction
        .ok (.real (Decimal.Binary64.ofDecimal negative (Decimal.valueOf digits) digits.length
          (exponent.getD 0 - fraction.length)), rest)

/-- The named values, and what follows. -/
def readName? (s : Chars) : Option (Json × Chars) :=
  let names : List (Chars × Json) := [
    ("null", .null), ("true", .bool true), ("false", .bool false), ("NaN", .real .nan),
    ("Infinity", .real (.infinite false)), ("-Infinity", .real (.infinite true))]
  names.findSome? fun (name, value) =>
    (Text.dropPrefix? name s).map fun rest => (value, rest)

/-- A number or a named value. -/
def readScalar (total : Nat) (s : Chars) : Except ReadError (Json × Chars) :=
  match readName? s with
  | some found => .ok found
  | none => readNumber total s

/-- What stands at the start of a value. -/
inductive Opening where
  | text (rest : Chars)
  | list (rest : Chars)
  | object (rest : Chars)
  | scalar

def opening : Chars → Opening
  | [] => .scalar
  | c :: rest =>
      if c == '"' then .text rest
      else if c == '[' then .list (skipSpace rest)
      else if c == '\x7b' then .object (skipSpace rest)
      else .scalar

/-- What follows an item: the end of the list or object, or another item. -/
inductive Closing where
  | last (rest : Chars)
  | more (rest : Chars)
  | neither

def closing (close : Rune) : Chars → Closing
  | [] => .neither
  | c :: rest =>
      if c == close then .last rest
      else if c == ',' then .more (skipSpace rest)
      else .neither

/-- A key with the colon after it. -/
def readKey (total : Nat) : Chars → Except ReadError (Chars × Chars)
  | [] => failAt total [] .expectedKey
  | c :: rest =>
      if c == '"' then
        match readString total (total - rest.length - 1) (rest.length + 1) [] rest with
        | .error e => .error e
        | .ok (key, after) =>
            match Text.dropPrefix? [':'] (skipSpace after) with
            | some value => .ok (key, skipSpace value)
            | none => failAt total (skipSpace after) .expectedColon
      else failAt total (c :: rest) .expectedKey

mutual

/-- One value; `depth` more lists or objects may be opened. -/
def readValue (total : Nat) : Nat → Nat → Chars → Except ReadError (Json × Chars)
  | 0, _, s => failAt total s .expectedValue
  | fuel + 1, depth, s =>
      match opening s with
      | .scalar => readScalar total s
      | .text rest =>
          (readString total (total - s.length) (rest.length + 1) [] rest).map
            fun (text, after) => (.str text, after)
      | .list rest =>
          if depth == 0 then failAt total s .nestedTooDeep
          else match Text.dropPrefix? [']'] rest with
            | some after => .ok (.arr [], after)
            | none => readItems total fuel (depth - 1) [] rest
      | .object rest =>
          if depth == 0 then failAt total s .nestedTooDeep
          else match Text.dropPrefix? ['\x7d'] rest with
            | some after => .ok (.obj [], after)
            | none => readEntries total fuel (depth - 1) [] rest

/-- The items of a list up to its end; `done` holds those read, the last one first. -/
def readItems (total : Nat) :
    Nat → Nat → List Json → Chars → Except ReadError (Json × Chars)
  | 0, _, _, s => failAt total s .expectedValue
  | fuel + 1, depth, done, s =>
      match readValue total fuel depth s with
      | .error e => .error e
      | .ok (item, rest) =>
          match closing ']' (skipSpace rest) with
          | .last after => .ok (.arr (item :: done).reverse, after)
          | .more after => readItems total fuel depth (item :: done) after
          | .neither => failAt total (skipSpace rest) .expectedComma

/-- The entries of an object up to its end. -/
def readEntries (total : Nat) :
    Nat → Nat → List (Chars × Json) → Chars → Except ReadError (Json × Chars)
  | 0, _, _, s => failAt total s .expectedKey
  | fuel + 1, depth, done, s =>
      match readKey total s with
      | .error e => .error e
      | .ok (key, rest) =>
          match readValue total fuel depth rest with
          | .error e => .error e
          | .ok (value, rest) =>
              match closing '\x7d' (skipSpace rest) with
              | .last after => .ok (.obj (Entries.put key value done), after)
              | .more after => readEntries total fuel depth (Entries.put key value done) after
              | .neither => failAt total (skipSpace rest) .expectedComma

end

/-- Reads a whole text, with at most `depth` lists and objects inside one another. -/
def read (depth : Nat) (s : Chars) : Except ReadError Json :=
  let total := s.length
  match readValue total (2 * total + 1) depth (skipSpace s) with
  | .error e => .error e
  | .ok (value, rest) =>
      match skipSpace rest with
      | [] => .ok value
      | rest' => failAt total rest' .extraData

example : (read 9 "[1, -0.5e1 ]".runes).toOption.map (fun j => j.arr?.map List.length) =
    some (some 2) := by decide +kernel

end Folio.Json
