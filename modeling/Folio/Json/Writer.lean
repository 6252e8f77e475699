import Folio.Json.Basic
import Folio.Text.Quoted

/-!
Writing JSON on one line in ASCII: every other character becomes an escape of four hexadecimal
digits, or two of them beyond the first plane.
-/
namespace Folio.Json

/-- The escape of one unit of sixteen bits. -/
def unitEscape (n : Nat) : Chars := .of '\\' :: .of 'u' :: Text.hex 4 n

/-- One character of a string. -/
def escapeChar (c : Rune) : Chars :=
  if c == '"' || c == '\\' then ['\\', c]
  else if c == '\n' then ['\\', 'n']
  else if c == '\r' then ['\\', 'r']
  else if c == '\t' then ['\\', 't']
  else if c.toNat < 32 || (127 ≤ c.toNat && c.toNat < 0x10000) then unitEscape c.toNat
  else if c.toNat < 127 then [c]
  else
    let n := c.toNat - 0x10000
    unitEscape (0xD800 + n / 0x400) ++ unitEscape (0xDC00 + n % 0x400)

/-- A string between its quotes. -/
def writeString (s : Chars) : Chars := .of '"' :: s.flatMap escapeChar ++ [.of '"']

/-- A number with a fractional part; the values beyond the range have names. -/
def writeReal : Decimal.Binary64 → Chars
  | .nan => "NaN".runes
  | .infinite negative => (if negative then [.of '-'] else []) ++ "Infinity".runes
  | x => x.full

mutual

/-- A value. -/
def write : Json → Chars
  | .null => "null".runes
  | .bool true => "true".runes
  | .bool false => "false".runes
  | .int n => (toString n).runes
  | .real x => writeReal x
  | .str s => writeString s
  | .arr items => .of '[' :: writeItems true items ++ [.of ']']
  | .obj entries => .of '\x7b' :: writeEntries true entries ++ [.of '\x7d']

def writeItems (first : Bool) : List Json → Chars
  | [] => []
  | j :: rest => (if first then [] else [.of ',']) ++ write j ++ writeItems false rest

def writeEntries (first : Bool) : List (Chars × Json) → Chars
  | [] => []
  | (k, j) :: rest =>
      (if first then [] else [.of ',']) ++ writeString k ++ .of ':' :: write j ++
        writeEntries false rest

end

example : write (.obj [("é", .arr [.int 1, .bool true])]) =
    "\x7b\"\\u00e9\":[1,true]\x7d".runes := by decide

end Folio.Json
