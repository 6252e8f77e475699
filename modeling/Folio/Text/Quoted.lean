import Folio.Text.Hex
import Folio.Text.PrintableTable

/-!
Quoted text, as it stands inside the printed form of a value: between single quotes unless only
double quotes avoid an escape, with escapes for everything that has no visible form.
-/
namespace Folio.Text

/-- Characters with a visible form, the space among them. -/
def isPrintable (c : Rune) : Bool :=
  if c.toNat < 127 then 32 ≤ c.toNat
  else !(hiddenRanges.any fun (low, high) => low ≤ c.toNat && c.toNat ≤ high)

/-- One character between quotes `quote`. -/
def quotedChar (quote c : Rune) : Chars :=
  if c == quote || c == '\\' then ['\\', c]
  else if c == '\n' then ['\\', 'n']
  else if c == '\r' then ['\\', 'r']
  else if c == '\t' then ['\\', 't']
  else if isPrintable c then [c]
  else if c.toNat < 0x100 then .of '\\' :: .of 'x' :: hex 2 c.toNat
  else if c.toNat < 0x10000 then .of '\\' :: .of 'u' :: hex 4 c.toNat
  else .of '\\' :: .of 'U' :: hex 8 c.toNat

/-- The text between quotes. -/
def quoted (s : Chars) : Chars :=
  let quote : Rune := if s.contains '\'' && !s.contains '"' then '"' else '\''
  quote :: s.flatMap (quotedChar quote) ++ [quote]

example : quoted "it's".runes = "\"it's\"".runes := by decide
example : quoted "a\n\u200b".runes = "'a\\n\\u200b'".runes := by decide +kernel

end Folio.Text
