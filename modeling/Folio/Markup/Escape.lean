import Folio.Text.Blank

/-!
Text made safe for any place in markup: the characters that markup is made of, and both quotes.
-/
namespace Folio.Markup

/-- One character as it is written inside a value. -/
def escapeChar (c : Rune) : Chars :=
  if c == '&' then "&amp;".runes
  else if c == '<' then "&lt;".runes
  else if c == '>' then "&gt;".runes
  else if c == '"' then "&quot;".runes
  else if c == '\'' then "&#x27;".runes
  else [c]

/-- A text as it is written inside a value, whichever quotes stand around it. -/
def escape (s : Chars) : Chars := s.flatMap escapeChar

/-- An attribute with its value. -/
def writeAttribute (name value : Chars) : Chars :=
  name ++ .of '=' :: .of '"' :: escape value ++ [.of '"']

example : escape "a<'b'&\"".runes = "a&lt;&#x27;b&#x27;&amp;&quot;".runes := by decide

end Folio.Markup
