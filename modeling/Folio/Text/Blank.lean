import Folio.Text.Rune

/-!
Blank characters, and the texts without them: trimming at both ends and splitting into words.
-/
namespace Folio

namespace Text

/-- White space in any script: the line and field separators among the controls, the no-break
spaces and every space separator. -/
def isBlank (c : Rune) : Bool :=
  let n := c.toNat
  (9 ≤ n && n ≤ 13) || (28 ≤ n && n ≤ 32) || n == 0x85 || n == 0xA0 || n == 0x1680 ||
    (0x2000 ≤ n && n ≤ 0x200A) || n == 0x2028 || n == 0x2029 || n == 0x202F || n == 0x205F ||
    n == 0x3000

/-- White space between the parts of markup. -/
def isSpace (c : Rune) : Bool :=
  c == ' ' || c == '\n' || c == '\t' || c == '\x0c' || c == '\r'

/-- The text without the blanks it begins with. -/
def trimLeft (s : Chars) : Chars := s.dropWhile isBlank

/-- The text without the characters that satisfy `p` at its end. -/
def dropEnd (p : Rune → Bool) (s : Chars) : Chars := (s.reverse.dropWhile p).reverse

/-- The text without the blanks at its two ends. -/
def trim (s : Chars) : Chars := dropEnd isBlank (trimLeft s)

/-- Whether nothing is left of the text when it is trimmed. -/
def isBlankText (s : Chars) : Bool := s.all isBlank

/-- The maximal runs of characters that do not satisfy `sep`; `word` is the run under way, from
its last character to its first. -/
def wordsGo (sep : Rune → Bool) : Chars → Chars → List Chars
  | word, [] => if word.isEmpty then [] else [word.reverse]
  | word, c :: rest =>
      if sep c then
        if word.isEmpty then wordsGo sep [] rest else word.reverse :: wordsGo sep [] rest
      else wordsGo sep (c :: word) rest

/-- The words of a text between the characters that satisfy `sep`, from left to right. -/
def wordsBy (sep : Rune → Bool) (s : Chars) : List Chars := wordsGo sep [] s

/-- The words of a text between its blanks. -/
def words (s : Chars) : List Chars := wordsBy isBlank s

/-- The words of a text, one space between each two. -/
def spaced (ws : List Chars) : Chars := List.intercalate [.of ' '] ws

example : trim "\t a b\u00a0".runes = "a b".runes := by decide
example : words " a  bc\n".runes = ["a".runes, "bc".runes] := by decide

end Text
end Folio
