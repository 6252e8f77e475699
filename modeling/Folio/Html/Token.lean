import Folio.Text.Case
import Folio.Text.Search

/-!
Reading a fragment as tokens, by the rules of the standard for documents: every text is read, and
what is malformed becomes text, a comment, or nothing. References are left as they stand.
-/
namespace Folio.Html

/-- A tag. Attributes have different names, the first of a name counts. -/
structure Tag where
  name : Chars
  attrs : List (Chars × Chars)
  selfClosing : Bool
deriving DecidableEq, Repr

inductive Token where
  /-- Text that does not begin with white space. -/
  | text (content : Chars)
  /-- White space. -/
  | space (content : Chars)
  | start (tag : Tag)
  | close (name : Chars)
  | comment
  /-- An end tag without a name: its source, and what stands in it. -/
  | strayEnd (source content : Chars)
  /-- A construct that leaves nothing behind. -/
  | nothing
deriving DecidableEq, Repr

/-- The text with a line feed for every line end. -/
def normalizeLines : Chars → Chars
  | [] => []
  | c :: rest =>
      if c == '\r' then
        if rest.head? == some (.of '\n') then normalizeLines rest else .of '\n' :: normalizeLines rest
      else c :: normalizeLines rest

/-- The character as it counts inside tags. -/
def visible (c : Rune) : Rune := if c == '\x00' then '\uFFFD' else c

/-- The faults of a tag that matter: the last one counts. -/
inductive TagFault where
  | none
  /-- A quote or `<` in the name of an attribute. -/
  | attributeName
  | other
deriving DecidableEq, Repr

/-- A tag being read: attributes from the last to the first, the characters of their names and
values from the last to the first too. -/
structure Draft where
  closing : Bool
  name : Chars
  attrs : List (Chars × Chars)
  fault : TagFault

namespace Draft

/-- A new attribute whose name begins with `c`. -/
def addAttribute (d : Draft) (c : Rune) : Draft :=
  { d with attrs := ([visible c], []) :: d.attrs }

def addToName (d : Draft) (c : Rune) : Draft :=
  match d.attrs with
  | [] => d
  | (n, v) :: rest => { d with attrs := (visible c :: n, v) :: rest }

def addToValue (d : Draft) (c : Rune) : Draft :=
  match d.attrs with
  | [] => d
  | (n, v) :: rest => { d with attrs := (n, visible c :: v) :: rest }

/-- Whether the last attribute has the name of an earlier one. -/
def repeats (d : Draft) : Bool :=
  match d.attrs with
  | [] => false
  | (n, _) :: rest => rest.any fun a => Text.lowerAscii a.1 == Text.lowerAscii n

/-- The end of an attribute's name: a repeated name is a fault. -/
def endName (d : Draft) : Draft := if d.repeats then { d with fault := .other } else d

/-- A fault of the character, if `bad` says that it is one. -/
def mark (d : Draft) (kind : TagFault) (bad : Bool) : Draft :=
  if bad then { d with fault := kind } else d

end Draft

/-- Attributes under different names: the first value of each. -/
def firstValues : List (Chars × Chars) → List (Chars × Chars)
  | [] => []
  | a :: rest => a :: (firstValues rest).filter fun b => b.1 != a.1

/-- Whether an attribute's name holds a quote or `<`. -/
def isBrokenName (name : Chars) : Bool :=
  name.any fun c => c == .of '"' || c == .of '\'' || c == .of '<'

/-- The finished tag. If the last fault is in the name of an attribute, the attributes with broken
names are dropped. -/
def Draft.finish (d : Draft) (selfClosing : Bool) : Token :=
  let name := Text.lowerAscii d.name.reverse
  if d.closing then .close name
  else
    let attrs := firstValues
      (d.attrs.reverse.map fun a => (Text.lowerAscii a.1.reverse, a.2.reverse))
    let kept :=
      if d.fault == .attributeName then attrs.filter fun a => !isBrokenName a.1 else attrs
    .start ⟨name, kept, selfClosing⟩

/-- The places inside a tag. -/
inductive Place where
  | tagName
  | beforeName
  | name
  | afterName
  | beforeValue
  | quoted (quote : Rune)
  | bare
  | afterValue
  | slash
deriving DecidableEq, Repr

/-- What a character does at its place. -/
inductive Move where
  | go (place : Place) (draft : Draft)
  /-- The same character is looked at again at the place. -/
  | again (place : Place) (draft : Draft)
  | done (token : Token)

def isQuote (c : Rune) : Bool := c == '"' || c == '\''

/-- The place before an attribute, and the place after one's name, where an equals sign gives it a
value. -/
def moveBetween (afterName : Bool) (d : Draft) (c : Rune) : Move :=
  if Text.isSpace c then .go (if afterName then .afterName else .beforeName) d
  else if c == '>' then .done (d.finish false)
  else if c == '/' then .go .slash d
  else if c == '=' && afterName then .go .beforeValue d
  else
    let kind := if afterName || c == '\x00' then TagFault.other else .attributeName
    .go .name ((d.addAttribute c).mark kind
      (isQuote c || c == '<' || c == '=' || c == '\x00'))

def moveName (d : Draft) (c : Rune) : Move :=
  if c == '=' then .go .beforeValue d.endName
  else if c == '>' then .done (d.endName.finish false)
  else if Text.isSpace c then .go .afterName d.endName
  else if c == '/' then .go .slash d.endName
  else if c == '\x00' then .go .name ((d.addToName c).mark .other true)
  else .go .name ((d.addToName c).mark .attributeName (isQuote c || c == '<'))

def moveBeforeValue (d : Draft) (c : Rune) : Move :=
  if Text.isSpace c then .go .beforeValue d
  else if isQuote c then .go (.quoted c) d
  else if c == '>' then .done ((d.mark .other true).finish false)
  else .go .bare ((d.addToValue c).mark .other
    (c == '=' || c == '<' || c == '\x60' || c == '\x00'))

def moveBare (d : Draft) (c : Rune) : Move :=
  if Text.isSpace c then .go .beforeName d
  else if c == '>' then .done (d.finish false)
  else .go .bare ((d.addToValue c).mark .other
    (isQuote c || c == '=' || c == '<' || c == '\x60' || c == '\x00'))

def moveAfterValue (d : Draft) (c : Rune) : Move :=
  if Text.isSpace c then .go .beforeName d
  else if c == '>' then .done (d.finish false)
  else if c == '/' then .go .slash d
  else .again .beforeName (d.mark .other true)

/-- What a character does at a place. -/
def Place.move (place : Place) (d : Draft) (c : Rune) : Move :=
  match place with
  | .tagName =>
      if Text.isSpace c then .go .beforeName d
      else if c == '>' then .done (d.finish false)
      else if c == '/' then .go .slash d
      else .go .tagName ({ d with name := visible c :: d.name }.mark .other (c == '\x00'))
  | .beforeName => moveBetween false d c
  | .name => moveName d c
  | .afterName => moveBetween true d c
  | .beforeValue => moveBeforeValue d c
  | .quoted quote =>
      if c == quote then .go .afterValue d
      else .go (.quoted quote) ((d.addToValue c).mark .other (c == '\x00'))
  | .bare => moveBare d c
  | .afterValue => moveAfterValue d c
  | .slash =>
      if c == '>' then .done (d.finish true) else .again .beforeName (d.mark .other true)

/-- Whether a tag that is never finished is text: it is if the text ends in a name or in a bare
value, and nothing is left of it otherwise. -/
def endsAsText (place : Place) (d : Draft) : Bool :=
  match place with
  | .tagName => true
  | .name => !d.repeats
  | .afterName => true
  | .bare => true
  | _ => false

/-- A tag from a place on; no rest if it is never finished, and then whether it is text. -/
def readTag : Place → Draft → Chars → Bool ⊕ (Token × Chars)
  | place, d, [] => .inl (endsAsText place d)
  | place, d, c :: rest =>
      match place.move d c with
      | .go place d => readTag place d rest
      | .done token => .inr (token, rest)
      | .again place d =>
          match place.move d c with
          | .go place d => readTag place d rest
          | .done token => .inr (token, rest)
          | .again place d => readTag place d rest

/-- A tag whose name begins with the letter `c`; `source` is what was read before it. -/
def readTagFrom (closing : Bool) (source : Chars) (c : Rune) (rest : Chars) : Token × Chars :=
  match readTag .tagName ⟨closing, [c], [], .none⟩ rest with
  | .inr read => read
  | .inl true => (.text (source ++ c :: rest), [])
  | .inl false => (.nothing, [])

/-- The places inside a comment. -/
inductive CommentPlace where
  | start
  | startDash
  | inside
  | dash
  | dashes
  | bang

/-- The place after a character, none if the comment is finished. -/
def CommentPlace.next (place : CommentPlace) (c : Rune) : Option CommentPlace :=
  match place with
  | .start =>
      if c == '-' then some .startDash
      else if c == '>' then none
      else if c == '\x00' then some .start
      else some .inside
  | .startDash =>
      if c == '-' then some .dashes
      else if c == '>' then none
      else if c == '\x00' then some .startDash
      else some .inside
  | .inside => if c == '-' then some .dash else some .inside
  | .dash => if c == '-' then some .dashes else some .inside
  | .dashes =>
      if c == '>' then none
      else if c == '!' then some .bang
      else if c == '-' then some .dashes
      else some .inside
  | .bang =>
      if c == '>' then none else if c == '-' then some .dash else some .inside

/-- What follows a comment. -/
def skipComment : CommentPlace → Chars → Chars
  | _, [] => []
  | place, c :: rest =>
      match place.next c with
      | none => rest
      | some place => skipComment place rest

/-- What follows the next `>`. -/
def afterBracket (s : Chars) : Chars := (s.dropWhile (· != .of '>')).drop 1

/-- The text up to the end of a character data section, and the rest. -/
def readSection : Chars → Chars × Chars
  | [] => ([], [])
  | c :: rest =>
      if "]]>".runes.isPrefixOf (c :: rest) then ([], rest.drop 2)
      else
        let (content, after) := readSection rest
        (visible c :: content, after)

/-- What stands after `<!`. Sections of character data are read in drawings alone. -/
def readDeclaration (drawing : Bool) (s : Chars) : Token × Chars :=
  if "--".runes.isPrefixOf s then (.comment, skipComment .start (s.drop 2))
  else if Text.lowerAscii (s.take 7) == "doctype".runes then (.nothing, afterBracket s)
  else if drawing && "[CDATA[".runes.isPrefixOf s then
    let (content, rest) := readSection (s.drop 7)
    (if content.isEmpty then .nothing else .text content, rest)
  else (.comment, afterBracket s)

/-- What stands after `</`. -/
def readClosing (s : Chars) : Token × Chars :=
  match s with
  | [] => (.text "</".runes, [])
  | c :: rest =>
      if c.isAlpha then readTagFrom true "</".runes c rest
      else if c == '>' then (.nothing, rest)
      else
        let content := s.takeWhile (· != .of '>')
        let source := "</".runes ++ s.take (content.length + 1)
        (.strayEnd source (content.map visible), afterBracket s)

/-- What stands after `<`. -/
def readOpening (drawing : Bool) (s : Chars) : Token × Chars :=
  match s with
  | [] => (.text ['<'], [])
  | c :: rest =>
      if c == '!' then readDeclaration drawing rest
      else if c == '/' then readClosing rest
      else if c.isAlpha then readTagFrom false ['<'] c rest
      else if c == '>' then (.text "<>".runes, rest)
      else if c == '?' then (.comment, afterBracket s)
      else (.text ['<'], s)

/-- The token that begins with the character `c`. An ampersand and the character zero are tokens of
their own. -/
def readToken (drawing : Bool) (c : Rune) (rest : Chars) : Token × Chars :=
  if c == '<' then readOpening drawing rest
  else if c == '&' || c == '\x00' then (.text [c], rest)
  else if Text.isSpace c then (.space (c :: rest.takeWhile Text.isSpace), rest.dropWhile Text.isSpace)
  else
    let plain := fun (d : Rune) => !(d == .of '&' || d == .of '<' || d == .of '\x00')
    (.text (c :: rest.takeWhile plain), rest.dropWhile plain)

end Folio.Html
