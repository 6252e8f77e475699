import Folio.Text.Case
import Folio.Markup.Event

/-!
The grammar of start tags, as lenient as it can be: a name, then attributes after blanks, slashes
or quotes, with values between quotes or bare.
-/
namespace Folio.Markup

/-- A place in a text: the character before it and what follows. -/
structure Cursor where
  before : Rune
  rest : Chars
deriving DecidableEq, Repr

/-- The characters that end the name of a tag. -/
def endsTagName (c : Rune) : Bool :=
  c == '\t' || c == '\n' || c == '\r' || c == '\x0c' || c == ' ' || c == '/' || c == '>' ||
    c == '\x00'

/-- The place after the characters that satisfy `p`. -/
def skipWhile (p : Rune → Bool) : Rune → Chars → Cursor
  | b, [] => ⟨b, []⟩
  | b, c :: rest => if p c then skipWhile p c rest else ⟨b, c :: rest⟩

/-- The place after blanks and slashes; a slash right before `>` stays. -/
def skipGap : Rune → Chars → Cursor
  | b, [] => ⟨b, []⟩
  | b, c :: rest =>
      if Text.isBlank c || (c == '/' && rest.head? != some (.of '>')) then skipGap c rest
      else ⟨b, c :: rest⟩

def Cursor.skipWhile (p : Rune → Bool) (c : Cursor) : Cursor := Markup.skipWhile p c.before c.rest

def Cursor.skipGap (c : Cursor) : Cursor := Markup.skipGap c.before c.rest

/-- Whether an attribute may begin after the character. -/
def allowsAttribute (c : Rune) : Bool := c == '\'' || c == '"' || c == '/' || Text.isBlank c

/-- The name of an attribute: its first character may be an equals sign, the others not. -/
def attributeName? (c : Cursor) : Option (Chars × Cursor) :=
  match c.rest with
  | [] => none
  | first :: rest =>
      if !allowsAttribute c.before || Text.isBlank first || first == '/' || first == '>' then none
      else
        let inside := fun (x : Rune) => !(Text.isBlank x || x == .of '/' || x == .of '=' || x == '>')
        some (first :: rest.takeWhile inside, Markup.skipWhile inside first rest)

/-- A bare value: everything up to a blank or `>`. -/
def bareValue (c : Cursor) : Chars × Cursor :=
  let inside := fun (x : Rune) => !(Text.isBlank x || x == .of '>')
  (c.rest.takeWhile inside, c.skipWhile inside)

/-- The value after an attribute's name. A quote that is never closed begins no value: a blank
before it makes the value empty, a second equals sign makes the value bare, and otherwise the
attribute has none. -/
def attributeValue (c : Cursor) : Option Chars × Cursor :=
  let afterName := c.skipWhile Text.isBlank
  let equals := afterName.rest.takeWhile (· == .of '=')
  if equals.isEmpty then (none, c)
  else
    let afterEquals := afterName.skipWhile (· == .of '=')
    let start := afterEquals.skipWhile Text.isBlank
    let bare := let (value, after) := bareValue start; (some value, after)
    match start.rest with
    | [] => bare
    | quote :: rest =>
        if quote != '\'' && quote != '"' then bare
        else match Text.splitAtFirst? quote rest with
          | some (value, after) => (some value, ⟨quote, after⟩)
          | none =>
              if start.rest.length < afterEquals.rest.length then (some [], start)
              else if 1 < equals.length then
                let (value, after) := bareValue start
                (some (.of '=' :: value), after)
              else (none, c)

/-- The attributes from a place on, as written. -/
def rawAttributes : Nat → Cursor → List (Chars × Option Chars) × Cursor
  | 0, c => ([], c)
  | fuel + 1, c =>
      match attributeName? c with
      | none => ([], c)
      | some (name, afterName) =>
          let (value, afterValue) := attributeValue afterName
          let (more, last) := rawAttributes fuel afterValue.skipGap
          ((name, value) :: more, last)

/-- One attribute with its name in lower case and the references of its value decoded. -/
def readAttribute : Chars × Option Chars → Except MarkupError (Chars × Option Chars)
  | (name, none) => .ok (Text.lower name, none)
  | (name, some value) => (decodeValue value).map fun v => (Text.lower name, some v)

/-- How a start tag ends. -/
inductive TagEnd where
  /-- At `>` or `/>`. -/
  | closed (selfClosing : Bool) (rest : Chars)
  /-- The text ends inside the tag, or may go on inside it. -/
  | unfinished
  /-- At a character that belongs to no tag; what was read is text. -/
  | broken (rest : Chars)

/-- The end of a tag after its attributes. -/
def tagEnd : Chars → TagEnd
  | [] => .unfinished
  | c :: rest =>
      if c == '>' then .closed false rest
      else if c == '/' then
        match rest with
        | '>' :: rest => .closed true rest
        | _ => .unfinished
      else if c.isAlpha || c == '=' then .unfinished
      else .broken (c :: rest)

/-- What is read at `<` and a letter. -/
inductive TagReading where
  | tag (tag : StartTag) (rest : Chars)
  | unfinished
  | broken (rest : Chars)

/-- Reads a start tag; `s` begins with its name. -/
def readStartTag (s : Chars) : Except MarkupError TagReading :=
  let inside := fun (c : Rune) => !endsTagName c
  let name := s.takeWhile inside
  let start := (skipWhile inside '<' s).skipGap
  let (raw, last) := rawAttributes start.rest.length start
  match tagEnd last.rest with
  | .unfinished => .ok .unfinished
  | .broken rest => .ok (.broken rest)
  | .closed selfClosing rest =>
      (raw.mapM readAttribute).map fun attrs => .tag ⟨Text.lower name, attrs, selfClosing⟩ rest

end Folio.Markup
