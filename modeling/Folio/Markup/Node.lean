import Folio.Entries
import Folio.Markup.Reader

/-!
The tree of a fragment. Tags are matched by name alone: an end tag closes the innermost open
element of its name with everything inside it, and does nothing if there is none; no tag is ever
implied.
-/
namespace Folio.Markup

/-- The kinds of text in a tree. -/
inductive TextKind where
  | plain
  | comment
  | cdata
  | instruction
  | declaration
  | doctype
deriving DecidableEq, Repr

/-- A node of a tree. The attributes of an element have different names. -/
inductive Node where
  | element (name : Chars) (attrs : List (Chars × Chars)) (children : List Node)
  | text (kind : TextKind) (content : Chars)
deriving Repr, Inhabited

/-- Elements without content, which close at once. -/
def voidElements : List Chars :=
  ["area", "base", "br", "col", "embed", "hr", "img", "input", "keygen", "link", "menuitem",
    "meta", "param", "source", "track", "wbr", "basefont", "bgsound", "command", "frame", "image",
    "isindex", "nextid", "spacer"].map String.runes

def isVoid (name : Chars) : Bool := voidElements.contains name

/-- Elements in which blank text is kept as it is. -/
def keepsBlanks (name : Chars) : Bool := name == "pre".runes || name == "textarea".runes

/-- The attributes of a tag under different names: the last value of each, the empty text for
none. -/
def treeAttributes (attrs : List (Chars × Option Chars)) : List (Chars × Chars) :=
  attrs.foldl (fun done (name, value) => Entries.put name (value.getD []) done) []

/-- An element that is not closed yet, with its children from the last to the first. -/
structure OpenElement where
  name : Chars
  attrs : List (Chars × Chars)
  children : List Node

/-- A tree under construction: the open elements, the innermost first; the finished nodes outside
them, the last first; text that may still grow; and the void elements whose end tags are to be
passed over. -/
structure Builder where
  opened : List OpenElement
  done : List Node
  pending : Option Chars
  passed : List Chars

namespace Builder

def empty : Builder := ⟨[], [], none, []⟩

/-- Adds a finished node to the innermost open element. -/
def add (b : Builder) (node : Node) : Builder :=
  match b.opened with
  | [] => { b with done := node :: b.done }
  | e :: rest => { b with opened := { e with children := node :: e.children } :: rest }

/-- Text of spaces alone shrinks to a line break if it has one and to a space if not, outside
the elements that keep blanks. -/
def collapse (b : Builder) (text : Chars) : Chars :=
  if b.opened.any (fun e => keepsBlanks e.name) || !text.all Text.isSpace then text
  else if text.contains '\n' then ['\n'] else [' ']

/-- Ends the text under way, as a node of the given kind. -/
def flush (b : Builder) (kind : TextKind) : Builder :=
  match b.pending with
  | none => b
  | some text => { b with pending := none }.add (.text kind (b.collapse text))

/-- Text that may still grow. -/
def write (b : Builder) (text : Chars) : Builder :=
  { b with pending := some ((b.pending.getD []) ++ text) }

/-- A construct that is a node of its own. -/
def special (b : Builder) (kind : TextKind) (text : Chars) : Builder :=
  ((b.flush .plain).write text).flush kind

/-- Closes the innermost open element. -/
def closeLast (b : Builder) : Builder :=
  match b.opened with
  | [] => b
  | e :: rest => { b with opened := rest }.add (.element e.name e.attrs e.children.reverse)

/-- Closes open elements up to and with the one of the given name; `n` is enough for all. -/
def closeTo (name : Chars) : Nat → Builder → Builder
  | 0, b => b
  | n + 1, b =>
      match b.opened with
      | [] => b
      | e :: _ => if e.name == name then b.closeLast else closeTo name n b.closeLast

/-- An end tag. -/
def close (b : Builder) (name : Chars) : Builder :=
  if b.passed.contains name then { b with passed := b.passed.erase name }
  else
    let b := b.flush .plain
    if b.opened.any fun e => e.name == name then closeTo name b.opened.length b else b

/-- A start tag. One that closes itself is closed at once, whatever its name: what is passed over
after a plain void tag is an end tag that is written out, and never the end of a later tag that
closes itself, so that the second `br` of `<br>a<br/>b` is as empty as the first. (So does
beautifulsoup4 in release 4.15.0.) -/
def start (b : Builder) (tag : StartTag) : Builder :=
  let b := b.flush .plain
  let attrs := treeAttributes tag.attrs
  if tag.selfClosing then b.add (.element tag.name attrs [])
  else if isVoid tag.name then
    { b.add (.element tag.name attrs []) with passed := tag.name :: b.passed }
  else { b with opened := ⟨tag.name, attrs, []⟩ :: b.opened }

/-- The content of a marked section, and its kind. -/
def markedText (content : Chars) : TextKind × Chars :=
  if Text.upper (content.take 6) == "CDATA[".runes then (.cdata, content.drop 6)
  else (.declaration, content)

/-- The text of a reference: a name that is not known stands for itself, without its semicolon. -/
def referenceText : Reference → Except MarkupError Chars
  | .decimal digits => (decimalNumber digits).map fun n => [numberedInText n]
  | .hexadecimal digits => .ok [numberedInText (Text.hexNumber digits)]
  | .name name => .ok (((entity? name).map (·.value)).getD (.of '&' :: name))

/-- One event. -/
def event (b : Builder) : Event → Except MarkupError Builder
  | .text content => .ok (b.write content)
  | .reference r => (referenceText r).map b.write
  | .start tag => .ok (b.start tag)
  | .close name => .ok (b.close name)
  | .comment content => .ok (b.special .comment content)
  | .doctype content => .ok (b.special .doctype (content.drop 8))
  | .instruction content => .ok (b.special .instruction content)
  | .marked content => let (kind, text) := markedText content; .ok (b.special kind text)

/-- Closes everything that is open. -/
def finish (b : Builder) : List Node :=
  let b := b.flush .plain
  (b.opened.foldl (fun b _ => b.closeLast) b).done.reverse

end Builder

/-- The nodes of some events. -/
def Node.ofEvents (events : List Event) : Except MarkupError (List Node) :=
  (events.foldlM Builder.event Builder.empty).map Builder.finish

/-- The nodes of a text. -/
def Node.read (s : Chars) : Except MarkupError (List Node) :=
  match readEvents s with
  | .error e => .error e
  | .ok events => Node.ofEvents events

end Folio.Markup
