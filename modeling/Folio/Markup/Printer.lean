import Folio.Markup.Node

/-!
Writing a tree as text. Attributes are sorted by name, text is escaped except inside raw text
elements, and elements without content end in `/>`.
-/
namespace Folio.Markup

/-- The three characters that markup is made of, escaped. -/
def escapeText (s : Chars) : Chars :=
  s.flatMap fun (c : Rune) =>
    if c == '&' then "&amp;".runes
    else if c == '<' then "&lt;".runes
    else if c == '>' then "&gt;".runes
    else [c]

/-- A value between the quotes that it does not hold; if it holds both, its double quotes are
escaped. -/
def quoteValue (s : Chars) : Chars :=
  if !s.contains '"' then .of '"' :: s ++ [.of '"']
  else if !s.contains '\'' then .of '\'' :: s ++ [.of '\'']
  else .of '"' :: Text.replaceAll ['"'] "&quot;".runes s ++ [.of '"']

/-- Attributes that hold words, of every element and of some. -/
def wordAttributes : List (Chars × List Chars) := [
  ("a", ["rel", "rev"]), ("link", ["rel", "rev"]), ("td", ["headers"]), ("th", ["headers"]),
  ("form", ["accept-charset"]), ("object", ["archive"]), ("area", ["rel"]), ("icon", ["sizes"]),
  ("iframe", ["sandbox"]), ("output", ["for"])]

/-- Whether the value of the attribute is a list of words. -/
def holdsWords (element name : Chars) : Bool :=
  (["class", "accesskey", "dropzone"] : List Chars).contains name ||
    ((wordAttributes.lookup (Text.lower element)).getD []).contains name

/-- The encoding that a content type names is that of the output; `name` is what came before in
the text, `none` at the start of a field. -/
def setCharset : Nat → Bool → Chars → Chars
  | 0, _, s => s
  | _ + 1, _, [] => []
  | fuel + 1, atField, c :: rest =>
      match (if atField then Text.dropPrefix? "charset=".runes (c :: rest) else none) with
      | some value => "charset=utf-8".runes ++ setCharset fuel false (value.dropWhile (· != .of ';'))
      | none => c :: setCharset fuel (c == ';' || Text.isBlank c) rest

/-- The value of an attribute as it is written: words with single spaces, and the encoding that a
`meta` element declares replaced by the one of the output. -/
def writtenValue (element : Chars) (attrs : List (Chars × Chars)) (name value : Chars) : Chars :=
  if holdsWords element name then Text.spaced (Text.words value)
  else if element != "meta".runes then value
  else if name == "charset".runes then "utf-8".runes
  else if name == "content".runes && (attrs.lookup "charset".runes).isNone &&
      (attrs.lookup "http-equiv".runes).any (fun v => Text.lower v == "content-type".runes) then
    setCharset (value.length + 1) true value
  else value

/-- Whether a text comes before another, by code points. -/
def precedes : Chars → Chars → Bool
  | [], _ => true
  | _ :: _, [] => false
  | a :: s, b :: t => if a == b then precedes s t else a < b

/-- The attributes of a tag, a space before each. -/
def writeAttributes (element : Chars) (attrs : List (Chars × Chars)) : Chars :=
  (attrs.mergeSort fun a b => precedes a.1 b.1).flatMap fun (name, value) =>
    .of ' ' :: name ++ .of '=' :: quoteValue (escapeText (writtenValue element attrs name value))

/-- Text of a kind; plain text inside a raw text element is written as it is. -/
def writeText (raw : Bool) (content : Chars) : TextKind → Chars
  | .plain => if raw then content else escapeText content
  | .comment => "<!--".runes ++ content ++ "-->".runes
  | .cdata => "<![CDATA[".runes ++ content ++ "]]>".runes
  | .instruction => "<?".runes ++ content ++ ">".runes
  | .declaration => "<?".runes ++ content ++ "?>".runes
  | .doctype => "<!DOCTYPE ".runes ++ content ++ ">\n".runes

mutual

/-- A node as text; `raw` tells whether it stands in a raw text element. -/
def Node.write (raw : Bool) : Node → Chars
  | .text kind content => writeText raw content kind
  | .element name attrs children =>
      let tag := .of '<' :: name ++ writeAttributes name attrs
      if children.isEmpty && isVoid name then tag ++ "/>".runes
      else tag ++ .of '>' :: writeNodes (isRawText name) children ++ "</".runes ++ name ++ [.of '>']

/-- Nodes as text, one after the other. -/
def writeNodes (raw : Bool) : List Node → Chars
  | [] => []
  | node :: rest => node.write raw ++ writeNodes raw rest

end

/-- A fragment as text. -/
def Node.writeAll (nodes : List Node) : Chars := writeNodes false nodes

end Folio.Markup
