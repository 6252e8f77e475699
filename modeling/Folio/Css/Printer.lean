import Folio.Css.Lexer

/-!
Writing tokens as a style sheet. What a name, a string or an address cannot hold is escaped, and
an empty comment stands between two tokens that would otherwise be read as one.
-/
namespace Folio.Css

/-- A number in base sixteen, in capitals and without zeros in front. -/
def hexUpper (n : Nat) : Chars :=
  if n == 0 then ['0'] else ((Text.hex 6 n).dropWhile (· == .of '0')).map Rune.toUpper

/-- A line end as an escape; `otherwise` for any other character. -/
def escapeLineEnd (c : Rune) (otherwise : Chars) : Chars :=
  if c == '\n' then "\\A ".runes
  else if c == '\r' then "\\D ".runes
  else if c == '\x0c' then "\\C ".runes
  else otherwise

/-- The characters after the first of a name. -/
def writeName (s : Chars) : Chars :=
  s.flatMap fun c => if isNameChar c then [c] else escapeLineEnd c ['\\', c]

/-- A name without the hyphen that may begin it. -/
def writeIdentBody : Chars → Chars
  | [] => []
  | c :: rest =>
      (if isNameStart c then [c]
        else if c.isDigit then .of '\\' :: hexUpper c.toNat ++ [.of ' ']
        else escapeLineEnd c ['\\', c]) ++ writeName rest

/-- A name that stands alone. -/
def writeIdent (s : Chars) : Chars :=
  if s == [.of '-'] then ['\\', '-']
  else match s with
    | [] => []
    | c :: rest =>
        if c != '-' then writeIdentBody s
        else if rest.head? == some (.of '-') then .of '-' :: .of '-' :: writeName (rest.drop 1)
        else .of '-' :: writeIdentBody rest

/-- The inside of a string. -/
def writeString (s : Chars) : Chars :=
  s.flatMap fun (c : Rune) => if c == '"' || c == '\\' then ['\\', c] else escapeLineEnd c [c]

/-- The inside of an address. -/
def writeUrl (s : Chars) : Chars :=
  s.flatMap fun (c : Rune) =>
    if c == '\t' then "\\9 ".runes
    else if c == '\'' || c == '"' || c == '\\' || c == ' ' || c == '(' || c == ')' then ['\\', c]
    else escapeLineEnd c [c]

/-- A unit after its numeral. One that could be read as an exponent has its letter escaped. -/
def writeUnit (unit : Chars) : Chars :=
  match unit with
  | [] => []
  | c :: rest =>
      if (c == 'e' || c == 'E') && (rest.isEmpty || rest.head? == some (.of '-')) then
        "\\65 ".runes ++ writeName rest
      else writeIdent unit

/-- What stands for a fault. -/
def Fault.write : Fault → Chars
  | .brokenString => "\"[bad string]\n".runes
  | .brokenUrl => "url([bad url])".runes
  | .openString => []
  | .openUrl => []
  | .unmatched c => [c]

/-- The shapes of tokens that may run together. -/
inductive Shape where
  | name
  | atName
  | hashName
  | number
  | percentage
  | dimension
  | range
  | url
  | call
  | parenthesis
  | mark (text : Chars)
  | other
deriving DecidableEq

def Token.shape : Token → Shape
  | .ident _ => .name
  | .atKeyword _ => .atName
  | .hash _ _ => .hashName
  | .number _ => .number
  | .percentage _ => .percentage
  | .dimension _ _ => .dimension
  | .unicodeRange _ _ => .range
  | .url _ _ => .url
  | .function _ _ => .call
  | .block .round _ => .parenthesis
  | .delimiter text => .mark text
  | _ => .other

def Shape.isWord : Shape → Bool
  | .name => true
  | .url => true
  | .call => true
  | _ => false

def Shape.isQuantity : Shape → Bool
  | .number => true
  | .percentage => true
  | .dimension => true
  | _ => false

/-- Whether the delimiter is the text. -/
def Shape.isMark (text : Chars) : Shape → Bool
  | .mark t => t == text
  | _ => false

/-- Whether two tokens side by side would be read as something else. -/
def runTogether (a b : Shape) : Bool :=
  let named := a == .name || a == .atName || a == .hashName || a == .dimension
  let hyphen := b.isMark "-"
  if named then
    b.isWord || b.isQuantity || b == .range || hyphen || b.isMark "-->" ||
      (a == .name && b == .parenthesis)
  else if a == .number || a.isMark "#" || a.isMark "-" then
    b.isWord || b.isQuantity || b == .range
  else if a.isMark "@" then b.isWord || b == .range || hyphen
  else if a == .range then b.isQuantity || b == .name || b == .call || b.isMark "?"
  else if a.isMark "." || a.isMark "+" then b.isQuantity
  else if a.isMark "/" then b.isMark "*"
  else
    (b.isMark "=" && ["$", "*", "^", "~", "|"].any fun m => a.isMark m) ||
      (a.isMark "|" && b.isMark "|")

/-- What stands between two tokens: nothing, unless they would run together or a backslash needs
its line end. -/
def separator (previous : Option Shape) (t : Token) : Chars :=
  match previous with
  | none => []
  | some a =>
      if runTogether a t.shape then "/**/".runes
      else if a.isMark "\\" then
        match t with
        | .space content => if content.head? == some (.of '\n') then [] else ['\n']
        | _ => ['\n']
      else []

/-- Whether the text ended inside a string that is the last thing in the tokens, or in the last
function among them. -/
def endsInString : List Token → Bool
  | [] => false
  | [.fault kind] => kind == .openString
  | [.function _ arguments] => endsInString arguments
  | _ :: rest => endsInString rest

mutual

def Token.write : Token → Chars
  | .space content => content
  | .comment content => "/*".runes ++ content ++ "*/".runes
  | .ident name => writeIdent name
  | .atKeyword name => .of '@' :: writeIdent name
  | .hash isIdent name => .of '#' :: if isIdent then writeIdent name else writeName name
  | .string value closed => .of '"' :: writeString value ++ if closed then [.of '"'] else []
  | .url value closed => "url(".runes ++ writeUrl value ++ if closed then [.of ')'] else []
  | .number numeral => numeral
  | .percentage numeral => numeral ++ [.of '%']
  | .dimension numeral unit => numeral ++ writeUnit unit
  | .unicodeRange first last =>
      "U+".runes ++ hexUpper first ++ if last == first then [] else .of '-' :: hexUpper last
  | .delimiter text => text
  | .block bracket content => bracket.opening :: writeTokens none content ++ [bracket.closing]
  | .function name arguments =>
      writeIdent name ++ .of '(' :: writeTokens none arguments ++
        if endsInString arguments then [] else [.of ')']
  | .fault kind => kind.write

/-- Tokens one after the other; `previous` is what stands before them. -/
def writeTokens (previous : Option Shape) : List Token → Chars
  | [] => []
  | t :: rest => separator previous t ++ t.write ++ writeTokens (some t.shape) rest

end

end Folio.Css
