import Folio.Css.Token
import Folio.Text.Case
import Folio.Text.Hex
import Folio.Text.Search

/-!
Reading a style sheet as tokens, as the standard of style sheets has it. Every text is read:
what fits no token is a delimiter or a fault.
-/
namespace Folio.Css

/-- The characters that may begin a name: letters, the underscore, and all outside ASCII. -/
def isNameStart (c : Rune) : Bool := c.isAlpha || c == '_' || 127 < c.toNat

/-- The characters inside a name. -/
def isNameChar (c : Rune) : Bool := isNameStart c || c.isDigit || c == '-'

/-- White space; other line ends are replaced before. -/
def isSpace (c : Rune) : Bool := c == ' ' || c == '\n' || c == '\t'

/-- Whether the text begins with a backslash that escapes something: one that ends its line
escapes nothing. -/
def startsEscape : Chars → Bool
  | [] => false
  | c :: rest => c == '\\' && rest.head? != some (.of '\n')

/-- Whether a name that stands alone begins the text. -/
def startsIdent : Chars → Bool
  | [] => false
  | c :: rest =>
      if c == '-' then
        rest.head?.any (fun d => isNameStart d || d == .of '-') || startsEscape rest
      else isNameStart c || startsEscape (c :: rest)

/-- The character of a code point; the replacement character for what is none. -/
def charOf (n : Nat) : Rune :=
  if n == 0 || 0x10FFFF < n then '\uFFFD' else Rune.ofNat n

/-- Drops one white space character. -/
def dropSpace : Chars → Chars
  | [] => []
  | c :: rest => if isSpace c then rest else c :: rest

/-- The character that an escape stands for, after its backslash, and the rest. -/
def readEscape (s : Chars) : Rune × Chars :=
  let digits := (s.takeWhile Text.isHexDigit).take 6
  if digits.isEmpty then
    match s with
    | [] => ('\uFFFD', [])
    | c :: rest => (c, rest)
  else (charOf (Text.hexNumber digits), dropSpace (s.drop digits.length))

/-- The name that begins the text, without its escapes, and the rest. -/
def readNameGo : Nat → Chars → Chars × Chars
  | 0, s => ([], s)
  | _ + 1, [] => ([], [])
  | fuel + 1, c :: rest =>
      if isNameChar c then
        let (name, after) := readNameGo fuel rest
        (c :: name, after)
      else if startsEscape (c :: rest) then
        let (d, rest) := readEscape rest
        let (name, after) := readNameGo fuel rest
        (d :: name, after)
      else ([], c :: rest)

/-- The name that begins the text, without its escapes, and the rest. -/
def readName (s : Chars) : Chars × Chars := readNameGo (s.length + 1) s

/-- A string after its opening quote: its value, whether it is closed, and the rest; no value if
its line ends first. -/
def readStringGo (quote : Rune) : Nat → Chars → Option (Chars × Bool) × Chars
  | 0, s => (none, s)
  | _ + 1, [] => (some ([], false), [])
  | fuel + 1, c :: rest =>
      let keep := fun (d : Chars) (rest : Chars) =>
        let (value, after) := readStringGo quote fuel rest
        (value.map fun (v, closed) => (d ++ v, closed), after)
      if c == quote then (some ([], true), rest)
      else if c == '\n' then (none, c :: rest)
      else if c == '\\' then
        if rest.isEmpty then keep [] []
        else if rest.head? == some (.of '\n') then keep [] (rest.drop 1)
        else
          let (d, rest) := readEscape rest
          keep [d] rest
      else keep [c] rest

/-- The tokens of a string, after its opening quote. -/
def readString (quote : Rune) (s : Chars) : List Token × Chars :=
  match readStringGo quote (s.length + 1) s with
  | (none, rest) => ([.fault .brokenString], rest)
  | (some (value, true), rest) => ([.string value true], rest)
  | (some (value, false), rest) => ([.string value false, .fault .openString], rest)

/-- What follows a broken address. -/
def skipUrl : Nat → Chars → Chars
  | 0, s => s
  | _ + 1, [] => []
  | fuel + 1, c :: rest =>
      if c == '\\' && rest.head? == some (.of ')') then skipUrl fuel (rest.drop 1)
      else if c == ')' then rest
      else skipUrl fuel rest

/-- The characters that no address holds: quotes, the opening parenthesis, and controls. -/
def breaksUrl (c : Rune) : Bool :=
  let n := c.toNat
  c == '"' || c == '\'' || c == '(' || n ≤ 8 || n == 11 || (14 ≤ n && n ≤ 31) || n == 127

/-- How an address ends. -/
inductive UrlEnd where
  | closed
  | atEnd
  | broken

/-- The end of an address after white space. -/
def urlEnd (s : Chars) : UrlEnd × Chars :=
  match s.dropWhile isSpace with
  | [] => (.atEnd, [])
  | c :: rest => if c == ')' then (.closed, rest) else (.broken, c :: rest)

/-- The characters of an address, how it ends, and the rest. -/
def readUrlGo : Nat → Chars → Chars × UrlEnd × Chars
  | 0, s => ([], .atEnd, s)
  | _ + 1, [] => ([], .atEnd, [])
  | fuel + 1, c :: rest =>
      let keep := fun (d : Rune) (rest : Chars) =>
        let (value, ending, after) := readUrlGo fuel rest
        (d :: value, ending, after)
      if c == ')' then ([], .closed, rest)
      else if isSpace c then ([], urlEnd rest)
      else if startsEscape (c :: rest) then
        let (d, rest) := readEscape rest
        keep d rest
      else if breaksUrl c then ([], .broken, rest)
      else keep c rest

/-- The tokens of an address, after its opening parenthesis. -/
def readUrl (s : Chars) : List Token × Chars :=
  let s := s.dropWhile isSpace
  match readUrlGo (s.length + 1) s with
  | (value, .closed, rest) => ([.url value true], rest)
  | (value, .atEnd, rest) => ([.url value false, .fault .openUrl], rest)
  | (_, .broken, rest) => ([.fault .brokenUrl], skipUrl (rest.length + 1) rest)

/-- The range of code points that begins the text, after `U+`. -/
def readRange (s : Chars) : Token × Chars :=
  let digits := (s.takeWhile Text.isHexDigit).take 6
  let rest := s.drop digits.length
  let wild := ((rest.takeWhile (· == .of '?')).take (6 - digits.length)).length
  let first := Text.hexNumber digits
  let block := Nat.pow 16 wild
  if 0 < wild then
    (.unicodeRange (first * block) (first * block + (block - 1)), rest.drop wild)
  else
    match rest with
    | [] => (.unicodeRange first first, [])
    | c :: after =>
        let digits := (after.takeWhile Text.isHexDigit).take 6
        if c == '-' && !digits.isEmpty then
          (.unicodeRange first (Text.hexNumber digits), after.drop digits.length)
        else (.unicodeRange first first, rest)

/-- The exponent that begins the text. -/
def exponent (s : Chars) : Chars :=
  match s with
  | [] => []
  | e :: rest =>
      if e == 'e' || e == 'E' then
        let sign := (rest.takeWhile fun c => c == .of '+' || c == .of '-').take 1
        let digits := (rest.drop sign.length).takeWhile Rune.isDigit
        if digits.isEmpty then [] else e :: sign ++ digits
      else []

/-- The numeral that begins the text. -/
def numeral? (s : Chars) : Option Chars :=
  let sign := (s.takeWhile fun c => c == .of '+' || c == .of '-').take 1
  let body := s.drop sign.length
  let whole := body.takeWhile Rune.isDigit
  let fraction := match body.drop whole.length with
    | [] => []
    | c :: rest =>
        let digits := rest.takeWhile Rune.isDigit
        if c == '.' && !digits.isEmpty then c :: digits else []
  let digits := whole ++ fraction
  if digits.isEmpty then none
  else some (sign ++ digits ++ exponent (body.drop digits.length))

/-- A number with what belongs to it. -/
def readNumber (numeral rest : Chars) : Token × Chars :=
  if startsIdent rest then
    let (unit, after) := readName rest
    (.dimension numeral unit, after)
  else match rest with
    | [] => (.number numeral, [])
    | c :: after => if c == '%' then (.percentage numeral, after) else (.number numeral, rest)

/-- A comment after its opening: its content, and the rest if it is closed. -/
def readComment : Chars → Chars × Option Chars
  | [] => ([], none)
  | c :: rest =>
      if c == '*' && rest.head? == some (.of '/') then ([], some (rest.drop 1))
      else
        let (content, after) := readComment rest
        (c :: content, after)

/-- The delimiters of more than one character. -/
def longDelimiters : List Chars := ["<!--", "||", "~=", "|=", "^=", "$=", "*="].map String.runes

/-- What is read next. -/
inductive Step where
  /-- Some tokens are complete. -/
  | tokens (done : List Token) (rest : Chars)
  /-- A block or a function begins. -/
  | opens (bracket : Bracket) (name : Option Chars) (rest : Chars)

/-- A name, and the function or address that it may begin. -/
def readWord (s : Chars) : Step :=
  let (name, rest) := readName s
  match rest with
  | [] => .tokens [.ident name] []
  | c :: inside =>
      if c != '(' then .tokens [.ident name] rest
      else
        let next := (inside.dropWhile isSpace).head?
        if Text.lowerAscii name == "url".runes && next != some (.of '"') &&
            next != some (.of '\'') then
          let (tokens, rest) := readUrl inside
          .tokens tokens rest
        else .opens .round (some name) inside

/-- A delimiter: the longest that begins the text. -/
def readDelimiter (s : Chars) : Step :=
  match longDelimiters.find? fun d => d.isPrefixOf s with
  | some d => .tokens [.delimiter d] (s.drop d.length)
  | none => .tokens [.delimiter (s.take 1)] (s.drop 1)

/-- A sign that may begin a name: `@` or `#`. -/
def readSigned (c : Rune) (rest : Chars) : Step :=
  let (name, after) := readName rest
  if c == '@' then
    if startsIdent rest then .tokens [.atKeyword name] after else .tokens [.delimiter [c]] rest
  else if rest.head?.any isNameChar || startsEscape rest then
    .tokens [.hash (startsIdent rest) name] after
  else .tokens [.delimiter [c]] rest

/-- Whether a range of code points begins the text. -/
def startsRange (s : Chars) : Bool :=
  (Text.dropPrefix? ['u', '+'] (Text.lowerAscii (s.take 3))).any fun next =>
    next.any fun d => Text.isHexDigit d || d == .of '?'

/-- What begins with a bracket, a quote or a slash, or is a delimiter. -/
def readMark (c : Rune) (rest : Chars) : Step :=
  match [Bracket.round, .square, .curly].find? fun b => b.opening == c with
  | some b => .opens b none rest
  | none =>
      if c == ')' || c == ']' || c == '\x7d' then .tokens [.fault (.unmatched c)] rest
      else if c == '"' || c == '\'' then
        let (tokens, rest) := readString c rest
        .tokens tokens rest
      else if c == '/' && rest.head? == some (.of '*') then
        let (content, after) := readComment (rest.drop 1)
        .tokens [.comment content] (after.getD [])
      else readDelimiter (c :: rest)

/-- What begins with the character `c`. -/
def step (c : Rune) (rest : Chars) : Step :=
  let s := c :: rest
  if isSpace c then .tokens [.space (s.takeWhile isSpace)] (s.dropWhile isSpace)
  else if startsRange s then
    let (token, rest) := readRange (rest.drop 1)
    .tokens [token] rest
  else if "-->".runes.isPrefixOf s then .tokens [.delimiter "-->".runes] (s.drop 3)
  else if startsIdent s then readWord s
  else match numeral? s with
    | some n =>
        let (token, rest) := readNumber n (s.drop n.length)
        .tokens [token] rest
    | none => if c == '@' || c == '#' then readSigned c rest else readMark c rest

/-- The tokens up to the bracket that closes the block under way, and the rest. -/
def readTokens : Nat → Option Rune → Chars → List Token × Chars
  | 0, _, s => ([], s)
  | _ + 1, _, [] => ([], [])
  | fuel + 1, close, c :: rest =>
      if close == some c then ([], rest)
      else match step c rest with
        | .tokens done rest =>
            let (more, after) := readTokens fuel close rest
            (done ++ more, after)
        | .opens bracket name rest =>
            let (content, rest) := readTokens fuel (some bracket.closing) rest
            let block := match name with
              | some name => .function name content
              | none => .block bracket content
            let (more, after) := readTokens fuel close rest
            (block :: more, after)

/-- The text with one kind of line end, and without the character zero. -/
def normalizeText : Chars → Chars
  | [] => []
  | c :: rest =>
      if c == '\r' then
        if rest.head? == some (.of '\n') then normalizeText rest else .of '\n' :: normalizeText rest
      else if c == '\x0c' then .of '\n' :: normalizeText rest
      else if c == '\x00' then .of '\uFFFD' :: normalizeText rest
      else c :: normalizeText rest

/-- The tokens of a style sheet. -/
def tokens (css : Chars) : List Token :=
  let s := normalizeText css
  (readTokens (s.length + 1) none s).1

end Folio.Css
