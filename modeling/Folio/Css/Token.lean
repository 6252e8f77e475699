import Folio.Text.Blank

/-!
The tokens of a style sheet. Blocks and functions hold the tokens between their brackets.
-/
namespace Folio.Css

/-- The brackets that enclose a block. -/
inductive Bracket where
  | round
  | square
  | curly
deriving DecidableEq, Repr

def Bracket.opening : Bracket → Rune
  | .round => '('
  | .square => '['
  | .curly => '\x7b'

def Bracket.closing : Bracket → Rune
  | .round => ')'
  | .square => ']'
  | .curly => '\x7d'

/-- What is wrong with a piece of a style sheet. -/
inductive Fault where
  /-- A line ends inside a string. -/
  | brokenString
  /-- An address holds a character that it must not hold. -/
  | brokenUrl
  /-- The text ends inside a string. -/
  | openString
  /-- The text ends inside an address. -/
  | openUrl
  /-- A closing bracket that nothing has opened. -/
  | unmatched (closing : Rune)
deriving DecidableEq, Repr

inductive Token where
  | space (content : Chars)
  | comment (content : Chars)
  | ident (name : Chars)
  | atKeyword (name : Chars)
  /-- A name after a number sign; only some are names that could stand alone. -/
  | hash (isIdent : Bool) (name : Chars)
  /-- A string without its escapes; `closed` tells whether its last quote is there. -/
  | string (value : Chars) (closed : Bool)
  /-- An address without its escapes; `closed` tells whether its parenthesis is there. -/
  | url (value : Chars) (closed : Bool)
  /-- The numeral as written. -/
  | number (numeral : Chars)
  | percentage (numeral : Chars)
  | dimension (numeral unit : Chars)
  | unicodeRange (first last : Nat)
  | delimiter (text : Chars)
  | block (bracket : Bracket) (content : List Token)
  | function (name : Chars) (arguments : List Token)
  | fault (kind : Fault)
deriving Repr, Inhabited

/-- Whether the token is white space or a comment. -/
def Token.isGap : Token → Bool
  | .space _ => true
  | .comment _ => true
  | _ => false

/-- Whether the token is the delimiter of the given character. -/
def Token.isDelimiter (c : Rune) : Token → Bool
  | .delimiter text => text == [c]
  | _ => false

/-- Whether a numeral has neither a fraction nor an exponent. -/
def isWhole (numeral : Chars) : Bool :=
  numeral.all fun c => c.isDigit || c == .of '+' || c == .of '-'

/-- The numeral of a token that is a number, with a unit or without. -/
def Token.numeral? : Token → Option Chars
  | .number n => some n
  | .percentage n => some n
  | .dimension n _ => some n
  | _ => none

mutual

/-- The numerals of a token and of the tokens inside it, from left to right. -/
def Token.numerals : Token → List Chars
  | .block _ content => numeralsOf content
  | .function _ arguments => numeralsOf arguments
  | t => t.numeral?.toList

/-- The numerals of some tokens, from left to right. -/
def numeralsOf : List Token → List Chars
  | [] => []
  | t :: rest => t.numerals ++ numeralsOf rest

end

end Folio.Css
