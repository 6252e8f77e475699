import Folio.Css.Printer

/-!
The declarations of an inline style, as they stand between its semicolons. Rules and what cannot be
read as a declaration are set apart.
-/
namespace Folio.Css

/-- A property set to a value. -/
structure Declaration where
  name : Chars
  value : List Token
  important : Bool

/-- One item of an inline style. -/
inductive StyleItem where
  | declaration (d : Declaration)
  | space (content : Chars)
  | comment (content : Chars)
  /-- A rule, or something that is no declaration. -/
  | ignored

/-- The tokens after the first that is neither white space nor a comment, if that one is a
colon. -/
def afterColon? : List Token → Option (List Token)
  | [] => none
  | t :: rest =>
      if t.isGap then afterColon? rest else if t.isDelimiter ':' then some rest else none

/-- How far the mark of importance is read at the end of a value. -/
inductive Emphasis where
  | none
  | bang
  | important
deriving DecidableEq

/-- Whether the token is the word of the mark. -/
def isImportant : Token → Bool
  | .ident name => Text.lowerAscii name == "important".runes
  | _ => false

/-- How far the mark is read after one more token. -/
def Emphasis.next (state : Emphasis) (t : Token) : Emphasis :=
  if state == .none && t.isDelimiter '!' then .bang
  else if state == .bang && isImportant t then .important
  else if t.isGap then state
  else .none

/-- The length of the value without its mark of importance, if it ends in one. `bang` tells where
the mark began and `n` how many tokens were read. -/
def markAt? : Emphasis → Nat → Nat → List Token → Option Nat
  | state, bang, _, [] => if state == .important then some bang else none
  | state, bang, n, t :: rest =>
      let next := state.next t
      markAt? next (if state == .none && next == .bang then n else bang) (n + 1) rest

/-- The tokens of a value that are neither gaps nor part of a mark. -/
def contentOf : Emphasis → List Token → List Token
  | _, [] => []
  | state, t :: rest =>
      let next := state.next t
      if next == .none && !t.isGap then t :: contentOf next rest else contentOf next rest

/-- Whether a block in braces follows something else in a value. -/
def hasLaterBlock (value : List Token) : Bool :=
  ((contentOf .none value).drop 1).any fun
    | .block .curly _ => true
    | _ => false

/-- The declaration that some tokens make. -/
def declaration? : List Token → Option Declaration
  | .ident name :: rest => do
      let value ← afterColon? rest
      if hasLaterBlock value then none
      else match markAt? .none 0 0 value with
        | some n => some ⟨name, value.take n, true⟩
        | none => some ⟨name, value, false⟩
  | _ => none

/-- What follows a rule: its block or its semicolon ends it. -/
def skipRule : List Token → List Token
  | [] => []
  | .block .curly _ :: rest => rest
  | t :: rest => if t.isDelimiter ';' then rest else skipRule rest

/-- The items of an inline style. -/
def styleItemsGo : Nat → List Token → List StyleItem
  | 0, _ => []
  | _ + 1, [] => []
  | fuel + 1, t :: rest =>
      match t with
      | .space content => .space content :: styleItemsGo fuel rest
      | .comment content => .comment content :: styleItemsGo fuel rest
      | .atKeyword _ => .ignored :: styleItemsGo fuel (skipRule rest)
      | _ =>
          if t.isDelimiter ';' then styleItemsGo fuel rest
          else
            let inside := (t :: rest).takeWhile fun t => !t.isDelimiter ';'
            let item := match declaration? inside with
              | some d => .declaration d
              | none => .ignored
            item :: styleItemsGo fuel ((t :: rest).drop (inside.length + 1))

/-- The items of an inline style. -/
def styleItems (tokens : List Token) : List StyleItem := styleItemsGo (tokens.length + 1) tokens

/-- A declaration with its semicolon. -/
def Declaration.write (d : Declaration) : Chars :=
  writeIdent d.name ++ .of ':' :: writeTokens none d.value ++
    (if d.important then "!important".runes else []) ++ [.of ';']

def StyleItem.write : StyleItem → Chars
  | .declaration d => d.write
  | .space content => content
  | .comment content => "/*".runes ++ content ++ "*/".runes
  | .ignored => []

end Folio.Css
