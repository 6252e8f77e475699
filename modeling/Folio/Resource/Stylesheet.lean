import Folio.Resource.Address

/-!
Style sheets without resources from outside: an import of an external address disappears up to its
semicolon, and the address of any other external resource becomes `none`.
-/
namespace Folio.Resource

/-- A piece of a style sheet that names an address: the address, the text of the piece, and what
follows it. -/
structure Mention where
  url : Chars
  text : Chars
  rest : Chars

/-- The text between two places. -/
def between (s rest : Chars) : Chars := s.take (s.length - rest.length)

def isQuote (c : Rune) : Bool := c == '\'' || c == '"'

/-- The characters of an address in an import. -/
def isImportChar (c : Rune) : Bool :=
  !(c == '\'' || c == '"' || c == ')' || c == ';' || Text.isBlank c)

/-- An address between quotes, or without them, and what follows it. -/
def importUrl? (s : Chars) : Option (Chars × Chars) :=
  match s with
  | [] => none
  | c :: rest =>
      let body := if isQuote c then rest else s
      let url := body.takeWhile isImportChar
      let after := body.drop url.length
      if url.isEmpty then none
      else if isQuote c then
        match after with
        | d :: after => if d == c then some (url, after) else none
        | [] => none
      else some (url, after)

/-- The import that begins a text. It ends after the next semicolon. An address that cannot be
read inside `url(` is read with these characters as its beginning. -/
def import? (s : Chars) : Option Mention := do
  let afterWord ← Text.dropWord? "@import".runes s
  let body := Text.trimLeft afterWord
  if body.length == afterWord.length then none
  else
    let inFunction := (Text.dropWord? "url(".runes body).bind fun inside =>
      importUrl? (Text.trimLeft inside)
    let (url, after) ← inFunction.orElse fun _ => importUrl? body
    let rest := (after.dropWhile (· != .of ';')).drop 1
    return ⟨url, between s rest, rest⟩

/-- What follows a closing parenthesis after blanks. -/
def closeParen? (s : Chars) : Option Chars :=
  match Text.trimLeft s with
  | ')' :: rest => some rest
  | _ => none

/-- The shortest address on the line after which `close?` succeeds, and what follows. -/
def lineUrl? (close? : Chars → Option Chars) : Chars → Option (Chars × Chars)
  | [] => none
  | c :: rest =>
      match close? (c :: rest) with
      | some after => some ([], after)
      | none =>
          if c == '\n' then none
          else (lineUrl? close? rest).map fun (url, after) => (c :: url, after)

/-- The address that begins a text as `url(…)`: between quotes if these can be closed, and
otherwise all up to the parenthesis. -/
def url? (s : Chars) : Option Mention := do
  let afterName ← Text.dropWord? "url(".runes s
  let body := Text.trimLeft afterName
  let quoted := match body with
    | [] => none
    | c :: inside =>
        if isQuote c then
          lineUrl? (fun t => (Text.dropPrefix? [c] t).bind closeParen?) inside
        else none
  let (url, rest) ← quoted.orElse fun _ => lineUrl? closeParen? body
  return ⟨url, between s rest, rest⟩

/-- Each piece that `find?` finds, from left to right, replaced by `new` if its address is
external. -/
def replaceMentions (find? : Chars → Option Mention) (new : Chars) : Nat → Chars → Chars
  | 0, s => s
  | _ + 1, [] => []
  | fuel + 1, c :: s =>
      match find? (c :: s) with
      | some m =>
          (if isExternal m.url then new else m.text) ++ replaceMentions find? new fuel m.rest
      | none => c :: replaceMentions find? new fuel s

/-- A style sheet without the imports of external addresses. -/
def stripImports (css : Chars) : Chars := replaceMentions import? [] (css.length + 1) css

/-- A style sheet with `none` for every external address. -/
def stripUrls (css : Chars) : Chars := replaceMentions url? "none".runes (css.length + 1) css

/-- A style sheet without resources from outside. -/
def stripCss (css : Chars) : Chars :=
  if mayLeave css then stripUrls (stripImports css) else css

example : stripCss "@import url(https://x/a.css);p\x7b\x7d".runes = "p\x7b\x7d".runes := by
  decide
example : stripCss "a\x7bb:url( \"//x/y\" ) c\x7d".runes = "a\x7bb:none c\x7d".runes := by
  decide

end Folio.Resource
