import Folio.Text.Case
import Folio.Text.Search

/-!
Addresses of resources, and which of them leave the document: absolute web addresses and those
that only leave out the scheme. Data addresses and relative ones stay.
-/
namespace Folio.Resource

/-- Whether an address leaves the document. -/
def isExternal (url : Chars) : Bool :=
  let u := Text.lower (Text.trim url)
  "http://".runes.isPrefixOf u || "https://".runes.isPrefixOf u || "//".runes.isPrefixOf u

/-- The addresses of a set of image candidates: in each piece between commas, what stands before
its first space. -/
def candidates (value : Chars) : List Chars :=
  (Text.splitOn ',' value).map fun piece => (Text.trim piece).takeWhile (· != .of ' ')

/-- Whether some image candidate leaves the document. -/
def hasExternalCandidate (value : Chars) : Bool := (candidates value).any isExternal

/-- Whether a text could hold an address that leaves the document. -/
def mayLeave (text : Chars) : Bool :=
  let t := Text.lower text
  Text.occurs "http:".runes t || Text.occurs "https:".runes t || Text.occurs "//".runes t

example : isExternal " HTTPS://x".runes = true := by decide
example : isExternal "data:x".runes = false := by decide
example : hasExternalCandidate "a.png 1x, //x/b.png 2x".runes = true := by decide

end Folio.Resource
