import Folio.Json.Writer
import Folio.Text.Case
import Folio.Text.Search

/-!
Requests and responses. The names of headers are in small letters; a header stands once.
-/
namespace Folio.Service

abbrev Headers := List (Chars × Chars)

/-- The value of a header. -/
def Headers.value? (hs : Headers) (name : Chars) : Option Chars := hs.lookup name

structure Request where
  method : Chars
  path : Chars
  headers : Headers
  body : Chars

/-- The content of a response. -/
inductive Body where
  | json (value : Json)
  | text (content : Chars)
  /-- Bytes, each a character below 256. -/
  | bytes (content : Chars)

structure Response where
  status : Nat
  headers : Headers
  body : Body

namespace Response

/-- A response of JSON. -/
def json (status : Nat) (value : Json) : Response :=
  ⟨status, [("content-type".runes, "application/json".runes)], .json value⟩

/-- A response that tells one thing. -/
def detail (status : Nat) (text : Chars) : Response :=
  json status (.obj [("detail", .str text)])

/-- A response with the number of its bytes. -/
def sized (status : Nat) (type : Chars) (size : Nat) (body : Body) : Response :=
  ⟨status, [("content-length".runes, Text.decimal size), ("content-type".runes, type)], body⟩

/-- A response of bytes. -/
def bytes (status : Nat) (type : Chars) (content : Chars) : Response :=
  sized status type content.length (.bytes content)

/-- The response with more headers. -/
def withHeaders (r : Response) (hs : Headers) : Response := { r with headers := r.headers ++ hs }

end Response

/-- The number of bytes of a text. -/
def byteCount (s : Chars) : Nat := s.foldl (fun n c => n + c.utf8Size) 0

/-- A response of a text in the common encoding. -/
def Response.plain (status : Nat) (type : Chars) (content : Chars) : Response :=
  .sized status (type ++ "; charset=utf-8".runes) (byteCount content) (.text content)

/-- The type of a content, without its parameters: what stands before and after the slash, in small
letters. A type without exactly one slash counts as plain text. -/
def mediaType (value : Chars) : Chars × Chars :=
  let bare := match Text.splitAtFirst? ';' value with
    | some (before, _) => before
    | none => value
  match Text.splitOn '/' (Text.lower (Text.trim bare)) with
  | [main, sub] => (main, sub)
  | _ => ("text".runes, "plain".runes)

/-- Whether a content is JSON by its type. -/
def isJsonType (value : Chars) : Bool :=
  let (main, sub) := mediaType value
  main == "application".runes && (sub == "json".runes || "+json".runes.isSuffixOf sub)

example : isJsonType "application/json; charset=utf-8".runes = true := by decide
example : isJsonType "text/json".runes = false := by decide

end Folio.Service
