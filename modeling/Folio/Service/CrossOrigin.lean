import Folio.Service.Message

/-!
Requests from pages of other origins. Every origin is let in, with any method and header but not
from a private network; a browser's question in advance is answered here.
-/
namespace Folio.Service

/-- The methods of requests from other origins. -/
def crossOriginMethods : List Chars :=
  ["DELETE", "GET", "HEAD", "OPTIONS", "PATCH", "POST", "PUT", "QUERY"]

/-- Every origin may read the response. -/
def anyOrigin : Chars × Chars := ("access-control-allow-origin".runes, ['*'])

/-- The names in one text. -/
def listed (names : List Chars) : Chars := List.intercalate [.of ',', .of ' '] names

/-- What is not let in. -/
def refusals (r : Request) : List Chars :=
  (match r.headers.value? "access-control-request-method" with
    | some m => if crossOriginMethods.contains m then [] else ["method".runes]
    | none => []) ++
  (if (r.headers.value? "access-control-request-private-network").isSome then
    ["private-network".runes] else [])

/-- The headers of an answer in advance. -/
def advanceHeaders (r : Request) : Headers :=
  [("vary".runes, listed ["Origin", "Access-Control-Request-Method",
      "Access-Control-Request-Headers", "Access-Control-Request-Private-Network"]),
    anyOrigin, ("access-control-allow-methods".runes, listed crossOriginMethods),
    ("access-control-max-age".runes, "600".runes)] ++
  match r.headers.value? "access-control-request-headers" with
  | some names => [("access-control-allow-headers".runes, names)]
  | none => []

/-- The answer to a question in advance. -/
def advanceResponse (r : Request) : Response :=
  (match refusals r with
    | [] => Response.plain 200 "text/plain" "OK".runes
    | names => Response.plain 400 "text/plain" ("Disallowed CORS ".runes ++ listed names)
  ).withHeaders (advanceHeaders r)

/-- Whether a browser asks in advance what is let in. -/
def asksInAdvance (r : Request) : Bool :=
  r.method == "OPTIONS".runes && (r.headers.value? "origin").isSome &&
    (r.headers.value? "access-control-request-method").isSome

/-- A response to a request that may come from another origin. -/
def readable (r : Request) (response : Response) : Response :=
  response.withHeaders (("vary".runes, "Origin".runes) ::
    if (r.headers.value? "origin").isSome then [anyOrigin] else [])

end Folio.Service
