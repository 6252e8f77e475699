import Folio.Service.Conversion
import Folio.Service.CrossOrigin

/-!
The service: from a request to its response. Requests that are too large are refused before
anything else is looked at; then come the questions of browsers in advance, and then the routes.
-/
namespace Folio.Service

open Decimal (NumeralError)
open Document (CompileError)

/-- A failure that no part of the service answers. -/
inductive Fault where
  /-- The size of a request is written in digits that are no number. -/
  | size (e : NumeralError)
  | compile (e : CompileError)
  /-- A response has a number that cannot be written. -/
  | unwritable
  /-- A response has half of a surrogate pair, which cannot be written in bytes. -/
  | unencodable
deriving DecidableEq, Repr

/-- What is served, by method and path. -/
inductive Route where
  /-- Prints markup or a bundle. -/
  | print
  /-- Shows the document of a bundle. -/
  | preview
  | health
deriving DecidableEq, Repr

namespace Route

def all : List Route := [.print, .preview, .health]

def path : Route → Chars
  | .print => "/api/v1/bundle/bundleHtml2PDF".runes
  | .preview => "/api/v1/bundle/html".runes
  | .health => "/api/health".runes

def method : Route → Chars
  | .print => "POST".runes
  | .preview => "POST".runes
  | .health => "GET".runes

end Route

/-- How a request is answered: with a response, or with a failure. -/
abbrev Answer := Work (Except Fault Response)

/-- An answer for which nothing is done. -/
def answerAtOnce (browsers : List Print.Browser) (response : Response) : Answer :=
  ⟨.ok response, [], [], browsers⟩

/-- Whether a text can be written in bytes: it has no half of a surrogate pair. -/
def isEncodable (s : Chars) : Bool := !s.any Rune.isHalf

section Leaves

variable (number : Decimal.Binary64 → Bool) (text : Chars → Bool)

mutual
/-- Whether the numbers with a fraction and the texts of a value, its keys among them, pass their
tests. -/
def leavesPass : Json → Bool
  | .real x => number x
  | .str s => text s
  | .arr items => itemsPass items
  | .obj entries => entriesPass entries
  | _ => true

def itemsPass : List Json → Bool
  | [] => true
  | j :: rest => leavesPass j && itemsPass rest

def entriesPass : List (Chars × Json) → Bool
  | [] => true
  | (key, j) :: rest => text key && leavesPass j && entriesPass rest
end

end Leaves

/-- Why a content cannot be sent. A value is written out before it is turned into bytes. -/
def Body.fault? : Body → Option Fault
  | .json value =>
      if !leavesPass Decimal.Binary64.isFinite (fun _ => true) value then some .unwritable
      else if !leavesPass (fun _ => true) isEncodable value then some .unencodable
      else none
  | .text content => if isEncodable content then none else some .unencodable
  | .bytes _ => none

/-- A response on its way out. -/
def send (response : Response) : Except Fault Response :=
  match response.body.fault? with
  | some fault => .error fault
  | none => .ok response

/-- The answer to a payload that is not taken. -/
def refuse (browsers : List Print.Browser) (e : PayloadError) : Answer :=
  ⟨send e.response, [], [], browsers⟩

/-- A request to print. -/
def servePrint (settings : Settings) (stamp : Stamp) (browsers : List Print.Browser)
    (r : Request) : Answer :=
  match r.read settings ConversionRequest.ofFields with
  | .error e => refuse browsers e
  | .ok conversion =>
      let w := convert settings browsers conversion
      ⟨send (w.value.response stamp), w.steps, w.records, w.browsers⟩

/-- The response with a compiled document. -/
def previewResponse (html : Chars) : Response :=
  (Response.plain 200 "text/html" html).withHeaders [("cache-control".runes, "no-store".runes)]

/-- A request to see the document of a bundle. -/
def servePreview (settings : Settings) (browsers : List Print.Browser) (r : Request) : Answer :=
  match r.read settings fun fields => requiredObject fields bundleKey with
  | .error e => refuse browsers e
  | .ok entries =>
      let compiled := Document.compile (.obj entries)
      let value := match compiled.value with
        | .ok html => send (previewResponse html)
        | .error (.normalize (.structural e)) => send (Response.detail 400 e.message)
        | .error e => .error (.compile e)
      ⟨value, [], compiled.records, browsers⟩

/-- A request to a route. -/
def Route.serve (settings : Settings) (stamp : Stamp) (browsers : List Print.Browser)
    (r : Request) : Route → Answer
  | .print => servePrint settings stamp browsers r
  | .preview => servePreview settings browsers r
  | .health => answerAtOnce browsers (.json 200 (.obj [("ok", .bool true)]))

/-- The path with a slash at its end, or without one if it had one. -/
def otherSlash (path : Chars) : Chars :=
  if path.getLast? = some (.of '/') then Text.dropEnd (· == .of '/') path else path ++ [.of '/']

/-- A request to a path that no route has: it is sent on if a slash at the end makes the
difference. -/
def serveElsewhere (browsers : List Print.Browser) (r : Request) : Answer :=
  if r.path != [.of '/'] && Route.all.any fun route => route.path == otherSlash r.path then
    answerAtOnce browsers ⟨307, [("content-length".runes, ['0']),
      ("location".runes, otherSlash r.path)], .text []⟩
  else answerAtOnce browsers (.detail 404 "Not Found".runes)

/-- A request by its path and method. -/
def serveRoute (settings : Settings) (stamp : Stamp) (browsers : List Print.Browser)
    (r : Request) : Answer :=
  match Route.all.find? fun route => route.path == r.path with
  | none => serveElsewhere browsers r
  | some route =>
      if route.method == r.method then route.serve settings stamp browsers r
      else answerAtOnce browsers ((Response.detail 405 "Method Not Allowed".runes).withHeaders
        [("allow".runes, route.method)])

/-- A request that may come from another origin. -/
def serveOrigins (settings : Settings) (stamp : Stamp) (browsers : List Print.Browser)
    (r : Request) : Answer :=
  if asksInAdvance r then answerAtOnce browsers (advanceResponse r)
  else
    let a := serveRoute settings stamp browsers r
    { a with value := a.value.map (readable r) }

/-- Whether a character counts as a digit where the size of a request is looked for: a decimal
digit, or a small raised one. -/
def isSizeDigit (c : Rune) : Bool :=
  (Decimal.digitValue? c).isSome || c == '\xb2' || c == '\xb3' || c == '\xb9'

/-- Whether a request says that it is too large. -/
def isTooLarge (settings : Settings) (r : Request) : Except NumeralError Bool :=
  match r.headers.value? "content-length" with
  | none => .ok false
  | some size =>
      if size.isEmpty || !size.all isSizeDigit then .ok false
      else (Decimal.readWhole size).map fun n => decide (settings.maxBytes < n)

/-- The answer to a request. -/
def serve (settings : Settings) (stamp : Stamp) (browsers : List Print.Browser)
    (r : Request) : Answer :=
  match isTooLarge settings r with
  | .error e => ⟨.error (.size e), [], [], browsers⟩
  | .ok true => answerAtOnce browsers (.detail 413 "Payload too large".runes)
  | .ok false => serveOrigins settings stamp browsers r

/-- The response to a failure that nothing else answers. -/
def faultResponse : Response := .plain 500 "text/plain" "Internal Server Error".runes

/-- The answers to some requests, one after the other. -/
def serveAll (settings : Settings) (stamp : Stamp) :
    List Print.Browser → List Request → List Answer
  | _, [] => []
  | browsers, r :: rest =>
      let a := serve settings stamp browsers r
      a :: serveAll settings stamp a.browsers rest

end Folio.Service
