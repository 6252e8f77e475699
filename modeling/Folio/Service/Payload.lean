import Folio.Json.Reader
import Folio.Service.Message
import Folio.Settings

/-!
The payloads of requests: what is asked for, and everything that is wrong with a payload.
-/
namespace Folio.Service

/-- A request to print markup or a bundle. -/
structure ConversionRequest where
  html : Option Chars
  htmlContent : Option Chars
  bundle : Option (List (Chars × Json))
  options : List (Chars × Json)

/-- What is wrong at one place of a payload. -/
inductive Defect where
  | missing
  | notText
  | notObject
  /-- The payload itself is no object. -/
  | notFields
  /-- The payload is not JSON. -/
  | notJson (problem : Chars)
deriving DecidableEq, Repr

/-- A defect with its place, below the payload, and the value there. -/
structure Complaint where
  defect : Defect
  place : List Json
  input : Json

namespace Defect

def name : Defect → Chars
  | .missing => "missing"
  | .notText => "string_type"
  | .notObject => "dict_type"
  | .notFields => "model_attributes_type"
  | .notJson _ => "json_invalid"

def message : Defect → Chars
  | .missing => "Field required"
  | .notText => "Input should be a valid string"
  | .notObject => "Input should be a valid dictionary"
  | .notFields => "Input should be a valid dictionary or object to extract fields from"
  | .notJson _ => "JSON decode error"

end Defect

/-- The text of a complaint. -/
def Complaint.toJson (c : Complaint) : Json :=
  .obj ([("type".runes, .str c.defect.name), ("loc".runes, .arr (.str "body" :: c.place)),
    ("msg".runes, .str c.defect.message), ("input".runes, c.input)] ++
    match c.defect with
    | .notJson problem => [("ctx".runes, .obj [("error", .str problem)])]
    | _ => [])

/-- Why a payload is not taken. -/
inductive PayloadError where
  | complaints (cs : List Complaint)
  /-- The payload cannot be read at all. -/
  | unreadable

/-- The text without the mark of its encoding at its start. -/
def withoutMark : Chars → Chars
  | c :: rest => if c == '\ufeff' then rest else c :: rest
  | [] => []

/-- A body as JSON. -/
def readJson (settings : Settings) (body : Chars) : Except PayloadError Json :=
  match Json.read settings.maxDepth (withoutMark body) with
  | .ok j => .ok j
  | .error e =>
      match e.problem with
      | .numberTooLong => .error .unreadable
      | .nestedTooDeep => .error .unreadable
      | problem =>
          .error (.complaints [⟨.notJson problem.message, [.int e.position], .obj []⟩])

/-- The payload of a request: JSON if its type says so, a text if not; none for an empty body. -/
def Request.payload (r : Request) (settings : Settings) : Except PayloadError (Option Json) :=
  if r.body.isEmpty then .ok none
  else if ((r.headers.value? "content-type").map isJsonType).getD false then
    (readJson settings r.body).map some
  else .ok (some (.str r.body))

/-- A field of a payload, checked. -/
abbrev Checked (α : Type) := Except (List Complaint) α

def complain {α : Type} (defect : Defect) (key : Chars) (input : Json) : Checked α :=
  .error [⟨defect, [.str key], input⟩]

/-- Both fields; the complaints about the first come first. -/
def both {α β : Type} : Checked α → Checked β → Checked (α × β)
  | .ok a, .ok b => .ok (a, b)
  | .ok _, .error es => .error es
  | .error es, .ok _ => .error es
  | .error es, .error fs => .error (es ++ fs)

/-- A text that may be missing. -/
def optionalText (fields : List (Chars × Json)) (key : Chars) : Checked (Option Chars) :=
  match fields.lookup key with
  | none => .ok none
  | some .null => .ok none
  | some (.str s) => .ok (some s)
  | some j => complain .notText key j

/-- An object that may be missing. -/
def optionalObject (fields : List (Chars × Json)) (key : Chars) :
    Checked (Option (List (Chars × Json))) :=
  match fields.lookup key with
  | none => .ok none
  | some .null => .ok none
  | some (.obj es) => .ok (some es)
  | some j => complain .notObject key j

/-- An object that is empty if it is missing. -/
def objectOrEmpty (fields : List (Chars × Json)) (key : Chars) :
    Checked (List (Chars × Json)) :=
  match fields.lookup key with
  | none => .ok []
  | some (.obj es) => .ok es
  | some j => complain .notObject key j

/-- An object that must be there. -/
def requiredObject (fields : List (Chars × Json)) (key : Chars) :
    Checked (List (Chars × Json)) :=
  match fields.lookup key with
  | none => complain .missing key (.obj fields)
  | some (.obj es) => .ok es
  | some j => complain .notObject key j

/-- The fields of a payload. -/
def fieldsOf : Option Json → Checked (List (Chars × Json))
  | none => .error [⟨.missing, [], .null⟩]
  | some (.obj es) => .ok es
  | some j => .error [⟨.notFields, [], j⟩]

def bundleKey : Chars := "pdfDocumentBundle"

def ConversionRequest.ofFields (fields : List (Chars × Json)) : Checked ConversionRequest :=
  (both (both (optionalText fields "html") (optionalText fields "htmlContent"))
    (both (optionalObject fields bundleKey) (objectOrEmpty fields "pdfOptions"))).map
      fun ((html, htmlContent), (bundle, options)) => ⟨html, htmlContent, bundle, options⟩

/-- The payload of a request as some value. -/
def Request.read {α : Type} (r : Request) (settings : Settings)
    (ofFields : List (Chars × Json) → Checked α) : Except PayloadError α :=
  match r.payload settings with
  | .error e => .error e
  | .ok payload =>
      match (fieldsOf payload).bind ofFields with
      | .ok a => .ok a
      | .error cs => .error (.complaints cs)

/-- The response to a payload that is not taken. -/
def PayloadError.response : PayloadError → Response
  | .complaints cs => .json 422 (.obj [("detail", .arr (cs.map Complaint.toJson))])
  | .unreadable => .detail 400 "There was an error parsing the body".runes

end Folio.Service
