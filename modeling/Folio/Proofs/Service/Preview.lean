import Folio.Proofs.Document.Refusals
import Folio.Proofs.Service.Answers
import Folio.Proofs.Service.Encoding

/-!
The answers to requests to see the document of a bundle. A readable bundle is answered with its
document and one of the wrong structure with what is wrong; any other failure is left to the
outside.
-/
namespace Folio.Service

open Document (CompileError Readable StructureError compile structureError?)

/-- The request asks to see the document of a bundle with the given entries, and is not too large. -/
structure Request.Previews (r : Request) (settings : Settings) (entries : List (Chars × Json)) :
    Prop where
  path : r.path = Route.preview.path
  method : r.method = Route.preview.method
  size : isTooLarge settings r = .ok false
  payload : r.read settings (fun fields => requiredObject fields bundleKey) = .ok entries

section Preview

variable {settings : Settings} {stamp : Stamp} {browsers : List Print.Browser} {r : Request}
  {entries : List (Chars × Json)}

theorem send_previewResponse (html : Chars) : send (previewResponse html) =
    if isEncodable html then .ok (previewResponse html) else .error .unencodable := by
  have hbody : (previewResponse html).body = .text html := rfl
  rw [send, hbody, Body.fault?]
  cases isEncodable html <;> rfl

/-- What is wrong with a structure can always be told. -/
theorem send_structureError (e : StructureError) :
    send (Response.detail 400 e.message) = .ok (Response.detail 400 e.message) := by
  cases e <;> rfl

/-- A request to see a document is answered by what comes of its bundle. -/
theorem serve_of_previews (h : r.Previews settings entries) :
    (serve settings stamp browsers r).value =
      match (compile (.obj entries)).value with
      | .ok html =>
          if isEncodable html then .ok (readable r (previewResponse html)) else .error .unencodable
      | .error (.normalize (.structural e)) => .ok (readable r (Response.detail 400 e.message))
      | .error e => .error (.compile e) := by
  rw [serve_of_route h.path h.method h.size]
  simp only [Route.serve, servePreview, h.payload]
  cases (compile (.obj entries)).value with
  | ok html =>
      dsimp only
      rw [send_previewResponse]
      split <;> rfl
  | error e =>
      rcases e with (e | e) | e
      · dsimp only
        rw [send_structureError]
        rfl
      · rfl
      · rfl

end Preview

/-- What becomes of a bundle, and how a request to see its document is answered. If the structure of
the bundle is right and all that is read of it can be read, there is a document, and it is the
answer unless it has half of a surrogate pair, which cannot be written in bytes. If the structure is
wrong, that is the error, and the answer tells it. In the one case that is left, a length is out of
range or markup is refused, and the error is answered by no one. -/
theorem preview_outcomes (entries : List (Chars × Json)) :
    (structureError? (.obj entries) = none → Readable (.obj entries) →
      ∃ html, (compile (.obj entries)).value = .ok html ∧
        ∀ settings stamp browsers r, r.Previews settings entries →
          (isEncodable html → ∃ response, (serve settings stamp browsers r).value = .ok response ∧
            response.status = 200 ∧ response.body = .text html) ∧
          (¬ isEncodable html → (serve settings stamp browsers r).value = .error .unencodable)) ∧
    (∀ e, structureError? (.obj entries) = some e →
      (compile (.obj entries)).value = .error (.normalize (.structural e)) ∧
        ∀ settings stamp browsers r, r.Previews settings entries →
          ∃ response, (serve settings stamp browsers r).value = .ok response ∧
            response.status = 400 ∧
            response.body = .json (.obj [("detail", .str e.message)])) ∧
    (structureError? (.obj entries) = none → ¬Readable (.obj entries) →
      ∃ e, (compile (.obj entries)).value = .error e ∧
        (∀ structural, e ≠ .normalize (.structural structural)) ∧
        ∀ settings stamp browsers r, r.Previews settings entries →
          (serve settings stamp browsers r).value = .error (.compile e)) := by
  refine ⟨fun hstructure hreadable => ?_, fun e hstructure => ?_, fun hstructure hnot => ?_⟩
  · obtain ⟨html, hhtml⟩ := (Document.compile_of_structure hstructure).1 hreadable
    refine ⟨html, hhtml, fun settings stamp browsers r hr => ?_⟩
    rw [serve_of_previews hr, hhtml]
    refine ⟨fun hencodable => ?_, fun hhalf => ?_⟩
    · exact ⟨_, if_pos hencodable, rfl, rfl⟩
    · exact if_neg hhalf
  · have he := Document.compile_of_structureError hstructure
    refine ⟨he, fun settings stamp browsers r hr => ?_⟩
    rw [serve_of_previews hr, he]
    exact ⟨_, rfl, rfl, rfl⟩
  · obtain ⟨e, he, hother⟩ := (Document.compile_of_structure hstructure).2 hnot
    refine ⟨e, he, hother, fun settings stamp browsers r hr => ?_⟩
    rw [serve_of_previews hr, he]
    rcases e with (e | e) | e
    · exact absurd rfl (hother e)
    · rfl
    · rfl

/-- A request to see a document of one page, with a header of its own height. -/
def pageRequest : Request where
  method := "POST".runes
  path := "/api/v1/bundle/html".runes
  headers := [("content-type".runes, "application/json".runes)]
  body := "\x7b\"pdfDocumentBundle\":\x7b\"head\":\x7b\"title\":\"t\"\x7d,".runes ++
    "\"body\":\x7b\"pages\":[\x7b\"body\":\"<p>&#38;\",\"headerHeight\":30\x7d]\x7d\x7d\x7d".runes

/-- Its document is the answer. -/
theorem preview_outcomes_page : ∃ entries html response,
    pageRequest.Previews .standard entries ∧ (compile (.obj entries)).value = .ok html ∧
      (serve .standard ⟨[], []⟩ [] pageRequest).value = .ok response ∧
      response.status = 200 ∧ response.body = .text html := by
  have hchecks : (pageRequest.read .standard fun fields =>
        requiredObject fields bundleKey).toOption.any
      (fun entries => structureError? (.obj entries) = none ∧
        (∀ value ∈ Document.lengthValues (.obj entries), Document.Fits value) ∧
        (Document.Bundle.read (.obj entries)).toOption.any fun b =>
          b.fragments.all Markup.isAcceptable ∧ (∀ part ∈ writtenParts b, isEncodable part) ∧
            (Document.assemblePages b).value.toOption.all isEncodable) := by
    decide +kernel
  rw [Option.any_eq_true] at hchecks
  obtain ⟨entries, hentries, hchecks⟩ := hchecks
  obtain ⟨hstructure, hlengths, hbundle⟩ := of_decide_eq_true hchecks
  rw [Option.any_eq_true] at hbundle
  obtain ⟨b, hb, hbundle⟩ := hbundle
  obtain ⟨hmarkup, hparts, hsections⟩ := of_decide_eq_true hbundle
  replace hb := eq_ok_of_toOption hb
  have hpreviews : pageRequest.Previews .standard entries :=
    ⟨rfl, rfl, rfl, eq_ok_of_toOption hentries⟩
  have hreadable : Readable (.obj entries) := by
    refine Document.readable_of_isAcceptable hlengths fun b' hb' => ?_
    obtain rfl := Except.ok.inj (hb.symm.trans hb')
    exact List.all_eq_true.1 hmarkup
  obtain ⟨html, hhtml, hanswer⟩ := (preview_outcomes entries).1 hstructure hreadable
  have hencodable : isEncodable html := by
    obtain ⟨written, hwritten, hcompile⟩ | ⟨e, -, hcompile⟩ := Document.compile_of_read hb
    · obtain rfl := Except.ok.inj (hcompile.symm.trans hhtml)
      obtain ⟨sections, hassembled, hiff⟩ := isEncodable_of_compile hwritten
      rw [hassembled] at hsections
      exact hiff.2 ⟨hsections, hparts⟩
    · cases hcompile.symm.trans hhtml
  obtain ⟨response, hresponse, hstatus, hbody⟩ :=
    (hanswer .standard ⟨[], []⟩ [] pageRequest hpreviews).1 hencodable
  exact ⟨entries, html, response, hpreviews, hhtml, hresponse, hstatus, hbody⟩

/-- A bundle of one page whose body is a marked section that is not known. -/
def sectionEntries : List (Chars × Json) :=
  [("head", .obj [("title", .str "t")]),
    ("body", .obj [("pages", .arr [.obj [("body", .str "<![x y]>")]])])]

/-- There are errors that are not about the structure of a bundle. -/
theorem not_preview_always_declared : ¬∀ entries : List (Chars × Json),
    (∃ html, (compile (.obj entries)).value = .ok html) ∨
      ∃ e, (compile (.obj entries)).value = .error (.normalize (.structural e)) := by
  intro hdeclared
  have herror : (match (compile (.obj sectionEntries)).value with
      | .error (.markup _) => true
      | _ => false) = true := by
    decide +kernel
  rcases hdeclared sectionEntries with ⟨html, hhtml⟩ | ⟨e, he⟩
  · rw [hhtml] at herror
    contradiction
  · rw [he] at herror
    contradiction

end Folio.Service
