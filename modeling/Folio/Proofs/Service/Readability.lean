import Folio.Proofs.Outcomes
import Folio.Proofs.Service.SizeLimit

/-!
Who may read the answers. Whatever a request from another origin asks for and however it is
answered, every origin may read the answer, and is told so once. The one exception is the answer to
a request that is too large, which is made outside of where origins are looked at.
-/
namespace Folio.Service

/-- The origins that are told that they may read, as some headers name them. -/
def Headers.origins (hs : Headers) : List Chars :=
  (hs.filter fun h => h.1 == "access-control-allow-origin".runes).map Prod.snd

theorem Headers.origins_append (hs more : Headers) :
    Headers.origins (hs ++ more) = hs.origins ++ more.origins := by
  rw [Headers.origins, List.filter_append, List.map_append]
  rfl

/-- A response as the routes make it: it says nothing about origins and is no refusal of a size. -/
structure Response.Inner (response : Response) : Prop where
  origins : response.headers.origins = []
  status : response.status ≠ 413

namespace Response

variable {response : Response} {status : Nat} {hs : Headers}

theorem inner_json (h : status ≠ 413) (value : Json) : (json status value).Inner := ⟨rfl, h⟩

theorem inner_sized (h : status ≠ 413) (type : Chars) (size : Nat) (body : Body) :
    (sized status type size body).Inner := ⟨rfl, h⟩

theorem Inner.withHeaders (h : response.Inner) (hhs : hs.origins = []) :
    (response.withHeaders hs).Inner := by
  refine ⟨?_, h.status⟩
  rw [Response.withHeaders, Headers.origins_append, h.origins, hhs]
  rfl

end Response

section Layers

variable {settings : Settings} {stamp : Stamp} {browsers : List Print.Browser} {r : Request}
  {response : Response}

theorem inner_pdfResponse (pdf : Chars) (fileName : Chars) :
    (pdfResponse pdf fileName).Inner :=
  (Response.inner_sized (by decide) _ _ _).withHeaders rfl

theorem inner_conversionResponse (conversion : Conversion) :
    (conversion.response stamp).Inner := by
  cases conversion with
  | printed pdf => exact inner_pdfResponse pdf _
  | explained pdf => exact (inner_pdfResponse pdf _).withHeaders rfl
  | failed message fallbackMessage => exact Response.inner_json (by decide) _

theorem inner_payloadResponse (e : PayloadError) : e.response.Inner := by
  cases e with
  | complaints cs => exact Response.inner_json (by decide) _
  | unreadable => exact Response.inner_json (by decide) _

theorem eq_of_answerAtOnce {answered : Response}
    (h : (answerAtOnce browsers answered).value = .ok response) : answered = response :=
  Except.ok.inj h

/-- What is sent is sent as it is. -/
theorem eq_of_send {sent : Response} (h : send sent = .ok response) : sent = response := by
  unfold send at h
  split at h
  · contradiction
  · exact Except.ok.inj h

theorem inner_of_refuse {e : PayloadError} (h : (refuse browsers e).value = .ok response) :
    response.Inner :=
  eq_of_send h ▸ inner_payloadResponse e

theorem inner_of_servePrint (h : (servePrint settings stamp browsers r).value = .ok response) :
    response.Inner := by
  unfold servePrint at h
  split at h
  · exact inner_of_refuse h
  · exact eq_of_send h ▸ inner_conversionResponse _

theorem inner_of_servePreview (h : (servePreview settings browsers r).value = .ok response) :
    response.Inner := by
  unfold servePreview at h
  split at h
  · exact inner_of_refuse h
  · dsimp only at h
    split at h
    · exact eq_of_send h ▸ (Response.inner_sized (by decide) _ _ _).withHeaders rfl
    · exact eq_of_send h ▸ Response.inner_json (by decide) _
    · contradiction

theorem inner_of_serve {route : Route}
    (h : (route.serve settings stamp browsers r).value = .ok response) : response.Inner := by
  cases route with
  | print => exact inner_of_servePrint h
  | preview => exact inner_of_servePreview h
  | health => exact eq_of_answerAtOnce h ▸ Response.inner_json (by decide) _

theorem inner_of_serveElsewhere (h : (serveElsewhere browsers r).value = .ok response) :
    response.Inner := by
  unfold serveElsewhere at h
  split at h
  · have hstatus : (307 : Nat) ≠ 413 := by decide
    exact eq_of_answerAtOnce h ▸ ⟨rfl, hstatus⟩
  · exact eq_of_answerAtOnce h ▸ Response.inner_json (by decide) _

/-- Whichever route answers, or none. -/
theorem inner_of_serveRoute (h : (serveRoute settings stamp browsers r).value = .ok response) :
    response.Inner := by
  unfold serveRoute at h
  split at h
  · exact inner_of_serveElsewhere h
  · split at h
    · exact inner_of_serve h
    · have hstatus : (405 : Nat) ≠ 413 := by decide
      exact eq_of_answerAtOnce h ▸ (Response.inner_json hstatus _).withHeaders rfl

/-- Every origin is told that it may read a response of the routes, and told once. -/
theorem origins_readable (horigin : (r.headers.value? "origin").isSome) (h : response.Inner) :
    (readable r response).headers.origins = [[.of '*']] := by
  rw [readable, if_pos horigin, Response.withHeaders, Headers.origins_append, h.origins]
  rfl

theorem origins_advanceResponse (r : Request) :
    (advanceResponse r).headers.origins = [[.of '*']] := by
  have hadvance : (advanceHeaders r).origins = [[.of '*']] := by
    unfold advanceHeaders
    split <;> rfl
  rw [advanceResponse, Response.withHeaders, Headers.origins_append, hadvance]
  split <;> rfl

theorem status_advanceResponse (r : Request) : (advanceResponse r).status ≠ 413 := by
  have hstatus : (advanceResponse r).status = 200 ∨ (advanceResponse r).status = 400 := by
    unfold advanceResponse
    split
    · exact Or.inl rfl
    · exact Or.inr rfl
  omega

/-- Where origins are looked at, every answer may be read. -/
theorem origins_of_serveOrigins (horigin : (r.headers.value? "origin").isSome)
    (h : (serveOrigins settings stamp browsers r).value = .ok response) :
    response.headers.origins = [[.of '*']] ∧ response.status ≠ 413 := by
  unfold serveOrigins at h
  split at h
  · obtain rfl := eq_of_answerAtOnce h
    exact ⟨origins_advanceResponse r, status_advanceResponse r⟩
  · obtain ⟨inner, hinner, rfl⟩ := exists_of_map_eq_ok h
    have hroute := inner_of_serveRoute hinner
    exact ⟨origins_readable horigin hroute, hroute.status⟩

/-- Every origin is told that it may read the answer to a request from another origin, whatever the
request asks for and whatever the browsers do, unless the request is too large: the answer to that
tells nothing. -/
theorem origins_of_answer (horigin : (r.headers.value? "origin").isSome)
    (h : (serve settings stamp browsers r).value = .ok response) :
    (response.headers.origins = [[.of '*']] ↔ response.status ≠ 413) ∧
      (response.status = 413 ↔ isTooLarge settings r = .ok true) ∧
      (response.status = 413 → response.headers.origins = []) := by
  cases hsize : isTooLarge settings r with
  | error e =>
      rw [serve, hsize] at h
      contradiction
  | ok tooLarge =>
      cases tooLarge with
      | true =>
          rw [serve, hsize] at h
          obtain rfl := eq_of_answerAtOnce h
          have hnone : (Response.detail 413 "Payload too large".runes).headers.origins = [] := rfl
          refine ⟨⟨fun hone => ?_, fun hstatus => absurd rfl hstatus⟩, ⟨fun _ => rfl, fun _ => rfl⟩,
            fun _ => hnone⟩
          rw [hnone] at hone
          contradiction
      | false =>
          rw [serve, hsize] at h
          obtain ⟨hone, hstatus⟩ := origins_of_serveOrigins horigin h
          exact ⟨⟨fun _ => hstatus, fun _ => hone⟩, ⟨fun h413 => absurd h413 hstatus, by simp⟩,
            fun h413 => absurd h413 hstatus⟩

/-- A request from another origin to print nothing, which names its size. -/
def foreignRequest (size : Chars) : Request where
  method := "POST".runes
  path := "/api/v1/bundle/bundleHtml2PDF".runes
  headers := [("content-type".runes, "application/json".runes),
    ("content-length".runes, size), ("origin".runes, "https://o.example".runes)]
  body := "\x7b\x7d".runes

/-- A browser that cannot be launched. -/
def absentBrowser : Print.Browser :=
  { Print.Browser.standard with failure := fun _ => some ['f'] }

/-- The answer is a message about two failures. -/
theorem origins_of_answer_absentBrowser : ((foreignRequest "2").headers.value? "origin").isSome ∧
    ∃ response, (serve .standard ⟨[], []⟩ [absentBrowser, absentBrowser]
        (foreignRequest "2")).value = .ok response ∧
      response.status = 500 ∧ response.headers.origins = [[.of '*']] := by
  have hfailed : (serve .standard ⟨[], []⟩ [absentBrowser, absentBrowser]
      (foreignRequest "2")).value.toOption.any fun response => response.status == 500 := by
    decide +kernel
  rw [Option.any_eq_true] at hfailed
  obtain ⟨response, hresponse, hstatus⟩ := hfailed
  replace hresponse := eq_ok_of_toOption hresponse
  rw [beq_iff_eq] at hstatus
  have horigin : ((foreignRequest "2").headers.value? "origin").isSome := by decide
  have hread := (origins_of_answer horigin hresponse).1.2 (by rw [hstatus]; decide)
  exact ⟨horigin, response, hresponse, hstatus, hread⟩

/-- One byte more than the limit is told without a word on who may read it. -/
theorem not_origins_of_every_answer : ¬ ∀ settings stamp browsers r response,
    (r.headers.value? "origin").isSome →
      (serve settings stamp browsers r).value = .ok response →
        (response.headers.value? "access-control-allow-origin").isSome := by
  intro hall
  have hanswer : (serve .standard ⟨[], []⟩ [] (foreignRequest "20971521")).value =
      .ok tooLargeResponse := by
    have hsize : isTooLarge .standard (foreignRequest "20971521") = .ok true :=
      eq_ok_of_toOption (by decide +kernel)
    rw [serve, hsize]
    rfl
  have hheader := hall .standard ⟨[], []⟩ [] _ _ (by decide) hanswer
  revert hheader
  decide

end Layers

end Folio.Service
