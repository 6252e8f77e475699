import Folio.Proofs.Outcomes
import Folio.Proofs.Print.Launches
import Folio.Service.App

/-!
The answers to requests to print. Whatever goes wrong on the way and however the browsers behave,
such a request is replied to: with the print that was asked for, with the print of a document that
tells why there is none, or with a message if that cannot be printed either. Which of the three it
is depends on the first attempt and on the print of that document, and on nothing else. The reply
becomes a response, except a message that cannot be written in bytes.
-/
namespace Folio.Service

open Print (Rendered launches)

/-- How the first attempt at a conversion ends, and how many browsers it launches: the request has
nothing to print, its options are no options, or its markup is rendered in the next browser. -/
inductive FirstAttempt (settings : Settings) (browsers : List Print.Browser)
    (c : ConversionRequest) : Except ConversionError Rendered → Nat → Prop
  | notCompiled {e : ConversionError} (hmarkup : c.markup.value = .error e) :
      FirstAttempt settings browsers c (.error e) 0
  | notRead {m : Markup} {e : Decimal.NumeralError} (hmarkup : c.markup.value = .ok m)
      (hoptions : (Print.Options.read c.options).value = .error e) :
      FirstAttempt settings browsers c (.error (.options e)) 0
  | notRendered {m : Markup} {options : Print.Options} {e : Print.RenderError}
      (hmarkup : c.markup.value = .ok m)
      (hoptions : (Print.Options.read c.options).value = .ok options)
      (hrender : (Print.render settings (nextBrowser browsers)
        ⟨m.html, options, m.fromBundle, m.waits⟩).outcome = .error e) :
      FirstAttempt settings browsers c (.error (.render e)) 1
  | rendered {m : Markup} {options : Print.Options} {r : Rendered}
      (hmarkup : c.markup.value = .ok m)
      (hoptions : (Print.Options.read c.options).value = .ok options)
      (hrender : (Print.render settings (nextBrowser browsers)
        ⟨m.html, options, m.fromBundle, m.waits⟩).outcome = .ok r) :
      FirstAttempt settings browsers c (.ok r) 1

/-- The message of a conversion that failed. -/
def failureMessage (e : ConversionError) : Chars :=
  orElseText e.message "An unknown error occurred"

/-- How the document that tells of a failure is printed when some browsers were launched before. -/
def secondPrint (settings : Settings) (browsers : List Print.Browser) (launched : Nat)
    (e : ConversionError) : Except Print.RenderError Rendered :=
  (Print.render settings (nextBrowser (browsers.drop launched))
    (failureJob (failureMessage e))).outcome

/-- The ways in which a request to print is answered. -/
inductive Reply where
  /-- What was asked for, printed. -/
  | printed (bytes : Chars)
  /-- A printed document that tells what went wrong. -/
  | explained (bytes : Chars)
  /-- The messages of both failures. -/
  | failure (message fallbackMessage : Chars)

/-- How a response of each kind looks. -/
def Response.Is (response : Response) : Reply → Prop
  | .printed bytes =>
      response.status = 200 ∧ response.headers.value? "x-error" = none ∧
        response.body = .bytes bytes
  | .explained bytes =>
      response.status = 200 ∧ response.headers.value? "x-error" = some "true".runes ∧
        response.headers.value? "content-disposition" =
          some "attachment; filename=\"bundle-html2pdf-error.pdf\"".runes ∧
        response.body = .bytes bytes
  | .failure message fallbackMessage =>
      response.status = 500 ∧ ∃ stamp : Chars, response.body =
        .json (.obj [("success", .bool false), ("error", .obj [
          ("message", .str "PDF generation failed and fallback also failed"),
          ("originalError", .str message),
          ("fallbackError", .str fallbackMessage),
          ("timestamp", .str stamp)])])

/-- Whether a reply can be written in bytes. Prints are bytes already. -/
def Reply.isEncodable (stamp : Stamp) : Reply → Bool
  | .failure message fallbackMessage =>
      Service.isEncodable message && Service.isEncodable fallbackMessage &&
        Service.isEncodable stamp.inMessage
  | _ => true

/-- A response is of one kind only. -/
theorem Response.Is.unique {response : Response} {reply reply' : Reply} (h : response.Is reply)
    (h' : response.Is reply') : reply = reply' := by
  cases reply with
  | printed bytes =>
      obtain ⟨hstatus, hmark, hbody⟩ := h
      cases reply' with
      | printed bytes' => rw [Body.bytes.inj (hbody.symm.trans h'.2.2)]
      | explained bytes' => cases hmark.symm.trans h'.2.1
      | failure message' fallback' => cases hstatus.symm.trans h'.1
  | explained bytes =>
      obtain ⟨hstatus, hmark, -, hbody⟩ := h
      cases reply' with
      | printed bytes' => cases hmark.symm.trans h'.2.1
      | explained bytes' => rw [Body.bytes.inj (hbody.symm.trans h'.2.2.2)]
      | failure message' fallback' => cases hstatus.symm.trans h'.1
  | failure message fallback =>
      obtain ⟨hstatus, stamp, hbody⟩ := h
      cases reply' with
      | printed bytes' => cases hstatus.symm.trans h'.1
      | explained bytes' => cases hstatus.symm.trans h'.1
      | failure message' fallback' =>
          obtain ⟨-, stamp', hbody'⟩ := h'
          have heq := hbody.symm.trans hbody'
          simp only [Body.json.injEq, Json.obj.injEq, List.cons.injEq, Prod.mk.injEq,
            Json.str.injEq, true_and, and_true] at heq
          rw [heq.1, heq.2.1]

section Attempt

variable (settings : Settings) (browsers : List Print.Browser) (c : ConversionRequest)

/-- The first attempt ends in one of the ways there are, and takes off the browsers it launches. -/
theorem firstAttempt_attempt :
    FirstAttempt settings browsers c (attempt settings browsers c).value
        (launches (attempt settings browsers c).steps) ∧
      (attempt settings browsers c).browsers =
        browsers.drop (launches (attempt settings browsers c).steps) := by
  cases hmarkup : c.markup.value with
  | error e =>
      have hjob : c.job.value = .error e := by
        simp [ConversionRequest.job, Logged.andThen, hmarkup, Logged.quiet]
      cases hwhole : c.job with
      | mk value records =>
          rw [hwhole] at hjob
          obtain rfl : value = .error e := hjob
          rw [attempt, hwhole]
          exact ⟨FirstAttempt.notCompiled hmarkup, rfl⟩
  | ok m =>
      cases hoptions : (Print.Options.read c.options).value with
      | error e =>
          have hjob : c.job.value = .error (.options e) := by
            simp [ConversionRequest.job, Logged.andThen, hmarkup, Logged.map, hoptions]
          cases hwhole : c.job with
          | mk value records =>
              rw [hwhole] at hjob
              obtain rfl : value = .error (.options e) := hjob
              rw [attempt, hwhole]
              exact ⟨FirstAttempt.notRead hmarkup hoptions, rfl⟩
      | ok options =>
          have hjob : c.job.value = .ok ⟨m.html, options, m.fromBundle, m.waits⟩ := by
            simp [ConversionRequest.job, Logged.andThen, hmarkup, Logged.map, hoptions]
          cases hwhole : c.job with
          | mk value records =>
              rw [hwhole] at hjob
              obtain rfl : value = .ok ⟨m.html, options, m.fromBundle, m.waits⟩ := hjob
              simp only [attempt, hwhole, printNext, Print.launches_render]
              refine ⟨?_, trivial⟩
              cases hrender : (Print.render settings (nextBrowser browsers)
                  ⟨m.html, options, m.fromBundle, m.waits⟩).outcome with
              | error e => exact FirstAttempt.notRendered hmarkup hoptions hrender
              | ok r => exact FirstAttempt.rendered hmarkup hoptions hrender

variable {settings browsers c}

/-- How the first attempt ends is settled by the request and the browsers. -/
theorem FirstAttempt.unique {first first' : Except ConversionError Rendered} {n n' : Nat}
    (h : FirstAttempt settings browsers c first n)
    (h' : FirstAttempt settings browsers c first' n') : first = first' ∧ n = n' := by
  cases h <;> cases h' <;> simp_all

theorem FirstAttempt.le_one {first : Except ConversionError Rendered} {n : Nat}
    (h : FirstAttempt settings browsers c first n) : n ≤ 1 := by
  cases h <;> decide

end Attempt

/-- What is replied to a conversion. -/
def Conversion.reply : Conversion → Reply
  | .printed pdf => .printed pdf
  | .explained pdf => .explained pdf
  | .failed message fallbackMessage => .failure message fallbackMessage

/-- What is written of two failures. -/
def failureContent (message fallbackMessage stamp : Chars) : Json :=
  .obj [("success", .bool false), ("error", .obj [
    ("message", .str "PDF generation failed and fallback also failed"),
    ("originalError", .str message),
    ("fallbackError", .str fallbackMessage),
    ("timestamp", .str stamp)])]

/-- What is written around the messages and the time can be sent. -/
theorem leavesPass_failureContent (message fallbackMessage : Chars) (stamp : Stamp) :
    leavesPass (fun _ => true) isEncodable
        (failureContent message fallbackMessage stamp.inMessage) =
      (Reply.failure message fallbackMessage).isEncodable stamp := by
  have hown : ∀ text ∈ (["success", "error", "message", "originalError", "fallbackError",
      "timestamp", "PDF generation failed and fallback also failed"] : List Chars),
      isEncodable text = true := by decide +kernel
  simp only [List.forall_mem_cons] at hown
  simp only [failureContent, leavesPass, entriesPass, hown, Bool.true_and, Bool.and_true,
    Reply.isEncodable, Bool.and_assoc]

/-- What cannot be written in bytes fails on its way out, and everything else is sent. -/
theorem Conversion.send_response (stamp : Stamp) (conversion : Conversion) :
    send (conversion.response stamp) = if conversion.reply.isEncodable stamp then
      .ok (conversion.response stamp) else .error .unencodable := by
  cases conversion with
  | printed pdf => rfl
  | explained pdf => rfl
  | failed message fallbackMessage =>
      have hcontent : ((failed message fallbackMessage).response stamp).body =
          .json (failureContent message fallbackMessage stamp.inMessage) := rfl
      have hfinite : leavesPass Decimal.Binary64.isFinite (fun _ => true)
          (failureContent message fallbackMessage stamp.inMessage) = true := rfl
      simp only [send, hcontent, Body.fault?, hfinite, leavesPass_failureContent, reply]
      by_cases hencodable : (Reply.failure message fallbackMessage).isEncodable stamp <;>
        simp [hencodable]

theorem Conversion.is_readable (stamp : Stamp) (r : Request) (conversion : Conversion) :
    (readable r (conversion.response stamp)).Is conversion.reply := by
  cases conversion with
  | printed pdf =>
      refine ⟨rfl, ?_, rfl⟩
      unfold readable
      split <;> rfl
  | explained pdf => exact ⟨rfl, rfl, rfl, rfl⟩
  | failed message fallbackMessage => exact ⟨rfl, stamp.inMessage, rfl⟩

/-- What is replied to a request to print, and how many browsers are launched for it. -/
inductive Replies (settings : Settings) (browsers : List Print.Browser) (c : ConversionRequest) :
    Reply → Nat → Prop
  | printed {rendered : Rendered} {n : Nat}
      (hfirst : FirstAttempt settings browsers c (.ok rendered) n) :
      Replies settings browsers c (.printed rendered.pdf) n
  | explained {e : ConversionError} {rendered : Rendered} {n : Nat}
      (hfirst : FirstAttempt settings browsers c (.error e) n)
      (hsecond : secondPrint settings browsers n e = .ok rendered) :
      Replies settings browsers c (.explained rendered.pdf) (n + 1)
  | failure {e : ConversionError} {f : Print.RenderError} {n : Nat}
      (hfirst : FirstAttempt settings browsers c (.error e) n)
      (hsecond : secondPrint settings browsers n e = .error f) :
      Replies settings browsers c
        (.failure (failureMessage e) (orElseText f.message "Unknown fallback error")) (n + 1)

section Conversion

variable (settings : Settings) (browsers : List Print.Browser) (c : ConversionRequest)

theorem replies_convert :
    Replies settings browsers c (convert settings browsers c).value.reply
      (launches (convert settings browsers c).steps) := by
  obtain ⟨hfirst, hbrowsers⟩ := firstAttempt_attempt settings browsers c
  cases hvalue : (attempt settings browsers c).value with
  | ok rendered =>
      rw [hvalue] at hfirst
      simp only [convert, hvalue]
      exact Replies.printed hfirst
  | error e =>
      rw [hvalue] at hfirst
      have hprint : (Print.render settings (nextBrowser (attempt settings browsers c).browsers)
          (failureJob (failureMessage e))).outcome = secondPrint settings browsers
            (launches (attempt settings browsers c).steps) e := by
        rw [hbrowsers, secondPrint]
      rw [failureMessage] at hprint
      cases hsecond : secondPrint settings browsers
          (launches (attempt settings browsers c).steps) e with
      | ok rendered =>
          rw [hsecond] at hprint
          simp only [convert, hvalue, printNext, hprint, Print.launches_append,
            Print.launches_render]
          exact Replies.explained hfirst hsecond
      | error f =>
          rw [hsecond] at hprint
          simp only [convert, hvalue, printNext, hprint, Print.launches_append,
            Print.launches_render]
          exact Replies.failure hfirst hsecond

variable {settings browsers c}

theorem Replies.unique {reply reply' : Reply} {n n' : Nat} (h : Replies settings browsers c reply n)
    (h' : Replies settings browsers c reply' n') : reply = reply' ∧ n = n' := by
  cases h with
  | printed hfirst =>
      cases h' with
      | printed hfirst' =>
          obtain ⟨heq, rfl⟩ := hfirst.unique hfirst'
          obtain rfl := Except.ok.inj heq
          exact ⟨rfl, rfl⟩
      | explained hfirst' _ => cases (hfirst.unique hfirst').1
      | failure hfirst' _ => cases (hfirst.unique hfirst').1
  | explained hfirst hsecond =>
      cases h' with
      | printed hfirst' => cases (hfirst.unique hfirst').1
      | explained hfirst' hsecond' =>
          obtain ⟨heq, rfl⟩ := hfirst.unique hfirst'
          obtain rfl := Except.error.inj heq
          obtain rfl := Except.ok.inj (hsecond.symm.trans hsecond')
          exact ⟨rfl, rfl⟩
      | failure hfirst' hsecond' =>
          obtain ⟨heq, rfl⟩ := hfirst.unique hfirst'
          obtain rfl := Except.error.inj heq
          cases hsecond.symm.trans hsecond'
  | failure hfirst hsecond =>
      cases h' with
      | printed hfirst' => cases (hfirst.unique hfirst').1
      | explained hfirst' hsecond' =>
          obtain ⟨heq, rfl⟩ := hfirst.unique hfirst'
          obtain rfl := Except.error.inj heq
          cases hsecond.symm.trans hsecond'
      | failure hfirst' hsecond' =>
          obtain ⟨heq, rfl⟩ := hfirst.unique hfirst'
          obtain rfl := Except.error.inj heq
          obtain rfl := Except.error.inj (hsecond.symm.trans hsecond')
          exact ⟨rfl, rfl⟩

theorem Replies.eq_printed_iff {reply : Reply} {n : Nat} (h : Replies settings browsers c reply n)
    (bytes : Chars) : reply = .printed bytes ↔ ∃ rendered m,
      FirstAttempt settings browsers c (.ok rendered) m ∧ rendered.pdf = bytes := by
  constructor
  · rintro rfl
    cases h with
    | printed hfirst => exact ⟨_, _, hfirst, rfl⟩
  · rintro ⟨rendered, m, hfirst, rfl⟩
    exact (h.unique (Replies.printed hfirst)).1

theorem Replies.eq_explained_iff {reply : Reply} {n : Nat}
    (h : Replies settings browsers c reply n) (bytes : Chars) :
    reply = .explained bytes ↔ ∃ e m rendered, FirstAttempt settings browsers c (.error e) m ∧
      secondPrint settings browsers m e = .ok rendered ∧ rendered.pdf = bytes := by
  constructor
  · rintro rfl
    cases h with
    | explained hfirst hsecond => exact ⟨_, _, _, hfirst, hsecond, rfl⟩
  · rintro ⟨e, m, rendered, hfirst, hsecond, rfl⟩
    exact (h.unique (Replies.explained hfirst hsecond)).1

theorem Replies.eq_failure_iff {reply : Reply} {n : Nat} (h : Replies settings browsers c reply n)
    (message fallback : Chars) :
    reply = .failure message fallback ↔ ∃ e m f, FirstAttempt settings browsers c (.error e) m ∧
      secondPrint settings browsers m e = .error f ∧ failureMessage e = message ∧
      orElseText f.message "Unknown fallback error" = fallback := by
  constructor
  · rintro rfl
    cases h with
    | failure hfirst hsecond => exact ⟨_, _, _, hfirst, hsecond, rfl, rfl⟩
  · rintro ⟨e, m, f, hfirst, hsecond, rfl, rfl⟩
    exact (h.unique (Replies.failure hfirst hsecond)).1

theorem Replies.le_two {reply : Reply} {n : Nat} (h : Replies settings browsers c reply n) :
    n ≤ 2 := by
  cases h with
  | printed hfirst => exact Nat.le_trans hfirst.le_one (by decide)
  | explained hfirst _ => exact Nat.succ_le_succ hfirst.le_one
  | failure hfirst _ => exact Nat.succ_le_succ hfirst.le_one

/-- If the first attempt launches no browser, the document that tells why is printed in the only
one. -/
theorem Replies.eq_one_of_firstAttempt {reply : Reply} {n : Nat} {e : ConversionError}
    (h : Replies settings browsers c reply n) (he : FirstAttempt settings browsers c (.error e) 0) :
    n = 1 := by
  cases h with
  | printed hfirst => cases (hfirst.unique he).1
  | explained hfirst _ => rw [(hfirst.unique he).2]
  | failure hfirst _ => rw [(hfirst.unique he).2]

end Conversion

section Serve

variable {settings : Settings} {stamp : Stamp} {browsers : List Print.Browser} {r : Request}
  {c : ConversionRequest}

/-- A request to a route is answered by the route. -/
theorem serve_of_route {route : Route} (hpath : r.path = route.path)
    (hmethod : r.method = route.method) (hsize : isTooLarge settings r = .ok false) :
    serve settings stamp browsers r =
      { route.serve settings stamp browsers r with
        value := (route.serve settings stamp browsers r).value.map (readable r) } := by
  have hroute : (Route.all.find? fun other => other.path == r.path) = some route := by
    rw [hpath]
    cases route <;> decide +kernel
  have hplain : asksInAdvance r = false := by
    have hasks : (r.method == "OPTIONS".runes) = false := by
      rw [hmethod]
      cases route <;> decide +kernel
    rw [asksInAdvance, hasks]
    rfl
  rw [serve, hsize]
  simp only [serveOrigins, hplain, serveRoute, hroute, hmethod, beq_self_eq_true, if_true]
  rfl

/-- A request to print whose payload is taken is answered by its conversion. -/
theorem serve_of_read (hpath : r.path = Route.print.path) (hmethod : r.method = Route.print.method)
    (hsize : isTooLarge settings r = .ok false)
    (hread : r.read settings ConversionRequest.ofFields = .ok c) :
    serve settings stamp browsers r =
      ⟨(send ((convert settings browsers c).value.response stamp)).map (readable r),
        (convert settings browsers c).steps, (convert settings browsers c).records,
        (convert settings browsers c).browsers⟩ := by
  rw [serve_of_route hpath hmethod hsize]
  simp only [Route.serve, servePrint, hread]

/-- A request to print whose payload is taken is replied to in one of three ways, whatever the
browsers do, and the reply is sent if it can be written in bytes. -/
theorem serve_answers (hpath : r.path = Route.print.path)
    (hmethod : r.method = Route.print.method) (hsize : isTooLarge settings r = .ok false)
    (hread : r.read settings ConversionRequest.ofFields = .ok c) :
    ∃ reply : Reply,
      (reply.isEncodable stamp → ∃ response,
        (serve settings stamp browsers r).value = .ok response ∧
          ∀ other, response.Is other ↔ other = reply) ∧
      (¬ reply.isEncodable stamp →
        (serve settings stamp browsers r).value = .error .unencodable) ∧
      (∀ bytes, reply = .printed bytes ↔ ∃ rendered n,
        FirstAttempt settings browsers c (.ok rendered) n ∧ rendered.pdf = bytes) ∧
      (∀ bytes, reply = .explained bytes ↔ ∃ e n rendered,
        FirstAttempt settings browsers c (.error e) n ∧
          secondPrint settings browsers n e = .ok rendered ∧ rendered.pdf = bytes) ∧
      (∀ message fallback, reply = .failure message fallback ↔ ∃ e n f,
        FirstAttempt settings browsers c (.error e) n ∧
          secondPrint settings browsers n e = .error f ∧ failureMessage e = message ∧
          orElseText f.message "Unknown fallback error" = fallback) ∧
      launches (serve settings stamp browsers r).steps ≤ 2 ∧
      (∀ e, FirstAttempt settings browsers c (.error e) 0 →
        launches (serve settings stamp browsers r).steps = 1) := by
  rw [serve_of_read hpath hmethod hsize hread, Conversion.send_response]
  have hreplies := replies_convert settings browsers c
  refine ⟨(convert settings browsers c).value.reply, fun hencodable => ?_, fun hnot => ?_,
    hreplies.eq_printed_iff, hreplies.eq_explained_iff, hreplies.eq_failure_iff, hreplies.le_two,
    fun e hfirst => hreplies.eq_one_of_firstAttempt hfirst⟩
  · rw [if_pos hencodable]
    have his := Conversion.is_readable stamp r (convert settings browsers c).value
    refine ⟨_, rfl, fun other => ⟨fun h => h.unique his, ?_⟩⟩
    rintro rfl
    exact his
  · rw [if_neg hnot]
    rfl

/-- A request to print one letter. -/
def letterRequest : Request where
  method := "POST".runes
  path := "/api/v1/bundle/bundleHtml2PDF".runes
  headers := [("content-type".runes, "application/json".runes),
    ("content-length".runes, "12".runes)]
  body := "\x7b\"html\":\"p\"\x7d".runes

def letterConversion : ConversionRequest := ⟨some ['p'], none, none, []⟩

/-- A browser that cannot be closed, and after it one that does not print. -/
def failingBrowsers : List Print.Browser :=
  [{ Print.Browser.standard with failure := fun a => if a = .close then some [] else none },
    { Print.Browser.standard with failure := fun a => if a = .print then some ['f'] else none }]

theorem read_letterRequest :
    letterRequest.read .standard ConversionRequest.ofFields = .ok letterConversion := by
  have hfields : (letterRequest.read .standard ConversionRequest.ofFields).toOption.any (fun c =>
      c.html == some [.of 'p'] && c.htmlContent.isNone && c.bundle.isNone && c.options.isEmpty) := by
    decide +kernel
  rw [Option.any_eq_true] at hfields
  obtain ⟨⟨html, htmlContent, bundle, options⟩, hread, hfields⟩ := hfields
  simp only [Bool.and_eq_true, beq_iff_eq, Option.isNone_iff_eq_none, List.isEmpty_iff] at hfields
  obtain ⟨⟨⟨rfl, rfl⟩, rfl⟩, rfl⟩ := hfields
  exact eq_ok_of_toOption hread

theorem serve_answers_letter :
    isTooLarge .standard letterRequest = .ok false ∧
      letterRequest.read .standard ConversionRequest.ofFields = .ok letterConversion ∧
      ∃ reply : Reply,
        (reply.isEncodable ⟨[], []⟩ → ∃ response,
          (serve .standard ⟨[], []⟩ failingBrowsers letterRequest).value = .ok response ∧
            ∀ other, response.Is other ↔ other = reply) ∧
        (¬ reply.isEncodable ⟨[], []⟩ →
          (serve .standard ⟨[], []⟩ failingBrowsers letterRequest).value = .error .unencodable) ∧
        (∀ bytes, reply = .printed bytes ↔ ∃ rendered n,
          FirstAttempt .standard failingBrowsers letterConversion (.ok rendered) n ∧
            rendered.pdf = bytes) ∧
        (∀ bytes, reply = .explained bytes ↔ ∃ e n rendered,
          FirstAttempt .standard failingBrowsers letterConversion (.error e) n ∧
            secondPrint .standard failingBrowsers n e = .ok rendered ∧
            rendered.pdf = bytes) ∧
        (∀ message fallback, reply = .failure message fallback ↔ ∃ e n f,
          FirstAttempt .standard failingBrowsers letterConversion (.error e) n ∧
            secondPrint .standard failingBrowsers n e = .error f ∧ failureMessage e = message ∧
            orElseText f.message "Unknown fallback error" = fallback) ∧
        launches (serve .standard ⟨[], []⟩ failingBrowsers letterRequest).steps ≤ 2 ∧
        (∀ e, FirstAttempt .standard failingBrowsers letterConversion (.error e) 0 →
          launches (serve .standard ⟨[], []⟩ failingBrowsers letterRequest).steps = 1) := by
  have hsize : isTooLarge .standard letterRequest = .ok false :=
    eq_ok_of_toOption (by decide +kernel)
  have hread := read_letterRequest
  exact ⟨hsize, hread, serve_answers rfl rfl hsize hread⟩

/-- The empty message of the first browser is not told: a message of its own takes its place. -/
theorem serve_failingBrowsers :
    ∃ response e n f,
      (serve .standard ⟨[], []⟩ failingBrowsers letterRequest).value = .ok response ∧
        FirstAttempt .standard failingBrowsers letterConversion (.error e) n ∧
        secondPrint .standard failingBrowsers n e = .error f ∧
        ¬ response.Is (.failure e.message f.message) := by
  have hsize : isTooLarge .standard letterRequest = .ok false :=
    eq_ok_of_toOption (by decide +kernel)
  have hsilent : (match (attempt .standard failingBrowsers letterConversion).value with
      | .error e => e.message.isEmpty
      | .ok _ => false) = true := by decide +kernel
  have htold : (match (convert .standard failingBrowsers letterConversion).value.reply with
      | .failure message _ => !message.isEmpty
      | _ => false) = true := by decide +kernel
  have hencodable : (convert .standard failingBrowsers letterConversion).value.reply.isEncodable
      ⟨[], []⟩ = true := by decide +kernel
  have hattempt := (firstAttempt_attempt .standard failingBrowsers letterConversion).1
  have hreplies := replies_convert .standard failingBrowsers letterConversion
  have his := Conversion.is_readable ⟨[], []⟩ letterRequest
    (convert .standard failingBrowsers letterConversion).value
  rw [serve_of_read rfl rfl hsize read_letterRequest, Conversion.send_response, if_pos hencodable]
  cases hreply : (convert .standard failingBrowsers letterConversion).value.reply with
  | printed bytes => rw [hreply] at htold; contradiction
  | explained bytes => rw [hreply] at htold; contradiction
  | failure message fallback =>
      obtain ⟨e, n, f, hfirst, hsecond, -, -⟩ :=
        (hreplies.eq_failure_iff message fallback).mp hreply
      refine ⟨_, e, n, f, rfl, hfirst, hsecond, fun hown => ?_⟩
      rw [← (hfirst.unique hattempt).1, List.isEmpty_iff] at hsilent
      rw [← hown.unique his, hsilent] at htold
      contradiction

/-- A browser whose failure tells half of a surrogate pair, and after it one that cannot be
launched. -/
def halfToldBrowsers : List Print.Browser :=
  [{ Print.Browser.standard with
      failure := fun a => if a = .setContent then some [.half 0] else none },
    { Print.Browser.standard with failure := fun a => if a = .launch then some ['f'] else none }]

/-- Not every request to print is answered: the messages may be none that can be sent. Nor are they
always those of the failures themselves. -/
theorem not_serve_always_answers :
    (¬ ∀ (settings : Settings) (stamp : Stamp) (browsers : List Print.Browser) (r : Request)
      (c : ConversionRequest), r.path = Route.print.path → r.method = Route.print.method →
      isTooLarge settings r = .ok false → r.read settings ConversionRequest.ofFields = .ok c →
      ∃ response, (serve settings stamp browsers r).value = .ok response) ∧
    ¬ ∀ (settings : Settings) (stamp : Stamp) (browsers : List Print.Browser) (r : Request)
      (c : ConversionRequest), r.path = Route.print.path → r.method = Route.print.method →
      isTooLarge settings r = .ok false → r.read settings ConversionRequest.ofFields = .ok c →
      ∀ response e n f, (serve settings stamp browsers r).value = .ok response →
        FirstAttempt settings browsers c (.error e) n →
        secondPrint settings browsers n e = .error f →
        response.Is (.failure e.message f.message) := by
  have hsize : isTooLarge .standard letterRequest = .ok false :=
    eq_ok_of_toOption (by decide +kernel)
  refine ⟨fun h => ?_, fun h => ?_⟩
  · obtain ⟨response, hresponse⟩ :=
      h .standard ⟨[], []⟩ halfToldBrowsers _ _ rfl rfl hsize read_letterRequest
    rw [serve_of_read rfl rfl hsize read_letterRequest, Conversion.send_response] at hresponse
    have hnot : (convert .standard halfToldBrowsers letterConversion).value.reply.isEncodable
        ⟨[], []⟩ = false := by decide +kernel
    rw [hnot] at hresponse
    contradiction
  · obtain ⟨response, e, n, f, hsent, hfirst, hsecond, hnot⟩ := serve_failingBrowsers
    exact hnot (h _ _ _ _ _ rfl rfl hsize read_letterRequest response e n f hsent hfirst hsecond)

end Serve

end Folio.Service
