import Folio.Proofs.Markup.EscapedText
import Folio.Proofs.Print.Plan
import Folio.Proofs.Service.Answers

/-!
The document that tells what went wrong. It is read as the document without a message is, whatever
its message: between the tags of one element stands what the message says, and nothing else. When
a request to print fails, no other document is loaded after the first attempt.
-/
namespace Folio.ErrorPage

open Markup (Event StartTag Reads Spells readEvents decodeValue)

/-- The document before its message. -/
def opening : Chars :=
  openingLines.flatMap (fun line => line.runes ++ [.of '\n']) ++ beforeMessage.runes

/-- The document after its message. -/
def closing : Chars := afterMessage.runes ++ closingLines.flatMap fun line => .of '\n' :: line.runes

/-- The tag before the message. -/
def messageTag : StartTag := ⟨"code".runes, [], false⟩

/-- What is read before and after the message: alone, and where the message is empty. -/
structure Surrounds (before after : List Event) : Prop where
  opening : readEvents opening = .ok (before ++ [.start messageTag])
  closing : readEvents closing = .ok (.close messageTag.name :: after)
  empty : readEvents (document (.written [])) =
    .ok (before ++ .start messageTag :: .close messageTag.name :: after)

/-- A document that shows a text: it is read as what is read before the message, the text, and what
is read after it. -/
structure Shows (html text : Chars) (before after : List Event) : Prop where
  /-- Between the tags stand texts and references, which the text is made of. -/
  inPieces : ∃ events, readEvents html = .ok (before ++ .start messageTag ::
    (events ++ .close messageTag.name :: after)) ∧ Spells events text
  /-- What is written between the tags has no tag and is decoded to the text. -/
  atOnce : ∃ written, html = opening ++ written ++ closing ∧ .of '<' ∉ written ∧
    decodeValue written = .ok text

section Reading

/-- A text that a pass reads to its end, which is an end tag, before any other text. -/
theorem exists_reads_append {s name : Chars}
    (hpass : (Markup.pass false (s.length + 1) none s).toOption.any fun scan =>
      scan.raw.isNone && scan.rest.isEmpty && scan.events.getLast? == some (.close name))
    (hquotes : Markup.quotesClosed (s.length + 1) none s) :
    ∃ events, ∀ rest, Reads none (s ++ rest) events none rest := by
  rw [Option.any_eq_true] at hpass
  obtain ⟨⟨events, raw, left⟩, hscan, hends⟩ := hpass
  simp only [Bool.and_eq_true, Option.isNone_iff_eq_none, List.isEmpty_iff, beq_iff_eq] at hends
  obtain ⟨⟨rfl, rfl⟩, hlast⟩ := hends
  have hclose : Markup.EndsInClose events := by
    intro event hevent
    rw [hlast, Option.mem_some_iff] at hevent
    exact ⟨_, hevent.symm⟩
  have hreads := Reads.of_pass (eq_ok_of_toOption hscan)
  exact ⟨events, fun rest =>
    hreads.append Markup.rawText_none hclose (Nat.lt_succ_self _) hquotes rest⟩

/-- The lines up to an end tag on the line of the message. -/
def headed : Chars :=
  openingLines.flatMap (fun line => line.runes ++ [.of '\n']) ++
    "    <p><strong>Detail:</strong>".runes

theorem opening_eq : opening = headed ++ " <code>".runes := by
  have hline : beforeMessage.runes = "    <p><strong>Detail:</strong>".runes ++
      " <code>".runes := by decide +kernel
  rw [opening, hline, headed, List.append_assoc]

theorem around_eq (written : Chars) : around written = opening ++ written ++ closing := by
  rw [around, opening, closing, ← List.append_assoc]

/-- The document is read up to the line of its message, and all its quotes are closed. -/
theorem pass_headed : ((Markup.pass false (headed.length + 1) none headed).toOption.any fun scan =>
      scan.raw.isNone && scan.rest.isEmpty &&
        scan.events.getLast? == some (.close "strong".runes)) ∧
    Markup.quotesClosed (headed.length + 1) none headed := by
  simp only [headed, openingLines, List.flatMap_cons, List.flatMap_nil]
  decide +kernel

theorem reads_headed : ∃ events, ∀ rest, Reads none (headed ++ rest) events none rest :=
  exists_reads_append pass_headed.1 pass_headed.2

/-- The tag before the message is read whatever the message is. -/
theorem reads_opening : ∃ before, ∀ rest,
    Reads none (opening ++ rest) (before ++ [.start messageTag]) none rest := by
  obtain ⟨events, hreads⟩ := reads_headed
  refine ⟨events ++ [.text [.of ' ']], fun rest => ?_⟩
  have htag : Markup.step false none ("<code>".runes ++ rest) =
      .ok (.go [.start messageTag] none rest) := rfl
  have hblank : Markup.step false none (.of ' ' :: ("<code>".runes ++ rest)) =
      .ok (.go [.text [.of ' ']] none ("<code>".runes ++ rest)) := rfl
  rw [opening_eq, List.append_assoc, List.append_assoc]
  exact (hreads _).trans (.step hblank (.step htag (.done none rest)))

theorem reads_closing : ∃ after,
    Reads none closing (.close messageTag.name :: after) none [] := by
  have hpass : ((Markup.pass false (closing.length + 1) none closing).toOption.any fun scan =>
      scan.raw.isNone && scan.rest.isEmpty &&
        scan.events.head? == some (.close messageTag.name)) := by
    decide +kernel
  rw [Option.any_eq_true] at hpass
  obtain ⟨⟨events, raw, left⟩, hscan, hbegins⟩ := hpass
  simp only [Bool.and_eq_true, Option.isNone_iff_eq_none, List.isEmpty_iff, beq_iff_eq] at hbegins
  obtain ⟨⟨rfl, rfl⟩, hfirst⟩ := hbegins
  obtain ⟨after, rfl⟩ := List.head?_eq_some_iff.1 hfirst
  exact ⟨after, Reads.of_pass (eq_ok_of_toOption hscan)⟩

/-- Whatever its message is, a document shows it. -/
theorem exists_shows : ∃ before after, Surrounds before after ∧
    ∀ message : Message, Shows (document message) message.shown before after := by
  obtain ⟨before, hopening⟩ := reads_opening
  obtain ⟨after, hclosing⟩ := reads_closing
  refine ⟨before, after, ⟨?_, hclosing.readEvents, ?_⟩, fun message => ?_⟩
  · have hwhole := hopening []
    rw [List.append_nil] at hwhole
    exact hwhole.readEvents
  · have hwhole := (hopening closing).trans hclosing
    rw [List.append_assoc] at hwhole
    rw [document, around_eq, List.append_assoc]
    exact hwhole.readEvents
  · obtain ⟨rest, hrest⟩ : ∃ rest, closing = .of '<' :: rest := ⟨_, rfl⟩
    obtain ⟨events, hreads, hspells⟩ := Markup.reads_escape message.shown rest
    rw [← hrest] at hreads
    have hwhole := (hopening _).trans (hreads.trans hclosing)
    refine ⟨⟨events, ?_, hspells⟩, Markup.escape message.shown, around_eq _,
      Markup.mark_not_mem_escape (by decide) _, Markup.decodeValue_escape _⟩
    rw [List.append_assoc] at hwhole
    rw [document, around_eq, List.append_assoc]
    exact hwhole.readEvents

end Reading

end Folio.ErrorPage

namespace Folio.Service

open ErrorPage (Message Shows Surrounds document)
open Print (idle)

/-- What the document about a failure shows. -/
def failureText (e : ConversionError) : Chars :=
  "PDF generation failed: ".runes ++ failureMessage e ++
    "\n\nPlease check your input and try again.".runes

section Failure

variable {settings : Settings} {browsers : List Print.Browser} {c : ConversionRequest}
  {e : ConversionError}

/-- A first attempt that fails is followed by the print of the document about it. -/
theorem convert_of_attempt_error (h : (attempt settings browsers c).value = .error e) :
    ∃ s, s = Print.render settings (nextBrowser (attempt settings browsers c).browsers)
        (failureJob (failureMessage e)) ∧
      (convert settings browsers c).steps = (attempt settings browsers c).steps ++ s.steps ∧
      ∀ bytes, (convert settings browsers c).value.reply = .explained bytes →
        ∃ rendered, s.outcome = .ok rendered := by
  refine ⟨_, rfl, ?_⟩
  cases hsecond : (Print.render settings (nextBrowser (attempt settings browsers c).browsers)
      (failureJob (failureMessage e))).outcome with
  | ok rendered =>
      rw [failureMessage] at hsecond
      simp only [convert, h, printNext, hsecond]
      exact ⟨rfl, fun _ _ => ⟨rendered, rfl⟩⟩
  | error f =>
      rw [failureMessage] at hsecond
      simp only [convert, h, printNext, hsecond]
      refine ⟨rfl, fun _ hreply => ?_⟩
      contradiction

/-- After a first attempt that fails no document is loaded but the one about the failure, and that
one is if it is handed on. -/
theorem exists_steps_of_attempt_error (h : (attempt settings browsers c).value = .error e) :
    ∃ more, (convert settings browsers c).steps = (attempt settings browsers c).steps ++ more ∧
      (∀ html quiet, .setContent html quiet ∈ more →
        html = document (.written (failureText e))) ∧
      ∀ bytes, (convert settings browsers c).value.reply = .explained bytes →
        .setContent (document (.written (failureText e))) idle ∈ more := by
  obtain ⟨s, hs, hsteps, hexplained⟩ := convert_of_attempt_error h
  have hhtml : (failureJob (failureMessage e)).html = document (.written (failureText e)) := rfl
  rw [← hhtml]
  refine ⟨s.steps, hsteps, fun html quiet hmem => ?_, fun bytes hreply => ?_⟩
  · rw [hs] at hmem
    exact (Print.eq_of_setContent_mem _ _ _ hmem).1
  · obtain ⟨rendered, houtcome⟩ := hexplained bytes hreply
    rw [hs] at houtcome ⊢
    exact Print.setContent_mem_of_ok _ _ _ houtcome

end Failure

/-- A conversion whose first attempt failed and whose reply cannot be written is one whose failure
could not be printed. -/
theorem exists_secondPrint_of_not_isEncodable {settings : Settings} {stamp : Stamp}
    {browsers : List Print.Browser} {c : ConversionRequest} {e : ConversionError}
    (hfailed : (attempt settings browsers c).value = .error e)
    (hnot : ¬ (convert settings browsers c).value.reply.isEncodable stamp) :
    ∃ n f, FirstAttempt settings browsers c (.error e) n ∧
      secondPrint settings browsers n e = .error f := by
  have hattempt := (firstAttempt_attempt settings browsers c).1
  rw [hfailed] at hattempt
  cases hreply : (convert settings browsers c).value.reply with
  | printed bytes => rw [hreply] at hnot; exact absurd rfl hnot
  | explained bytes => rw [hreply] at hnot; exact absurd rfl hnot
  | failure message fallback =>
      obtain ⟨e', n, f, hfirst, hsecond, -, -⟩ :=
        ((replies_convert settings browsers c).eq_failure_iff message fallback).mp hreply
      obtain rfl := Except.error.inj (hattempt.unique hfirst).1
      exact ⟨n, f, hfirst, hsecond⟩

/-- A document shows its message, and is otherwise read as it is without one. Where the first attempt
at a request to print fails, no document is loaded after it but the one that shows what went wrong,
and a print that tells of the failure is the print of that document. Only where that document is not
printed either there may be no response. -/
theorem shows_failure : ∃ before after, Surrounds before after ∧
    (∀ message : Message, Shows (document message) message.shown before after) ∧
    ∀ settings stamp browsers r c e, r.path = Route.print.path → r.method = Route.print.method →
      isTooLarge settings r = .ok false → r.read settings ConversionRequest.ofFields = .ok c →
      (attempt settings browsers c).value = .error e →
      ∃ html more, Shows html (failureText e) before after ∧
        (serve settings stamp browsers r).steps = (attempt settings browsers c).steps ++ more ∧
        (∀ other quiet, .setContent other quiet ∈ more → other = html) ∧
        (((serve settings stamp browsers r).value = .error .unencodable ∧
            ∃ n f, FirstAttempt settings browsers c (.error e) n ∧
              secondPrint settings browsers n e = .error f) ∨
          ∃ response, (serve settings stamp browsers r).value = .ok response ∧
            ∀ bytes, response.Is (.explained bytes) → .setContent html idle ∈ more) := by
  obtain ⟨before, after, hsurrounds, hshows⟩ := ErrorPage.exists_shows
  refine ⟨before, after, hsurrounds, hshows, ?_⟩
  intro settings stamp browsers r c e hpath hmethod hsize hread hfailed
  obtain ⟨more, hsteps, hloaded, hexplained⟩ := exists_steps_of_attempt_error hfailed
  rw [serve_of_read hpath hmethod hsize hread, Conversion.send_response]
  refine ⟨_, more, hshows (.written (failureText e)), hsteps, hloaded, ?_⟩
  split
  · refine Or.inr ⟨_, rfl, fun bytes hresponse => hexplained bytes ?_⟩
    exact (Conversion.is_readable stamp r (convert settings browsers c).value).unique hresponse
  case isFalse hnot => exact Or.inl ⟨rfl, exists_secondPrint_of_not_isEncodable hfailed hnot⟩

/-- The message of a browser, in which there are a tag and a reference. -/
def markedMessage : Chars := "<b>&lt;".runes

/-- A browser that opens no page, and says so with marks; the next one prints. -/
def markedBrowsers : List Print.Browser :=
  [{ Print.Browser.standard with
      failure := fun a => if a = .newPage then some markedMessage else none }]

/-- The marks are shown as they are. -/
theorem shows_failure_markedMessage :
    isTooLarge .standard letterRequest = .ok false ∧
      letterRequest.read .standard ConversionRequest.ofFields = .ok letterConversion ∧
      (attempt .standard markedBrowsers letterConversion).value =
        .error (.render (.step markedMessage)) ∧
      ∃ before after html, Surrounds before after ∧
        Shows html ("PDF generation failed: ".runes ++ markedMessage ++
          "\n\nPlease check your input and try again.".runes) before after ∧
        .setContent html idle ∈ (serve .standard ⟨[], []⟩ markedBrowsers letterRequest).steps := by
  have hsize : isTooLarge .standard letterRequest = .ok false :=
    eq_ok_of_toOption (by decide +kernel)
  have hfailed : (attempt .standard markedBrowsers letterConversion).value =
      .error (.render (.step markedMessage)) := by
    decide +kernel
  have hreply : (convert .standard markedBrowsers letterConversion).value.reply =
      .explained Print.Browser.standard.pdf := rfl
  obtain ⟨before, after, hsurrounds, -, hserved⟩ := shows_failure
  obtain ⟨html, more, hshows, hsteps, -, hanswer⟩ := hserved .standard ⟨[], []⟩ markedBrowsers
    letterRequest letterConversion _ rfl rfl hsize read_letterRequest hfailed
  refine ⟨hsize, read_letterRequest, hfailed, before, after, html, hsurrounds, hshows, ?_⟩
  have hsent : (serve .standard ⟨[], []⟩ markedBrowsers letterRequest).value =
      .ok (readable letterRequest
        ((convert .standard markedBrowsers letterConversion).value.response ⟨[], []⟩)) := by
    rw [serve_of_read rfl rfl hsize read_letterRequest, Conversion.send_response, hreply]
    rfl
  rw [hsent] at hanswer
  obtain ⟨response, hresponse, hloaded⟩ := hanswer.resolve_left fun h => nomatch h.1
  have his : response.Is (.explained Print.Browser.standard.pdf) := by
    rw [← Except.ok.inj hresponse, ← hreply]
    exact Conversion.is_readable _ _ _
  rw [hsteps]
  exact List.mem_append_right _ (hloaded _ his)

end Folio.Service
