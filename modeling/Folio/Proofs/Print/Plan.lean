import Mathlib.Logic.Function.Basic
import Folio.Proofs.Outcomes
import Folio.Proofs.Print.Launches

/-!
The order of a print. A print takes the steps of one plan, one after the other, until one of them
fails or all are taken, and closes the browser that it has launched in either case. A document that
lays out its own pages is not printed before they are laid out, and what is printed is handed on
only if the browser could be closed.
-/
namespace Folio.Print

namespace Session

variable {α β γ : Type} {plan more : List Step} {cause : RenderError → Prop}

theorem bind_of_ok {s : Session α} {a : α} (h : s.outcome = .ok a) (next : α → Session β) :
    s >>= next =
      ⟨s.steps ++ (next a).steps, s.records ++ (next a).records, (next a).outcome⟩ := by
  change s.andThen next = _
  rw [andThen, h]

theorem bind_of_error {s : Session α} {e : RenderError} (h : s.outcome = .error e)
    (next : α → Session β) : s >>= next = ⟨s.steps, s.records, .error e⟩ := by
  change s.andThen next = _
  rw [andThen, h]

theorem bind_assoc (s : Session α) (next : α → Session β) (last : β → Session γ) :
    s >>= next >>= last = s >>= fun a => next a >>= last := by
  cases hs : s.outcome with
  | error e =>
      rw [bind_of_error hs, bind_of_error hs]
      exact bind_of_error rfl last
  | ok a =>
      rw [bind_of_ok hs, bind_of_ok hs]
      cases hnext : (next a).outcome with
      | error e => rw [bind_of_error hnext, bind_of_error (e := e) rfl]
      | ok b => rw [bind_of_ok hnext, bind_of_ok (a := b) rfl, List.append_assoc, List.append_assoc]

/-- A session that goes on succeeds if both of its parts do. -/
theorem exists_of_bind_ok {s : Session α} {next : α → Session β} {b : β}
    (h : (s >>= next).outcome = .ok b) : ∃ a, s.outcome = .ok a ∧ (next a).outcome = .ok b := by
  cases hs : s.outcome with
  | error e =>
      rw [bind_of_error hs] at h
      contradiction
  | ok a =>
      rw [bind_of_ok hs] at h
      exact ⟨a, rfl, h⟩

theorem take_of_none {b : Browser} {step : Step} (h : b.failure step.action = none) (answer : α) :
    take b step answer = ⟨[step], [], .ok answer⟩ := by
  rw [take, h]

theorem take_of_some {b : Browser} {step : Step} {message : Chars}
    (h : b.failure step.action = some message) (answer : α) :
    take b step answer = ⟨[step], [], .error (.step message)⟩ := by
  rw [take, h]

/-- A step that succeeds yields its answer. -/
theorem eq_of_take_ok {b : Browser} {step : Step} {answer a : α}
    (h : (take b step answer).outcome = .ok a) : a = answer := by
  unfold take at h
  split at h
  · contradiction
  · exact (Except.ok.inj h).symm

theorem outcome_attempt (b : Browser) (step : Step) (record : Chars → Record) :
    (attempt b step record).outcome = .ok () := by
  unfold attempt
  split <;> rfl

/-- The session takes the steps of a plan in their order, and all of them if it does not fail. -/
structure KeepsTo (plan : List Step) (s : Session α) : Prop where
  within : s.steps <+: plan
  complete : ∀ a, s.outcome = .ok a → s.steps = plan

/-- A session whose steps are those of the plan, whether it fails or not. -/
theorem keepsTo_of_steps {s : Session α} (h : s.steps = plan) : s.KeepsTo plan :=
  ⟨h ▸ List.prefix_rfl, fun _ _ => h⟩

theorem keepsTo_fail (plan : List Step) (e : RenderError) : (fail e : Session α).KeepsTo plan :=
  ⟨List.nil_prefix, fun _ h => nomatch h⟩

/-- One plan after another. -/
theorem KeepsTo.bind {s : Session α} {next : α → Session β} (hs : s.KeepsTo plan)
    (hnext : ∀ a, (next a).KeepsTo more) : (s >>= next).KeepsTo (plan ++ more) := by
  cases houtcome : s.outcome with
  | error e =>
      rw [bind_of_error houtcome]
      exact ⟨hs.within.trans (List.prefix_append plan more), fun _ h => nomatch h⟩
  | ok a =>
      rw [bind_of_ok houtcome]
      have hsteps := hs.complete a houtcome
      constructor
      · dsimp only
        rw [hsteps]
        exact (List.prefix_append_right_inj plan).2 (hnext a).within
      · intro b hb
        dsimp only
        rw [hsteps, (hnext a).complete b hb]

/-- A session fails only for causes of some kind. -/
def FailsBy (cause : RenderError → Prop) (s : Session α) : Prop :=
  ∀ e, s.outcome = .error e → cause e

theorem failsBy_of_ok {s : Session α} {a : α} (h : s.outcome = .ok a) : s.FailsBy cause := by
  intro e he
  rw [h] at he
  contradiction

theorem failsBy_take {b : Browser} {step : Step}
    (h : ∀ message, b.failure step.action = some message → cause (.step message)) (answer : α) :
    (take b step answer).FailsBy cause := by
  cases hfailure : b.failure step.action with
  | none => exact failsBy_of_ok (by rw [take_of_none hfailure])
  | some message =>
      intro e he
      rw [take_of_some hfailure] at he
      obtain rfl := Except.error.inj he
      exact h message hfailure

theorem FailsBy.bind {s : Session α} {next : α → Session β} (hs : s.FailsBy cause)
    (hnext : ∀ a, s.outcome = .ok a → (next a).FailsBy cause) : (s >>= next).FailsBy cause := by
  intro e he
  cases houtcome : s.outcome with
  | error f =>
      rw [bind_of_error houtcome] at he
      exact hs e (by rw [houtcome, Except.error.inj he])
  | ok a =>
      rw [bind_of_ok houtcome] at he
      exact hnext a houtcome e he

theorem FailsBy.closing {b : Browser} {s : Session α} (hs : s.FailsBy cause)
    (hclose : ∀ message, b.failure .close = some message → cause (.step message)) :
    (closing b s).FailsBy cause := by
  intro e he
  unfold Session.closing at he
  cases hfailure : b.failure .close with
  | none =>
      rw [hfailure] at he
      exact hs e he
  | some message =>
      rw [hfailure] at he
      obtain rfl := Except.error.inj he
      exact hclose message hfailure

/-- Two sessions that differ in their records alone. -/
structure Alike (s s' : Session α) : Prop where
  steps : s.steps = s'.steps
  outcome : s.outcome = s'.outcome

theorem Alike.refl (s : Session α) : Alike s s := ⟨rfl, rfl⟩

theorem Alike.bind {s s' : Session α} {next next' : α → Session β} (hs : Alike s s')
    (hnext : ∀ a, Alike (next a) (next' a)) : Alike (s >>= next) (s' >>= next') := by
  cases houtcome : s.outcome with
  | error e =>
      rw [bind_of_error houtcome, bind_of_error (hs.outcome.symm.trans houtcome)]
      exact ⟨hs.steps, rfl⟩
  | ok a =>
      rw [bind_of_ok houtcome, bind_of_ok (hs.outcome.symm.trans houtcome)]
      constructor
      · dsimp only
        rw [hs.steps, (hnext a).steps]
      · exact (hnext a).outcome

theorem alike_take {b b' : Browser} {step : Step}
    (h : b.failure step.action = b'.failure step.action) (answer : α) :
    Alike (take b step answer) (take b' step answer) := by
  rw [take, take, h]
  exact .refl _

theorem alike_attempt (b b' : Browser) (step : Step) (record : Chars → Record) :
    Alike (attempt b step record) (attempt b' step record) := by
  constructor
  · rw [steps_attempt, steps_attempt]
  · rw [outcome_attempt, outcome_attempt]

theorem Alike.closing {b b' : Browser} {s s' : Session α} (hs : Alike s s')
    (h : b.failure .close = b'.failure .close) :
    Alike (Session.closing b s) (Session.closing b' s') := by
  constructor
  · rw [steps_closing, steps_closing, hs.steps]
  · unfold Session.closing
    rw [h, hs.outcome]

end Session

/-- The steps from a new page to the fonts of a document. -/
def Job.loading (settings : Settings) (job : Job) : List Step :=
  [.newPage, .setTimeout settings.renderTimeout, .setContent job.html idle,
    .fonts fontsExpression]

/-- The steps of waiting for the pages to be laid out, for a job that waits for it. -/
def Job.waiting (settings : Settings) (job : Job) : List Step :=
  if job.waits then
    [.wait Paginate.completionExpression settings.paginationTimeout,
      .state Paginate.stateExpression, .count Paginate.countExpression]
  else []

/-- All steps of a print before the browser is closed. -/
def Job.plan (settings : Settings) (job : Job) : List Step :=
  .launch settings.browserArguments :: job.loading settings ++ job.waiting settings ++
    [.print (job.options.arguments job.fromBundle)]

/-- What a browser answers when the pages of a document are laid out: that they are, and their
number, or no number. -/
structure Browser.LaidOut (b : Browser) : Prop where
  state : b.state = some "true".runes
  count : ∀ text, b.count = some text → text = [] ∨ ∃ n, Decimal.readWhole text = .ok n

/-- The browser, but for whether steps of one kind fail. -/
def Browser.failing (b : Browser) (action : Action) (failure : Option Chars) : Browser :=
  { b with failure := Function.update b.failure action failure }

/-- Why a print fails: a step fails, the pages of a document that waits for them are not laid out,
or their number is none. -/
inductive RenderError.Arises (b : Browser) (job : Job) : RenderError → Prop
  | step {action : Action} {message : Chars} (hfailure : b.failure action = some message) :
      Arises b job (.step message)
  | numeral {text : Chars} {e : Decimal.NumeralError} (hwaits : job.waits)
      (hcount : b.count = some text) (hread : Decimal.readWhole text = .error e) :
      Arises b job (.numeral e)
  | notLaidOut (hwaits : job.waits) (hstate : b.state ≠ some "true".runes) :
      Arises b job .notLaidOut

section Print

variable (settings : Settings) (b : Browser) (job : Job)

/-- The part of a session that comes before printing: it yields the number of pages. -/
def prepare : Session (Option Int) := do
  Session.take b .newPage ()
  Session.take b (.setTimeout settings.renderTimeout) ()
  Session.take b (.setContent job.html idle) ()
  Session.attempt b (.fonts fontsExpression) fontsRecord
  if job.waits then awaitPages settings b else Session.done none

/-- The part of a session that prints. -/
def printPages (pageCount : Option Int) : Session Rendered := do
  let pdf ← Session.take b (.print (job.options.arguments job.fromBundle)) b.pdf
  Session.done ⟨pdf, pageCount⟩

theorem printSession_eq :
    printSession settings b job = prepare settings b job >>= printPages b job := by
  unfold printSession prepare
  simp only [Session.bind_assoc]
  split <;> rfl

theorem steps_readCount (count : Option Chars) : (readCount count).steps = [] := by
  unfold readCount
  repeat' split
  all_goals rfl

theorem keepsTo_awaitPages : (awaitPages settings b).KeepsTo
    [.wait Paginate.completionExpression settings.paginationTimeout,
      .state Paginate.stateExpression, .count Paginate.countExpression] := by
  apply Session.KeepsTo.bind (Session.keepsTo_of_steps (Session.steps_take b _ ()))
  intro _
  apply Session.KeepsTo.bind (Session.keepsTo_of_steps (Session.steps_take b _ b.state))
  intro state
  split
  · exact Session.keepsTo_fail _ _
  · apply Session.KeepsTo.bind (Session.keepsTo_of_steps (Session.steps_take b _ b.count))
    intro count
    exact Session.keepsTo_of_steps (steps_readCount count)

theorem keepsTo_prepare :
    (prepare settings b job).KeepsTo (job.loading settings ++ job.waiting settings) := by
  apply Session.KeepsTo.bind (Session.keepsTo_of_steps (Session.steps_take b .newPage ()))
  intro _
  apply Session.KeepsTo.bind (Session.keepsTo_of_steps (Session.steps_take b _ ()))
  intro _
  apply Session.KeepsTo.bind (Session.keepsTo_of_steps (Session.steps_take b _ ()))
  intro _
  apply Session.KeepsTo.bind (Session.keepsTo_of_steps (Session.steps_attempt b _ _))
  intro _
  unfold Job.waiting
  split
  · exact keepsTo_awaitPages settings b
  · exact Session.keepsTo_of_steps rfl

theorem failsBy_readCount (hwaits : job.waits) :
    (readCount b.count).FailsBy (RenderError.Arises b job) := by
  intro e h
  unfold readCount at h
  split at h
  · contradiction
  · rename_i text hcount
    split at h
    · contradiction
    · split at h
      · contradiction
      · rename_i f hread
        obtain rfl := Except.error.inj h
        exact .numeral hwaits hcount hread

/-- The pages are waited for with success only if they are laid out. -/
theorem laidOut_of_awaitPages {pageCount : Option Int}
    (h : (awaitPages settings b).outcome = .ok pageCount) : b.LaidOut := by
  unfold awaitPages at h
  obtain ⟨-, -, h⟩ := Session.exists_of_bind_ok h
  obtain ⟨state, hstate, h⟩ := Session.exists_of_bind_ok h
  split at h
  · contradiction
  · rename_i htrue
    obtain ⟨count, hcount, h⟩ := Session.exists_of_bind_ok h
    obtain rfl := Session.eq_of_take_ok hstate
    obtain rfl := Session.eq_of_take_ok hcount
    constructor
    · simpa using htrue
    · intro text htext
      rw [htext, readCount] at h
      split at h
      · rename_i hempty
        exact Or.inl (List.isEmpty_iff.1 hempty)
      · split at h
        · rename_i n hn
          exact Or.inr ⟨n, hn⟩
        · contradiction

theorem laidOut_of_prepare {pageCount : Option Int} (hwaits : job.waits)
    (h : (prepare settings b job).outcome = .ok pageCount) : b.LaidOut := by
  unfold prepare at h
  obtain ⟨-, -, h⟩ := Session.exists_of_bind_ok h
  obtain ⟨-, -, h⟩ := Session.exists_of_bind_ok h
  obtain ⟨-, -, h⟩ := Session.exists_of_bind_ok h
  obtain ⟨-, -, h⟩ := Session.exists_of_bind_ok h
  rw [if_pos hwaits] at h
  exact laidOut_of_awaitPages settings b h

theorem failsBy_take {α : Type} (step : Step) (answer : α) :
    (Session.take b step answer).FailsBy (RenderError.Arises b job) :=
  Session.failsBy_take (fun _ h => .step h) answer

theorem failsBy_awaitPages (hwaits : job.waits) :
    (awaitPages settings b).FailsBy (RenderError.Arises b job) := by
  unfold awaitPages
  refine Session.FailsBy.bind (failsBy_take b job _ ()) fun _ _ => ?_
  refine Session.FailsBy.bind (failsBy_take b job _ b.state) fun state hstate => ?_
  obtain rfl := Session.eq_of_take_ok hstate
  split
  · rename_i hnot
    intro e he
    obtain rfl := Except.error.inj he
    exact .notLaidOut hwaits (by simpa using hnot)
  · refine Session.FailsBy.bind (failsBy_take b job _ b.count) fun count hcount => ?_
    obtain rfl := Session.eq_of_take_ok hcount
    exact failsBy_readCount b job hwaits

theorem failsBy_printSession :
    (printSession settings b job).FailsBy (RenderError.Arises b job) := by
  rw [printSession_eq]
  refine Session.FailsBy.bind ?_ fun pageCount _ => ?_
  · unfold prepare
    refine Session.FailsBy.bind (failsBy_take b job _ ()) fun _ _ => ?_
    refine Session.FailsBy.bind (failsBy_take b job _ ()) fun _ _ => ?_
    refine Session.FailsBy.bind (failsBy_take b job _ ()) fun _ _ => ?_
    refine Session.FailsBy.bind (Session.failsBy_of_ok (Session.outcome_attempt b _ _))
      fun _ _ => ?_
    split
    · rename_i hwaits
      exact failsBy_awaitPages settings b job hwaits
    · exact Session.failsBy_of_ok (a := none) rfl
  · unfold printPages
    refine Session.FailsBy.bind (failsBy_take b job _ b.pdf) fun pdf _ => ?_
    exact Session.failsBy_of_ok (a := ⟨pdf, pageCount⟩) rfl

/-- Whether the fonts can be waited for shows in the records alone. -/
theorem alike_printSession {b b' : Browser}
    (hfailure : ∀ action ≠ .fonts, b.failure action = b'.failure action)
    (hstate : b.state = b'.state) (hcount : b.count = b'.count) (hpdf : b.pdf = b'.pdf) :
    Session.Alike (printSession settings b job) (printSession settings b' job) := by
  have htake : ∀ {α : Type} (step : Step) (answer : α), step.action ≠ .fonts →
      Session.Alike (Session.take b step answer) (Session.take b' step answer) :=
    fun step answer h => Session.alike_take (hfailure _ h) answer
  unfold printSession
  apply Session.Alike.bind (htake _ _ (by decide))
  intro _
  apply Session.Alike.bind (htake _ _ (by simp [Step.action]))
  intro _
  apply Session.Alike.bind (htake _ _ (by simp [Step.action]))
  intro _
  apply Session.Alike.bind (Session.alike_attempt b b' _ _)
  intro _
  have hprint : ∀ pageCount : Option Int, Session.Alike (printPages b job pageCount)
      (printPages b' job pageCount) := by
    intro pageCount
    unfold printPages
    rw [hpdf]
    apply Session.Alike.bind (htake _ _ (by simp [Step.action]))
    intro _
    exact .refl _
  split
  · refine Session.Alike.bind ?_ hprint
    unfold awaitPages
    apply Session.Alike.bind (htake _ _ (by simp [Step.action]))
    intro _
    rw [hstate]
    apply Session.Alike.bind (htake _ _ (by simp [Step.action]))
    intro state
    split
    · exact .refl _
    · rw [hcount]
      apply Session.Alike.bind (htake _ _ (by simp [Step.action]))
      intro _
      exact .refl _
  · exact Session.Alike.bind (.refl _) hprint

theorem steps_printPages (pageCount : Option Int) : (printPages b job pageCount).steps =
    [.print (job.options.arguments job.fromBundle)] := by
  unfold printPages
  cases houtcome : (Session.take b (.print (job.options.arguments job.fromBundle)) b.pdf).outcome
  · rw [Session.bind_of_error houtcome, Session.steps_take]
  · rw [Session.bind_of_ok houtcome, Session.steps_take]
    rfl

theorem exists_printPages_ok_iff (pageCount : Option Int) :
    (∃ r, (printPages b job pageCount).outcome = .ok r) ↔ b.failure .print = none := by
  constructor
  · rintro ⟨r, h⟩
    obtain ⟨pdf, hpdf, -⟩ := Session.exists_of_bind_ok h
    cases hfailure : b.failure .print with
    | none => rfl
    | some message =>
        rw [Session.take_of_some hfailure] at hpdf
        contradiction
  · intro h
    have hpdf : Session.take b (.print (job.options.arguments job.fromBundle)) b.pdf = _ :=
      Session.take_of_none h b.pdf
    exact ⟨⟨b.pdf, pageCount⟩, by rw [printPages, hpdf]; rfl⟩

/-- Before the document is printed nothing is printed and nothing closed. -/
theorem action_not_mem_before {action : Action} (haction : action = .print ∨ action = .close) :
    action ∉ (job.loading settings ++ job.waiting settings).map Step.action := by
  unfold Job.loading Job.waiting
  rcases haction with rfl | rfl
  · split <;> simp [Step.action]
  · split <;> simp [Step.action]

/-- The steps between launching and closing, and whether the document is printed. -/
theorem steps_printSession :
    (∃ pageCount, (prepare settings b job).outcome = .ok pageCount ∧
        (printSession settings b job).steps = job.loading settings ++ job.waiting settings ++
          [.print (job.options.arguments job.fromBundle)]) ∨
      (∃ e, (prepare settings b job).outcome = .error e ∧
        (printSession settings b job).outcome = .error e ∧
        (printSession settings b job).steps <+: job.loading settings ++ job.waiting settings) := by
  have hkeeps := keepsTo_prepare settings b job
  rw [printSession_eq]
  cases houtcome : (prepare settings b job).outcome with
  | error e =>
      refine Or.inr ⟨e, rfl, ?_⟩
      rw [Session.bind_of_error houtcome]
      exact ⟨rfl, hkeeps.within⟩
  | ok pageCount =>
      refine Or.inl ⟨pageCount, rfl, ?_⟩
      rw [Session.bind_of_ok houtcome]
      dsimp only
      rw [hkeeps.complete pageCount houtcome, steps_printPages]

theorem print_mem_iff : .print ∈ (printSession settings b job).steps.map Step.action ↔
    ∃ pageCount, (prepare settings b job).outcome = .ok pageCount := by
  rcases steps_printSession settings b job with ⟨pageCount, hok, hsteps⟩ | ⟨e, herror, -, hwithin⟩
  · rw [hsteps, List.map_append, List.mem_append]
    exact ⟨fun _ => ⟨pageCount, hok⟩, fun _ => Or.inr List.mem_cons_self⟩
  · constructor
    · intro hmem
      exact absurd ((hwithin.map Step.action).subset hmem)
        (action_not_mem_before settings job (Or.inl rfl))
    · rintro ⟨pageCount, hok⟩
      rw [herror] at hok
      contradiction

theorem exists_printSession_ok_iff :
    (∃ r, (printSession settings b job).outcome = .ok r) ↔
      .print ∈ (printSession settings b job).steps.map Step.action ∧ b.failure .print = none := by
  rw [print_mem_iff, printSession_eq]
  constructor
  · rintro ⟨r, hr⟩
    obtain ⟨pageCount, hok, hprint⟩ := Session.exists_of_bind_ok hr
    exact ⟨⟨pageCount, hok⟩, (exists_printPages_ok_iff b job pageCount).1 ⟨r, hprint⟩⟩
  · rintro ⟨⟨pageCount, hok⟩, hfailure⟩
    rw [Session.bind_of_ok hok]
    exact (exists_printPages_ok_iff b job pageCount).2 hfailure

theorem session_eq : session settings b job =
    Session.take b (.launch settings.browserArguments) () >>= fun _ =>
      Session.closing b (printSession settings b job) := rfl

/-- A session is nothing but the attempt to launch a browser, or is closed. -/
theorem steps_session : (session settings b job).steps =
    if b.failure .launch = none then
      .launch settings.browserArguments :: (printSession settings b job).steps ++ [.close]
    else [.launch settings.browserArguments] := by
  rw [session_eq]
  cases hlaunch : b.failure .launch with
  | none =>
      have htake : Session.take b (.launch settings.browserArguments) () = _ :=
        Session.take_of_none hlaunch ()
      rw [htake, Session.bind_of_ok rfl]
      rfl
  | some message =>
      have htake : Session.take b (.launch settings.browserArguments) () = _ :=
        Session.take_of_some hlaunch ()
      rw [htake, Session.bind_of_error rfl]
      rfl

theorem exists_session_ok_iff : (∃ r, (session settings b job).outcome = .ok r) ↔
    b.failure .launch = none ∧ (∃ r, (printSession settings b job).outcome = .ok r) ∧
      b.failure .close = none := by
  rw [session_eq]
  cases hlaunch : b.failure .launch with
  | none =>
      have htake : Session.take b (.launch settings.browserArguments) () = _ :=
        Session.take_of_none hlaunch ()
      rw [htake, Session.bind_of_ok rfl]
      unfold Session.closing
      cases hclose : b.failure .close with
      | none => simp
      | some message => simp
  | some message =>
      have htake : Session.take b (.launch settings.browserArguments) () = _ :=
        Session.take_of_some hlaunch ()
      rw [htake, Session.bind_of_error rfl]
      simp

theorem render_eq : (render settings b job).steps = (session settings b job).steps ∧
    (render settings b job).outcome =
      (session settings b job).outcome.map fun r => (finish b job.options r).value := by
  unfold render
  dsimp only
  split
  · rename_i e he
    rw [he]
    exact ⟨rfl, rfl⟩
  · rename_i r hr
    rw [hr]
    exact ⟨rfl, rfl⟩

/-- What is done for a print, by the kinds of its steps. -/
def actions : List Action := (render settings b job).steps.map Step.action

/-- A print is orderly: it takes the steps of its plan up to one that fails, or all of them, and
then closes its browser, if it has launched one; waiting for the fonts makes no difference to how
it ends; no document that lays out its pages is printed before they are laid out; the print is
handed on if and only if the document was printed and the browser closed; and a print that is not
handed on ends in an error that has a cause. -/
structure Orderly : Prop where
  follows : ∃ taken, taken ≠ [] ∧ taken <+: job.plan settings ∧
    (render settings b job).steps =
      taken ++ if b.failure .launch = none then [.close] else []
  closes : b.failure .launch = none ↔
    (actions settings b job).count .close = 1 ∧ (actions settings b job).getLast? = some .close
  fonts : ∀ failure,
    (render settings (b.failing .fonts failure) job).outcome = (render settings b job).outcome
  laidOut : job.waits → .print ∈ actions settings b job → b.LaidOut
  handedOn : (∃ r, (render settings b job).outcome = .ok r) ↔
    .print ∈ actions settings b job ∧ b.failure .print = none ∧ b.failure .close = none
  fails : ∀ e, (render settings b job).outcome = .error e → RenderError.Arises b job e

theorem actions_eq : actions settings b job =
    if b.failure .launch = none then
      .launch :: (printSession settings b job).steps.map Step.action ++ [.close]
    else [.launch] := by
  unfold actions
  rw [(render_eq settings b job).1, steps_session]
  split
  · simp [Step.action]
  · rfl

theorem print_mem_actions_iff : .print ∈ actions settings b job ↔
    b.failure .launch = none ∧ .print ∈ (printSession settings b job).steps.map Step.action := by
  rw [actions_eq]
  split
  · rename_i hlaunch
    simp [hlaunch]
  · rename_i hlaunch
    simp [hlaunch]

/-- Between launching and closing the plan is kept, and nothing is closed. -/
theorem printSession_within : (printSession settings b job).steps <+:
    job.loading settings ++ job.waiting settings ++
      [.print (job.options.arguments job.fromBundle)] := by
  rcases steps_printSession settings b job with ⟨-, -, hsteps⟩ | ⟨-, -, -, hwithin⟩
  · exact hsteps ▸ List.prefix_rfl
  · exact hwithin.trans (List.prefix_append _ _)

/-- No other document is loaded. -/
theorem eq_of_setContent_mem {html quiet : Chars}
    (h : .setContent html quiet ∈ (render settings b job).steps) :
    html = job.html ∧ quiet = idle := by
  have hplan : .setContent html quiet ∈ job.loading settings ++ job.waiting settings ++
      [.print (job.options.arguments job.fromBundle)] := by
    rw [(render_eq settings b job).1, steps_session] at h
    split at h
    · exact (printSession_within settings b job).subset (by simpa using h)
    · simp at h
  have hloading : .setContent html quiet ∈ job.loading settings := by
    unfold Job.waiting at hplan
    split at hplan
    · simpa using hplan
    · simpa using hplan
  simpa [Job.loading] using hloading

/-- A document that is handed on was loaded. -/
theorem setContent_mem_of_ok {r : Rendered} (h : (render settings b job).outcome = .ok r) :
    .setContent job.html idle ∈ (render settings b job).steps := by
  obtain ⟨hsteps, houtcome⟩ := render_eq settings b job
  rw [houtcome] at h
  obtain ⟨r', hsession, -⟩ := exists_of_map_eq_ok h
  obtain ⟨hlaunch, ⟨r'', hprinted⟩, -⟩ := (exists_session_ok_iff settings b job).1 ⟨r', hsession⟩
  have hloaded : .setContent job.html idle ∈ (printSession settings b job).steps := by
    rcases steps_printSession settings b job with ⟨_, -, hall⟩ | ⟨e, -, hfailed, -⟩
    · rw [hall]
      simp [Job.loading]
    · rw [hfailed] at hprinted
      contradiction
  rw [hsteps, steps_session, if_pos hlaunch]
  exact List.mem_append_left _ (List.mem_cons_of_mem _ hloaded)

theorem close_not_mem_printSession :
    .close ∉ (printSession settings b job).steps.map Step.action := by
  intro hmem
  have hplan := ((printSession_within settings b job).map Step.action).subset hmem
  rw [List.map_append, List.mem_append] at hplan
  rcases hplan with hbefore | hprint
  · exact action_not_mem_before settings job (Or.inr rfl) hbefore
  · simp [Step.action] at hprint

theorem failsBy_session : (session settings b job).FailsBy (RenderError.Arises b job) := by
  rw [session_eq]
  refine Session.FailsBy.bind (failsBy_take b job _ ()) fun _ _ => ?_
  exact (failsBy_printSession settings b job).closing fun _ h => .step h

theorem outcome_session_failing_fonts (failure : Option Chars) :
    (session settings (b.failing .fonts failure) job).outcome =
      (session settings b job).outcome := by
  have hfailure : ∀ action ≠ .fonts,
      (b.failing .fonts failure).failure action = b.failure action := by
    intro action haction
    exact Function.update_of_ne haction failure b.failure
  have halike := alike_printSession settings job hfailure rfl rfl rfl
  rw [session_eq, session_eq]
  have hlaunch :
      Session.Alike (Session.take (b.failing .fonts failure) (.launch settings.browserArguments) ())
        (Session.take b (.launch settings.browserArguments) ()) :=
    Session.alike_take (hfailure .launch (by decide)) ()
  exact (hlaunch.bind fun _ => halike.closing (hfailure .close (by decide))).outcome

/-- Every print is orderly, whichever of its steps fail and whatever the browser answers. -/
theorem orderly_render : Orderly settings b job := by
  constructor
  case follows =>
    rw [(render_eq settings b job).1, steps_session]
    split
    · refine ⟨.launch settings.browserArguments :: (printSession settings b job).steps,
        List.cons_ne_nil _ _, ?_, rfl⟩
      obtain ⟨rest, hrest⟩ := printSession_within settings b job
      exact ⟨rest, by rw [Job.plan, List.cons_append, hrest]; simp⟩
    · refine ⟨[.launch settings.browserArguments], List.cons_ne_nil _ _, ?_, rfl⟩
      exact List.prefix_append _ _
  case closes =>
    rw [actions_eq]
    have hinside := close_not_mem_printSession settings b job
    split
    · rename_i hlaunch
      have hcount := List.count_eq_zero.2 hinside
      exact ⟨fun _ => ⟨by simp [hcount], List.getLast?_concat⟩, fun _ => hlaunch⟩
    · rename_i hlaunch
      simp [hlaunch]
  case fonts =>
    intro failure
    rw [(render_eq settings _ job).2, (render_eq settings b job).2,
      outcome_session_failing_fonts]
    rfl
  case laidOut =>
    intro hwaits hprint
    obtain ⟨-, hprint⟩ := (print_mem_actions_iff settings b job).1 hprint
    obtain ⟨pageCount, hok⟩ := (print_mem_iff settings b job).1 hprint
    exact laidOut_of_prepare settings b job hwaits hok
  case handedOn =>
    have hsession := exists_session_ok_iff settings b job
    rw [exists_printSession_ok_iff] at hsession
    rw [print_mem_actions_iff, (render_eq settings b job).2]
    constructor
    · rintro ⟨r, hr⟩
      obtain ⟨made, hmade, -⟩ := exists_of_map_eq_ok hr
      obtain ⟨hlaunch, ⟨hprint, hprinted⟩, hclose⟩ := hsession.1 ⟨made, hmade⟩
      exact ⟨⟨hlaunch, hprint⟩, hprinted, hclose⟩
    · rintro ⟨⟨hlaunch, hprint⟩, hprinted, hclose⟩
      obtain ⟨made, hmade⟩ := hsession.2 ⟨hlaunch, ⟨hprint, hprinted⟩, hclose⟩
      exact ⟨_, by rw [hmade]; rfl⟩
  case fails =>
    intro e he
    rw [(render_eq settings b job).2] at he
    cases hsession : (session settings b job).outcome with
    | error f =>
        rw [hsession] at he
        obtain rfl := Except.error.inj he
        exact failsBy_session settings b job _ hsession
    | ok r =>
        rw [hsession] at he
        contradiction

end Print

/-- The number of pages is none, and neither can the browser be closed: nothing is printed, and
what is told is that the browser stays open. -/
example :
    let b : Browser := { Browser.standard with
      failure := fun action => if action = .close then some "stuck".runes else none
      count := some "two".runes }
    let job : Job := ⟨"<p>".runes, .standard, true, true⟩
    actions .standard b job = [.launch, .newPage, .setTimeout, .setContent, .fonts, .wait, .state,
        .count, .close] ∧
      (render .standard b job).outcome.toOption = none := by
  decide +kernel

end Folio.Print
