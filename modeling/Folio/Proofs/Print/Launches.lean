import Folio.Print.Render

/-!
Every print launches one browser, with its first step.
-/
namespace Folio.Print

def Step.isLaunch (step : Step) : Bool := step.action == .launch

/-- How many browsers some steps launch. -/
def launches (steps : List Step) : Nat := steps.countP Step.isLaunch

theorem launches_append (before after : List Step) :
    launches (before ++ after) = launches before + launches after :=
  List.countP_append

namespace Session

variable {α β : Type}

/-- The steps of a session that goes on are those before and those after. -/
theorem mem_steps_bind {s : Session α} {next : α → Session β} {step : Step}
    (hstep : step ∈ (s >>= next).steps) : step ∈ s.steps ∨ ∃ a, step ∈ (next a).steps := by
  change step ∈ (s.andThen next).steps at hstep
  unfold andThen at hstep
  cases houtcome : s.outcome with
  | error e =>
      rw [houtcome] at hstep
      exact Or.inl hstep
  | ok a =>
      rw [houtcome] at hstep
      exact (List.mem_append.1 hstep).imp_right fun h => ⟨a, h⟩

/-- What holds of the steps before and of those after holds of all steps. -/
theorem forall_steps_bind {p : Step → Prop} {s : Session α} {next : α → Session β}
    (hbefore : ∀ step ∈ s.steps, p step) (hafter : ∀ a, ∀ step ∈ (next a).steps, p step) :
    ∀ step ∈ (s >>= next).steps, p step := by
  intro step hstep
  rcases mem_steps_bind hstep with h | ⟨a, h⟩
  · exact hbefore step h
  · exact hafter a step h

theorem steps_attempt (b : Browser) (step : Step) (record : Chars → Record) :
    (attempt b step record).steps = [step] := by
  unfold attempt
  split <;> rfl

end Session

theorem not_isLaunch_take {α : Type} {b : Browser} {step : Step} {answer : α}
    (hstep : step.isLaunch = false) :
    ∀ other ∈ (Session.take b step answer).steps, other.isLaunch = false := by
  intro other hother
  rw [Session.steps_take, List.mem_singleton] at hother
  rw [hother]
  exact hstep

theorem not_isLaunch_awaitPages (settings : Settings) (b : Browser) :
    ∀ step ∈ (awaitPages settings b).steps, step.isLaunch = false := by
  unfold awaitPages
  refine Session.forall_steps_bind (not_isLaunch_take rfl) fun _ => ?_
  refine Session.forall_steps_bind (not_isLaunch_take rfl) fun state => ?_
  split
  · exact fun step hstep => absurd hstep List.not_mem_nil
  · refine Session.forall_steps_bind (not_isLaunch_take rfl) fun count => ?_
    intro step hstep
    have hnone : (readCount count).steps = [] := by
      unfold readCount
      repeat' split
      all_goals rfl
    rw [hnone] at hstep
    exact absurd hstep List.not_mem_nil

/-- Between launching the browser and closing it no other one is launched. -/
theorem not_isLaunch_printSession (settings : Settings) (b : Browser) (job : Job) :
    ∀ step ∈ (printSession settings b job).steps, step.isLaunch = false := by
  have hprint : ∀ pageCount : Option Int, ∀ step ∈ (do
      let pdf ← Session.take b (.print (job.options.arguments job.fromBundle)) b.pdf
      return ⟨pdf, pageCount⟩ : Session Rendered).steps, step.isLaunch = false := by
    intro pageCount
    refine Session.forall_steps_bind (not_isLaunch_take rfl) fun pdf => ?_
    exact fun step hstep => absurd hstep List.not_mem_nil
  unfold printSession
  refine Session.forall_steps_bind (not_isLaunch_take rfl) fun _ => ?_
  refine Session.forall_steps_bind (not_isLaunch_take rfl) fun _ => ?_
  refine Session.forall_steps_bind (not_isLaunch_take rfl) fun _ => ?_
  refine Session.forall_steps_bind ?_ fun _ => ?_
  · intro step hstep
    rw [Session.steps_attempt, List.mem_singleton] at hstep
    rw [hstep]
    rfl
  · dsimp only
    split
    · exact Session.forall_steps_bind (not_isLaunch_awaitPages settings b) hprint
    · exact Session.forall_steps_bind (fun step hstep => absurd hstep List.not_mem_nil) hprint

theorem launches_session (settings : Settings) (b : Browser) (job : Job) :
    launches (session settings b job).steps = 1 := by
  have hsession : session settings b job =
      (Session.take b (.launch settings.browserArguments) ()).andThen fun _ =>
        Session.closing b (printSession settings b job) := rfl
  rw [hsession, Session.andThen]
  cases hlaunch : (Session.take b (.launch settings.browserArguments) ()).outcome with
  | error e =>
      rw [Session.steps_take]
      rfl
  | ok _ =>
      have hinner : launches (printSession settings b job).steps = 0 :=
        List.countP_eq_zero.2 fun step hstep => by
          rw [not_isLaunch_printSession settings b job step hstep]
          exact Bool.false_ne_true
      rw [Session.steps_take, Session.steps_closing, launches_append, launches_append, hinner]
      rfl

/-- A print launches one browser, whatever becomes of it. -/
theorem launches_render (settings : Settings) (b : Browser) (job : Job) :
    launches (render settings b job).steps = 1 := by
  rw [← launches_session settings b job, render]
  split <;> rfl

end Folio.Print
