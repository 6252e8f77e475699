import Folio.Print.Options

/-!
A session with a browser: the steps it takes, in order, and how it ends. The first step that fails
ends the session.
-/
namespace Folio.Print

open Decimal (NumeralError)

/-- The kinds of steps. -/
inductive Action where
  | launch
  | newPage
  | setTimeout
  | setContent
  | fonts
  | wait
  | state
  | count
  | print
  | close
deriving DecidableEq, Repr

/-- A step with what is handed to the browser. -/
inductive Step where
  | launch (arguments : List Chars)
  | newPage
  | setTimeout (milliseconds : Int)
  /-- Loads a document; `quiet` names the state that is waited for. -/
  | setContent (html : Chars) (quiet : Chars)
  /-- Waits for the fonts of the document. -/
  | fonts (expression : Chars)
  /-- Waits until an expression holds. -/
  | wait (expression : Chars) (milliseconds : Int)
  /-- Asks how laying out the pages has ended. -/
  | state (expression : Chars)
  /-- Asks for the number of pages. -/
  | count (expression : Chars)
  | print (arguments : List (Chars × Json))
  | close

def Step.action : Step → Action
  | .launch _ => .launch
  | .newPage => .newPage
  | .setTimeout _ => .setTimeout
  | .setContent _ _ => .setContent
  | .fonts _ => .fonts
  | .wait _ _ => .wait
  | .state _ => .state
  | .count _ => .count
  | .print _ => .print
  | .close => .close

/-- How a browser behaves: the steps that fail, with their messages, and what it answers. What packs
the documents that it prints comes from elsewhere as well. -/
structure Browser where
  failure : Action → Option Chars
  /-- How laying out the pages has ended. -/
  state : Option Chars
  /-- The number of pages, as the document tells it. -/
  count : Option Chars
  /-- The bytes it prints, each a character below 256. -/
  pdf : Chars
  /-- A document with its content streams packed, or the message of what goes wrong with that. -/
  pack : Chars → Except Chars Chars

/-- The browser of which nothing special is said. -/
def Browser.standard : Browser where
  failure := fun _ => none
  state := some "true".runes
  count := some "1".runes
  pdf := "%PDF-1.7 fake".runes
  pack := fun _ => .error "EOF marker not found".runes

/-- Why a document was not printed. -/
inductive RenderError where
  /-- A step of the browser failed. -/
  | step (message : Chars)
  /-- The number of pages is none. -/
  | numeral (e : NumeralError)
  /-- The pages were not laid out. -/
  | notLaidOut
deriving DecidableEq, Repr

def RenderError.message : RenderError → Chars
  | .step message => message
  | .numeral e => e.message
  | .notLaidOut => "Pagination failed inside the renderer".runes

/-- A session so far: the steps, the records, and how it ended. -/
structure Session (α : Type) where
  steps : List Step
  records : List Record
  outcome : Except RenderError α

namespace Session

/-- A session without steps. -/
def done {α : Type} (a : α) : Session α := ⟨[], [], .ok a⟩

/-- A session without steps that fails. -/
def fail {α : Type} (e : RenderError) : Session α := ⟨[], [], .error e⟩

/-- Goes on with what a session yields, unless it failed. -/
def andThen {α β : Type} (s : Session α) (next : α → Session β) : Session β :=
  match s.outcome with
  | .error e => ⟨s.steps, s.records, .error e⟩
  | .ok a => ⟨s.steps ++ (next a).steps, s.records ++ (next a).records, (next a).outcome⟩

instance : Monad Session where
  pure := done
  bind := andThen

/-- A session of one step; `answer` is what the step yields when it does not fail. -/
def take {α : Type} (b : Browser) (step : Step) (answer : α) : Session α :=
  match b.failure step.action with
  | some message => ⟨[step], [], .error (.step message)⟩
  | none => ⟨[step], [], .ok answer⟩

/-- A step is taken whether it fails or not. -/
@[simp] theorem steps_take {α : Type} (b : Browser) (step : Step) (answer : α) :
    (take b step answer).steps = [step] := by
  unfold take
  split <;> rfl

/-- A session of one step whose failure is only recorded. -/
def attempt (b : Browser) (step : Step) (record : Chars → Record) : Session Unit :=
  match b.failure step.action with
  | some message => ⟨[step], [record message], .ok ()⟩
  | none => ⟨[step], [], .ok ()⟩

/-- Closes the browser after a session, however it ended. A failure to close is told instead of
what went wrong before. -/
def closing {α : Type} (b : Browser) (s : Session α) : Session α :=
  ⟨s.steps ++ [.close], s.records,
    match b.failure .close with
    | some message => .error (.step message)
    | none => s.outcome⟩

/-- The last step closes the browser. -/
@[simp] theorem steps_closing {α : Type} (b : Browser) (s : Session α) :
    (closing b s).steps = s.steps ++ [.close] := rfl

end Session
end Folio.Print
