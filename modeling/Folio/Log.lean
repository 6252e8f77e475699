import Folio.Text.Blank

/-!
Records of what happened on the way to a result.
-/
namespace Folio

inductive Level where
  | debug
  | info
  | warning
  | error
deriving DecidableEq, Repr

def Level.name : Level → String
  | .debug => "DEBUG"
  | .info => "INFO"
  | .warning => "WARNING"
  | .error => "ERROR"

/-- A record of one event. -/
structure Record where
  level : Level
  message : Chars
deriving DecidableEq, Repr

/-- A value together with the records of how it came about, the earliest first. -/
structure Logged (α : Type) where
  value : α
  records : List Record
deriving DecidableEq, Repr

namespace Logged

/-- A value without records. -/
def quiet {α : Type} (a : α) : Logged α := ⟨a, []⟩

/-- Goes on from a value; its records come first. -/
def andThen {α β : Type} (x : Logged α) (f : α → Logged β) : Logged β :=
  ⟨(f x.value).value, x.records ++ (f x.value).records⟩

def map {α β : Type} (f : α → β) (x : Logged α) : Logged β := ⟨f x.value, x.records⟩

end Logged

/-- A computation that records what happens, whether it succeeds or not. -/
abbrev Recorded (ε α : Type) := Logged (Except ε α)

end Folio
