import Folio.Paginate.Run

/-!
One attempt. However often a view is told to lay out its document, it tries once, at the first
time, and not at all if that was tried before. The root tells how the attempt went: that it failed
whenever there is a failure, and the number of pages only when there is none. This holds for any
attempt, whatever it does to the document and wherever it fails.
-/
namespace Folio.Paginate

namespace View

/-- The view after an attempt to lay out its document. -/
def afterAttempt (laid : Laid) (v : View) : View :=
  match laid.outcome with
  | .ok count =>
      { v with
        root := Entries.put doneKey "true".runes
          (Entries.put countKey (Text.decimal count) v.root)
        document := laid.document }
  | .error fault =>
      { root := Entries.put doneKey "error".runes v.root
        document := laid.document
        faults := v.faults ++ [fault] }

/-- A trigger, for an attempt of any kind. -/
def triggerBy (attempt : List Node → Laid) (v : View) : View :=
  if v.isDone then v else v.afterAttempt (attempt v.document)

def settleBy (attempt : List Node → Laid) (complete : Bool) (loads : Nat) (v : View) : View :=
  if complete then v.triggerBy attempt else loads.repeat (triggerBy attempt) v

/-- How often a view is triggered: once if the document is complete, and no load is listened to
then; else at each load. -/
def triggers (complete : Bool) (loads : Nat) : Nat := if complete then 1 else loads

/-- The views at which an attempt is made, in the course of some triggers. -/
def attempts (attempt : List Node → Laid) : Nat → View → List View
  | 0, _ => []
  | n + 1, v => (if v.isDone then [] else [v]) ++ attempts attempt n (v.triggerBy attempt)

theorem trigger_eq_triggerBy (gauge : Gauge) (vars : Properties) :
    trigger gauge vars = triggerBy (layOut gauge vars) := by
  funext v
  unfold trigger triggerBy afterAttempt
  cases v.isDone with
  | true => rfl
  | false =>
      obtain ⟨document, outcome⟩ := layOut gauge vars v.document
      cases outcome <;> rfl

theorem settle_eq_settleBy (gauge : Gauge) (vars : Properties) :
    settle gauge vars = settleBy (layOut gauge vars) := by
  funext complete loads v
  rw [settle, settleBy, trigger_eq_triggerBy]

section Attempt

variable (attempt : List Node → Laid) {v : View}

theorem isDone_of_lookup {value : Chars} (hvalue : value ≠ [])
    (hroot : v.root.lookup doneKey = some value) : v.isDone := by
  rw [isDone, hroot, Option.getD_some]
  simpa using hvalue

theorem triggerBy_of_isDone (hdone : v.isDone) : v.triggerBy attempt = v := by
  rw [triggerBy, if_pos hdone]

theorem triggerBy_of_not_isDone (hdone : v.isDone = false) :
    v.triggerBy attempt = v.afterAttempt (attempt v.document) := by
  rw [triggerBy, hdone]
  rfl

/-- What the root tells after an attempt that failed. -/
theorem afterAttempt_of_error {laid : Laid} {fault : Fault} (hlaid : laid.outcome = .error fault) :
    (v.afterAttempt laid).root.lookup doneKey = some "error".runes ∧
      (v.afterAttempt laid).root.lookup countKey = v.root.lookup countKey ∧
      (v.afterAttempt laid).faults = v.faults ++ [fault] := by
  have hkeys : countKey ≠ doneKey := by decide
  simp only [afterAttempt, hlaid]
  exact ⟨Entries.lookup_put_self _ _ _, Entries.lookup_put_of_ne hkeys _ _, trivial⟩

/-- What the root tells after an attempt that did not fail. -/
theorem afterAttempt_of_ok {laid : Laid} {count : Nat} (hlaid : laid.outcome = .ok count) :
    (v.afterAttempt laid).root.lookup doneKey = some "true".runes ∧
      (v.afterAttempt laid).root.lookup countKey = some (Text.decimal count) ∧
      (v.afterAttempt laid).faults = v.faults := by
  have hkeys : countKey ≠ doneKey := by decide
  simp only [afterAttempt, hlaid]
  refine ⟨Entries.lookup_put_self _ _ _, ?_, trivial⟩
  rw [Entries.lookup_put_of_ne hkeys, Entries.lookup_put_self]

/-- One trigger: after it no further attempt is made. -/
theorem isDone_triggerBy (v : View) : (v.triggerBy attempt).isDone := by
  cases hdone : v.isDone with
  | true =>
      rw [triggerBy_of_isDone attempt hdone]
      exact hdone
  | false =>
      rw [triggerBy_of_not_isDone attempt hdone]
      cases hlaid : (attempt v.document).outcome with
      | ok count => exact isDone_of_lookup (by decide) (afterAttempt_of_ok hlaid).1
      | error fault => exact isDone_of_lookup (by decide) (afterAttempt_of_error hlaid).1

/-- All triggers: those after the first change nothing. -/
theorem repeat_triggerBy (n : Nat) (v : View) :
    (n + 1).repeat (triggerBy attempt) v = v.triggerBy attempt := by
  induction n with
  | zero => rfl
  | succ n ih =>
      rw [Nat.repeat, ih]
      exact triggerBy_of_isDone attempt (isDone_triggerBy attempt v)

theorem attempts_of_isDone (n : Nat) (hdone : v.isDone) : v.attempts attempt n = [] := by
  induction n with
  | zero => rfl
  | succ n ih => rw [attempts, if_pos hdone, triggerBy_of_isDone attempt hdone, ih, List.append_nil]

theorem attempts_succ (n : Nat) (v : View) :
    v.attempts attempt (n + 1) = if v.isDone then [] else [v] := by
  rw [attempts, attempts_of_isDone attempt n (isDone_triggerBy attempt v), List.append_nil]

/-- What is settled when a view is: the views at which attempts are made are known, the first
trigger is the only one that counts, and the root agrees with the failures. -/
structure SettledOnce (complete : Bool) (loads : Nat) (v settled : View) : Prop where
  attempts : v.attempts attempt (triggers complete loads) =
    if v.isDone || triggers complete loads == 0 then [] else [v]
  first : 0 < triggers complete loads → settled = v.triggerBy attempt
  untouched : v.isDone ∨ triggers complete loads = 0 → settled = v
  failed : ∀ fault, v.isDone = false → 0 < triggers complete loads →
    (attempt v.document).outcome = .error fault →
      settled.root.lookup doneKey = some "error".runes ∧
        settled.root.lookup countKey = v.root.lookup countKey ∧
        settled.faults = v.faults ++ [fault]
  succeeded : ∀ count, v.isDone = false → 0 < triggers complete loads →
    (attempt v.document).outcome = .ok count →
      settled.root.lookup doneKey = some "true".runes ∧
        settled.root.lookup countKey = some (Text.decimal count) ∧
        settled.faults = v.faults
  honest : settled.root.lookup doneKey = some "true".runes → settled.faults = v.faults

theorem settleBy_eq_repeat (complete : Bool) (loads : Nat) (v : View) :
    v.settleBy attempt complete loads =
      (triggers complete loads).repeat (triggerBy attempt) v := by
  cases complete <;> rfl

theorem settledOnce_settleBy (complete : Bool) (loads : Nat) (v : View) :
    SettledOnce attempt complete loads v (v.settleBy attempt complete loads) := by
  rw [settleBy_eq_repeat]
  cases htriggers : triggers complete loads with
  | zero =>
      have hnone : ¬ 0 < triggers complete loads := by omega
      constructor
      · simp [htriggers, View.attempts]
      · exact fun h => absurd h hnone
      · exact fun _ => rfl
      · exact fun _ _ h => absurd h hnone
      · exact fun _ _ h => absurd h hnone
      · exact fun _ => rfl
  | succ n =>
      rw [repeat_triggerBy]
      constructor
      · rw [htriggers, attempts_succ]
        simp
      · exact fun _ => rfl
      · rintro (hdone | hnone)
        · exact triggerBy_of_isDone attempt hdone
        · omega
      · intro fault hdone _ hlaid
        rw [triggerBy_of_not_isDone attempt hdone]
        exact afterAttempt_of_error hlaid
      · intro count hdone _ hlaid
        rw [triggerBy_of_not_isDone attempt hdone]
        exact afterAttempt_of_ok hlaid
      · intro htrue
        cases hdone : v.isDone with
        | true => rw [triggerBy_of_isDone attempt hdone]
        | false =>
            rw [triggerBy_of_not_isDone attempt hdone] at htrue ⊢
            cases hlaid : (attempt v.document).outcome with
            | ok count => exact (afterAttempt_of_ok hlaid).2.2
            | error fault =>
                rw [(afterAttempt_of_error hlaid).1] at htrue
                exact absurd htrue (by decide)

end Attempt

/-- A view is settled by one attempt at most, whatever its document and its root are, whether the
document is complete and however many loads there are. What is settled does not depend on how the
document is laid out, nor on where that fails. -/
theorem settle_once (gauge : Gauge) (vars : Properties) (complete : Bool) (loads : Nat)
    (v : View) :
    SettledOnce (layOut gauge vars) complete loads v (v.settle gauge vars complete loads) ∧
      ∀ attempt, SettledOnce attempt complete loads v (v.settleBy attempt complete loads) := by
  rw [settle_eq_settleBy]
  exact ⟨settledOnce_settleBy _ complete loads v,
    fun attempt => settledOnce_settleBy attempt complete loads v⟩

end View

end Folio.Paginate
