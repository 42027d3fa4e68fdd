import CellHost.Clock

/-!
# Timers

A timer is armed with an interval and is due that much later. A timer that fires is disarmed, or,
if it repeats, due again one interval after the moment at which it fired.

## Main results

* `Timer.fire?_isSome_iff` : a timer fires when it is armed and due, and never else.
-/

namespace CellHost

/-- An interval with the moment at which it is over, if the timer is armed; in nanoseconds. -/
structure Timer where
  interval : Nat := 0
  repeats : Bool := false
  due : Option Nat := none
  deriving DecidableEq, Repr, Inhabited

namespace Timer

/-- The timer armed at a moment. -/
def armedAt (now interval : Nat) (repeats : Bool) : Timer where
  interval := interval
  repeats := repeats
  due := some (now + interval)

/-- The timer put out of action. -/
def disarm (t : Timer) : Timer := { t with due := none }

/-- Whether the timer waits for a moment. -/
def isArmed (t : Timer) : Bool := t.due.isSome

/-- The interval, while the timer is armed. -/
def interval? (t : Timer) : Option Nat := t.due.map fun _ => t.interval

/-- What is left of a timer that fires at a moment; `none` if it is not due then. -/
def fire? (t : Timer) (now : Nat) : Option Timer :=
  match t.due with
  | none => none
  | some due =>
    if due ≤ now then some { t with due := if t.repeats then some (now + t.interval) else none }
    else none

theorem fire?_isSome_iff (t : Timer) (now : Nat) :
    (t.fire? now).isSome ↔ ∃ due, t.due = some due ∧ due ≤ now := by
  cases h : t.due with
  | none => simp [fire?, h]
  | some due => by_cases hd : due ≤ now <;> simp [fire?, h, hd]

end Timer

end CellHost
