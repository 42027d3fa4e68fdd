import CellHost.Cell
import CellHost.Timer
import CellHost.Usage

/-!
# Registry entries

What a registry of a context holds under a tag. Some entries are values, others refer to an *object*:
a thing that changes, and that everyone who has the entry sees change. References are indices of
objects, and an object is never taken away, so a reference stays good.

## Main definitions

* `Entry` : the kinds of entries, each with a view that accepts entries of that kind only.
* `Objects` : the objects that entries refer to.
-/

namespace CellHost

/-- A function called while a program sleeps, or has no `main`. -/
inductive IdleFunction where
  /-- Calls the program's timer public whenever the timer is due. -/
  | timer
  | custom (id : Nat)
  deriving DecidableEq, Repr, Inhabited

/-- What a registry holds. -/
inductive Entry where
  | number (value : Cell)
  | text (value : String)
  | cell (ref : Nat)
  | arguments (values : List String)
  | usage (ref : Nat)
  | timer (ref : Nat)
  | idle (handler : IdleFunction)
  deriving DecidableEq, Repr, Inhabited

namespace Entry

/-- The number of an entry that is one. -/
def number? : Entry → Option Cell
  | number value => some value
  | _ => none

/-- The text of an entry that is one. -/
def text? : Entry → Option String
  | text value => some value
  | _ => none

/-- The shared cell that an entry refers to. -/
def cell? : Entry → Option Nat
  | cell ref => some ref
  | _ => none

/-- The program arguments that an entry holds. -/
def arguments? : Entry → Option (List String)
  | arguments values => some values
  | _ => none

/-- The usage record that an entry refers to. -/
def usage? : Entry → Option Nat
  | usage ref => some ref
  | _ => none

/-- The timer that an entry refers to. -/
def timer? : Entry → Option Nat
  | timer ref => some ref
  | _ => none

/-- The idle function of an entry that is one. -/
def idle? : Entry → Option IdleFunction
  | idle handler => some handler
  | _ => none

end Entry

/-- The objects that entries refer to. -/
structure Objects where
  cells : Array Cell := #[]
  usages : Array Usage := #[]
  timers : Array Timer := #[]
  deriving Repr, Inhabited

namespace Objects

/-- The contents of a shared cell. -/
def cell (o : Objects) (ref : Nat) : Cell := o.cells.getD ref 0

/-- A fresh shared cell and its reference. -/
def newCell (o : Objects) (value : Cell) : Nat × Objects :=
  (o.cells.size, { o with cells := o.cells.push value })

/-- The objects after a store into a shared cell. -/
def setCell (o : Objects) (ref : Nat) (value : Cell) : Objects :=
  { o with cells := o.cells.setIfInBounds ref value }

theorem cell_setCell {o : Objects} {ref : Nat} (h : ref < o.cells.size) (value : Cell) :
    (o.setCell ref value).cell ref = value := by
  simp [cell, setCell, h]

theorem cell_setCell_of_ne (o : Objects) {ref other : Nat} (h : ref ≠ other) (value : Cell) :
    (o.setCell ref value).cell other = o.cell other := by
  simp [cell, setCell, Array.getD_eq_getD_getElem?, h]

end Objects

end CellHost
