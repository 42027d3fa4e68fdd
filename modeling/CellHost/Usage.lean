import CellHost.Cell

/-!
# High-water marks

The largest stack and the largest heap that checkpoints have seen, in bytes. The two maxima are
independent: they may come from different checkpoints.

## Main results

* `Usage.sample_stack`, `Usage.sample_heap` : a sample raises each mark to itself at least.
-/

namespace CellHost

/-- Largest stack and heap seen, in bytes. -/
structure Usage where
  stack : Nat := 0
  heap : Nat := 0
  deriving DecidableEq, Repr, Inhabited

namespace Usage

/-- The marks after one more sample. -/
def sample (u : Usage) (stack heap : Nat) : Usage where
  stack := max u.stack stack
  heap := max u.heap heap

/-- The stack mark in whole cells. -/
def stackCells (u : Usage) : Nat := u.stack / cellSize

/-- The heap mark in whole cells. -/
def heapCells (u : Usage) : Nat := u.heap / cellSize

/-- Whether nothing but empty stacks and heaps was seen. -/
def isEmpty (u : Usage) : Bool := u.stack == 0 && u.heap == 0

@[simp] theorem sample_stack (u : Usage) (stack heap : Nat) :
    (u.sample stack heap).stack = max u.stack stack := rfl

@[simp] theorem sample_heap (u : Usage) (stack heap : Nat) :
    (u.sample stack heap).heap = max u.heap heap := rfl

end Usage

end CellHost
