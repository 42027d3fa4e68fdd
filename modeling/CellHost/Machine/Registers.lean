import CellHost.MachineError

/-!
# Registers and data memory

Data memory is one block of cells, used from both ends.

```text
0          hlw        hea            stk          stp
| data ... | heap --> |    free      | <-- stack  |
```

`hlw` and `stp` are fixed when a program is laid out; the heap pointer `hea` and the stack pointer
`stk` move. A program can read and write any cell except those in the gap between heap and stack.
Pushing and popping go by the stack pointer alone, and look at the cell in which it lies.

Nothing here changes memory: an operation that would store gives the `Store` it wants, and the caller
carries it out.

## Main definitions

* `Registers.load`, `Registers.store` : guarded access to a cell by address.
* `Registers.push`, `Registers.pop` : the two stack operations.
-/

namespace CellHost

/-- Data memory, cell by cell. -/
abbrev Memory := Array Cell

/-- A cell to be written: the one in which `address` lies. -/
structure Store where
  address : Nat
  value : Cell
  deriving DecidableEq, Repr, Inhabited

namespace Memory

/-- A block of so many cells that begins with initial contents and is zero from there. -/
def ofData (data : Array Cell) (cells : Nat) : Memory :=
  data.size.fold (fun i _ m => m.setIfInBounds i data[i]) (Array.replicate cells 0)

/-- The contents of the cell in which an address lies. -/
def cellAt (m : Memory) (address : Nat) : Cell := m.getD (address / cellSize) 0

/-- Memory after a write. -/
def apply (m : Memory) (s : Store) : Memory := m.setIfInBounds (s.address / cellSize) s.value

end Memory

/-- The fixed bounds of a memory block, as addresses. -/
structure Layout where
  /-- End of the initialised data and lowest place of the heap pointer. -/
  hlw : Nat
  /-- End of memory and highest place of the stack pointer. -/
  stp : Nat
  deriving DecidableEq, Repr, Inhabited

/-- What a program computes with. -/
structure Registers where
  /-- Primary register: results, and first argument of natives. -/
  pri : Cell := 0
  /-- Alternate register. -/
  alt : Cell := 0
  /-- Code address of the instruction to execute. -/
  cip : Nat := 0
  /-- Frame pointer. -/
  frm : Nat
  /-- Stack pointer. -/
  stk : Nat
  /-- Heap pointer. -/
  hea : Nat
  deriving DecidableEq, Repr, Inhabited

namespace Registers

/-- Whether a program may look at an address: it is the address of a cell of the block and does not
lie in the gap. -/
def accessible (l : Layout) (r : Registers) (address : Nat) : Bool :=
  address % cellSize == 0 && address < l.stp && !(r.hea ≤ address && address < r.stk)

/-- The cell at an address. -/
def load (l : Layout) (m : Memory) (r : Registers) (address : Nat) : Except MachineError Cell :=
  if r.accessible l address then .ok (m.cellAt address) else .error .memoryAccess

/-- The write of a cell at an address. -/
def store (l : Layout) (r : Registers) (address : Nat) (value : Cell) :
    Except MachineError Store :=
  if r.accessible l address then .ok ⟨address, value⟩ else .error .memoryAccess

/-- Push a cell: it needs room between heap and stack. -/
def push (r : Registers) (value : Cell) : Except MachineError (Registers × Store) :=
  if r.stk < r.hea + cellSize then .error .stackCollision
  else .ok ({ r with stk := r.stk - cellSize }, ⟨r.stk - cellSize, value⟩)

/-- Pop a cell: the stack must not be empty. -/
def pop (l : Layout) (m : Memory) (r : Registers) : Except MachineError (Cell × Registers) :=
  if l.stp ≤ r.stk then .error .stackUnderflow
  else .ok (m.cellAt r.stk, { r with stk := r.stk + cellSize })

/-- Bytes of stack in use, as a count of 64 bits: it wraps for a stack pointer past the end of memory,
where popping takes one that is not the address of a cell. -/
def stackUsage (l : Layout) (r : Registers) : Nat :=
  if r.stk ≤ l.stp then l.stp - r.stk else l.stp + 0x10000000000000000 - r.stk

/-- Bytes of heap in use. -/
def heapUsage (l : Layout) (r : Registers) : Nat := r.hea - l.hlw

end Registers

end CellHost
