import CellHost.Cell
import CellHost.LineTable

/-!
# Programs

A program is code and initialised data, both made of cells, with the functions it offers to its
host (its *publics*), the functions it wants from it (its *natives*, in the order of their call
indices) and, if they were asked for, its line table. A program without `main` is *event driven*:
its host calls its publics.

## Main definitions

* `Program` : a loaded program.
* `Program.findPublic?` : the index of a public by name.
-/

namespace CellHost

/-- A function that the program offers to its host. -/
structure Public where
  name : String
  /-- Code address of the first instruction. -/
  address : Nat
  deriving DecidableEq, Repr, Inhabited

/-- A program, ready to be laid out in memory. -/
structure Program where
  flags : UInt16 := 0
  /-- Code address of `main`, if the program has one. -/
  main : Option Nat := none
  code : Array Cell := #[]
  /-- Initial contents of the lowest data cells. -/
  data : Array Cell := #[]
  publics : List Public := []
  /-- Names of the imported natives, by call index. -/
  natives : List String := []
  /-- The line table, where one was loaded or assembled. -/
  lines : Option LineTable := none
  deriving DecidableEq, Repr, Inhabited

namespace Program

/-- Flag of a program whose image carries a line table. -/
def linesFlag : UInt16 := 0x0001

/-- Flag of a program without checkpoints, on which no monitor hook is ever called. -/
def uncheckedFlag : UInt16 := 0x0002

/-- Bytes of code. -/
def codeSize (p : Program) : Nat := p.code.size * cellSize

/-- Bytes of initialised data. -/
def dataSize (p : Program) : Nat := p.data.size * cellSize

/-- Whether checkpoints were assembled into the code. -/
def hasChecks (p : Program) : Bool := p.flags &&& uncheckedFlag == 0

/-- Whether the program's image carries a line table. -/
def hasLines (p : Program) : Bool := p.flags &&& linesFlag != 0

/-- The index of the first public with a name. -/
def findPublic? (p : Program) (name : String) : Option Nat :=
  p.publics.findIdx? fun entry => entry.name == name

/-- Whether code can be entered at an address: it is the address of a code cell. -/
def isCodeAddress (p : Program) (address : Nat) : Bool :=
  address < p.codeSize && address % cellSize == 0

/-- The code cell at an address, if the address is the one of a cell. -/
def fetch? (p : Program) (address : Nat) : Option Cell :=
  if address % cellSize = 0 then p.code[address / cellSize]? else none

/-- The code address that an operand or a popped cell names. -/
def target? (p : Program) (cell : Cell) : Option Nat :=
  (Cell.toAddress? cell).filter p.isCodeAddress

theorem fetch?_isSome_iff (p : Program) (address : Nat) :
    (p.fetch? address).isSome ↔ p.isCodeAddress address = true := by
  have size : address / cellSize < p.code.size ↔ address < p.code.size * cellSize :=
    Nat.div_lt_iff_lt_mul (by decide)
  by_cases h : address % cellSize = 0
  · have found : (p.code[address / cellSize]?).isSome ↔ address / cellSize < p.code.size := by
      rw [Option.isSome_iff_ne_none, ne_eq, Array.getElem?_eq_none_iff, Nat.not_le]
    simp only [fetch?, isCodeAddress, codeSize, h, if_true, found, size, beq_self_eq_true,
      Bool.and_true]
    exact decide_eq_true_iff.symm
  · simp [fetch?, isCodeAddress, h]

end Program

end CellHost
