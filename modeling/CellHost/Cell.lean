/-!
# Cells and addresses

A *cell* is a signed 32-bit word. Code and data memory are sequences of cells, and an address
counts bytes, so cell `i` of a sequence stands at address `4 * i`. Addresses are natural numbers. What
bounds them is the size of the largest block of memory, where a block is laid out, and what a cell
can hold, where an address is kept in one.

An address is *stored* in a cell by keeping its low 32 bits, and *denoted* by a cell when the cell
is not negative. The two agree up to `Cell.maxValue`, which is what lets a program keep return addresses
and frame pointers on its own stack.

## Main results

* `Cell.toAddress?_ofAddress` : up to `Cell.maxValue` a stored address is the address denoted.
-/

namespace CellHost

/-- A signed 32-bit word. -/
abbrev Cell := Int32

/-- Bytes taken by one cell. -/
def cellSize : Nat := 4

namespace Cell

/-- Highest number that a cell can hold. -/
def maxValue : Nat := 0x7fffffff

/-- The cell that stores an address: its low 32 bits. -/
def ofAddress (address : Nat) : Cell := Int32.ofNat address

/-- The address that a cell denotes; a negative cell denotes none. -/
def toAddress? (cell : Cell) : Option Nat :=
  if cell < 0 then none else some cell.toNatClampNeg

/-- The truth value as a program sees it: one for true, zero for false. -/
def ofBool (b : Bool) : Cell := if b then 1 else 0

/-- The address `offset` bytes away from `base`, if that is not below zero. -/
def displace? (base : Nat) (offset : Cell) : Option Nat :=
  let moved := (base : Int) + offset.toInt
  if moved < 0 then none else some moved.toNat

theorem toAddress?_ofAddress {address : Nat} (h : address ≤ maxValue) :
    toAddress? (ofAddress address) = some address := by
  have hInt : (Int32.ofNat address).toInt = address := Int32.toInt_ofNat_of_lt (Nat.lt_succ_of_le h)
  have hSign : ¬ (Int32.ofNat address < 0) := by
    rw [Int32.lt_iff_toInt_lt, hInt]
    simp
  simp [toAddress?, ofAddress, hSign, Int32.toNatClampNeg, hInt]

theorem displace?_zero (base : Nat) : displace? base 0 = some base := by
  simp [displace?]

end Cell

end CellHost
