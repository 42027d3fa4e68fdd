import CellHost.Cell

/-!
# Little-endian words

A number is written in a fixed count of bytes, lowest first; what does not fit is dropped.

## Main results

* `Words.toNat_ofNat` : reading what was written gives the number modulo the capacity.
* `Words.ofNat_toNat` : writing what was read gives the bytes back.
* `Words.toCell_ofCell`, `Words.ofCell_toCell` : the same of cells.
-/

namespace CellHost.Words

/-- The lowest `width` bytes of a number, lowest first. -/
def ofNat : Nat → Nat → List UInt8
  | 0, _ => []
  | width + 1, n => UInt8.ofNat n :: ofNat width (n / 256)

/-- How many numbers a count of bytes can write. -/
def capacity : Nat → Nat
  | 0 => 1
  | width + 1 => 256 * capacity width

/-- The number that bytes write, lowest first. -/
def toNat : List UInt8 → Nat
  | [] => 0
  | b :: rest => b.toNat + 256 * toNat rest

@[simp] theorem length_ofNat (width n : Nat) : (ofNat width n).length = width := by
  induction width generalizing n with
  | zero => rfl
  | succ width ih => simp [ofNat, ih]

theorem toNat_ofNat (width n : Nat) : toNat (ofNat width n) = n % capacity width := by
  induction width generalizing n with
  | zero => simp [ofNat, toNat, capacity, Nat.mod_one]
  | succ width ih =>
    rw [ofNat, toNat, ih, capacity, Nat.mod_mul]
    simp

theorem toNat_lt (bytes : List UInt8) : toNat bytes < capacity bytes.length := by
  induction bytes with
  | nil => simp [toNat, capacity]
  | cons b rest ih =>
    have := b.toNat_lt
    rw [toNat, List.length_cons, capacity]
    omega

theorem ofNat_toNat (bytes : List UInt8) : ofNat bytes.length (toNat bytes) = bytes := by
  induction bytes with
  | nil => rfl
  | cons b rest ih =>
    have := b.toNat_lt
    have low : (b.toNat + 256 * toNat rest) / 256 = toNat rest := by omega
    have first : UInt8.ofNat (b.toNat + 256 * toNat rest) = b := by
      apply UInt8.toNat_inj.1
      simp
    rw [List.length_cons, toNat, ofNat, low, ih, first]

/-- A cell as four bytes. -/
def ofCell (cell : Cell) : List UInt8 := ofNat cellSize cell.toUInt32.toNat

/-- The cell that four bytes write. -/
def toCell (bytes : List UInt8) : Cell := Int32.ofNat (toNat bytes)

@[simp] theorem length_ofCell (cell : Cell) : (ofCell cell).length = cellSize := by
  simp [ofCell]

theorem toCell_ofCell (cell : Cell) : toCell (ofCell cell) = cell := by
  have hLt : cell.toUInt32.toNat < capacity cellSize := cell.toUInt32.toNat_lt
  rw [toCell, ofCell, toNat_ofNat, Nat.mod_eq_of_lt hLt]
  simp [Int32.ofNat]

theorem ofCell_toCell {bytes : List UInt8} (h : bytes.length = cellSize) :
    ofCell (toCell bytes) = bytes := by
  have hLt := toNat_lt bytes
  rw [h] at hLt
  have hNat : (Int32.ofNat (toNat bytes)).toUInt32.toNat = toNat bytes :=
    UInt32.toNat_ofNat_of_lt hLt
  rw [ofCell, toCell, hNat, ← h, ofNat_toNat]

end CellHost.Words
