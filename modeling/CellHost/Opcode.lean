import CellHost.Cell

/-!
# Instruction codes

The instruction set has thirty-three operations. In code an instruction is one cell with the
operation's number, followed by one operand cell when the operation takes one. The numbers are
grouped by what the operations do: control and register loads from `0x00`, stack and heap from
`0x10`, arithmetic from `0x20`, jumps and calls from `0x30`, the host from `0x40`.

## Main results

* `Opcode.ofNat?_number`, `Opcode.eq_of_ofNat?` : numbers and operations correspond one to one.
-/

namespace CellHost

/-- What an operand cell holds, if an operation takes one. -/
inductive OperandKind where
  /-- The instruction is one cell long. -/
  | absent
  /-- A number, an offset or an index. -/
  | value
  /-- A code address. -/
  | target
  deriving DecidableEq, Repr, Inhabited

/-- The operations of the machine. -/
inductive Opcode where
  /-- Nothing. -/
  | nop
  /-- Stop; operand zero returns the primary register, any other is an error code. -/
  | halt
  /-- Load the operand into the primary register. -/
  | constPri
  /-- Load the operand into the alternate register. -/
  | constAlt
  /-- Load the cell at the operand's address into the primary register. -/
  | loadPri
  /-- Load the cell at the operand's address into the alternate register. -/
  | loadAlt
  /-- Store the primary register at the operand's address. -/
  | storPri
  /-- Load the cell at the frame pointer plus the operand into the primary register. -/
  | loadSPri
  /-- Store the primary register at the frame pointer plus the operand. -/
  | storSPri
  /-- Push the primary register. -/
  | pushPri
  /-- Push the alternate register. -/
  | pushAlt
  /-- Push the operand. -/
  | pushC
  /-- Pop into the primary register. -/
  | popPri
  /-- Pop into the alternate register. -/
  | popAlt
  /-- Move the stack pointer by the operand and leave the new one in the alternate register. -/
  | stack
  /-- Leave the heap pointer in the alternate register and move it by the operand. -/
  | heap
  /-- Add the alternate register to the primary one. -/
  | add
  /-- Subtract the alternate register from the primary one. -/
  | sub
  /-- Multiply the primary register by the alternate one. -/
  | smul
  /-- Divide: quotient to the primary register, remainder to the alternate one. -/
  | sdiv
  /-- Whether the two registers are equal. -/
  | eq
  /-- Whether the primary register is below the alternate one. -/
  | less
  /-- Add one to the primary register. -/
  | incPri
  /-- Check that the primary register is between zero and the operand. -/
  | bounds
  /-- Go to the operand. -/
  | jump
  /-- Go to the operand if the primary register is zero. -/
  | jzer
  /-- Go to the operand if the primary register is not zero. -/
  | jnz
  /-- Push the address of the next instruction and go to the operand. -/
  | call
  /-- Push the frame pointer and start a frame at the new stack pointer. -/
  | proc
  /-- Pop a frame pointer and a return address, and go there. -/
  | ret
  /-- Call the imported native whose index is the operand. -/
  | sysreq
  /-- Suspend with the primary register as the wanted delay. -/
  | sleep
  /-- Checkpoint: let the monitor hook look at the machine. -/
  | brk
  deriving DecidableEq, Repr, Inhabited

namespace Opcode

/-- Every operation, in order of number. -/
def all : List Opcode :=
  [nop, halt, constPri, constAlt, loadPri, loadAlt, storPri, loadSPri, storSPri,
   pushPri, pushAlt, pushC, popPri, popAlt, stack, heap,
   add, sub, smul, sdiv, eq, less, incPri, bounds,
   jump, jzer, jnz, call, proc, ret, sysreq, sleep, brk]

/-- The number that stands for an operation in code. -/
def number : Opcode → Nat
  | nop => 0x00
  | halt => 0x01
  | constPri => 0x02
  | constAlt => 0x03
  | loadPri => 0x04
  | loadAlt => 0x05
  | storPri => 0x06
  | loadSPri => 0x07
  | storSPri => 0x08
  | pushPri => 0x10
  | pushAlt => 0x11
  | pushC => 0x12
  | popPri => 0x13
  | popAlt => 0x14
  | stack => 0x15
  | heap => 0x16
  | add => 0x20
  | sub => 0x21
  | smul => 0x22
  | sdiv => 0x23
  | eq => 0x24
  | less => 0x25
  | incPri => 0x26
  | bounds => 0x27
  | jump => 0x30
  | jzer => 0x31
  | jnz => 0x32
  | call => 0x33
  | proc => 0x34
  | ret => 0x35
  | sysreq => 0x40
  | sleep => 0x41
  | brk => 0x42

/-- The operation with a given number. -/
def ofNat? : Nat → Option Opcode
  | 0x00 => some nop
  | 0x01 => some halt
  | 0x02 => some constPri
  | 0x03 => some constAlt
  | 0x04 => some loadPri
  | 0x05 => some loadAlt
  | 0x06 => some storPri
  | 0x07 => some loadSPri
  | 0x08 => some storSPri
  | 0x10 => some pushPri
  | 0x11 => some pushAlt
  | 0x12 => some pushC
  | 0x13 => some popPri
  | 0x14 => some popAlt
  | 0x15 => some stack
  | 0x16 => some heap
  | 0x20 => some add
  | 0x21 => some sub
  | 0x22 => some smul
  | 0x23 => some sdiv
  | 0x24 => some eq
  | 0x25 => some less
  | 0x26 => some incPri
  | 0x27 => some bounds
  | 0x30 => some jump
  | 0x31 => some jzer
  | 0x32 => some jnz
  | 0x33 => some call
  | 0x34 => some proc
  | 0x35 => some ret
  | 0x40 => some sysreq
  | 0x41 => some sleep
  | 0x42 => some brk
  | _ => none

/-- The cell that stands for an operation in code. -/
def toCell (op : Opcode) : Cell := Int32.ofNat op.number

/-- The operation that a code cell stands for. -/
def ofCell? (cell : Cell) : Option Opcode := (Cell.toAddress? cell).bind ofNat?

/-- The name of an operation in listings. -/
def name : Opcode → String
  | nop => "nop"
  | halt => "halt"
  | constPri => "const.pri"
  | constAlt => "const.alt"
  | loadPri => "load.pri"
  | loadAlt => "load.alt"
  | storPri => "stor.pri"
  | loadSPri => "load.s.pri"
  | storSPri => "stor.s.pri"
  | pushPri => "push.pri"
  | pushAlt => "push.alt"
  | pushC => "push.c"
  | popPri => "pop.pri"
  | popAlt => "pop.alt"
  | stack => "stack"
  | heap => "heap"
  | add => "add"
  | sub => "sub"
  | smul => "smul"
  | sdiv => "sdiv"
  | eq => "eq"
  | less => "less"
  | incPri => "inc.pri"
  | bounds => "bounds"
  | jump => "jump"
  | jzer => "jzer"
  | jnz => "jnz"
  | call => "call"
  | proc => "proc"
  | ret => "ret"
  | sysreq => "sysreq"
  | sleep => "sleep"
  | brk => "break"

/-- The operation with a given name. -/
def ofName? (text : String) : Option Opcode := all.find? fun op => op.name == text

/-- What follows the operation in code. -/
def operandKind : Opcode → OperandKind
  | halt | constPri | constAlt | loadPri | loadAlt | storPri | loadSPri | storSPri
  | pushC | stack | heap | bounds | sysreq => .value
  | jump | jzer | jnz | call => .target
  | _ => .absent

/-- How many operand cells follow the operation. -/
def operandCount (op : Opcode) : Nat :=
  match op.operandKind with
  | .absent => 0
  | .value | .target => 1

/-- Whether the operand is a code address. -/
def isJump (op : Opcode) : Bool := op.operandKind == .target

/-- Bytes taken by an instruction with this operation. -/
def width (op : Opcode) : Nat := (1 + op.operandCount) * cellSize

theorem width_pos (op : Opcode) : 0 < op.width := by
  cases op <;> decide

/-! ## Numbers and operations correspond -/

theorem ofNat?_number (op : Opcode) : ofNat? op.number = some op := by
  cases op <;> rfl

theorem eq_of_ofNat? {n : Nat} {op : Opcode} (h : ofNat? n = some op) : n = op.number := by
  unfold ofNat? at h
  split at h <;> first | (cases h; rfl) | cases h

theorem ofCell?_toCell (op : Opcode) : ofCell? op.toCell = some op := by
  cases op <;> decide

theorem mem_all (op : Opcode) : op ∈ all := by
  cases op <;> decide

end Opcode

end CellHost
