import CellHost.Opcode
import CellHost.Program
import CellHost.Machine.Registers

/-!
# The effect of one instruction

What an instruction does is a function of the program, the memory layout, memory and registers. It
gives new registers and at most one cell to write, or a reason to stop; the two instructions that
involve the host, a native call and a checkpoint, are only recognised here, and carried out by
`CellHost.Machine.Run`.

A fault leaves the instruction pointer at the start of the faulting instruction.

## Main definitions

* `Instruction.decode` : the operation and the operand at a code address.
* `Instruction.effect` : what they do.
-/

namespace CellHost

/-- What an instruction does. -/
inductive Effect where
  /-- Go on with these registers, after writing a cell if there is one to write. -/
  | next (regs : Registers) (store : Option Store)
  /-- Return this value to the host. -/
  | halt (value : Cell)
  /-- Suspend. -/
  | sleep (regs : Registers)
  /-- Call the native with this index, then go on. -/
  | native (regs : Registers) (index : Cell)
  /-- Let the monitor hook look, then go on. -/
  | checkpoint (regs : Registers)
  /-- Stop with an error. -/
  | fault (error : MachineError) (regs : Registers)
  deriving DecidableEq, Repr

namespace Instruction

/-- The operation at a code address, with its operand, or zero if it takes none. There has to be code
at the address, it has to start an instruction, and the instruction has to be complete. -/
def decode (p : Program) (address : Nat) : Except MachineError (Opcode × Cell) :=
  match p.fetch? address with
  | none => .error .memoryAccess
  | some cell =>
    match Opcode.ofCell? cell with
    | none => .error .invalidInstruction
    | some op =>
      if op.operandCount = 0 then .ok (op, 0)
      else
        match p.fetch? (address + cellSize) with
        | none => .error .invalidInstruction
        | some operand => .ok (op, operand)

/-- Go on with the result of a step that may fail; failing leaves the registers `r`. -/
def guarded {α : Type} (r : Registers) (step : Except MachineError α) (k : α → Effect) : Effect :=
  match step with
  | .ok a => k a
  | .error e => .fault e r

/-- The address `offset` bytes from `base`. -/
def dataAddress (base : Nat) (offset : Cell) : Except MachineError Nat :=
  match Cell.displace? base offset with
  | some address => .ok address
  | none => .error .memoryAccess

/-- The code address that a cell names. -/
def codeTarget (p : Program) (cell : Cell) : Except MachineError Nat :=
  match p.target? cell with
  | some address => .ok address
  | none => .error .memoryAccess

/-- Go to the code address that a cell names. -/
def jump (p : Program) (r : Registers) (cell : Cell) : Effect :=
  guarded r (codeTarget p cell) fun target => .next { r with cip := target } none

/-- Move the stack pointer; the new one is left in the alternate register. -/
def moveStack (l : Layout) (r : Registers) (next : Nat) (offset : Cell) : Effect :=
  guarded r (dataAddress r.stk offset) fun stk =>
    if l.stp < stk then .fault .stackUnderflow r
    else if stk < r.hea then .fault .stackCollision r
    else .next { r with cip := next, stk := stk, alt := Cell.ofAddress stk } none

/-- Move the heap pointer; the old one is left in the alternate register. -/
def moveHeap (l : Layout) (r : Registers) (next : Nat) (offset : Cell) : Effect :=
  guarded r (dataAddress r.hea offset) fun hea =>
    if hea < l.hlw then .fault .heapUnderflow r
    else if r.stk < hea then .fault .stackCollision r
    else .next { r with cip := next, alt := Cell.ofAddress r.hea, hea := hea } none

/-- Quotient toward zero and remainder of the dividend's sign; the one quotient that does not fit
wraps. -/
def divide (r : Registers) (next : Nat) : Effect :=
  if r.alt = 0 then .fault .divideByZero r
  else .next { r with cip := next, pri := r.pri / r.alt, alt := r.pri % r.alt } none

/-- Pop the frame pointer, then the return address. What was popped stays popped if the return
address, or the frame pointer, is none. -/
def returnToCaller (p : Program) (l : Layout) (m : Memory) (r : Registers) : Effect :=
  guarded r (r.pop l m) fun (frm, r₁) =>
    guarded r₁ (r₁.pop l m) fun (back, r₂) =>
      match Cell.toAddress? frm with
      | none => .fault .memoryAccess r₂
      | some frm =>
        let r₃ := { r₂ with frm := frm }
        guarded r₃ (codeTarget p back) fun target => .next { r₃ with cip := target } none

/-- What the operation at the instruction pointer does. -/
def effectOf (p : Program) (l : Layout) (m : Memory) (r : Registers) (op : Opcode)
    (operand : Cell) : Effect :=
  let next := r.cip + op.width
  match op with
  | .nop => .next { r with cip := next } none
  | .halt =>
    match MachineError.ofCode? operand with
    | none => .halt r.pri
    | some e => .fault e r
  | .constPri => .next { r with cip := next, pri := operand } none
  | .constAlt => .next { r with cip := next, alt := operand } none
  | .loadPri =>
    guarded r (dataAddress 0 operand) fun a =>
      guarded r (r.load l m a) fun v => .next { r with cip := next, pri := v } none
  | .loadAlt =>
    guarded r (dataAddress 0 operand) fun a =>
      guarded r (r.load l m a) fun v => .next { r with cip := next, alt := v } none
  | .storPri =>
    guarded r (dataAddress 0 operand) fun a =>
      guarded r (r.store l a r.pri) fun s => .next { r with cip := next } (some s)
  | .loadSPri =>
    guarded r (dataAddress r.frm operand) fun a =>
      guarded r (r.load l m a) fun v => .next { r with cip := next, pri := v } none
  | .storSPri =>
    guarded r (dataAddress r.frm operand) fun a =>
      guarded r (r.store l a r.pri) fun s => .next { r with cip := next } (some s)
  | .pushPri => guarded r (r.push r.pri) fun (r', s) => .next { r' with cip := next } (some s)
  | .pushAlt => guarded r (r.push r.alt) fun (r', s) => .next { r' with cip := next } (some s)
  | .pushC => guarded r (r.push operand) fun (r', s) => .next { r' with cip := next } (some s)
  | .popPri => guarded r (r.pop l m) fun (v, r') => .next { r' with cip := next, pri := v } none
  | .popAlt => guarded r (r.pop l m) fun (v, r') => .next { r' with cip := next, alt := v } none
  | .stack => moveStack l r next operand
  | .heap => moveHeap l r next operand
  | .add => .next { r with cip := next, pri := r.pri + r.alt } none
  | .sub => .next { r with cip := next, pri := r.pri - r.alt } none
  | .smul => .next { r with cip := next, pri := r.pri * r.alt } none
  | .sdiv => divide r next
  | .eq => .next { r with cip := next, pri := Cell.ofBool (r.pri == r.alt) } none
  | .less => .next { r with cip := next, pri := Cell.ofBool (decide (r.pri < r.alt)) } none
  | .incPri => .next { r with cip := next, pri := r.pri + 1 } none
  | .bounds =>
    if r.pri < 0 ∨ operand < r.pri then .fault .outOfBounds r
    else .next { r with cip := next } none
  | .jump => jump p r operand
  | .jzer => if r.pri = 0 then jump p r operand else .next { r with cip := next } none
  | .jnz => if r.pri ≠ 0 then jump p r operand else .next { r with cip := next } none
  | .call =>
    guarded r (codeTarget p operand) fun target =>
      guarded r (r.push (Cell.ofAddress next)) fun (r', s) =>
        .next { r' with cip := target } (some s)
  | .proc =>
    guarded r (r.push (Cell.ofAddress r.frm)) fun (r', s) =>
      .next { r' with cip := next, frm := r'.stk } (some s)
  | .ret => returnToCaller p l m r
  | .sysreq => .native { r with cip := next } operand
  | .sleep => .sleep { r with cip := next }
  | .brk => .checkpoint { r with cip := next }

/-- What the instruction at the instruction pointer does. -/
def effect (p : Program) (l : Layout) (m : Memory) (r : Registers) : Effect :=
  match decode p r.cip with
  | .error e => .fault e r
  | .ok (op, operand) => effectOf p l m r op operand

end Instruction

end CellHost
