import CellHost.Proofs.Machine.Execution

/-!
# Frames on the stack

A call pushes the address to return to, and the start of a frame pushes the frame pointer; a return
pops both. Either is an address kept in a cell, and comes back as it was exactly if a cell can hold
it.

## Main definitions

* `Opcode.pushes` : how many cells an operation pushes.

## Main results

* `Cell.toAddress?_ofAddress_iff` : the addresses that come back from a cell.
* `decode_within`, `target?_ofAddress` : where instructions are decoded, and the addresses of code.
* `effectOf_stk` : the stack pointer moves by the cells that are pushed and popped.
* `effectOf_call`, `effectOf_proc`, `effectOf_ret` : what the three operations on frames do.
-/

namespace CellHost

namespace Cell

theorem toAddress?_le {cell : Cell} {address : Nat} (h : toAddress? cell = some address) :
    address ≤ maxValue := by
  unfold toAddress? at h
  split at h
  · cases h
  · cases h
    have hBound := cell.toInt_lt
    unfold Int32.toNatClampNeg maxValue
    omega

/-- **An address comes back from the cell that stores it** exactly if a cell can hold it. -/
theorem toAddress?_ofAddress_iff {address : Nat} :
    toAddress? (ofAddress address) = some address ↔ address ≤ maxValue :=
  ⟨toAddress?_le, toAddress?_ofAddress⟩

end Cell

/-- How many cells an operation pushes. -/
def Opcode.pushes : Opcode → Nat
  | .pushPri | .pushAlt | .pushC | .call | .proc => 1
  | _ => 0

namespace Instruction

/-! ## Addresses of code -/

/-- What is decoded is an instruction of whole cells inside the code. -/
theorem decode_within {p : Program} {address : Nat} {op : Opcode} {operand : Cell}
    (h : decode p address = .ok (op, operand)) :
    address % cellSize = 0 ∧ address + op.width ≤ p.codeSize := by
  have hInside : ∀ a, (p.fetch? a).isSome → a % cellSize = 0 ∧ a + cellSize ≤ p.codeSize := by
    intro a hFetch
    rw [Program.fetch?_isSome_iff, Program.isCodeAddress, Bool.and_eq_true, decide_eq_true_eq,
      beq_iff_eq] at hFetch
    unfold Program.codeSize at hFetch ⊢
    rw [show cellSize = 4 from rfl] at hFetch ⊢
    omega
  unfold decode at h
  split at h
  · cases h
  next hFirst =>
    obtain ⟨hWhole, hEnd⟩ := hInside address (by rw [hFirst]; rfl)
    split at h
    · cases h
    · split at h
      next hCount =>
        cases h
        unfold Opcode.width
        rw [hCount]
        exact ⟨hWhole, by omega⟩
      · split at h
        · cases h
        next hSecond =>
          cases h
          obtain ⟨-, hEnd'⟩ := hInside (address + cellSize) (by rw [hSecond]; rfl)
          have hCount : op.operandCount ≤ 1 := by cases op <;> decide
          have hWidth : op.width ≤ 2 * cellSize :=
            Nat.mul_le_mul_right _ (Nat.add_le_add_left hCount 1)
          exact ⟨hWhole, by omega⟩

/-- An instruction is decoded inside the code. -/
theorem lt_codeSize_of_decode {p : Program} {address : Nat} {op : Opcode} {operand : Cell}
    (h : decode p address = .ok (op, operand)) : address < p.codeSize := by
  have hEnd := (decode_within h).2
  have hWidth := op.width_pos
  omega

/-- The code address that a stored address names is itself, if there is code. -/
theorem target?_ofAddress {p : Program} {address : Nat} (hWhole : address % cellSize = 0)
    (hFits : address ≤ Cell.maxValue) :
    p.target? (Cell.ofAddress address) = if address < p.codeSize then some address else none := by
  unfold Program.target? Program.isCodeAddress
  rw [Cell.toAddress?_ofAddress hFits, Option.filter_some, hWhole]
  by_cases hInside : address < p.codeSize
  · simp [hInside]
  · simp [hInside]

/-! ## Operations -/

variable {p : Program} {l : Layout} {m : Memory} {r r' : Registers} {op : Opcode} {operand : Cell}

/-- **The stack pointer moves by the cells that are pushed and popped**, if the operation is not the
one that moves it by a number of bytes. -/
theorem effectOf_stk {s : Option Store} (h : effectOf p l m r op operand = .next r' s)
    (hStack : op ≠ .stack) :
    r'.stk + op.pushes * cellSize = r.stk + op.pops * cellSize := by
  cases op
  case stack => exact absurd rfl hStack
  case nop | constPri | constAlt | add | sub | smul | eq | less | incPri =>
    cases h
    rfl
  case halt =>
    unfold effectOf at h
    dsimp only at h
    split at h <;> cases h
  case sysreq | sleep | brk => cases h
  case loadPri | loadAlt | loadSPri | storPri | storSPri =>
    obtain ⟨a, -, h⟩ := guarded_eq_next h
    obtain ⟨x, -, h⟩ := guarded_eq_next h
    cases h
    rfl
  case pushPri | pushAlt | pushC | proc =>
    obtain ⟨⟨r₁, s₁⟩, hPush, h⟩ := guarded_eq_next h
    obtain ⟨hRoom, rfl, -⟩ := push_ok hPush
    cases h
    show r.stk - cellSize + 1 * cellSize = r.stk + 0 * cellSize
    omega
  case call =>
    obtain ⟨target, -, h⟩ := guarded_eq_next h
    obtain ⟨⟨r₁, s₁⟩, hPush, h⟩ := guarded_eq_next h
    obtain ⟨hRoom, rfl, -⟩ := push_ok hPush
    cases h
    show r.stk - cellSize + 1 * cellSize = r.stk + 0 * cellSize
    omega
  case popPri | popAlt =>
    obtain ⟨⟨v, r₁⟩, hPop, h⟩ := guarded_eq_next h
    obtain ⟨-, -, rfl⟩ := pop_ok hPop
    cases h
    rfl
  case ret =>
    obtain ⟨⟨frm, r₁⟩, hPop, h⟩ := guarded_eq_next h
    obtain ⟨⟨back, r₂⟩, hPop', h⟩ := guarded_eq_next h
    obtain ⟨-, -, rfl⟩ := pop_ok hPop
    obtain ⟨-, -, rfl⟩ := pop_ok hPop'
    dsimp only at h
    split at h
    · cases h
    · obtain ⟨target, -, h⟩ := guarded_eq_next h
      cases h
      rfl
  case heap =>
    obtain ⟨moved, -, h⟩ := guarded_eq_next h
    split at h
    · cases h
    · split at h
      · cases h
      · cases h
        rfl
  case sdiv =>
    unfold effectOf divide at h
    dsimp only at h
    split at h
    · cases h
    · cases h
      rfl
  case bounds =>
    unfold effectOf at h
    dsimp only at h
    split at h
    · cases h
    · cases h
      rfl
  case jump => exact (jump_next h).2.1
  case jzer | jnz =>
    unfold effectOf at h
    dsimp only at h
    split at h
    · exact (jump_next h).2.1
    · cases h
      rfl

/-- Moving the stack pointer leaves the new one in the alternate register. -/
theorem effectOf_stack {s : Option Store} (h : effectOf p l m r .stack operand = .next r' s) :
    Cell.displace? r.stk operand = some r'.stk ∧ r'.alt = Cell.ofAddress r'.stk := by
  obtain ⟨stk, hStk, h⟩ := guarded_eq_next h
  split at h
  · cases h
  · split at h
    · cases h
    · cases h
      exact ⟨dataAddress_ok hStk, rfl⟩

/-- A call that completes pushes the address of the next instruction. -/
theorem effectOf_call {s : Option Store} (h : effectOf p l m r .call operand = .next r' s) :
    r.hea + cellSize ≤ r.stk ∧
    (∃ target, r' = { r with cip := target, stk := r.stk - cellSize }) ∧
    s = some ⟨r.stk - cellSize, Cell.ofAddress (r.cip + Opcode.call.width)⟩ := by
  obtain ⟨target, -, h⟩ := guarded_eq_next h
  obtain ⟨⟨r₁, s₁⟩, hPush, h⟩ := guarded_eq_next h
  obtain ⟨hRoom, rfl, rfl⟩ := push_ok hPush
  cases h
  exact ⟨hRoom, ⟨target, rfl⟩, rfl⟩

/-- The start of a frame pushes the frame pointer, and the new one is where it is pushed. -/
theorem effectOf_proc {s : Option Store} (h : effectOf p l m r .proc operand = .next r' s) :
    r.hea + cellSize ≤ r.stk ∧
    r' = { r with
      cip := r.cip + Opcode.proc.width, frm := r.stk - cellSize, stk := r.stk - cellSize } ∧
    s = some ⟨r.stk - cellSize, Cell.ofAddress r.frm⟩ := by
  obtain ⟨⟨r₁, s₁⟩, hPush, h⟩ := guarded_eq_next h
  obtain ⟨hRoom, rfl, rfl⟩ := push_ok hPush
  cases h
  exact ⟨hRoom, rfl, rfl⟩

/-- A return goes on with a frame pointer that was kept in a cell. -/
theorem frm_of_ret {s : Option Store} (h : effectOf p l m r .ret operand = .next r' s) :
    r'.frm ≤ Cell.maxValue := by
  obtain ⟨⟨frm, r₁⟩, -, h⟩ := guarded_eq_next h
  obtain ⟨⟨back, r₂⟩, -, h⟩ := guarded_eq_next h
  dsimp only at h
  split at h
  · cases h
  next hFrame =>
    obtain ⟨target, -, h⟩ := guarded_eq_next h
    cases h
    exact Cell.toAddress?_le hFrame

/-- A return that finds two cells takes them, and fails if the first is no frame pointer or the
second is no address of code. -/
theorem effectOf_ret (h : r.stk + cellSize < l.stp) :
    effectOf p l m r .ret operand =
      match Cell.toAddress? (m.cellAt r.stk), p.target? (m.cellAt (r.stk + cellSize)) with
      | none, _ => .fault .memoryAccess { r with stk := r.stk + 2 * cellSize }
      | some frm, none => .fault .memoryAccess { r with frm, stk := r.stk + 2 * cellSize }
      | some frm, some target =>
          .next { r with cip := target, frm, stk := r.stk + 2 * cellSize } none := by
  have hFirst : r.stk < l.stp := by omega
  unfold effectOf returnToCaller
  dsimp only
  rw [pop_of_below hFirst]
  unfold guarded
  dsimp only
  rw [pop_of_below h]
  dsimp only
  cases Cell.toAddress? (m.cellAt r.stk) with
  | none => rfl
  | some frm =>
      unfold codeTarget
      cases p.target? (m.cellAt (r.stk + cellSize)) with
      | none => rfl
      | some target => rfl

end Instruction

namespace Machine

variable {σ : Type} {s : Point σ}

/-- An instruction has the effect of its operation on the memory of its state. -/
theorem effectAt_of_decode {op : Opcode} {operand : Cell}
    (h : Instruction.decode s.1.program s.1.regs.cip = .ok (op, operand)) :
    effectAt s =
      Instruction.effectOf s.1.program s.1.layout s.2.region.memory s.1.regs op operand := by
  unfold effectAt
  rw [beginInstruction_memory]
  exact Instruction.effect_of_decode h

/-- **A frame begins** wherever there is room for a cell. -/
theorem effectAt_of_proc (hOp : operation? s = some .proc)
    (hRoom : s.1.regs.hea + cellSize ≤ s.1.regs.stk) :
    effectAt s = .next
      { s.1.regs with
        cip := s.1.regs.cip + Opcode.proc.width, frm := s.1.regs.stk - cellSize,
        stk := s.1.regs.stk - cellSize }
      (some ⟨s.1.regs.stk - cellSize, Cell.ofAddress s.1.regs.frm⟩) := by
  obtain ⟨operand, hDecode⟩ := decode_of_operation? hOp
  rw [effectAt_of_decode hDecode]
  unfold Instruction.effectOf
  dsimp only
  rw [Instruction.push_of_room hRoom]
  rfl

/-- **A return takes two cells**, if there are two. -/
theorem effectAt_of_ret (hOp : operation? s = some .ret)
    (hBelow : s.1.regs.stk + cellSize < s.1.layout.stp) :
    effectAt s =
      match Cell.toAddress? (s.2.region.memory.cellAt s.1.regs.stk),
        s.1.program.target? (s.2.region.memory.cellAt (s.1.regs.stk + cellSize)) with
      | none, _ => .fault .memoryAccess { s.1.regs with stk := s.1.regs.stk + 2 * cellSize }
      | some frm, none =>
          .fault .memoryAccess { s.1.regs with frm, stk := s.1.regs.stk + 2 * cellSize }
      | some frm, some target =>
          .next { s.1.regs with cip := target, frm, stk := s.1.regs.stk + 2 * cellSize } none := by
  obtain ⟨operand, hDecode⟩ := decode_of_operation? hOp
  rw [effectAt_of_decode hDecode, Instruction.effectOf_ret hBelow]

end Machine

end CellHost
