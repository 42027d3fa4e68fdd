import CellHost.Machine.Effect

/-!
# What an instruction does to stack and heap

Most of the thirty-three operations leave the stack and the heap alone, and the others move them in
one of four ways. `Shift` lists the ways in which an instruction that completes can change the stack
pointer, the heap pointer and memory; every statement about how memory is laid out while a program
runs is proved by going through that list. The effects that do not complete an instruction are
inverted one by one.

## Main results

* `effectOf_next` : an instruction that completes makes one of the shifts listed.
* `effectOf_frm` : only two operations move the frame pointer.
* `effect_fault` : a fault leaves the registers alone, but for what a return has popped.
-/

namespace CellHost

/-- How many cells an operation pops. -/
def Opcode.pops : Opcode → Nat
  | .popPri => 1
  | .popAlt => 1
  | .ret => 2
  | _ => 0

theorem displace?_eq_some {base address : Nat} {offset : Cell}
    (h : Cell.displace? base offset = some address) : (address : Int) = base + offset.toInt := by
  simp only [Cell.displace?] at h
  split at h
  · cases h
  · cases h
    omega

namespace Instruction

/-- What a completed instruction can do to the two pointers, and the cell it writes. -/
inductive Shift (l : Layout) (r : Registers) (op : Opcode) (operand : Cell) :
    Registers → Option Store → Prop
  | stays {r' : Registers} :
      r'.stk = r.stk → r'.hea = r.hea → r'.frm = r.frm → op.pops = 0 →
      Shift l r op operand r' none
  | stores {r' : Registers} {s : Store} :
      op = .storPri ∨ op = .storSPri → r.accessible l s.address = true →
      r'.stk = r.stk → r'.hea = r.hea → r'.frm = r.frm →
      Shift l r op operand r' (some s)
  | pushes {r' : Registers} {s : Store} :
      r.hea + cellSize ≤ r.stk → s.address = r.stk - cellSize →
      r'.stk = r.stk - cellSize → r'.hea = r.hea → op.pops = 0 →
      Shift l r op operand r' (some s)
  | pops {r' : Registers} (cells : Nat) :
      op.pops = cells + 1 → r.stk + cells * cellSize < l.stp →
      r'.stk = r.stk + (cells + 1) * cellSize → r'.hea = r.hea →
      Shift l r op operand r' none
  | movesStack {r' : Registers} :
      op = .stack → Cell.displace? r.stk operand = some r'.stk →
      r.hea ≤ r'.stk → r'.stk ≤ l.stp → r'.hea = r.hea →
      Shift l r op operand r' none
  | movesHeap {r' : Registers} :
      op = .heap → Cell.displace? r.hea operand = some r'.hea →
      l.hlw ≤ r'.hea → r'.hea ≤ r.stk → r'.stk = r.stk →
      Shift l r op operand r' none

/-! ## The guarded operations -/

theorem guarded_eq_next {α : Type} {r r' : Registers} {step : Except MachineError α}
    {k : α → Effect} {s : Option Store} (h : guarded r step k = .next r' s) :
    ∃ a, step = .ok a ∧ k a = .next r' s := by
  cases step with
  | ok a => exact ⟨a, rfl, h⟩
  | error e => cases h

theorem guarded_eq_fault {α : Type} {r r' : Registers} {step : Except MachineError α}
    {k : α → Effect} {e : MachineError} (h : guarded r step k = .fault e r') :
    (step = .error e ∧ r' = r) ∨ ∃ a, step = .ok a ∧ k a = .fault e r' := by
  cases step with
  | ok a => exact .inr ⟨a, rfl, h⟩
  | error e => cases h; exact .inl ⟨rfl, rfl⟩

theorem push_ok {r r' : Registers} {value : Cell} {s : Store}
    (h : r.push value = .ok (r', s)) :
    r.hea + cellSize ≤ r.stk ∧ r' = { r with stk := r.stk - cellSize } ∧
      s = ⟨r.stk - cellSize, value⟩ := by
  unfold Registers.push at h
  split at h
  · cases h
  next hRoom =>
    cases h
    exact ⟨Nat.le_of_not_lt hRoom, rfl, rfl⟩

theorem pop_ok {l : Layout} {m : Memory} {r r' : Registers} {value : Cell}
    (h : r.pop l m = .ok (value, r')) :
    r.stk < l.stp ∧ value = m.cellAt r.stk ∧ r' = { r with stk := r.stk + cellSize } := by
  unfold Registers.pop at h
  split at h
  · cases h
  next hBelow =>
    cases h
    exact ⟨Nat.lt_of_not_le hBelow, rfl, rfl⟩

theorem push_of_room {r : Registers} (h : r.hea + cellSize ≤ r.stk) (value : Cell) :
    r.push value =
      .ok ({ r with stk := r.stk - cellSize }, ⟨r.stk - cellSize, value⟩) := by
  unfold Registers.push
  rw [if_neg (Nat.not_lt.mpr h)]

theorem pop_of_below {l : Layout} {m : Memory} {r : Registers} (h : r.stk < l.stp) :
    r.pop l m = .ok (m.cellAt r.stk, { r with stk := r.stk + cellSize }) := by
  unfold Registers.pop
  rw [if_neg (Nat.not_le.mpr h)]

theorem store_ok {l : Layout} {r : Registers} {address : Nat} {value : Cell} {s : Store}
    (h : r.store l address value = .ok s) :
    r.accessible l address = true ∧ s = ⟨address, value⟩ := by
  unfold Registers.store at h
  split at h
  next hAccess => cases h; exact ⟨hAccess, rfl⟩
  · cases h

theorem dataAddress_ok {base : Nat} {offset : Cell} {address : Nat}
    (h : dataAddress base offset = .ok address) : Cell.displace? base offset = some address := by
  unfold dataAddress at h
  split at h
  next found => cases h; exact found
  · cases h

/-! ## The effects, inverted -/

variable {p : Program} {l : Layout} {m : Memory} {r r' : Registers} {op : Opcode} {operand : Cell}

theorem jump_next {s : Option Store} {cell : Cell} (h : jump p r cell = .next r' s) :
    s = none ∧ r'.stk = r.stk ∧ r'.hea = r.hea ∧ r'.frm = r.frm := by
  obtain ⟨target, -, h⟩ := guarded_eq_next h
  cases h
  exact ⟨rfl, rfl, rfl, rfl⟩

/-- **An instruction that completes makes one of the shifts listed.** -/
theorem effectOf_next {s : Option Store} (h : effectOf p l m r op operand = .next r' s) :
    Shift l r op operand r' s := by
  cases op
  case nop | constPri | constAlt | add | sub | smul | eq | less | incPri =>
    cases h
    exact .stays rfl rfl rfl rfl
  case halt =>
    unfold effectOf at h
    dsimp only at h
    split at h <;> cases h
  case sysreq | sleep | brk => cases h
  case loadPri | loadAlt | loadSPri =>
    obtain ⟨a, -, h⟩ := guarded_eq_next h
    obtain ⟨v, -, h⟩ := guarded_eq_next h
    cases h
    exact .stays rfl rfl rfl rfl
  case storPri =>
    obtain ⟨a, -, h⟩ := guarded_eq_next h
    obtain ⟨s, hStore, h⟩ := guarded_eq_next h
    obtain ⟨hAccess, rfl⟩ := store_ok hStore
    cases h
    exact .stores (.inl rfl) hAccess rfl rfl rfl
  case storSPri =>
    obtain ⟨a, -, h⟩ := guarded_eq_next h
    obtain ⟨s, hStore, h⟩ := guarded_eq_next h
    obtain ⟨hAccess, rfl⟩ := store_ok hStore
    cases h
    exact .stores (.inr rfl) hAccess rfl rfl rfl
  case pushPri | pushAlt | pushC | proc =>
    obtain ⟨⟨r₁, s₁⟩, hPush, h⟩ := guarded_eq_next h
    obtain ⟨hRoom, rfl, rfl⟩ := push_ok hPush
    cases h
    exact .pushes hRoom rfl rfl rfl rfl
  case call =>
    obtain ⟨target, -, h⟩ := guarded_eq_next h
    obtain ⟨⟨r₁, s₁⟩, hPush, h⟩ := guarded_eq_next h
    obtain ⟨hRoom, rfl, rfl⟩ := push_ok hPush
    cases h
    exact .pushes hRoom rfl rfl rfl rfl
  case popPri | popAlt =>
    obtain ⟨⟨v, r₁⟩, hPop, h⟩ := guarded_eq_next h
    obtain ⟨hBelow, -, rfl⟩ := pop_ok hPop
    cases h
    exact .pops 0 rfl (by omega) (by simp) rfl
  case ret =>
    obtain ⟨⟨frm, r₁⟩, hPop, h⟩ := guarded_eq_next h
    obtain ⟨⟨back, r₂⟩, hPop', h⟩ := guarded_eq_next h
    obtain ⟨-, -, rfl⟩ := pop_ok hPop
    obtain ⟨hBelow, -, rfl⟩ := pop_ok hPop'
    dsimp only at h hBelow
    split at h
    · cases h
    · obtain ⟨target, -, h⟩ := guarded_eq_next h
      cases h
      exact .pops 1 rfl (by omega) (by dsimp only; omega) rfl
  case stack =>
    obtain ⟨stk, hStk, h⟩ := guarded_eq_next h
    split at h
    · cases h
    next hTop =>
      split at h
      · cases h
      next hHeap =>
        cases h
        exact .movesStack rfl (dataAddress_ok hStk) (Nat.le_of_not_lt hHeap)
          (Nat.le_of_not_lt hTop) rfl
  case heap =>
    obtain ⟨hea, hHea, h⟩ := guarded_eq_next h
    split at h
    · cases h
    next hLow =>
      split at h
      · cases h
      next hStack =>
        cases h
        exact .movesHeap rfl (dataAddress_ok hHea) (Nat.le_of_not_lt hLow)
          (Nat.le_of_not_lt hStack) rfl
  case sdiv =>
    unfold effectOf divide at h
    dsimp only at h
    split at h
    · cases h
    · cases h
      exact .stays rfl rfl rfl rfl
  case bounds =>
    unfold effectOf at h
    dsimp only at h
    split at h
    · cases h
    · cases h
      exact .stays rfl rfl rfl rfl
  case jump =>
    obtain ⟨rfl, hStk, hHea, hFrm⟩ := jump_next h
    exact .stays hStk hHea hFrm rfl
  case jzer | jnz =>
    unfold effectOf at h
    dsimp only at h
    split at h
    · obtain ⟨rfl, hStk, hHea, hFrm⟩ := jump_next h
      exact .stays hStk hHea hFrm rfl
    · cases h
      exact .stays rfl rfl rfl rfl

/-- Only starting a frame and returning from one move the frame pointer. -/
theorem effectOf_frm {s : Option Store} (h : effectOf p l m r op operand = .next r' s)
    (hProc : op ≠ .proc) (hRet : op ≠ .ret) : r'.frm = r.frm := by
  cases op
  case proc => exact absurd rfl hProc
  case ret => exact absurd rfl hRet
  case nop | constPri | constAlt | add | sub | smul | eq | less | incPri =>
    cases h
    rfl
  case halt =>
    unfold effectOf at h
    dsimp only at h
    split at h <;> cases h
  case sysreq | sleep | brk => cases h
  case loadPri | loadAlt | loadSPri | storPri | storSPri =>
    obtain ⟨a, -, h⟩ := guarded_eq_next h
    obtain ⟨x, -, h⟩ := guarded_eq_next h
    cases h
    rfl
  case pushPri | pushAlt | pushC =>
    obtain ⟨⟨r₁, s₁⟩, hPush, h⟩ := guarded_eq_next h
    obtain ⟨-, rfl, -⟩ := push_ok hPush
    cases h
    rfl
  case call =>
    obtain ⟨target, -, h⟩ := guarded_eq_next h
    obtain ⟨⟨r₁, s₁⟩, hPush, h⟩ := guarded_eq_next h
    obtain ⟨-, rfl, -⟩ := push_ok hPush
    cases h
    rfl
  case popPri | popAlt =>
    obtain ⟨⟨v, r₁⟩, hPop, h⟩ := guarded_eq_next h
    obtain ⟨-, -, rfl⟩ := pop_ok hPop
    cases h
    rfl
  case stack | heap =>
    obtain ⟨moved, -, h⟩ := guarded_eq_next h
    split at h
    · cases h
    · split at h
      · cases h
      · cases h
        rfl
  case sdiv =>
    unfold effectOf divide at h
    dsimp only at h
    split at h
    · cases h
    · cases h
      rfl
  case bounds =>
    unfold effectOf at h
    dsimp only at h
    split at h
    · cases h
    · cases h
      rfl
  case jump => exact (jump_next h).2.2.2
  case jzer | jnz =>
    unfold effectOf at h
    dsimp only at h
    split at h
    · exact (jump_next h).2.2.2
    · cases h
      rfl

/-- An effect that stays inside the machine: it goes on or it faults. -/
def Inward (e : Effect) : Prop :=
  (∃ r s, e = .next r s) ∨ ∃ error r, e = .fault error r

theorem inward_next (r : Registers) (s : Option Store) : Inward (.next r s) := .inl ⟨r, s, rfl⟩

theorem inward_fault (error : MachineError) (r : Registers) : Inward (.fault error r) :=
  .inr ⟨error, r, rfl⟩

theorem inward_guarded {α : Type} {step : Except MachineError α} {k : α → Effect}
    (h : ∀ a, Inward (k a)) : Inward (guarded r step k) := by
  cases step with
  | ok a => exact h a
  | error e => exact inward_fault e r

theorem inward_jump (cell : Cell) : Inward (jump p r cell) :=
  inward_guarded fun _ => inward_next _ _

/-- Four operations have to do with the host; all others stay inside the machine. -/
theorem effectOf_inward (hHalt : op ≠ .halt) (hSysreq : op ≠ .sysreq) (hSleep : op ≠ .sleep)
    (hBrk : op ≠ .brk) : Inward (effectOf p l m r op operand) := by
  cases op
  case halt => exact absurd rfl hHalt
  case sysreq => exact absurd rfl hSysreq
  case sleep => exact absurd rfl hSleep
  case brk => exact absurd rfl hBrk
  case nop | constPri | constAlt | add | sub | smul | eq | less | incPri =>
    exact inward_next _ _
  case loadPri | loadAlt | loadSPri | storPri | storSPri | call =>
    exact inward_guarded fun _ => inward_guarded fun _ => inward_next _ _
  case pushPri | pushAlt | pushC | popPri | popAlt | proc =>
    exact inward_guarded fun _ => inward_next _ _
  case stack | heap =>
    refine inward_guarded fun _ => ?_
    split
    · exact inward_fault _ _
    · split
      · exact inward_fault _ _
      · exact inward_next _ _
  case sdiv =>
    unfold effectOf divide
    dsimp only
    split
    · exact inward_fault _ _
    · exact inward_next _ _
  case bounds =>
    unfold effectOf
    dsimp only
    split
    · exact inward_fault _ _
    · exact inward_next _ _
  case jump => exact inward_jump operand
  case jzer | jnz =>
    unfold effectOf
    dsimp only
    split
    · exact inward_jump operand
    · exact inward_next _ _
  case ret =>
    refine inward_guarded fun _ => inward_guarded fun _ => ?_
    dsimp only
    split
    · exact inward_fault _ _
    · exact inward_guarded fun _ => inward_next _ _

/-- The registers at the next instruction. -/
def advanced (r : Registers) (op : Opcode) : Registers := { r with cip := r.cip + op.width }

/-- **An effect stays inside the machine, or comes from the one operation that has it.** -/
theorem effectOf_cases (p : Program) (l : Layout) (m : Memory) (r : Registers) (op : Opcode)
    (operand : Cell) :
    Inward (effectOf p l m r op operand) ∨
    (op = .halt ∧ effectOf p l m r op operand = .halt r.pri) ∨
    (op = .sysreq ∧ effectOf p l m r op operand = .native (advanced r op) operand) ∨
    (op = .sleep ∧ effectOf p l m r op operand = .sleep (advanced r op)) ∨
    (op = .brk ∧ effectOf p l m r op operand = .checkpoint (advanced r op)) := by
  by_cases hHalt : op = .halt
  · subst hHalt
    unfold effectOf
    dsimp only
    split
    · exact .inr (.inl ⟨rfl, rfl⟩)
    · exact .inl (inward_fault _ _)
  by_cases hSysreq : op = .sysreq
  · subst hSysreq
    exact .inr (.inr (.inl ⟨rfl, rfl⟩))
  by_cases hSleep : op = .sleep
  · subst hSleep
    exact .inr (.inr (.inr (.inl ⟨rfl, rfl⟩)))
  by_cases hBrk : op = .brk
  · subst hBrk
    exact .inr (.inr (.inr (.inr ⟨rfl, rfl⟩)))
  exact .inl (effectOf_inward hHalt hSysreq hSleep hBrk)

theorem effectOf_sleep (h : effectOf p l m r op operand = .sleep r') :
    op = .sleep ∧ r' = advanced r op := by
  obtain (⟨_, _, h'⟩ | ⟨_, _, h'⟩) | ⟨-, h'⟩ | ⟨-, h'⟩ | ⟨hOp, h'⟩ | ⟨-, h'⟩ :=
    effectOf_cases p l m r op operand
  all_goals cases h.symm.trans h'
  exact ⟨hOp, rfl⟩

theorem effectOf_native {index : Cell} (h : effectOf p l m r op operand = .native r' index) :
    op = .sysreq ∧ r' = advanced r op ∧ index = operand := by
  obtain (⟨_, _, h'⟩ | ⟨_, _, h'⟩) | ⟨-, h'⟩ | ⟨hOp, h'⟩ | ⟨-, h'⟩ | ⟨-, h'⟩ :=
    effectOf_cases p l m r op operand
  all_goals cases h.symm.trans h'
  exact ⟨hOp, rfl, rfl⟩

theorem effectOf_checkpoint (h : effectOf p l m r op operand = .checkpoint r') :
    op = .brk ∧ r' = advanced r op := by
  obtain (⟨_, _, h'⟩ | ⟨_, _, h'⟩) | ⟨-, h'⟩ | ⟨-, h'⟩ | ⟨-, h'⟩ | ⟨hOp, h'⟩ :=
    effectOf_cases p l m r op operand
  all_goals cases h.symm.trans h'
  exact ⟨hOp, rfl⟩

/-- How a return fails, and the registers that it leaves: what was popped stays popped, and a frame
pointer that was good stays taken. -/
inductive FailedReturn (p : Program) (l : Layout) (m : Memory) (r : Registers) :
    MachineError → Registers → Prop
  | noFrame :
      l.stp ≤ r.stk → FailedReturn p l m r .stackUnderflow r
  | noAddress :
      r.stk < l.stp → l.stp ≤ r.stk + cellSize →
      FailedReturn p l m r .stackUnderflow { r with stk := r.stk + cellSize }
  | badFrame :
      r.stk + cellSize < l.stp → Cell.toAddress? (m.cellAt r.stk) = none →
      FailedReturn p l m r .memoryAccess { r with stk := r.stk + 2 * cellSize }
  | badAddress {frm : Nat} :
      r.stk + cellSize < l.stp → Cell.toAddress? (m.cellAt r.stk) = some frm →
      p.target? (m.cellAt (r.stk + cellSize)) = none →
      FailedReturn p l m r .memoryAccess { r with stk := r.stk + 2 * cellSize, frm := frm }

theorem pop_error {e : MachineError} (h : r.pop l m = .error e) :
    l.stp ≤ r.stk ∧ e = .stackUnderflow := by
  unfold Registers.pop at h
  split at h
  next hEmpty =>
    cases h
    exact ⟨hEmpty, rfl⟩
  · cases h

theorem codeTarget_error {cell : Cell} {e : MachineError} (h : codeTarget p cell = .error e) :
    p.target? cell = none ∧ e = .memoryAccess := by
  unfold codeTarget at h
  split at h
  · cases h
  next hNone =>
    cases h
    exact ⟨hNone, rfl⟩

theorem returnToCaller_fault {e : MachineError} (h : returnToCaller p l m r = .fault e r') :
    FailedReturn p l m r e r' := by
  obtain ⟨hPop, rfl⟩ | ⟨⟨frm, r₁⟩, hPop, h⟩ := guarded_eq_fault h
  · obtain ⟨hEmpty, rfl⟩ := pop_error hPop
    exact .noFrame hEmpty
  obtain ⟨hBelow, rfl, rfl⟩ := pop_ok hPop
  obtain ⟨hPop', rfl⟩ | ⟨⟨back, r₂⟩, hPop', h⟩ := guarded_eq_fault h
  · obtain ⟨hEmpty, rfl⟩ := pop_error hPop'
    exact .noAddress hBelow hEmpty
  obtain ⟨hBelow', rfl, rfl⟩ := pop_ok hPop'
  dsimp only at h hBelow'
  split at h
  next hFrame =>
    cases h
    exact .badFrame hBelow' hFrame
  next hFrame =>
    obtain ⟨hTarget, rfl⟩ | ⟨_, _, h⟩ := guarded_eq_fault h
    · obtain ⟨hNone, rfl⟩ := codeTarget_error hTarget
      exact .badAddress hBelow' hFrame hNone
    · cases h

/-- A return that fails has popped nothing, the frame pointer, or the return address as well. -/
theorem FailedReturn.popped {e : MachineError} (h : FailedReturn p l m r e r') :
    r' = r ∨ ∃ cells < 2, r.stk + cells * cellSize < l.stp ∧ r'.hea = r.hea ∧
      r'.stk = r.stk + (cells + 1) * cellSize := by
  cases h with
  | noFrame _ => exact .inl rfl
  | noAddress hBelow _ => exact .inr ⟨0, by omega, by omega, rfl, by dsimp only; omega⟩
  | badFrame hBelow _ => exact .inr ⟨1, by omega, by omega, rfl, rfl⟩
  | badAddress hBelow _ _ => exact .inr ⟨1, by omega, by omega, rfl, rfl⟩

/-- Every operation but a return checks before it changes anything. -/
theorem effectOf_fault {e : MachineError} (h : effectOf p l m r op operand = .fault e r')
    (hRet : op ≠ .ret) : r' = r := by
  have hNext : ∀ (k : Registers) (s : Option Store), Effect.next k s ≠ .fault e r' :=
    fun _ _ h => by cases h
  have hJump : ∀ cell, jump p r cell = .fault e r' → r' = r := by
    intro cell h
    obtain ⟨-, rfl⟩ | ⟨_, -, h⟩ := guarded_eq_fault h
    · rfl
    · cases h
  cases op
  case ret => exact absurd rfl hRet
  case nop | constPri | constAlt | add | sub | smul | eq | less | incPri | sysreq | sleep | brk =>
    cases h
  case halt =>
    unfold effectOf at h
    dsimp only at h
    split at h
    · cases h
    · cases h
      rfl
  case loadPri | loadAlt | loadSPri | storPri | storSPri | call =>
    obtain ⟨-, rfl⟩ | ⟨_, -, h⟩ := guarded_eq_fault h
    · rfl
    · obtain ⟨-, rfl⟩ | ⟨_, -, h⟩ := guarded_eq_fault h
      · rfl
      · exact absurd h (hNext _ _)
  case pushPri | pushAlt | pushC | popPri | popAlt | proc =>
    obtain ⟨-, rfl⟩ | ⟨_, -, h⟩ := guarded_eq_fault h
    · rfl
    · exact absurd h (hNext _ _)
  case stack | heap =>
    obtain ⟨-, rfl⟩ | ⟨_, -, h⟩ := guarded_eq_fault h
    · rfl
    · split at h
      · cases h
        rfl
      · split at h
        · cases h
          rfl
        · exact absurd h (hNext _ _)
  case sdiv =>
    unfold effectOf divide at h
    dsimp only at h
    split at h
    · cases h
      rfl
    · cases h
  case bounds =>
    unfold effectOf at h
    dsimp only at h
    split at h
    · cases h
      rfl
    · cases h
  case jump => exact hJump _ h
  case jzer | jnz =>
    unfold effectOf at h
    dsimp only at h
    split at h
    · exact hJump _ h
    · cases h

/-! ## With the decoder in front -/

theorem effect_of_decode (h : decode p r.cip = .ok (op, operand)) :
    effect p l m r = effectOf p l m r op operand := by
  unfold effect
  rw [h]

/-- An effect that is no fault is that of the decoded instruction. -/
theorem decode_of_effect {e : Effect} (h : effect p l m r = e)
    (hFault : ∀ error, e ≠ .fault error r) :
    ∃ op operand, decode p r.cip = .ok (op, operand) ∧ effectOf p l m r op operand = e := by
  unfold effect at h
  cases hDecode : decode p r.cip with
  | error error =>
      rw [hDecode] at h
      exact absurd h.symm (hFault error)
  | ok x =>
      rw [hDecode] at h
      exact ⟨x.1, x.2, rfl, h⟩

/-- **A fault leaves the registers alone**, unless the instruction that fails is a return. -/
theorem effect_fault {e : MachineError} (h : effect p l m r = .fault e r') :
    (r' = r ∧ ∀ operand, decode p r.cip ≠ .ok (.ret, operand)) ∨
    ∃ operand, decode p r.cip = .ok (.ret, operand) ∧ FailedReturn p l m r e r' := by
  unfold effect at h
  cases hDecode : decode p r.cip with
  | error error =>
      rw [hDecode] at h
      cases h
      exact .inl ⟨rfl, nofun⟩
  | ok x =>
      obtain ⟨op, operand⟩ := x
      rw [hDecode] at h
      by_cases hRet : op = .ret
      · subst hRet
        exact .inr ⟨operand, rfl, returnToCaller_fault h⟩
      · refine .inl ⟨effectOf_fault h hRet, ?_⟩
        rintro _ ⟨⟩
        exact hRet rfl

/-- A fault leaves the instruction pointer at the instruction that fails. -/
theorem cip_of_fault {e : MachineError} (h : effect p l m r = .fault e r') : r'.cip = r.cip := by
  rcases effect_fault h with ⟨rfl, -⟩ | ⟨operand, -, hFailed⟩
  · rfl
  · cases hFailed <;> rfl

end Instruction

end CellHost
