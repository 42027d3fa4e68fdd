import CellHost.Proofs.Driver.Faults
import CellHost.Proofs.Host.Footprint
import CellHost.Proofs.Host.FramePointer

/-!
# Calls and returns

A call leaves the address to return to on the stack of the program, and the function that is called
leaves the frame pointer of its caller below it. Between the two ends of a frame the program may do
what it likes, also call other functions, as long as it takes no more off the stack than it put
there and overwrites none of the saved cells. The return then finds the two cells where they were
left, and the caller goes on with its own frame and its own stack.

Nothing is asked of where the instructions of a body stand, only of what they do to the stack: a
body is a stretch of an execution. It may be suspended and resumed, and it may call natives,
provided the host gives the stack back as it found it.

## Main definitions

* `Body` : a stretch of an execution that keeps to its frame.
* `Frame` : a body with the `proc` and the `ret` around it.
* `returnTo` : where a return leads.

## Main results

* `Body.keeps` : a body keeps the saved cells of all open frames.
* `Frame.returns` : the return of a frame undoes its beginning.
* `Frame.returns_to_caller`, `Frame.returns_to_zero` : the frames of calls and those of entries.
* `calls_return` : where calls and entries return to.
-/

namespace CellHost

open Machine Instruction

variable {σ : Type} {emb : Embedder σ}

/-! ## Bodies -/

/-- How many bytes a frame holds on the stack after an instruction of its body, if it held so many
before. The instruction takes no more off than was put on, and neither calls nor begins or ends a
frame. -/
def heldAfter? (op : Opcode) (operand : Cell) (held : Nat) : Option Nat :=
  match op with
  | .call | .proc | .ret => none
  | .stack => if operand.toInt ≤ held then some (held - operand.toInt).toNat else none
  | op =>
    if op.pops * cellSize ≤ held then some (held - op.pops * cellSize + op.pushes * cellSize)
    else none

/-- An operation that writes elsewhere than on top of the stack, or that lets the host do so. -/
def Opcode.Writes (op : Opcode) : Prop :=
  op = .storPri ∨ op = .storSPri ∨ op = .sysreq ∨ op = .sleep ∨ op = .brk

instance (op : Opcode) : Decidable op.Writes :=
  inferInstanceAs (Decidable (_ ∨ _ ∨ _ ∨ _ ∨ _))

/-- The two cells saved in a frame, the frame pointer of the caller and the return address, are the
same in two memories. -/
def SavedAlike (frame : Nat) (m m' : Memory) : Prop :=
  m'.cellAt frame = m.cellAt frame ∧ m'.cellAt (frame + cellSize) = m.cellAt (frame + cellSize)

/-- How a body goes on from the instruction that starts in a state: the instruction completes, or it
suspends and the host resumes it, after whatever else the host does. -/
inductive Onward (emb : Embedder σ) (s : Point σ) : Point σ → Prop
  | completes {t : Point σ} : LeadsTo emb s t → Onward emb s t
  | resumes {delay : Cell} {c c' : Context} {w w' : World σ} {fuel : Nat} {t : Point σ} :
      (stepper emb).Moves s (.pauses (.slept delay) c w) →
      Acts (exec emb fuel) ({ c with sleeping := true }, w) (c', w') →
      start? .resume c' w' = some t → Onward emb s t

/-- From one instruction to the next, no store and nothing that the host does hits a saved cell of
the open frames, and what the host does leaves the stack pointer where it was. -/
structure Spares (opens : List Nat) (op : Opcode) (s t : Point σ) : Prop where
  saved : op.Writes → ∀ frame ∈ opens, SavedAlike frame s.2.region.memory t.2.region.memory
  stack : op = .sysreq ∨ op = .sleep → t.1.regs.stk = s.1.regs.stk

/-- An instruction that writes nothing of its own choice, and needs no host, spares saved cells. -/
theorem spares_of_not_writes {opens : List Nat} {op : Opcode} {s t : Point σ} (h : ¬ op.Writes) :
    Spares opens op s t where
  saved := fun hWrites => absurd hWrites h
  stack := fun hHost => absurd (.inr (.inr (hHost.imp_right .inl))) h

/-- The body of a frame, from one of its instructions to another, or a part of it: instructions that
keep to what the frame holds on the stack, and calls of functions that begin with `proc` and return
from their own frame. The frames that are open are known by their frame pointers, the innermost
first; the number of bytes that the innermost one holds is counted. -/
inductive Body (emb : Embedder σ) : List Nat → Nat → Point σ → Nat → Point σ → Prop
  | rests {opens : List Nat} {held : Nat} {s : Point σ} : Body emb opens held s held s
  | passes {opens : List Nat} {op : Opcode} {operand : Cell} {held held' left : Nat}
      {s s' t : Point σ} :
      decode s.1.program s.1.regs.cip = .ok (op, operand) →
      heldAfter? op operand held = some held' → Onward emb s s' → Spares opens op s s' →
      Body emb opens held' s' left t → Body emb opens held s left t
  | calls {opens : List Nat} {held left : Nat} {s called entered returning s' t : Point σ} :
      operation? s = some .call → LeadsTo emb s called →
      operation? called = some .proc → LeadsTo emb called entered →
      Body emb (entered.1.regs.frm :: opens) 0 entered 0 returning →
      operation? returning = some .ret → LeadsTo emb returning s' →
      Body emb opens held s' left t → Body emb opens held s left t

/-- A frame, from the `proc` that begins it to the `ret` that matches. -/
def Frame (emb : Embedder σ) (s t : Point σ) : Prop :=
  ∃ entered, operation? s = some .proc ∧ LeadsTo emb s entered ∧
    Body emb [entered.1.regs.frm] 0 entered 0 t ∧ operation? t = some .ret

/-- Where a return leads that gives back a frame pointer and a stack pointer: on to the address that
it names, or to a fault if there is none. -/
def returnTo (s : Point σ) (frm stk : Nat) : Option Nat → Progress σ
  | some target =>
      .continues { s.1 with regs := { s.1.regs with cip := target, frm, stk } } s.2.beginInstruction
  | none =>
      .pauses (.faulted .memoryAccess) { s.1 with regs := { s.1.regs with frm, stk } }
        s.2.beginInstruction

/-! ## Instructions -/

/-- The stack pointer moves as what the frame holds is counted. -/
theorem stk_of_heldAfter {p : Program} {l : Layout} {m : Memory} {r r' : Registers} {op : Opcode}
    {operand : Cell} {store : Option Store} {held held' : Nat}
    (h : effectOf p l m r op operand = .next r' store)
    (hHeld : heldAfter? op operand held = some held') : r'.stk + held' = r.stk + held := by
  by_cases hStack : op = .stack
  · subst hStack
    have hMoved := displace?_eq_some (effectOf_stack h).1
    simp only [heldAfter?, Option.ite_none_right_eq_some, Option.some.injEq] at hHeld
    omega
  · have hMoved := effectOf_stk h hStack
    unfold heldAfter? at hHeld
    split at hHeld
    · cases hHeld
    · cases hHeld
    · cases hHeld
    · exact absurd rfl hStack
    · simp only [Option.ite_none_right_eq_some, Option.some.injEq] at hHeld
      omega

theorem SavedAlike.trans {frame : Nat} {m m' m'' : Memory} (h : SavedAlike frame m m')
    (h' : SavedAlike frame m' m'') : SavedAlike frame m m'' :=
  ⟨h'.1.trans h.1, h'.2.trans h.2⟩

/-- A cell that is pushed below a frame is none of the two saved in it. -/
theorem savedAlike_apply_below {m : Memory} {top frame : Nat} {value : Cell}
    (hCell : cellSize ≤ top) (hFrame : top ≤ frame) :
    SavedAlike frame m (m.apply ⟨top - cellSize, value⟩) :=
  ⟨cellAt_apply_below hCell hFrame, cellAt_apply_below hCell (Nat.le_add_right_of_le hFrame)⟩

/-- An instruction that stores nothing of its own choice writes below every open frame. -/
theorem savedAlike_of_next {p : Program} {l : Layout} {m : Memory} {r r' : Registers} {op : Opcode}
    {operand : Cell} {store : Option Store} {w : World σ} {frame : Nat}
    (h : effectOf p l m r op operand = .next r' store) (hWrites : ¬ op.Writes)
    (hFrame : r.stk ≤ frame) :
    SavedAlike frame w.region.memory (w.storeIf store).region.memory := by
  cases effectOf_next h with
  | stays _ _ _ _ => exact ⟨rfl, rfl⟩
  | pops _ _ _ _ _ => exact ⟨rfl, rfl⟩
  | movesStack _ _ _ _ _ => exact ⟨rfl, rfl⟩
  | movesHeap _ _ _ _ _ => exact ⟨rfl, rfl⟩
  | stores hOp _ _ _ _ =>
      refine absurd ?_ hWrites
      rcases hOp with rfl | rfl
      · exact .inl rfl
      · exact .inr (.inl rfl)
  | @pushes store hRoom hAddress _ _ _ =>
      obtain ⟨address, value⟩ := store
      obtain rfl : address = r.stk - cellSize := hAddress
      exact savedAlike_apply_below (Nat.le_of_add_left_le hRoom) hFrame

/-- What completes without the host is what its operation does. -/
theorem Machine.LeadsTo.completed {s t : Point σ} {op : Opcode} {operand : Cell}
    (h : LeadsTo emb s t) (hDecode : decode s.1.program s.1.regs.cip = .ok (op, operand))
    (hSysreq : op ≠ .sysreq) (hBrk : op ≠ .brk) :
    ∃ regs store,
      effectOf s.1.program s.1.layout s.2.region.memory s.1.regs op operand = .next regs store ∧
      t = ({ s.1 with regs }, s.2.beginInstruction.storeIf store) := by
  have hOp := operation?_of_decode hDecode
  obtain ⟨n, hStep⟩ := h
  generalize hp : Progress.continues t.1 t.2 = progress at hStep
  cases stepped_of_step hStep with
  | @next regs store hEffect =>
      obtain ⟨hContext, hWorld⟩ := Progress.continues.inj hp
      obtain ⟨op', operand', hDecode', hOf⟩ := decode_of_effect hEffect (fun _ h => by cases h)
      cases hDecode.symm.trans hDecode'
      rw [beginInstruction_memory] at hOf
      exact ⟨regs, store, hOf, Prod.ext hContext hWorld⟩
  | native hEffect _ _ =>
      exact absurd (Option.some.inj (hOp.symm.trans (sysreq_of_native hEffect).1)) hSysreq
  | proceed hEffect _ =>
      exact absurd (Option.some.inj (hOp.symm.trans (brk_of_checkpoint hEffect).1)) hBrk
  | halt _ => cases hp
  | sleep _ => cases hp
  | fault _ => cases hp
  | unbound _ _ => cases hp
  | abort _ _ => cases hp

/-! ## Bodies, instruction by instruction -/

section Passing

variable {opens : List Nat} {op : Opcode} {operand : Cell} {held held' : Nat} {s t : Point σ}

/-- A body is suspended by a `sleep`. -/
theorem sleep_of_moves {delay : Cell} {c : Context} {w : World σ}
    (h : (stepper emb).Moves s (.pauses (.slept delay) c w))
    (hDecode : decode s.1.program s.1.regs.cip = .ok (op, operand)) : op = .sleep := by
  obtain ⟨n, hStep⟩ := h
  obtain ⟨regs, hEffect⟩ := sleep_of_slept hStep
  obtain ⟨op', operand', hDecode', hOf⟩ := decode_of_effect hEffect (fun _ h => by cases h)
  cases hDecode.symm.trans hDecode'
  exact (effectOf_sleep hOf).1

theorem Onward.saved (h : Onward emb s t)
    (hDecode : decode s.1.program s.1.regs.cip = .ok (op, operand)) (hSpares : Spares opens op s t)
    (hOpens : ∀ frame ∈ opens, s.1.regs.stk ≤ frame) :
    ∀ frame ∈ opens, SavedAlike frame s.2.region.memory t.2.region.memory := by
  by_cases hWrites : op.Writes
  · exact hSpares.saved hWrites
  intro frame hFrame
  cases h with
  | completes hLeads =>
      have hSysreq : op ≠ .sysreq := by
        rintro rfl
        exact hWrites (.inr (.inr (.inl rfl)))
      have hBrk : op ≠ .brk := by
        rintro rfl
        exact hWrites (.inr (.inr (.inr (.inr rfl))))
      obtain ⟨regs, store, hOf, rfl⟩ := hLeads.completed hDecode hSysreq hBrk
      have hSaved :=
        savedAlike_of_next (w := s.2.beginInstruction) hOf hWrites (hOpens frame hFrame)
      rwa [beginInstruction_memory] at hSaved
  | resumes hSleeps _ _ =>
      have hSleep := sleep_of_moves hSleeps hDecode
      exact absurd (.inr (.inr (.inr (.inl hSleep)))) hWrites

variable (hEmb : emb.UsesInterface)
include hEmb

/-- A checkpoint that lets the program go on leaves the stack pointer alone. -/
theorem Machine.LeadsTo.checked (h : LeadsTo emb s t)
    (hDecode : decode s.1.program s.1.regs.cip = .ok (.brk, operand)) :
    t.1.regs.stk = s.1.regs.stk := by
  obtain ⟨n, hStep⟩ := h
  have hEffect : effectAt s = .checkpoint (advanced s.1.regs .brk) := effect_of_decode hDecode
  generalize hp : Progress.continues t.1 t.2 = progress at hStep
  cases stepped_of_step hStep with
  | proceed hEffect' hAsk =>
      obtain ⟨hContext, -⟩ := Progress.continues.inj hp
      cases hEffect.symm.trans hEffect'
      rw [hContext, (askHook_pointers hEmb hAsk).1]
      rfl
  | next hEffect' => cases hEffect.symm.trans hEffect'
  | native hEffect' _ _ => cases hEffect.symm.trans hEffect'
  | halt _ => cases hp
  | sleep _ => cases hp
  | fault _ => cases hp
  | unbound _ _ => cases hp
  | abort _ _ => cases hp

theorem Onward.stk (h : Onward emb s t)
    (hDecode : decode s.1.program s.1.regs.cip = .ok (op, operand))
    (hHeld : heldAfter? op operand held = some held') (hSpares : Spares opens op s t) :
    t.1.regs.stk + held' = s.1.regs.stk + held := by
  by_cases hHost : op = .sysreq ∨ op = .sleep
  · have hSame : held' = held := by
      rcases hHost with rfl | rfl <;> exact (Option.some.inj hHeld).symm
    rw [hSpares.stack hHost, hSame]
  cases h with
  | completes hLeads =>
      by_cases hBrk : op = .brk
      · subst hBrk
        have hSame : held' = held := (Option.some.inj hHeld).symm
        rw [hLeads.checked hEmb hDecode, hSame]
      · obtain ⟨regs, store, hOf, rfl⟩ := hLeads.completed hDecode (fun h => hHost (.inl h)) hBrk
        exact stk_of_heldAfter hOf hHeld
  | resumes hSleeps _ _ =>
      have hSleep := sleep_of_moves hSleeps hDecode
      exact absurd (.inr hSleep) hHost

variable {p : Program} {l : Layout}

theorem Machine.LeadsTo.laid (h : LeadsTo emb s t) (hLaid : Laid p l (Fits l) s) :
    Laid p l (Fits l) t := by
  obtain ⟨n, hStep⟩ := h
  have hBound := fits_bound p l
  exact step_laid hBound hEmb (exec_laid hBound hEmb n) hStep hLaid

theorem Onward.laid (h : Onward emb s t) (hLaid : Laid p l (Fits l) s) :
    Laid p l (Fits l) t := by
  cases h with
  | completes hLeads => exact hLeads.laid hEmb hLaid
  | @resumes _ c c' w w' fuel _ hSleeps hActs hResume =>
      obtain ⟨n, hStep⟩ := hSleeps
      have hBound := fits_bound p l
      have hPaused : Laid p l (Fits l) (c, w) :=
        step_laid hBound hEmb (exec_laid hBound hEmb n) hStep hLaid
      have hParked : Laid p l (Fits l) ({ c with sleeping := true }, w) :=
        hPaused.congr rfl rfl hPaused.regs rfl rfl rfl
      have hLeft := hActs.keeps (laid_stable p l (Fits l)) (exec_laid hBound hEmb fuel) hParked
      exact start?_laid hBound hResume hLeft

end Passing

/-! ## Calls, frames and returns -/

/-- What a call leaves: the address of the next instruction on the stack. -/
theorem Machine.LeadsTo.called {s t : Point σ} (h : LeadsTo emb s t)
    (hOp : operation? s = some .call) :
    s.1.regs.hea + cellSize ≤ s.1.regs.stk ∧ t.1.regs.stk = s.1.regs.stk - cellSize ∧
    t.1.regs.frm = s.1.regs.frm ∧
    t.2.region.memory = s.2.region.memory.apply
      ⟨s.1.regs.stk - cellSize, Cell.ofAddress (s.1.regs.cip + Opcode.call.width)⟩ := by
  obtain ⟨operand, hDecode⟩ := decode_of_operation? hOp
  obtain ⟨regs, store, hOf, rfl⟩ := h.completed hDecode (by decide) (by decide)
  obtain ⟨hRoom, ⟨target, rfl⟩, rfl⟩ := effectOf_call hOf
  refine ⟨hRoom, rfl, rfl, ?_⟩
  exact congrArg (Memory.apply · _) (beginInstruction_memory s.2)

/-- The start of a frame leaves the frame pointer on the stack, and the new one at its cell. -/
theorem Machine.LeadsTo.entered {s t : Point σ} (h : LeadsTo emb s t)
    (hOp : operation? s = some .proc) :
    s.1.regs.hea + cellSize ≤ s.1.regs.stk ∧ t.1.regs.stk = s.1.regs.stk - cellSize ∧
    t.1.regs.frm = s.1.regs.stk - cellSize ∧
    t.2.region.memory = s.2.region.memory.apply
      ⟨s.1.regs.stk - cellSize, Cell.ofAddress s.1.regs.frm⟩ := by
  obtain ⟨operand, hDecode⟩ := decode_of_operation? hOp
  obtain ⟨regs, store, hOf, rfl⟩ := h.completed hDecode (by decide) (by decide)
  obtain ⟨hRoom, rfl, rfl⟩ := effectOf_proc hOf
  refine ⟨hRoom, rfl, rfl, ?_⟩
  exact congrArg (Memory.apply · _) (beginInstruction_memory s.2)

/-- While nothing hits the cells that the start of a frame saves, they hold the frame pointer and
what was on top of the stack. -/
theorem Machine.LeadsTo.saved {s t : Point σ} (h : LeadsTo emb s t)
    (hOp : operation? s = some .proc) {p : Program} {l : Layout} (hLaid : Laid p l (Fits l) s)
    {m : Memory} (hSaved : SavedAlike t.1.regs.stk t.2.region.memory m) :
    m.cellAt t.1.regs.stk = Cell.ofAddress s.1.regs.frm ∧
    m.cellAt (t.1.regs.stk + cellSize) = s.2.region.memory.cellAt s.1.regs.stk := by
  obtain ⟨hRoom, hStk, -, hMemory⟩ := h.entered hOp
  have hCell : cellSize ≤ s.1.regs.stk := Nat.le_of_add_left_le hRoom
  have hTop : s.1.regs.stk - cellSize + cellSize = s.1.regs.stk := Nat.sub_add_cancel hCell
  obtain ⟨hFrame, hBack⟩ := hSaved
  rw [hFrame, hBack, hMemory, hStk, hTop]
  exact ⟨cellAt_apply_top hLaid.block hCell hLaid.regs.high _,
    cellAt_apply_below hCell (Nat.le_refl _)⟩

/-- A return that completes takes two cells and writes none. -/
theorem Machine.LeadsTo.returned {s t : Point σ} (h : LeadsTo emb s t)
    (hOp : operation? s = some .ret) :
    t.1.regs.stk = s.1.regs.stk + 2 * cellSize ∧ t.2.region.memory = s.2.region.memory := by
  obtain ⟨operand, hDecode⟩ := decode_of_operation? hOp
  obtain ⟨regs, store, hOf, rfl⟩ := h.completed hDecode (by decide) (by decide)
  refine ⟨effectOf_stk hOf (by decide), ?_⟩
  cases effectOf_next hOf with
  | pops _ _ _ _ _ => exact beginInstruction_memory s.2
  | stays _ _ _ hPops => cases hPops
  | stores hOp _ _ _ _ => rcases hOp with hOp | hOp <;> cases hOp
  | pushes _ _ _ _ hPops => cases hPops
  | movesStack hOp _ _ _ _ => cases hOp
  | movesHeap hOp _ _ _ _ => cases hOp

/-- **A body keeps the saved cells of the open frames**, and moves the stack pointer as it counts.
The induction is on the body; every open frame lies at or above what the innermost one holds. -/
theorem Body.keeps (hEmb : emb.UsesInterface) {p : Program} {l : Layout} {opens : List Nat}
    {held left : Nat} {s t : Point σ} (h : Body emb opens held s left t)
    (hLaid : Laid p l (Fits l) s) (hOpens : ∀ frame ∈ opens, s.1.regs.stk + held ≤ frame) :
    Laid p l (Fits l) t ∧ t.1.regs.stk + left = s.1.regs.stk + held ∧
    ∀ frame ∈ opens, SavedAlike frame s.2.region.memory t.2.region.memory := by
  induction h with
  | rests => exact ⟨hLaid, rfl, fun _ _ => ⟨rfl, rfl⟩⟩
  | passes hDecode hHeld hOnward hSpares _ ih =>
      have hStk := hOnward.stk hEmb hDecode hHeld hSpares
      have hSaved := hOnward.saved hDecode hSpares fun frame hFrame =>
        Nat.le_trans (Nat.le_add_right _ _) (hOpens frame hFrame)
      obtain ⟨hEnd, hStkEnd, hSavedEnd⟩ := ih (hOnward.laid hEmb hLaid) fun frame hFrame =>
        hStk ▸ hOpens frame hFrame
      exact ⟨hEnd, hStkEnd.trans hStk, fun frame hFrame =>
        (hSaved frame hFrame).trans (hSavedEnd frame hFrame)⟩
  | @calls opens held left s called entered returning s' t hCall hToCalled hProc hToEntered _ hRet
      hBack _ ihBody ih =>
      obtain ⟨hRoom, hStkCalled, -, hMemoryCalled⟩ := hToCalled.called hCall
      obtain ⟨hRoom', hStkEntered, hFrmEntered, hMemoryEntered⟩ := hToEntered.entered hProc
      obtain ⟨hStkBack, hMemoryBack⟩ := hBack.returned hRet
      have hLaidEntered := hToEntered.laid hEmb (hToCalled.laid hEmb hLaid)
      -- the frame of the callee is open in its body, below all frames of the caller
      obtain ⟨hLaidReturning, hStkReturning, hSavedReturning⟩ := ihBody hLaidEntered (by
        intro frame hFrame
        rcases List.mem_cons.mp hFrame with rfl | hFrame
        · omega
        · have hAbove := hOpens frame hFrame
          omega)
      have hStk : s'.1.regs.stk + held = s.1.regs.stk + held := by omega
      obtain ⟨hEnd, hStkEnd, hSavedEnd⟩ := ih (hBack.laid hEmb hLaidReturning) fun frame hFrame =>
        hStk ▸ hOpens frame hFrame
      refine ⟨hEnd, hStkEnd.trans hStk, fun frame hFrame => ?_⟩
      have hAbove := hOpens frame hFrame
      have hSavedCalled : SavedAlike frame s.2.region.memory called.2.region.memory := by
        rw [hMemoryCalled]
        exact savedAlike_apply_below (by omega) (by omega)
      have hSavedEntered : SavedAlike frame called.2.region.memory entered.2.region.memory := by
        rw [hMemoryEntered]
        exact savedAlike_apply_below (by omega) (by omega)
      have hSavedBody := hSavedReturning frame (List.mem_cons_of_mem _ hFrame)
      have hSavedBack : SavedAlike frame returning.2.region.memory s'.2.region.memory := by
        rw [hMemoryBack]
        exact ⟨rfl, rfl⟩
      exact (((hSavedCalled.trans hSavedEntered).trans hSavedBody).trans hSavedBack).trans
        (hSavedEnd frame hFrame)

/-- A return that finds a frame pointer gives it back. -/
theorem step_of_ret {engine : Engine σ} {s : Point σ} {frm : Nat}
    (hOp : operation? s = some .ret) (hBelow : s.1.regs.stk + cellSize < s.1.layout.stp)
    (hFrame : Cell.toAddress? (s.2.region.memory.cellAt s.1.regs.stk) = some frm) :
    step emb engine s.1 s.2 =
      some (returnTo s frm (s.1.regs.stk + 2 * cellSize)
        (s.1.program.target? (s.2.region.memory.cellAt (s.1.regs.stk + cellSize)))) := by
  have hEffect := effectAt_of_ret hOp hBelow
  rw [hFrame] at hEffect
  cases hTarget : s.1.program.target? (s.2.region.memory.cellAt (s.1.regs.stk + cellSize)) with
  | none =>
      rw [hTarget] at hEffect
      exact step_of_fault hEffect
  | some target =>
      rw [hTarget] at hEffect
      exact step_of_next hEffect

/-- **The return of a frame gives back** the frame pointer and the stack pointer with which the
frame was begun, less the return address, and goes to that address. -/
theorem Frame.returns (hEmb : emb.UsesInterface) {p : Program} {l : Layout} {s t : Point σ}
    (h : Frame emb s t) (hLaid : Laid p l (Fits l) s) (hBelow : s.1.regs.stk < l.stp)
    (hFrm : s.1.regs.frm ≤ Cell.maxValue) (engine : Engine σ) :
    step emb engine t.1 t.2 =
      some (returnTo t s.1.regs.frm (s.1.regs.stk + cellSize)
        (p.target? (s.2.region.memory.cellAt s.1.regs.stk))) := by
  obtain ⟨entered, hProc, hToEntered, hBody, hRet⟩ := h
  obtain ⟨hRoom, hStkEntered, hFrmEntered, hMemoryEntered⟩ := hToEntered.entered hProc
  obtain ⟨hLaidEnd, hStkEnd, hSaved⟩ := hBody.keeps hEmb (hToEntered.laid hEmb hLaid) (by
    intro frame hFrame
    rw [List.mem_singleton.mp hFrame]
    omega)
  have hStk : t.1.regs.stk = entered.1.regs.stk := hStkEnd
  have hFrm' : entered.1.regs.frm = entered.1.regs.stk := hFrmEntered.trans hStkEntered.symm
  obtain ⟨hFrameCell, hBackCell⟩ :=
    hToEntered.saved hProc hLaid (hFrm' ▸ hSaved _ (List.mem_singleton_self _))
  rw [← hStk] at hFrameCell hBackCell
  have hTaken : Cell.toAddress? (t.2.region.memory.cellAt t.1.regs.stk) = some s.1.regs.frm := by
    rw [hFrameCell]
    exact Cell.toAddress?_ofAddress hFrm
  have hTop : t.1.regs.stk + cellSize < t.1.layout.stp := by
    rw [hLaidEnd.layout]
    omega
  rw [step_of_ret hRet hTop hTaken, hBackCell, hLaidEnd.program]
  congr 2
  omega

/-- The return of a called function goes on after the call, with the frame and the stack of the
caller. -/
theorem Frame.returns_to_caller (hEmb : emb.UsesInterface) {p : Program} {l : Layout}
    {s called t : Point σ} (h : Frame emb called t) (hCall : operation? s = some .call)
    (hToCalled : LeadsTo emb s called) (hLaid : Laid p l (Fits l) s)
    (hCode : p.codeSize ≤ Cell.maxValue) (hFrm : s.1.regs.frm ≤ Cell.maxValue)
    (engine : Engine σ) :
    let back := s.1.regs.cip + Opcode.call.width
    step emb engine t.1 t.2 =
      some (returnTo t s.1.regs.frm s.1.regs.stk
        (if back < p.codeSize then some back else none)) := by
  intro back
  have hHigh := hLaid.regs.high
  obtain ⟨hRoom, hStk, hSame, hMemory⟩ := hToCalled.called hCall
  have hReturns := h.returns hEmb (hToCalled.laid hEmb hLaid) (by omega) (hSame ▸ hFrm) engine
  have hBackCell : called.2.region.memory.cellAt called.1.regs.stk = Cell.ofAddress back := by
    rw [hStk, hMemory]
    exact cellAt_apply_top hLaid.block (Nat.le_of_add_left_le hRoom) hHigh _
  obtain ⟨operand, hDecode⟩ := decode_of_operation? hCall
  obtain ⟨hWhole, hEnd⟩ := decode_within hDecode
  rw [hLaid.program] at hEnd
  have hBackWhole : back % cellSize = 0 := by
    rw [show back = s.1.regs.cip + 2 * cellSize from rfl, Nat.add_mul_mod_self_right, hWhole]
  have hStkBack : called.1.regs.stk + cellSize = s.1.regs.stk := by omega
  rw [hReturns, hBackCell, target?_ofAddress hBackWhole (Nat.le_trans hEnd hCode), hSame, hStkBack]

/-- The return of the frame with which an entry begins goes on at address zero, with the frame and
the stack of the context before it was entered. -/
theorem Frame.returns_to_zero (hEmb : emb.UsesInterface) {p : Program} {l : Layout}
    {entry : EntryPoint} {c : Context} {w : World σ} {s t : Point σ} (h : Frame emb s t)
    (hStart : start? entry c w = some s) (hEntry : entry ≠ .resume)
    (hLaid : Laid p l (Fits l) (c, w)) (hFrm : c.regs.frm ≤ Cell.maxValue) (engine : Engine σ) :
    step emb engine t.1 t.2 = some (returnTo t c.regs.frm c.regs.stk (some 0)) := by
  have hEntered := start?_laid (fits_bound p l) hStart hLaid
  rcases start?_eq_some hStart with ⟨hResume, -, -⟩ | ⟨-, address, hAt⟩
  · exact absurd hResume hEntry
  obtain ⟨hRoom, rfl⟩ := enterAt?_eq_some hAt
  have hCell : cellSize ≤ c.regs.stk := Nat.le_of_add_left_le hRoom
  have hHigh : c.regs.stk < l.stp + cellSize := hLaid.regs.high
  have hBelow : c.regs.stk - cellSize < l.stp := by omega
  have hReturns := h.returns hEmb hEntered hBelow hFrm engine
  have hBackCell : (w.store ⟨c.regs.stk - cellSize, 0⟩).region.memory.cellAt
      (c.regs.stk - cellSize) = Cell.ofAddress 0 :=
    cellAt_apply_top hLaid.block hCell hHigh 0
  have hInside : 0 < p.codeSize := by
    obtain ⟨entered, hProc, -⟩ := h
    obtain ⟨operand, hDecode⟩ := decode_of_operation? hProc
    rw [hEntered.program] at hDecode
    exact Nat.zero_lt_of_lt (lt_codeSize_of_decode hDecode)
  rw [hReturns, hBackCell, target?_ofAddress rfl (Nat.zero_le _), if_pos hInside]
  congr 2
  exact Nat.sub_add_cancel hCell

/-- **Main theorem.** In a program and a block that cells can address, the return that matches a
call goes on right after the call, or fails if that is the end of the code, with the frame pointer
and the stack pointer that the caller had before the call; and the return of the frame with which an
entry begins goes on at address zero, with those of the context before it was entered. -/
theorem calls_return (hEmb : emb.UsesInterface) {p : Program} {bytes : Nat}
    (hCode : p.codeSize ≤ Cell.maxValue) (hBlock : (layoutOf p bytes).stp ≤ Cell.maxValue) :
    (∀ s called t : Point σ, Occurs emb p bytes s → operation? s = some .call →
      LeadsTo emb s called → Frame emb called t → ∀ engine,
      let back := s.1.regs.cip + Opcode.call.width
      step emb engine t.1 t.2 =
        some (returnTo t s.1.regs.frm s.1.regs.stk
          (if back < p.codeSize then some back else none))) ∧
    (∀ entry c (w : World σ) s t, Occurs emb p bytes (c, w) → entry ≠ .resume →
      start? entry c w = some s → Frame emb s t → ∀ engine,
      step emb engine t.1 t.2 = some (returnTo t c.regs.frm c.regs.stk (some 0))) := by
  have hFrm : ∀ s : Point σ, Occurs emb p bytes s → s.1.regs.frm ≤ Cell.maxValue := by
    intro s hOccurs
    have hMax := hOccurs.frm_le hEmb
    omega
  refine ⟨?_, ?_⟩
  · intro s called t hOccurs hCall hToCalled hFrame engine
    exact hFrame.returns_to_caller hEmb hCall hToCalled (hOccurs.laid hEmb) hCode (hFrm s hOccurs)
      engine
  · intro entry c w s t hOccurs hEntry hStart hFrame engine
    exact hFrame.returns_to_zero hEmb hStart hEntry (hOccurs.laid hEmb) (hFrm (c, w) hOccurs) engine

/-- A program whose `main` pushes a twenty and calls a function that adds one to it, in place, and
calls another one that pushes and pops. -/
def relay : Program where
  main := some 8
  code :=
    #[Opcode.halt.toCell, 0, Opcode.proc.toCell, Opcode.pushC.toCell, 20, Opcode.call.toCell, 40,
      Opcode.stack.toCell, 4, Opcode.ret.toCell,
      Opcode.proc.toCell, Opcode.loadSPri.toCell, 8, Opcode.incPri.toCell, Opcode.storSPri.toCell,
      8, Opcode.call.toCell, 76, Opcode.ret.toCell,
      Opcode.proc.toCell, Opcode.pushPri.toCell, Opcode.popAlt.toCell, Opcode.ret.toCell]

/-- The program in a block of twelve cells, with some registers. -/
def relayWith (regs : Registers) : Context where
  program := relay
  natives := []
  layout := ⟨0, 48⟩
  regs := regs
  resetStk := 48
  resetHea := 0

/-- The program after so many instructions, with the cells on top of its memory. -/
def relayAt (started : Nat) (regs : Registers) (top : Array Cell) : Point Unit :=
  (relayWith regs,
    { region := { memory := Array.replicate 4 0 ++ top }, clock := .steady,
      interrupts := { started }, host := () })

/-- The program as it is laid out. -/
def relayFresh : Point Unit :=
  relayAt 0 { frm := 48, stk := 48, hea := 0 } #[0, 0, 0, 0, 0, 0, 0, 0]

/-- The program after so many instructions. It calls at 2, and what it calls calls in turn at 7;
these return at 12 and at 11, and `main` at 14. -/
def relayAfter : Nat → Point Unit
  | 0 => relayAt 0 { cip := 8, frm := 48, stk := 44, hea := 0 } #[0, 0, 0, 0, 0, 0, 0, 0]
  | 1 => relayAt 1 { cip := 12, frm := 40, stk := 40, hea := 0 } #[0, 0, 0, 0, 0, 0, 48, 0]
  | 2 => relayAt 2 { cip := 20, frm := 40, stk := 36, hea := 0 } #[0, 0, 0, 0, 0, 20, 48, 0]
  | 3 => relayAt 3 { cip := 40, frm := 40, stk := 32, hea := 0 } #[0, 0, 0, 0, 28, 20, 48, 0]
  | 4 => relayAt 4 { cip := 44, frm := 28, stk := 28, hea := 0 } #[0, 0, 0, 40, 28, 20, 48, 0]
  | 5 => relayAt 5 { pri := 20, cip := 52, frm := 28, stk := 28, hea := 0 }
      #[0, 0, 0, 40, 28, 20, 48, 0]
  | 6 => relayAt 6 { pri := 21, cip := 56, frm := 28, stk := 28, hea := 0 }
      #[0, 0, 0, 40, 28, 20, 48, 0]
  | 7 => relayAt 7 { pri := 21, cip := 64, frm := 28, stk := 28, hea := 0 }
      #[0, 0, 0, 40, 28, 21, 48, 0]
  | 8 => relayAt 8 { pri := 21, cip := 76, frm := 28, stk := 24, hea := 0 }
      #[0, 0, 72, 40, 28, 21, 48, 0]
  | 9 => relayAt 9 { pri := 21, cip := 80, frm := 20, stk := 20, hea := 0 }
      #[0, 28, 72, 40, 28, 21, 48, 0]
  | 10 => relayAt 10 { pri := 21, cip := 84, frm := 20, stk := 16, hea := 0 }
      #[21, 28, 72, 40, 28, 21, 48, 0]
  | 11 => relayAt 11 { pri := 21, alt := 21, cip := 88, frm := 20, stk := 20, hea := 0 }
      #[21, 28, 72, 40, 28, 21, 48, 0]
  | 12 => relayAt 12 { pri := 21, alt := 21, cip := 72, frm := 28, stk := 28, hea := 0 }
      #[21, 28, 72, 40, 28, 21, 48, 0]
  | 13 => relayAt 13 { pri := 21, alt := 21, cip := 28, frm := 40, stk := 36, hea := 0 }
      #[21, 28, 72, 40, 28, 21, 48, 0]
  | _ => relayAt 14 { pri := 21, alt := 40, cip := 36, frm := 40, stk := 40, hea := 0 }
      #[21, 28, 72, 40, 28, 21, 48, 0]

/-- The body of the function that `main` calls, whatever frames are open around it. The store hits
its argument, between the cells saved in the two frames. -/
theorem relay_called_body {opens : List Nat} (hOpens : ∀ frame ∈ opens, 40 ≤ frame) :
    Body .plain (28 :: opens) 0 (relayAfter 4) 0 (relayAfter 12) := by
  refine .passes rfl rfl (.completes (⟨0, rfl⟩ : LeadsTo .plain (relayAfter 4) (relayAfter 5)))
    (spares_of_not_writes (by decide)) ?_
  refine .passes rfl rfl (.completes (⟨0, rfl⟩ : LeadsTo .plain (relayAfter 5) (relayAfter 6)))
    (spares_of_not_writes (by decide)) ?_
  have hMemory : (relayAfter 6).2.region.memory.apply ⟨36, 21⟩ =
      (relayAfter 7).2.region.memory := rfl
  have hStored : ∀ frame ∈ 28 :: opens,
      SavedAlike frame (relayAfter 6).2.region.memory (relayAfter 7).2.region.memory := by
    intro frame hFrame
    have hElsewhere : frame = 28 ∨ 40 ≤ frame := (List.mem_cons.mp hFrame).imp_right (hOpens frame)
    have hCell : cellSize = 4 := rfl
    rw [← hMemory]
    refine ⟨cellAt_apply_of_ne ?_, cellAt_apply_of_ne ?_⟩ <;>
      · rw [hCell]
        dsimp only
        omega
  refine .passes rfl rfl (.completes (⟨0, rfl⟩ : LeadsTo .plain (relayAfter 6) (relayAfter 7)))
    ⟨fun _ => hStored, fun hHost => absurd hHost (by decide)⟩ ?_
  refine .calls rfl (⟨0, rfl⟩ : LeadsTo .plain (relayAfter 7) (relayAfter 8)) rfl
    (⟨0, rfl⟩ : LeadsTo .plain (relayAfter 8) (relayAfter 9)) ?_ rfl
    (⟨0, rfl⟩ : LeadsTo .plain (relayAfter 11) (relayAfter 12)) .rests
  refine .passes rfl rfl (.completes (⟨0, rfl⟩ : LeadsTo .plain (relayAfter 9) (relayAfter 10)))
    (spares_of_not_writes (by decide)) ?_
  exact .passes rfl rfl (.completes (⟨0, rfl⟩ : LeadsTo .plain (relayAfter 10) (relayAfter 11)))
    (spares_of_not_writes (by decide)) .rests

/-- The function that `main` calls, from the start of its frame to its return. -/
theorem relay_called_frame : Frame (.plain : Embedder Unit) (relayAfter 3) (relayAfter 12) :=
  ⟨relayAfter 4, rfl, ⟨0, rfl⟩, relay_called_body (List.forall_mem_nil _), rfl⟩

/-- `main`, from the start of its frame to its return. -/
theorem relay_entry_frame : Frame (.plain : Embedder Unit) (relayAfter 0) (relayAfter 14) := by
  refine ⟨relayAfter 1, rfl, ⟨0, rfl⟩, ?_, rfl⟩
  refine .passes rfl rfl (.completes (⟨0, rfl⟩ : LeadsTo .plain (relayAfter 1) (relayAfter 2)))
    (spares_of_not_writes (by decide)) ?_
  refine .calls rfl (⟨0, rfl⟩ : LeadsTo .plain (relayAfter 2) (relayAfter 3)) rfl
    (⟨0, rfl⟩ : LeadsTo .plain (relayAfter 3) (relayAfter 4)) (relay_called_body ?_) rfl
    (⟨0, rfl⟩ : LeadsTo .plain (relayAfter 12) (relayAfter 13)) ?_
  · exact fun frame hFrame => Nat.le_of_eq (List.mem_singleton.mp hFrame).symm
  · exact .passes rfl rfl (.completes (⟨0, rfl⟩ : LeadsTo .plain (relayAfter 13) (relayAfter 14)))
      (spares_of_not_writes (by decide)) .rests

/-- Both returns give back what they are to give back. -/
theorem calls_return_relay :
    (Embedder.plain : Embedder Unit).UsesInterface ∧ relay.codeSize ≤ Cell.maxValue ∧
    (layoutOf relay 48).stp ≤ Cell.maxValue ∧
    Frame (.plain : Embedder Unit) (relayAfter 3) (relayAfter 12) ∧
    Frame (.plain : Embedder Unit) (relayAfter 0) (relayAfter 14) ∧
    step .plain (exec .plain 0) (relayAfter 12).1 (relayAfter 12).2 =
      some (returnTo (relayAfter 12) 40 36 (some 28)) ∧
    step .plain (exec .plain 0) (relayAfter 14).1 (relayAfter 14).2 =
      some (returnTo (relayAfter 14) 48 48 (some 0)) := by
  have hPlain : (Embedder.plain : Embedder Unit).UsesInterface := Embedder.plain_usesInterface
  have hCode : relay.codeSize ≤ Cell.maxValue := by decide
  have hBlock : (layoutOf relay 48).stp ≤ Cell.maxValue := by decide
  have hHeld : Occurs (.plain : Embedder Unit) relay 48 relayFresh :=
    .held (.creates rfl rfl) (List.mem_singleton_self _)
  have hStart : start? .main relayFresh.1 relayFresh.2 = some (relayAfter 0) := rfl
  have hCalling : Occurs (.plain : Embedder Unit) relay 48 (relayAfter 2) := by
    have hEntered : Occurs (.plain : Embedder Unit) relay 48 (relayAfter 0) := .starts hHeld hStart
    have hBegun : Occurs (.plain : Embedder Unit) relay 48 (relayAfter 1) :=
      .next hEntered (show step .plain (exec .plain 0) _ _ = some (.continues _ _) from rfl)
    exact .next hBegun (show step .plain (exec .plain 0) _ _ = some (.continues _ _) from rfl)
  obtain ⟨hCalls, hEntries⟩ := calls_return hPlain hCode hBlock
  have hReturn := hCalls (relayAfter 2) (relayAfter 3) (relayAfter 12) hCalling rfl ⟨0, rfl⟩
    relay_called_frame (exec .plain 0)
  have hReturn' := hEntries .main relayFresh.1 relayFresh.2 (relayAfter 0) (relayAfter 14) hHeld
    (by decide) hStart relay_entry_frame (exec .plain 0)
  exact ⟨hPlain, hCode, hBlock, relay_called_frame, relay_entry_frame, hReturn, hReturn'⟩

end CellHost
