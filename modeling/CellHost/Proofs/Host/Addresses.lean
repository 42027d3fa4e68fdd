import CellHost.Proofs.Host.Calls

/-!
# Addresses kept in cells

The stack pointer and the frame pointer count bytes of a block of any size, and a program keeps them
in cells: the start of a frame pushes the frame pointer, and moving the stack pointer leaves it in
the alternate register. Storing an address in a cell cuts it down to 32 bits, and reading one refuses
a negative cell. The bound under which nothing is lost is one on the size of the block. Laying out a
program does not establish it: it refuses blocks that are too small, and none that is too large.

## Main definitions

* `GivesBack` : a return gives back the frame pointer that was saved if a cell can hold it.
* `Program.MainReturns` : `main` begins a frame and returns.

## Main results

* `ret_of_saved` : the return that matches the start of a frame.
* `exec_of_mainReturns` : what a frame that begins and ends at once comes to, in a block of any
  size.
* `addresses_kept` : which addresses survive being kept in cells.
-/

namespace CellHost

open Machine Instruction

variable {σ : Type} {emb : Embedder σ}

/-- The state that the start of a frame leads to. -/
def afterProc (s : Point σ) : Point σ :=
  ({ s.1 with
      regs := { s.1.regs with
        cip := s.1.regs.cip + Opcode.proc.width, frm := s.1.regs.stk - cellSize,
        stk := s.1.regs.stk - cellSize } },
    s.2.beginInstruction.store ⟨s.1.regs.stk - cellSize, Cell.ofAddress s.1.regs.frm⟩)

/-- A frame begins in every state with room for a cell. -/
theorem step_afterProc {engine : Engine σ} {s : Point σ} (hOp : operation? s = some .proc)
    (hRoom : s.1.regs.hea + cellSize ≤ s.1.regs.stk) :
    step emb engine s.1 s.2 = some (.continues (afterProc s).1 (afterProc s).2) :=
  step_of_next (effectAt_of_proc hOp hRoom)

/-- A return that finds no frame pointer fails. -/
theorem step_of_badFrame {engine : Engine σ} {s : Point σ} (hOp : operation? s = some .ret)
    (hBelow : s.1.regs.stk + cellSize < s.1.layout.stp)
    (hNone : Cell.toAddress? (s.2.region.memory.cellAt s.1.regs.stk) = none) :
    step emb engine s.1 s.2 =
      some (.pauses (.faulted .memoryAccess)
        { s.1 with regs := { s.1.regs with stk := s.1.regs.stk + 2 * cellSize } }
        s.2.beginInstruction) := by
  have hEffect := effectAt_of_ret hOp hBelow
  rw [hNone] at hEffect
  exact step_of_fault hEffect

/-- The value that moving the stack pointer leaves in the alternate register. -/
theorem Machine.LeadsTo.moved {s t : Point σ} (h : LeadsTo emb s t)
    (hOp : operation? s = some .stack) : t.1.regs.alt = Cell.ofAddress t.1.regs.stk := by
  obtain ⟨operand, hDecode⟩ := decode_of_operation? hOp
  obtain ⟨regs, store, hOf, rfl⟩ := h.completed hDecode (by decide) (by decide)
  exact (effectOf_stack hOf).2

/-! ## A program that only begins a frame and returns -/

/-- `main` is the start of a frame and its return, in a program that halts where it returns to. -/
structure Program.MainReturns (p : Program) (entry : Nat) : Prop where
  main : p.main = some entry
  proc : decode p entry = .ok (.proc, 0)
  ret : decode p (entry + Opcode.proc.width) = .ok (.ret, 0)
  halt : decode p 0 = .ok (.halt, 0)

theorem start?_main {c : Context} {address : Nat} (h : c.program.main = some address)
    (w : World σ) : start? .main c w = enterAt? address c w := by
  show (c.program.main).bind _ = _
  rw [h]
  rfl

/-- A frame that begins and ends at once, on top of the address zero: the return takes the frame
pointer that comes back from the cell, or fails. -/
theorem run_of_bareFrame (emb : Embedder σ) {p : Program} {l : Layout} {s : Point σ}
    (hLaid : Laid p l (Fits l) s) (hProc : decode p s.1.regs.cip = .ok (.proc, 0))
    (hRet : decode p (s.1.regs.cip + Opcode.proc.width) = .ok (.ret, 0))
    (hHalt : decode p 0 = .ok (.halt, 0)) (hRoom : s.1.regs.hea + cellSize ≤ s.1.regs.stk)
    (hBelow : s.1.regs.stk < l.stp) (hZero : s.2.region.memory.cellAt s.1.regs.stk = 0)
    (fuel : Nat) :
    ∃ c w, run emb (fuel + 3) s.1 s.2 =
      some (if (Cell.toAddress? (Cell.ofAddress s.1.regs.frm)).isSome then .returned s.1.regs.pri
        else .faulted .memoryAccess, c, w) := by
  have hOp : operation? s = some .proc := operation?_of_decode (hLaid.program.symm ▸ hProc)
  have hOp' : operation? (afterProc s) = some .ret :=
    operation?_of_decode (hLaid.program.symm ▸ hRet)
  have hBegins : LeadsTo emb s (afterProc s) := ⟨0, step_afterProc hOp hRoom⟩
  obtain ⟨hFrameCell, hBackCell⟩ := hBegins.saved hOp hLaid ⟨rfl, rfl⟩
  have hTop : (afterProc s).1.regs.stk + cellSize < (afterProc s).1.layout.stp := by
    show s.1.regs.stk - cellSize + cellSize < s.1.layout.stp
    rw [hLaid.layout]
    omega
  rw [run_of_continues (step_afterProc hOp hRoom)]
  cases hFrame : Cell.toAddress? (Cell.ofAddress s.1.regs.frm) with
  | none =>
      rw [← hFrameCell] at hFrame
      exact ⟨_, _, run_of_pauses (step_of_badFrame hOp' hTop hFrame)⟩
  | some frm =>
      have hInside : 0 < p.codeSize := lt_codeSize_of_decode hHalt
      have hBack : (afterProc s).1.program.target? ((afterProc s).2.region.memory.cellAt
          ((afterProc s).1.regs.stk + cellSize)) = some 0 := by
        rw [hBackCell, hZero, show (afterProc s).1.program = p from hLaid.program]
        exact (target?_ofAddress rfl (Nat.zero_le _)).trans (if_pos hInside)
      rw [← hFrameCell] at hFrame
      have hReturns : step emb (exec emb (fuel + 1)) (afterProc s).1 (afterProc s).2 = _ :=
        step_of_ret hOp' hTop hFrame
      rw [hBack] at hReturns
      rw [run_of_continues (t := (_, _)) hReturns]
      have hLast : decode s.1.program 0 = .ok (.halt, 0) := hLaid.program.symm ▸ hHalt
      exact ⟨_, _, run_of_halt fuel ((effectAt_of_decode hLast).trans rfl)⟩

/-- What `main` comes to depends on whether the end of the block, kept in a cell, still denotes an
address. -/
theorem exec_of_mainReturns (emb : Embedder σ) {p : Program} {bytes entry : Nat}
    (hMain : p.MainReturns entry) {c : Context} {w : World σ}
    (hCreate : Context.create p bytes = .ok (c, w.region.memory)) (fuel : Nat) :
    ∃ c' w', exec emb (fuel + 3) .main c w =
      some (if (Cell.toAddress? (Cell.ofAddress (layoutOf p bytes).stp)).isSome then .success 0
        else .fatal .memoryAccess, c', w') := by
  have hFresh := create_fresh hCreate
  have hRoom := hFresh.room
  have hStk := hFresh.stk
  have hHea := hFresh.hea
  have hFrm : c.regs.frm = (layoutOf p bytes).stp := by rw [create_regs hCreate]
  have hPri : c.regs.pri = 0 := by rw [create_regs hCreate]
  have hLaid : Laid p (layoutOf p bytes) (Fits (layoutOf p bytes)) (c, w) :=
    hFresh.laid rfl hFresh.fits
  have hEnter : c.regs.hea + cellSize ≤ c.regs.stk := by omega
  have hStart := (start?_main (hFresh.program ▸ hMain.main) w).trans (enterAt?_of_room hEnter)
  have hEntered := start?_laid (fits_bound p (layoutOf p bytes)) hStart hLaid
  have hZero : (w.store ⟨c.regs.stk - cellSize, 0⟩).region.memory.cellAt
      (c.regs.stk - cellSize) = 0 :=
    cellAt_apply_top hLaid.block (Nat.le_of_add_left_le hEnter) hLaid.regs.high 0
  have hCell : cellSize = 4 := rfl
  obtain ⟨c', w', hRun⟩ := run_of_bareFrame emb hEntered hMain.proc hMain.ret hMain.halt
    (show c.regs.hea + cellSize ≤ c.regs.stk - cellSize by omega)
    (show c.regs.stk - cellSize < (layoutOf p bytes).stp by omega) hZero fuel
  have hExec := exec_of_run hStart hRun
  dsimp only at hExec
  rw [hFrm, hPri] at hExec
  by_cases hDenoted : (Cell.toAddress? (Cell.ofAddress (layoutOf p bytes).stp)).isSome = true
  · rw [if_pos hDenoted] at hExec ⊢
    exact ⟨_, _, hExec⟩
  · rw [if_neg hDenoted] at hExec ⊢
    exact ⟨_, _, hExec⟩

/-! ## Every size of the block -/

/-- The return in the second state gives back the frame pointer of the first if a cell can hold it,
and goes on with that one in no other case. -/
def GivesBack (emb : Embedder σ) (engine : Engine σ) (s t : Point σ) : Prop :=
  (s.1.regs.frm ≤ Cell.maxValue →
    step emb engine t.1 t.2 =
      some (returnTo t s.1.regs.frm (s.1.regs.stk + cellSize)
        (s.1.program.target? (s.2.region.memory.cellAt s.1.regs.stk)))) ∧
  (Cell.maxValue < s.1.regs.frm →
    ∀ c w, step emb engine t.1 t.2 = some (.continues c w) → c.regs.frm ≠ s.1.regs.frm)

/-- **The return that matches the start of a frame** gives the frame pointer back that was saved
exactly if a cell can hold it. -/
theorem ret_of_saved (hEmb : emb.UsesInterface) {p : Program} {bytes : Nat} {s t : Point σ}
    (hOccurs : Occurs emb p bytes s) (hProc : operation? s = some .proc)
    (hRoom : s.1.regs.hea + cellSize ≤ s.1.regs.stk)
    (hBelow : s.1.regs.stk < (layoutOf p bytes).stp) (hOccurs' : Occurs emb p bytes t)
    (hRet : operation? t = some .ret) (hStk : t.1.regs.stk = (afterProc s).1.regs.stk)
    (hSaved : SavedAlike (afterProc s).1.regs.stk (afterProc s).2.region.memory t.2.region.memory)
    (engine : Engine σ) : GivesBack emb engine s t := by
  have hLaid := hOccurs.laid hEmb
  have hLaid' := hOccurs'.laid hEmb
  have hBegins : LeadsTo emb s (afterProc s) := ⟨0, step_afterProc hProc hRoom⟩
  obtain ⟨hFrameCell, hBackCell⟩ := hBegins.saved hProc hLaid hSaved
  rw [← hStk] at hFrameCell hBackCell
  have hTop : t.1.regs.stk + cellSize < t.1.layout.stp := by
    rw [hStk, hLaid'.layout]
    show s.1.regs.stk - cellSize + cellSize < (layoutOf p bytes).stp
    omega
  refine ⟨fun hFits => ?_, fun hWide c w hStep hSame => ?_⟩
  · have hTaken : Cell.toAddress? (t.2.region.memory.cellAt t.1.regs.stk) = some s.1.regs.frm := by
      rw [hFrameCell]
      exact Cell.toAddress?_ofAddress hFits
    have hStk' : t.1.regs.stk + 2 * cellSize = s.1.regs.stk + cellSize := by
      rw [hStk]
      show s.1.regs.stk - cellSize + 2 * cellSize = s.1.regs.stk + cellSize
      omega
    rw [step_of_ret hRet hTop hTaken, hBackCell, hLaid'.program, hLaid.program, hStk']
  · cases hFrame : Cell.toAddress? (t.2.region.memory.cellAt t.1.regs.stk) with
    | none => cases (step_of_badFrame hRet hTop hFrame).symm.trans hStep
    | some frm =>
        have hBound := Cell.toAddress?_le hFrame
        have hReturns := (step_of_ret hRet hTop hFrame).symm.trans hStep
        generalize t.1.program.target? _ = target at hReturns
        cases target with
        | none => cases hReturns
        | some target =>
            cases hReturns
            dsimp only at hSame
            omega

/-- **Main theorem.** Whatever the size of the block, the frame pointer that the start of a frame
saves is given back by the matching return exactly if a cell can hold it, and the stack pointer that
is left in the alternate register is denoted by it exactly if a cell can hold that. In a block that
cells can address this is so in every state. A `main` that begins a frame and returns comes to a
success if the end of the block, kept in a cell, denotes an address, and to a fault otherwise. -/
theorem addresses_kept (hEmb : emb.UsesInterface) (p : Program) (bytes : Nat) :
    (∀ s : Point σ, Occurs emb p bytes s → operation? s = some .proc →
      s.1.regs.hea + cellSize ≤ s.1.regs.stk → LeadsTo emb s (afterProc s) ∧
      ∀ t engine, Occurs emb p bytes t → operation? t = some .ret →
        s.1.regs.stk < (layoutOf p bytes).stp → t.1.regs.stk = (afterProc s).1.regs.stk →
        SavedAlike (afterProc s).1.regs.stk (afterProc s).2.region.memory t.2.region.memory →
        GivesBack emb engine s t) ∧
    (∀ s t : Point σ, Occurs emb p bytes s → operation? s = some .stack → LeadsTo emb s t →
      (Cell.toAddress? t.1.regs.alt = some t.1.regs.stk ↔ t.1.regs.stk ≤ Cell.maxValue)) ∧
    ((layoutOf p bytes).stp ≤ Cell.maxValue → ∀ s : Point σ, Occurs emb p bytes s →
      s.1.regs.frm ≤ Cell.maxValue ∧ s.1.regs.stk ≤ Cell.maxValue) ∧
    (∀ entry c (w : World σ) fuel, p.MainReturns entry →
      Context.create p bytes = .ok (c, w.region.memory) →
      ∃ c' w', exec emb (fuel + 3) .main c w =
        some (if (Cell.toAddress? (Cell.ofAddress (layoutOf p bytes).stp)).isSome then .success 0
          else .fatal .memoryAccess, c', w')) := by
  refine ⟨?_, ?_, ?_, ?_⟩
  · intro s hOccurs hProc hRoom
    refine ⟨⟨0, step_afterProc hProc hRoom⟩, fun t engine hOccurs' hRet hBelow hStk hSaved => ?_⟩
    exact ret_of_saved hEmb hOccurs hProc hRoom hBelow hOccurs' hRet hStk hSaved engine
  · intro s t _ hStack hLeads
    rw [hLeads.moved hStack]
    exact Cell.toAddress?_ofAddress_iff
  · intro hBlock s hOccurs
    have hFrm := hOccurs.frm_le hEmb
    have hHigh := (hOccurs.laid hEmb).regs.high
    have hWhole : (layoutOf p bytes).stp % cellSize = 0 := Nat.mul_mod_left _ _
    rw [show cellSize = 4 from rfl] at hHigh hWhole
    have hMax : Cell.maxValue % 4 = 3 := rfl
    exact ⟨by omega, by omega⟩
  · intro entry c w fuel hMain hCreate
    exact exec_of_mainReturns emb hMain hCreate fuel

/-- A program whose `main` begins a frame and returns. -/
def bareFrame : Program where
  main := some 8
  code := #[Opcode.halt.toCell, 0, Opcode.proc.toCell, Opcode.ret.toCell]

theorem bareFrame_mainReturns : bareFrame.MainReturns 8 := ⟨rfl, rfl, rfl, rfl⟩

/-- In the smallest block whose end no cell can hold, the program fails. -/
theorem bareFrame_fails :
    ∃ c m, Context.create bareFrame 0x80000000 = .ok (c, m) ∧
      ∀ w : World Unit, w.region.memory = m →
        ∃ c' w', exec .plain 3 .main c w = some (.fatal .memoryAccess, c', w') := by
  obtain ⟨c, m, hCreate⟩ : ∃ c m, Context.create bareFrame 0x80000000 = .ok (c, m) := by
    unfold Context.create Context.create?
    dsimp only
    rw [if_neg (by decide), if_neg (by decide)]
    exact ⟨_, _, rfl⟩
  refine ⟨c, m, hCreate, fun w hMemory => ?_⟩
  obtain ⟨c', w', hExec⟩ :=
    exec_of_mainReturns .plain bareFrame_mainReturns (hMemory ▸ hCreate) 0
  rw [if_neg (by decide)] at hExec
  exact ⟨c', w', hExec⟩

/-- A program whose `main` moves its stack pointer to and fro before it returns. -/
def shifter : Program where
  main := some 8
  code :=
    #[Opcode.halt.toCell, 0, Opcode.proc.toCell, Opcode.stack.toCell, -4, Opcode.stack.toCell, 4,
      Opcode.ret.toCell]

/-- The program in a block of four cells after so many instructions, with some registers and what
its third cell holds. -/
def shifterAt (started : Nat) (regs : Registers) (saved : Cell) : Point Unit :=
  ({ program := shifter, natives := [], layout := ⟨0, 16⟩, regs, resetStk := 16, resetHea := 0 },
    { region := { memory := #[0, 0, saved, 0] }, clock := .steady, interrupts := { started },
      host := () })

/-- The state in which the program begins its frame. -/
def shifterEntered : Point Unit := shifterAt 0 { cip := 8, frm := 16, stk := 12, hea := 0 } 0

/-- The state in which the program has taken stack. -/
def shifterShifted : Point Unit :=
  shifterAt 2 { alt := 4, cip := 20, frm := 8, stk := 4, hea := 0 } 16

/-- The state in which the program returns. -/
def shifterReturning : Point Unit :=
  shifterAt 3 { alt := 8, cip := 28, frm := 8, stk := 8, hea := 0 } 16

/-- In a small block the frame pointer is given back, the stack pointer is denoted by its cell, and
the bare frame comes to a success. -/
theorem addresses_kept_shifter :
    (Embedder.plain : Embedder Unit).UsesInterface ∧
    step .plain (exec .plain 0) shifterReturning.1 shifterReturning.2 =
      some (returnTo shifterReturning 16 16 (some 0)) ∧
    Cell.toAddress? shifterShifted.1.regs.alt = some 4 ∧
    ∀ c (w : World Unit), Context.create bareFrame 16 = .ok (c, w.region.memory) →
      ∃ c' w', exec .plain 3 .main c w = some (.success 0, c', w') := by
  have hPlain : (Embedder.plain : Embedder Unit).UsesInterface := Embedder.plain_usesInterface
  obtain ⟨hFrames, hMoves, hSmall, -⟩ := addresses_kept hPlain shifter 16
  have hHeld : Occurs (.plain : Embedder Unit) shifter 16
      (shifterAt 0 { frm := 16, stk := 16, hea := 0 } 0) :=
    .held (.creates rfl rfl) (List.mem_singleton_self _)
  have hEntered : Occurs (.plain : Embedder Unit) shifter 16 shifterEntered :=
    .starts hHeld (show start? .main _ _ = some shifterEntered from rfl)
  obtain ⟨⟨n, hBegins⟩, hGivesBack⟩ := hFrames shifterEntered hEntered rfl (by decide)
  have hBegun : Occurs (.plain : Embedder Unit) shifter 16 (afterProc shifterEntered) :=
    .next hEntered hBegins
  have hLeads : LeadsTo .plain (afterProc shifterEntered) shifterShifted := ⟨0, rfl⟩
  have hShifted : Occurs (.plain : Embedder Unit) shifter 16 shifterShifted :=
    .next hBegun (show step .plain (exec .plain 0) _ _ =
      some (.continues shifterShifted.1 shifterShifted.2) from rfl)
  have hReturning : Occurs (.plain : Embedder Unit) shifter 16 shifterReturning :=
    .next hShifted (show step .plain (exec .plain 0) _ _ =
      some (.continues shifterReturning.1 shifterReturning.2) from rfl)
  obtain ⟨hBack, -⟩ := hGivesBack shifterReturning (exec .plain 0) hReturning rfl (by decide) rfl
    ⟨rfl, rfl⟩
  have hAlt := (hMoves _ _ hBegun rfl hLeads).mpr (hSmall (by decide) _ hShifted).2
  refine ⟨hPlain, hBack (by decide), hAlt, fun c w hCreate => ?_⟩
  obtain ⟨-, -, -, hMain⟩ := addresses_kept hPlain bareFrame 16
  exact hMain 8 c w 0 bareFrame_mainReturns hCreate

end CellHost
