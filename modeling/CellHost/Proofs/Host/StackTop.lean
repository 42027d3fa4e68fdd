import CellHost.Proofs.Host.Layout
import CellHost.Proofs.Machine.Awake

/-!
# How far the stack pointer goes

Popping a cell takes a stack pointer below the end of memory, and not a whole cell below it. A stack
pointer that was moved by an amount that is no multiple of a cell can therefore be popped past the
end of memory, by less than a cell, and the stack in use, counted from there, wraps. The heap has no
such gap.

This module says exactly when it happens: the stack pointer stays within memory in every state of
every history if and only if no pop goes past the end, and it does for every program that moves its
stack by whole cells.

## Main definitions

* `Starts` : the states in which an instruction starts.
* `PopsWhole` : every pop takes whole cells of the block.
* `MovesWhole` : a program moves its stack by whole cells.

## Main results

* `starts_layout` : the layout in every state in which an instruction starts.
-/

namespace CellHost

open Machine Instruction

variable {σ : Type}

/-- The states in which an instruction starts, over all executions of all contexts that a host comes
to hold, with the built-in callbacks only. -/
inductive Starts (p : Program) (bytes : Nat) : Point σ → Prop
  | enters {held : List Context} {c : Context} {w : World σ} {entry : EntryPoint} {s : Point σ} :
      Reaches .plain p bytes held w → c ∈ held → start? entry c w = some s → Starts p bytes s
  | next {fuel : Nat} {s : Point σ} {c : Context} {w : World σ} :
      Starts p bytes s → step .plain (exec .plain fuel) s.1 s.2 = some (.continues c w) →
      Starts p bytes (c, w)

/-- Every pop, and every pair of pops of a return, takes whole cells of the block. -/
def PopsWhole (σ : Type) (p : Program) (bytes : Nat) : Prop :=
  ∀ (s : Point σ) (op : Opcode) (operand : Cell) (fuel : Nat) (c : Context) (w : World σ),
    Starts p bytes s → decode p s.1.regs.cip = .ok (op, operand) → op.pops ≠ 0 →
    step .plain (exec .plain fuel) s.1 s.2 = some (.continues c w) →
    s.1.regs.stk + op.pops * cellSize ≤ (layoutOf p bytes).stp

/-- Wherever the code of a program moves the stack, it moves it by whole cells. -/
def MovesWhole (p : Program) : Prop :=
  ∀ address operand, decode p address = .ok (.stack, operand) →
    (cellSize : Int) ∣ operand.toInt

/-! ## Whole cells -/

/-- A program that moves its stack by whole cells keeps the stack pointer at cells. -/
theorem aligned_bound {p : Program} (l : Layout) (hMoves : MovesWhole p) :
    Bound p l fun stk _ => cellSize ∣ stk where
  effect := by
    intro m r r' h hAligned
    rw [show cellSize = 4 from rfl] at hAligned ⊢
    rcases shift_of_effect h with ⟨op, operand, store, hDecode, hShift⟩ | ⟨hStk, -⟩ |
      ⟨cells, -, hStk, -⟩
    · cases hShift with
      | stays hStk _ _ _ => omega
      | stores _ _ hStk _ _ => omega
      | pushes hRoom _ hStk _ _ =>
          rw [show cellSize = 4 from rfl] at hRoom hStk
          omega
      | pops cells _ _ hStk _ =>
          rw [show cellSize = 4 from rfl] at hStk
          omega
      | movesStack hOp hMoved _ _ _ =>
          subst hOp
          have hWhole : (4 : Int) ∣ operand.toInt := hMoves _ _ hDecode
          have hNew := displace?_eq_some hMoved
          omega
      | movesHeap _ _ _ _ hStk => omega
    · omega
    · rw [show cellSize = 4 from rfl] at hStk
      omega
  push := by
    intro stk hea hRoom hAligned
    exact Nat.dvd_sub hAligned (Nat.dvd_refl cellSize)

/-- A property that instructions maintain holds wherever an instruction starts. -/
theorem Starts.laid {p : Program} {bytes : Nat} {K : Nat → Nat → Prop}
    (hK : Bound p (layoutOf p bytes) K)
    (hInitial : Fits (layoutOf p bytes) (layoutOf p bytes).stp (layoutOf p bytes).hlw →
      K (layoutOf p bytes).stp (layoutOf p bytes).hlw)
    {s : Point σ} (h : Starts p bytes s) : Laid p (layoutOf p bytes) K s := by
  have hPlain : (Embedder.plain : Embedder σ).UsesInterface := Embedder.plain_usesInterface
  induction h with
  | enters hReaches hMem hStart =>
      exact start?_laid hK hStart (hReaches.laid hPlain hK hInitial _ hMem)
  | next _ hStep ih => exact step_laid hK hPlain (exec_laid hK hPlain _) hStep ih

theorem Starts.fits {p : Program} {bytes : Nat} {s : Point σ} (h : Starts p bytes s) :
    Laid p (layoutOf p bytes) (Fits (layoutOf p bytes)) s :=
  h.laid (fits_bound p _) id

/-- **A program that moves its stack by whole cells stays within memory.** -/
theorem stk_le_stp_of_movesWhole {p : Program} {bytes : Nat} (hMoves : MovesWhole p) {s : Point σ}
    (h : Starts p bytes s) : s.1.regs.stk ≤ (layoutOf p bytes).stp := by
  have hAligned : cellSize ∣ s.1.regs.stk :=
    (h.laid (aligned_bound _ hMoves) fun _ => Nat.dvd_mul_left _ _).regs
  have hHigh : s.1.regs.stk < bytes / cellSize * cellSize + cellSize := h.fits.regs.high
  show s.1.regs.stk ≤ bytes / cellSize * cellSize
  rw [show cellSize = 4 from rfl] at hAligned hHigh ⊢
  omega

/-! ## What a step does with built-in callbacks -/

theorem nativeAnswer_plain {engine : Engine σ} {native : Native} {c c' : Context} {w w' : World σ}
    {answer : Except MachineError Cell}
    (h : nativeAnswer .plain engine native c w = some (answer, c', w')) : c' = c := by
  unfold nativeAnswer at h
  split at h
  · cases h
    rfl
  · cases h
    rfl

/-- What a checkpoint leaves of a context: at most its hook is new. -/
theorem askHook_plain {c c' : Context} {w w' : World σ} {a : AbortState} {verdict : Checkpoint}
    (h : askHook .plain (withAbortHook c a) w = (verdict, c', w')) :
    c' = { c with hook := c'.hook } := by
  have hLeft : c' = withAbortHook c a := by
    unfold askHook at h
    split at h
    · cases h
      rfl
    · cases h
      rfl
    · cases h
      rfl
  rw [hLeft]
  unfold withAbortHook
  split <;> rfl

/-- A step does not touch the marks, nor whether the context is asleep. -/
theorem step_plain_marks {engine : Engine σ} {s : Point σ} {r : Progress σ}
    (h : step .plain engine s.1 s.2 = some r) :
    r.point.1.resetStk = s.1.resetStk ∧ r.point.1.sleeping = s.1.sleeping := by
  cases stepped_of_step h with
  | next _ => exact ⟨rfl, rfl⟩
  | halt _ => exact ⟨rfl, rfl⟩
  | sleep _ => exact ⟨rfl, rfl⟩
  | fault _ => exact ⟨rfl, rfl⟩
  | unbound _ _ => exact ⟨rfl, rfl⟩
  | @native _ _ _ answer _ _ _ _ hAnswer =>
      cases nativeAnswer_plain hAnswer
      cases answer <;> exact ⟨rfl, rfl⟩
  | proceed _ hAsk =>
      rw [askHook_plain hAsk]
      exact ⟨rfl, rfl⟩
  | abort _ hAsk =>
      rw [askHook_plain hAsk]
      exact ⟨rfl, rfl⟩

/-- Where a shift leaves the stack pointer: as many cells up as the operation pops, and within
memory otherwise. -/
theorem stk_of_shift {l : Layout} {r r' : Registers} {op : Opcode} {operand : Cell}
    {store : Option Store} (h : Shift l r op operand r' store) :
    (op.pops ≠ 0 → r'.stk = r.stk + op.pops * cellSize) ∧
    (op.pops = 0 → r.stk ≤ l.stp → r'.stk ≤ l.stp) := by
  cases h with
  | stays hStk _ _ hPops =>
      refine ⟨fun hSome => absurd hPops hSome, fun _ hTop => ?_⟩
      omega
  | stores hStores _ hStk _ _ =>
      have hPops : op.pops = 0 := by
        rcases hStores with rfl | rfl <;> rfl
      refine ⟨fun hSome => absurd hPops hSome, fun _ hTop => ?_⟩
      omega
  | pushes _ _ hStk _ hPops =>
      refine ⟨fun hSome => absurd hPops hSome, fun _ hTop => ?_⟩
      omega
  | pops cells hPops _ hStk _ =>
      rw [hPops]
      exact ⟨fun _ => hStk, fun hNone => by cases hNone⟩
  | movesStack hStack _ _ hTop _ =>
      rw [hStack]
      exact ⟨fun hSome => absurd rfl hSome, fun _ _ => hTop⟩
  | movesHeap hHeap _ _ _ hStk =>
      rw [hHeap]
      refine ⟨fun hSome => absurd rfl hSome, fun _ hTop => ?_⟩
      omega

/-- Where a step that goes on leaves the stack pointer: as many cells up as it pops, and within
memory otherwise. -/
theorem stk_of_continues {p : Program} {l : Layout} {K : Nat → Nat → Prop} {engine : Engine σ}
    {s : Point σ} {c : Context} {w : World σ} (hLaid : Laid p l K s)
    (h : step .plain engine s.1 s.2 = some (.continues c w)) :
    ∃ op operand, decode p s.1.regs.cip = .ok (op, operand) ∧
      (op.pops ≠ 0 → c.regs.stk = s.1.regs.stk + op.pops * cellSize) ∧
      (op.pops = 0 → s.1.regs.stk ≤ l.stp → c.regs.stk ≤ l.stp) := by
  generalize hProgress : Progress.continues c w = r at h
  have hDecode : ∀ e : Effect, effectAt s = e → (∀ error, e ≠ .fault error s.1.regs) →
      ∃ op operand, decode p s.1.regs.cip = .ok (op, operand) ∧
        effectOf p l s.2.beginInstruction.region.memory s.1.regs op operand = e := by
    intro e hEffect hFault
    unfold effectAt Context.effect at hEffect
    rw [hLaid.program, hLaid.layout] at hEffect
    exact decode_of_effect hEffect hFault
  cases stepped_of_step h with
  | @next regs store hEffect =>
      cases hProgress
      obtain ⟨op, operand, hOp, hOf⟩ := hDecode _ hEffect (fun _ h => by cases h)
      exact ⟨op, operand, hOp, stk_of_shift (effectOf_next hOf)⟩
  | @native regs index native answer c' w' hEffect _ hAnswer =>
      cases nativeAnswer_plain hAnswer
      obtain ⟨op, operand, hOp, hOf⟩ := hDecode _ hEffect (fun _ h => by cases h)
      obtain ⟨rfl, rfl, -⟩ := effectOf_native hOf
      cases answer with
      | ok value =>
          cases hProgress
          exact ⟨_, operand, hOp, fun hSome => absurd rfl hSome, fun _ hTop => hTop⟩
      | error e => cases hProgress
  | @proceed regs c' w' hEffect hAsk =>
      cases hProgress
      obtain ⟨op, operand, hOp, hOf⟩ := hDecode _ hEffect (fun _ h => by cases h)
      obtain ⟨rfl, rfl⟩ := effectOf_checkpoint hOf
      refine ⟨_, operand, hOp, fun hSome => absurd rfl hSome, fun _ hTop => ?_⟩
      rw [askHook_plain hAsk]
      exact hTop
  | halt _ => cases hProgress
  | sleep _ => cases hProgress
  | fault _ => cases hProgress
  | unbound _ _ => cases hProgress
  | abort _ _ => cases hProgress

/-! ## Histories without a pop past the end -/

section PopsWhole

variable {p : Program} {bytes : Nat} (hWhole : PopsWhole σ p bytes)
include hWhole

/-- One step of a program that pops whole cells. -/
theorem stk_le_stp_of_step {fuel : Nat} {s : Point σ} {c : Context} {w : World σ}
    (hStarts : Starts p bytes s) (hTop : s.1.regs.stk ≤ (layoutOf p bytes).stp)
    (h : step .plain (exec .plain fuel) s.1 s.2 = some (.continues c w)) :
    c.regs.stk ≤ (layoutOf p bytes).stp := by
  obtain ⟨op, operand, hDecode, hPops, hRest⟩ := stk_of_continues hStarts.fits h
  by_cases hNone : op.pops = 0
  · exact hRest hNone hTop
  · rw [hPops hNone]
    exact hWhole s op operand fuel c w hStarts hDecode hNone h

/-- A run of such a program suspends within memory, and leaves the marks and the flag alone. -/
theorem stk_le_stp_of_run {fuel : Nat} {s : Point σ} {r : Pause × Context × World σ}
    (hStarts : Starts p bytes s) (hTop : s.1.regs.stk ≤ (layoutOf p bytes).stp)
    (h : run .plain fuel s.1 s.2 = some r) :
    r.2.1.resetStk = s.1.resetStk ∧ r.2.1.sleeping = s.1.sleeping ∧
      ∀ d, r.1 = .slept d → r.2.1.regs.stk ≤ (layoutOf p bytes).stp := by
  induction fuel generalizing s with
  | zero => cases h
  | succ fuel ih =>
      simp only [run] at h
      cases hStep : step .plain (execWith (run .plain fuel)) s.1 s.2 with
      | none => rw [hStep] at h; cases h
      | some progress =>
          rw [hStep] at h
          obtain ⟨hMark, hFlag⟩ := step_plain_marks hStep
          cases progress with
          | continues c w =>
              have hNext := stk_le_stp_of_step hWhole hStarts hTop hStep
              obtain ⟨hMark', hFlag', hSlept⟩ := ih (hStarts.next hStep) hNext h
              exact ⟨hMark'.trans hMark, hFlag'.trans hFlag, hSlept⟩
          | pauses pause c w =>
              cases h
              refine ⟨hMark, hFlag, ?_⟩
              intro d hd
              dsimp only at hd
              subst hd
              obtain ⟨regs, hSleep⟩ := sleep_of_slept hStep
              cases (step_of_sleep hSleep).symm.trans hStep
              obtain ⟨op, operand, -, hOf⟩ :=
                decode_of_effect hSleep (fun _ h => by cases h)
              rw [(effectOf_sleep hOf).2]
              exact hTop

omit hWhole in
/-- An execution of a context that is within memory while it is parked starts within memory: a
context that failed may have been left past the end, but entering it pushes a cell. -/
theorem stk_le_stp_of_start {entry : EntryPoint} {c : Context} {w : World σ} {s : Point σ}
    (hFits : Fits (layoutOf p bytes) c.regs.stk c.regs.hea)
    (hParked : c.sleeping = true → c.regs.stk ≤ (layoutOf p bytes).stp)
    (h : start? entry c w = some s) : s.1.regs.stk ≤ (layoutOf p bytes).stp := by
  rcases start?_eq_some h with ⟨-, hAsleep, rfl⟩ | ⟨-, address, hAt⟩
  · exact hParked hAsleep
  · obtain ⟨hRoom, rfl⟩ := enterAt?_eq_some hAt
    obtain ⟨-, -, hHigh⟩ := hFits
    show c.regs.stk - cellSize ≤ (layoutOf p bytes).stp
    omega

/-- **An execution leaves a context within memory if it leaves it parked.** Either it suspended, or
it returned to where the context was parked before. -/
theorem parked_of_exec {fuel : Nat} {entry : EntryPoint} {c c' : Context} {w w' : World σ}
    {outcome : Outcome} (hHolds : Holds .plain p bytes (c, w))
    (hParked : c.sleeping = true → c.regs.stk ≤ (layoutOf p bytes).stp)
    (h : exec .plain fuel entry c w = some (outcome, c', w')) :
    c'.sleeping = true → c'.regs.stk ≤ (layoutOf p bytes).stp := by
  intro hAsleep
  obtain ⟨held, hReaches, hMem⟩ := hHolds
  unfold exec at h
  rw [execWith_eq] at h
  cases hStart : start? entry c w with
  | none =>
      rw [hStart] at h
      cases h
      rcases refusal_eq entry c with hSame | hMarked
      · rw [hSame] at hAsleep ⊢
        exact hParked hAsleep
      · rw [hMarked] at hAsleep
        cases hAsleep
  | some s =>
      rw [hStart] at h
      obtain ⟨⟨pause, c₁, w₁⟩, hRun, hSettle⟩ := Option.map_eq_some_iff.mp h
      cases hSettle
      have hLaid := hReaches.laid Embedder.plain_usesInterface (fits_bound p _) id c hMem
      have hStarts : Starts p bytes s := .enters hReaches hMem hStart
      have hTop := stk_le_stp_of_start hLaid.regs hParked hStart
      obtain ⟨hMark, hFlag, hSlept⟩ := stk_le_stp_of_run hWhole hStarts hTop hRun
      have hRunning : c₁.sleeping = false := hFlag.trans (start?_awake hStart)
      cases pause with
      | slept d => exact hSlept d rfl
      | faulted e =>
          have hFailed : c₁.sleeping = true := hAsleep
          rw [hRunning] at hFailed
          cases hFailed
      | returned value =>
          rcases start?_eq_some hStart with ⟨rfl, -, -⟩ | ⟨hEntry, address, hAt⟩
          · have hReturned : c₁.sleeping = true := hAsleep
            rw [hRunning] at hReturned
            cases hReturned
          · obtain ⟨-, rfl⟩ := enterAt?_eq_some hAt
            have hBack : c₁.resetStk = c.regs.stk := hMark
            rw [place_of_ne_resume hEntry] at hAsleep ⊢
            show c₁.resetStk ≤ _
            rw [hBack]
            exact hParked hAsleep

/-- Every parked context that a host comes to hold is within memory. The induction is on what the
host does; an execution is made on a context that is held at that moment. -/
theorem parked_of_acts {fuel : Nat} {s t : Point σ} (h : Acts (exec .plain fuel) s t)
    (hHolds : Holds .plain p bytes s)
    (hParked : s.1.sleeping = true → s.1.regs.stk ≤ (layoutOf p bytes).stp) :
    t.1.sleeping = true → t.1.regs.stk ≤ (layoutOf p bytes).stp := by
  induction h with
  | rests s => exact hParked
  | follows hFirst _ ih ih' => exact ih' (hHolds.acts hFirst) (ih hHolds hParked)
  | assigns c w pri alt => exact hParked
  | equips c w natives registry hook => exact hParked
  | writes _ => exact hParked
  | elsewhere _ => exact hParked
  | executes hExec => exact parked_of_exec hWhole hHolds hParked hExec
  | aside _ _ => exact hParked

theorem parked_of_reaches {held : List Context} {w : World σ}
    (h : Reaches .plain p bytes held w) :
    ∀ c ∈ held, c.sleeping = true → c.regs.stk ≤ (layoutOf p bytes).stp := by
  induction h with
  | creates hCreate _ =>
      intro c hc hAsleep
      rw [List.mem_singleton.mp hc] at hAsleep
      rw [(create_fresh hCreate).awake] at hAsleep
      cases hAsleep
  | snapshots _ hMem ih =>
      intro c hc
      rcases List.mem_cons.mp hc with rfl | hc
      · exact ih _ hMem
      · exact ih c hc
  | @acts held w w' i fuel c₀ c₁ hReaches hAt hActs ih =>
      have hMem := List.mem_of_getElem? hAt
      intro c hc
      rcases List.mem_or_eq_of_mem_set hc with hc | rfl
      · exact ih c hc
      · exact parked_of_acts hWhole hActs ⟨held, hReaches, hMem⟩ (ih c₀ hMem)

/-- **Wherever an instruction starts, the stack pointer is within memory**, if every pop takes whole
cells. -/
theorem stk_le_stp_of_popsWhole {s : Point σ} (h : Starts p bytes s) :
    s.1.regs.stk ≤ (layoutOf p bytes).stp := by
  induction h with
  | enters hReaches hMem hStart =>
      have hLaid := hReaches.laid Embedder.plain_usesInterface (fits_bound p _) id _ hMem
      exact stk_le_stp_of_start hLaid.regs (parked_of_reaches hWhole hReaches _ hMem) hStart
  | next hStarts hStep ih => exact stk_le_stp_of_step hWhole hStarts ih hStep

end PopsWhole

/-- Going past the end is the only way in which a pop can fail to take whole cells. -/
theorem popsWhole_of_stk_le_stp {p : Program} {bytes : Nat}
    (hTop : ∀ s : Point σ, Starts p bytes s → s.1.regs.stk ≤ (layoutOf p bytes).stp) :
    PopsWhole σ p bytes := by
  intro s op operand fuel c w hStarts hDecode hSome hStep
  obtain ⟨op', operand', hDecode', hPops, -⟩ := stk_of_continues hStarts.fits hStep
  cases hDecode.symm.trans hDecode'
  rw [← hPops hSome]
  exact hTop (c, w) (hStarts.next hStep)

/-- **Main theorem.** In every state in which an instruction starts the heap is where it should be,
and the stack pointer is less than a cell past the end of memory. The stack in use is what lies
between the stack pointer and the end of memory exactly if the stack pointer is not past the end;
that holds in every such state exactly if every pop takes whole cells, and it does for every program
that moves its stack by whole cells. -/
theorem starts_layout (p : Program) (bytes : Nat) :
    (∀ s : Point σ, Starts p bytes s →
      s.1.layout = layoutOf p bytes ∧
      s.1.layout.hlw ≤ s.1.regs.hea ∧ s.1.regs.hea ≤ s.1.regs.stk ∧
      s.1.regs.stk < s.1.layout.stp + cellSize ∧
      s.1.layout.hlw + s.1.heapUsage = s.1.regs.hea ∧
      (s.1.regs.stk + s.1.stackUsage = s.1.layout.stp ↔ s.1.regs.stk ≤ s.1.layout.stp)) ∧
    ((∀ s : Point σ, Starts p bytes s → s.1.regs.stk ≤ s.1.layout.stp) ↔ PopsWhole σ p bytes) ∧
    (MovesWhole p → ∀ s : Point σ, Starts p bytes s → s.1.regs.stk ≤ s.1.layout.stp) := by
  have hLayout : ∀ s : Point σ, Starts p bytes s → s.1.layout = layoutOf p bytes :=
    fun s h => h.fits.layout
  refine ⟨?_, ⟨?_, ?_⟩, ?_⟩
  · intro s h
    obtain ⟨hLow, hOrder, hHigh⟩ := h.fits.regs
    rw [hLayout s h]
    refine ⟨rfl, hLow, hOrder, hHigh, ?_, ?_⟩
    · unfold Context.heapUsage Registers.heapUsage
      rw [hLayout s h]
      omega
    · unfold Context.stackUsage Registers.stackUsage
      rw [hLayout s h]
      split <;> omega
  · intro hTop
    refine popsWhole_of_stk_le_stp fun s h => ?_
    have hBelow := hTop s h
    rw [hLayout s h] at hBelow
    exact hBelow
  · intro hWhole s h
    rw [hLayout s h]
    exact stk_le_stp_of_popsWhole hWhole h
  · intro hMoves s h
    rw [hLayout s h]
    exact stk_le_stp_of_movesWhole hMoves h

/-- A program that moves its stack three bytes up, pops, and stops at a checkpoint. -/
def overPopping : Program where
  main := some 8
  code :=
    #[Opcode.halt.toCell, 0, Opcode.stack.toCell, 3, Opcode.popPri.toCell, Opcode.brk.toCell]

/-- The program in a block of six cells. -/
def overPoppingAtRest : Context where
  program := overPopping
  natives := []
  layout := ⟨0, 24⟩
  regs := { frm := 24, stk := 24, hea := 0 }
  resetStk := 24
  resetHea := 0

/-- The world of the program. -/
def overPoppingWorld : World Unit where
  region := { memory := Array.replicate 6 0 }
  clock := .steady
  host := ()

/-- The state in which the checkpoint of the program starts, after the pop. -/
def overPoppingAtCheckpoint : Point Unit :=
  ({ overPoppingAtRest with
      regs := { pri := 0, alt := 23, cip := 20, frm := 24, stk := 27, hea := 0 } },
    { overPoppingWorld with interrupts := { started := 2 } })

theorem overPoppingAtCheckpoint_starts : Starts overPopping 24 overPoppingAtCheckpoint := by
  have hHeld : Reaches (.plain : Embedder Unit) overPopping 24 [overPoppingAtRest]
      overPoppingWorld := .creates rfl rfl
  have hEnters : Starts overPopping 24 _ :=
    .enters hHeld (List.mem_singleton_self _) (show start? .main _ _ = some _ from rfl)
  have hMoved := Starts.next hEnters
    (show step .plain (exec .plain 0) _ _ = some (.continues _ _) from rfl)
  exact Starts.next hMoved
    (show step .plain (exec .plain 0) _ _ = some (.continues _ _) from rfl)

/-- The checkpoint starts with the stack pointer past the end of memory, and finds all but three
bytes of a count of 64 bits in use. -/
theorem overPopping_starts_past_stp :
    Starts overPopping 24 overPoppingAtCheckpoint ∧
    overPoppingAtCheckpoint.1.layout.stp < overPoppingAtCheckpoint.1.regs.stk ∧
    (∃ regs, effectAt overPoppingAtCheckpoint = .checkpoint regs) ∧
    overPoppingAtCheckpoint.1.stackUsage = 0x10000000000000000 - 3 :=
  ⟨overPoppingAtCheckpoint_starts, by decide, ⟨_, rfl⟩, by decide⟩

/-- The layout in that state, and what follows: one of the pops of the program goes past the end. -/
theorem starts_layout_overPopping :
    overPoppingAtCheckpoint.1.regs.stk < overPoppingAtCheckpoint.1.layout.stp + cellSize ∧
    ¬ PopsWhole Unit overPopping 24 := by
  obtain ⟨hStates, hWhole, -⟩ := starts_layout (σ := Unit) overPopping 24
  constructor
  · obtain ⟨-, -, -, hHigh, -⟩ := hStates _ overPoppingAtCheckpoint_starts
    exact hHigh
  · intro hPops
    have hTop := hWhole.mpr hPops _ overPoppingAtCheckpoint_starts
    exact absurd hTop (by decide)

end CellHost
