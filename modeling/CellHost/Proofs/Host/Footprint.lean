import CellHost.Proofs.Host.Layout
import CellHost.Proofs.Machine.Execution

/-!
# What a run overwrites

A snapshot of a parked context shares memory with it, and is meant to use the stack below the parked
frames and the heap above the parked allocations. Nothing enforces this. A run that stores nothing
at addresses of its own choice and calls no natives writes by pushing alone, and a push goes to the
stack pointer, wherever that has been taken: popping, returning and moving the stack are bounded by
the end of memory, and moving the heap by the end of the data, both of which are the bounds of the
parked context too.

What such a run overwrites is therefore read off its pointers. The initialised data is safe in every
case. What was parked is safe while the run keeps its pointers inside the gap that the parked
context left, and the only instructions that take them out of it are the ones that give memory back.

## Main definitions

* `Quiet` : the instruction writes at most to the stack.
* `Parks` : a cell belongs to what a context has parked.
* `Within` : the pointers are inside the gap that a context left.

## Main results

* `moved_of_step` : what a quiet instruction can do to memory and the two pointers.
* `exec_footprint` : what an execution of quiet instructions overwrites.
-/

namespace CellHost

variable {σ : Type}

/-- Hooks look at memory and do not write to it. -/
def Embedder.HooksLook (emb : Embedder σ) : Prop :=
  ∀ id c w v c' w', emb.hook id c w = (v, c', w') → w'.region.memory = w.region.memory

theorem Embedder.plain_hooksLook : (Embedder.plain : Embedder σ).HooksLook := by
  intro id c w v c' w' h
  cases h
  rfl

/-- An operation that can give stack or heap back. -/
def Opcode.Releases (op : Opcode) : Prop := op.pops ≠ 0 ∨ op = .stack ∨ op = .heap

/-- A cell belongs to what a context has parked: to its stack, or to its data and heap. -/
def Context.Parks (c : Context) (i : Nat) : Prop :=
  c.regs.stk / cellSize ≤ i ∨ (i + 1) * cellSize ≤ c.regs.hea

/-- A cell is the one that a push writes. -/
def Registers.Pushes (r : Registers) (i : Nat) : Prop :=
  r.hea + cellSize ≤ r.stk ∧ (r.stk - cellSize) / cellSize = i

namespace Machine

open Instruction

variable {emb : Embedder σ}

/-- The instruction that starts in a state is none of those that store at an address of the
program's choice, and no native call. -/
def Quiet (s : Point σ) : Prop :=
  operation? s ≠ some .storPri ∧ operation? s ≠ some .storSPri ∧ operation? s ≠ some .sysreq

/-- The pointers of a state are inside the gap between the heap and the stack of a context. -/
def Within (c : Context) (s : Point σ) : Prop :=
  c.regs.hea ≤ s.1.regs.hea ∧ s.1.regs.stk ≤ c.regs.stk

/-- The instruction that starts in a state pushes onto a cell. -/
def PushesOnto (s : Point σ) (i : Nat) : Prop :=
  s.1.regs.Pushes i ∧
    ∃ regs value, effectAt s = .next regs (some ⟨s.1.regs.stk - cellSize, value⟩)

/-- What a quiet instruction can do to memory and the two pointers. -/
inductive Moved (s : Point σ) : Point σ → Prop
  | rests {t : Point σ} :
      t.2.region.memory = s.2.region.memory → t.1.regs.stk = s.1.regs.stk →
      t.1.regs.hea = s.1.regs.hea → Moved s t
  | pushes {t : Point σ} {value : Cell} :
      PushesOnto s ((s.1.regs.stk - cellSize) / cellSize) →
      t.2.region.memory = s.2.region.memory.apply ⟨s.1.regs.stk - cellSize, value⟩ →
      t.1.regs.stk = s.1.regs.stk - cellSize → t.1.regs.hea = s.1.regs.hea → Moved s t
  | shifts {t : Point σ} {op : Opcode} :
      operation? s = some op → op.Releases →
      t.2.region.memory = s.2.region.memory → Moved s t

/-! ## Steps -/

/-- The pointers of a context are nothing that its interface can change. -/
theorem pointers_stable (stk hea : Nat) :
    Stable (fun s : Point σ => s.1.regs.stk = stk ∧ s.1.regs.hea = hea) where
  assigns := fun _ _ _ _ h => h
  equips := fun _ _ _ _ _ h => h
  world := fun _ _ _ _ h => h
  aside := fun _ _ _ _ h _ => h

/-- A checkpoint leaves the pointers alone: a hook has no engine, so nothing that it can do reaches
them. -/
theorem askHook_pointers (hEmb : emb.UsesInterface) {c c' : Context} {w w' : World σ}
    {a : AbortState} {verdict : Checkpoint}
    (h : askHook emb (withAbortHook c a) w = (verdict, c', w')) :
    c'.regs.stk = c.regs.stk ∧ c'.regs.hea = c.regs.hea :=
  askHook_keeps hEmb (pointers_stable c.regs.stk c.regs.hea) h ⟨rfl, rfl⟩

/-- A checkpoint leaves memory and the pointers alone. -/
theorem askHook_rests (hEmb : emb.UsesInterface) (hLook : emb.HooksLook) {c c' : Context}
    {w w' : World σ} {a : AbortState} {verdict : Checkpoint}
    (h : askHook emb (withAbortHook c a) w = (verdict, c', w')) :
    w'.region.memory = w.region.memory ∧ c'.regs.stk = c.regs.stk ∧ c'.regs.hea = c.regs.hea := by
  refine ⟨?_, askHook_pointers hEmb h⟩
  unfold askHook at h
  split at h
  · cases h
    rfl
  · cases h
    exact (monitor_spares _ w).memory
  · exact hLook _ _ _ _ _ _ h

/-- An instruction that completes and stores nothing of its own choice moves as listed. -/
theorem moved_of_next {s : Point σ} {regs : Registers} {store : Option Store} (hQuiet : Quiet s)
    (h : effectAt s = .next regs store) :
    Moved s ({ s.1 with regs }, s.2.beginInstruction.storeIf store) := by
  obtain ⟨op, operand, hOp, hOf⟩ := operation?_of_effect h (fun _ h => by cases h)
  have hBegin := beginInstruction_memory s.2
  obtain ⟨hStorPri, hStorSPri, -⟩ := hQuiet
  cases effectOf_next hOf with
  | stays hStk hHea _ _ => exact .rests hBegin hStk hHea
  | stores hStores _ _ _ _ =>
      rcases hStores with rfl | rfl
      · exact absurd hOp hStorPri
      · exact absurd hOp hStorSPri
  | @pushes cell hRoom hAddress hStk hHea _ =>
      obtain ⟨address, value⟩ := cell
      have hAddress : address = s.1.regs.stk - cellSize := hAddress
      subst hAddress
      have hMemory : s.2.beginInstruction.region.memory.apply ⟨s.1.regs.stk - cellSize, value⟩ =
          s.2.region.memory.apply ⟨s.1.regs.stk - cellSize, value⟩ := by rw [hBegin]
      exact .pushes ⟨⟨hRoom, rfl⟩, regs, value, h⟩ hMemory hStk hHea
  | pops cells hPops _ _ _ =>
      have hReleases : op.Releases := .inl (by rw [hPops]; exact Nat.succ_ne_zero cells)
      exact .shifts hOp hReleases hBegin
  | movesStack hStack _ _ _ _ => exact .shifts hOp (.inr (.inl hStack)) hBegin
  | movesHeap hHeap _ _ _ _ => exact .shifts hOp (.inr (.inr hHeap)) hBegin

/-- An instruction that faults leaves memory alone, and the pointers unless it returns. -/
theorem moved_of_fault {s : Point σ} {e : MachineError} {regs : Registers}
    (h : effectAt s = .fault e regs) :
    Moved s ({ s.1 with regs }, s.2.beginInstruction) := by
  have hBegin := beginInstruction_memory s.2
  rcases Instruction.effect_fault h with ⟨hSame, -⟩ | ⟨operand, hDecode, -⟩
  · subst hSame
    exact .rests hBegin rfl rfl
  · -- the only registers that a fault changes are those of a return that popped before it failed
    exact .shifts (operation?_of_decode hDecode) (.inl (by decide)) hBegin

/-- **A quiet instruction leaves memory alone, or pushes**, and only the operations that give memory
back take the pointers the other way. -/
theorem moved_of_step (hEmb : emb.UsesInterface) (hLook : emb.HooksLook) {engine : Engine σ}
    {s : Point σ} {p : Progress σ} (hQuiet : Quiet s)
    (h : step emb engine s.1 s.2 = some p) : Moved s p.point := by
  have hBegin := beginInstruction_memory s.2
  have hNoNative : ∀ regs index, effectAt s ≠ .native regs index := by
    intro regs index hEffect
    exact hQuiet.2.2 (sysreq_of_native hEffect).1
  have hAsked : ∀ {regs : Registers} {verdict : Checkpoint} {c : Context} {w : World σ},
      effectAt s = .checkpoint regs →
      askHook emb (withAbortHook { s.1 with regs } s.2.beginInstruction.region.abort)
        s.2.beginInstruction = (verdict, c, w) →
      w.region.memory = s.2.region.memory ∧ c.regs.stk = s.1.regs.stk ∧
        c.regs.hea = s.1.regs.hea := by
    intro regs verdict c w hEffect hAsk
    obtain ⟨-, rfl⟩ := brk_of_checkpoint hEffect
    obtain ⟨hMemory, hStk, hHea⟩ := askHook_rests hEmb hLook hAsk
    exact ⟨hMemory.trans hBegin, hStk, hHea⟩
  cases stepped_of_step h with
  | next hEffect => exact moved_of_next hQuiet hEffect
  | halt _ => exact .rests hBegin rfl rfl
  | sleep hEffect =>
      obtain ⟨op, operand, -, hOf⟩ := operation?_of_effect hEffect (fun _ h => by cases h)
      obtain ⟨-, rfl⟩ := effectOf_sleep hOf
      exact .rests hBegin rfl rfl
  | fault hEffect => exact moved_of_fault hEffect
  | unbound hEffect _ => exact absurd hEffect (hNoNative _ _)
  | native hEffect _ _ => exact absurd hEffect (hNoNative _ _)
  | proceed hEffect hAsk =>
      obtain ⟨hMemory, hStk, hHea⟩ := hAsked hEffect hAsk
      exact .rests hMemory hStk hHea
  | abort hEffect hAsk =>
      obtain ⟨hMemory, hStk, hHea⟩ := hAsked hEffect hAsk
      exact .rests hMemory hStk hHea

/-! ## Runs -/

theorem apply_getElem? {m : Memory} {s : Store} {i : Nat} (h : s.address / cellSize ≠ i) :
    (m.apply s)[i]? = m[i]? := Array.getElem?_setIfInBounds_ne h

theorem cellAt_apply_of_ne {m : Memory} {s : Store} {address : Nat}
    (h : s.address / cellSize ≠ address / cellSize) :
    (m.apply s).cellAt address = m.cellAt address := by
  unfold Memory.cellAt
  rw [Array.getD_eq_getD_getElem?, apply_getElem? h, Array.getD_eq_getD_getElem?]

/-- Storing a cell below an address leaves the cell at the address alone. -/
theorem cellAt_apply_below {m : Memory} {top address : Nat} {value : Cell}
    (hCell : cellSize ≤ top) (hAbove : top ≤ address) :
    (m.apply ⟨top - cellSize, value⟩).cellAt address = m.cellAt address := by
  refine cellAt_apply_of_ne ?_
  rw [show cellSize = 4 from rfl] at hCell ⊢
  dsimp only
  omega

theorem cellAt_apply_self {m : Memory} {s : Store} (h : s.address / cellSize < m.size) :
    (m.apply s).cellAt s.address = s.value := by
  unfold Memory.cellAt Memory.apply
  rw [Array.getD_eq_getD_getElem?, Array.getElem?_setIfInBounds_self_of_lt h]
  rfl

/-- A cell that is pushed into the block is found on top of the stack. -/
theorem cellAt_apply_top {m : Memory} {l : Layout} (hBlock : m.size * cellSize = l.stp) {top : Nat}
    (hCell : cellSize ≤ top) (hTop : top < l.stp + cellSize) (value : Cell) :
    (m.apply ⟨top - cellSize, value⟩).cellAt (top - cellSize) = value := by
  have hBelow : top - cellSize < l.stp := by omega
  exact cellAt_apply_self (s := ⟨top - cellSize, value⟩) (div_cellSize_lt hBlock hBelow)

/-- A cell keeps what it holds unless it is pushed onto. -/
theorem Moved.cell {s t : Point σ} (h : Moved s t) (i : Nat) :
    t.2.region.memory[i]? = s.2.region.memory[i]? ∨ PushesOnto s i := by
  cases h with
  | rests hMemory _ _ => exact .inl (by rw [hMemory])
  | shifts _ _ hMemory => exact .inl (by rw [hMemory])
  | pushes hOnto hMemory _ _ =>
      by_cases hCell : (s.1.regs.stk - cellSize) / cellSize = i
      · exact .inr (hCell ▸ hOnto)
      · left
        rw [hMemory]
        exact apply_getElem? hCell

/-- Pointers inside a gap stay inside it, unless memory is given back. -/
theorem Moved.within {c : Context} {s t : Point σ} (h : Moved s t) (hs : Within c s) :
    Within c t ∨ ∃ op, operation? s = some op ∧ op.Releases := by
  obtain ⟨hHeap, hStack⟩ := hs
  cases h with
  | rests _ hStk hHea => exact .inl ⟨hHea ▸ hHeap, hStk ▸ hStack⟩
  | pushes _ _ hStk hHea =>
      have hBelow : t.1.regs.stk ≤ c.regs.stk := by omega
      exact .inl ⟨hHea ▸ hHeap, hBelow⟩
  | shifts hOp hReleases _ => exact .inr ⟨_, hOp, hReleases⟩

/-- Over a quiet run, a cell keeps what it holds unless it is pushed onto. -/
theorem Trail.cell (hEmb : emb.UsesInterface) (hLook : emb.HooksLook) {s : Point σ}
    {seen : List (Point σ)} {r : Pause × Context × World σ} (h : Trail (stepper emb) s seen r)
    (hQuiet : ∀ t ∈ seen, Quiet t) (i : Nat) :
    r.2.2.region.memory[i]? = s.2.region.memory[i]? ∨ ∃ t ∈ seen, PushesOnto t i := by
  induction h with
  | @pause s pause c w hStep =>
      obtain ⟨fuel, hStep⟩ := hStep
      have hMoved := moved_of_step hEmb hLook (hQuiet s (List.mem_singleton_self s)) hStep
      rcases hMoved.cell i with hSame | hOnto
      · exact .inl hSame
      · exact .inr ⟨s, List.mem_singleton_self s, hOnto⟩
  | @next s c w seen r hStep _ ih =>
      obtain ⟨fuel, hStep⟩ := hStep
      have hMoved := moved_of_step hEmb hLook (hQuiet s List.mem_cons_self) hStep
      rcases hMoved.cell i with hSame | hOnto
      · rcases ih fun t ht => hQuiet t (List.mem_cons_of_mem s ht) with hRest | ⟨t, ht, hOnto⟩
        · exact .inl (hRest.trans hSame)
        · exact .inr ⟨t, List.mem_cons_of_mem s ht, hOnto⟩
      · exact .inr ⟨s, List.mem_cons_self, hOnto⟩

/-- **A quiet run leaves a gap only where it gives memory back.** The invariant is that the pointers
are inside the gap as long as no such operation has been executed. -/
theorem Trail.within (hEmb : emb.UsesInterface) (hLook : emb.HooksLook) {c : Context}
    {s : Point σ} {seen : List (Point σ)} {r : Pause × Context × World σ}
    (h : Trail (stepper emb) s seen r) (hQuiet : ∀ t ∈ seen, Quiet t) (hs : Within c s) :
    ∀ t ∈ seen, Within c t ∨
      ∃ u ∈ seen, Within c u ∧ ∃ op, operation? u = some op ∧ op.Releases := by
  induction h with
  | pause _ => exact fun t ht => .inl (List.mem_singleton.mp ht ▸ hs)
  | @next s c₁ w seen r hStep _ ih =>
      obtain ⟨fuel, hStep⟩ := hStep
      have hMoved := moved_of_step hEmb hLook (hQuiet s List.mem_cons_self) hStep
      intro t ht
      rcases List.mem_cons.mp ht with rfl | ht
      · exact .inl hs
      rcases hMoved.within hs with hNext | hReleases
      · rcases ih (fun t ht => hQuiet t (List.mem_cons_of_mem s ht)) hNext t ht with hIn |
          ⟨u, hu, hOut⟩
        · exact .inl hIn
        · exact .inr ⟨u, List.mem_cons_of_mem s hu, hOut⟩
      · exact .inr ⟨s, List.mem_cons_self, hs, hReleases⟩

/-! ## What a push can reach -/

/-- A push from inside a gap does not reach what is parked around it. -/
theorem not_parks_of_pushes {c : Context} {s : Point σ} {i : Nat} (hs : Within c s)
    (hPush : s.1.regs.Pushes i) : ¬ c.Parks i := by
  obtain ⟨hRoom, rfl⟩ := hPush
  obtain ⟨hHeap, hStack⟩ := hs
  -- the pointers need not be addresses of cells, so cells are compared and not addresses
  unfold Context.Parks
  rw [show cellSize = 4 from rfl] at hRoom ⊢
  omega

/-- A push does not reach the data below pointers that fit. -/
theorem hlw_le_of_pushes {l : Layout} {r : Registers} {cells i : Nat}
    (hFits : Fits l r.stk r.hea) (hData : l.hlw = cells * cellSize) (hPush : r.Pushes i) :
    l.hlw ≤ i * cellSize := by
  obtain ⟨hRoom, rfl⟩ := hPush
  obtain ⟨hLow, -, -⟩ := hFits
  rw [show cellSize = 4 from rfl] at hRoom hData ⊢
  omega

/-- Entering a context pushes a return address, and starts inside its gap. -/
theorem start?_footprint {entry : EntryPoint} {c : Context} {w : World σ} {s : Point σ}
    (h : start? entry c w = some s) (hEntry : entry ≠ .resume) :
    Within c s ∧ ∀ i, s.2.region.memory[i]? = w.region.memory[i]? ∨ c.regs.Pushes i := by
  rcases start?_eq_some h with ⟨hResume, -⟩ | ⟨-, address, hAt⟩
  · exact absurd hResume hEntry
  · obtain ⟨hRoom, rfl⟩ := enterAt?_eq_some hAt
    refine ⟨⟨Nat.le_refl _, Nat.sub_le _ _⟩, fun i => ?_⟩
    by_cases hCell : (c.regs.stk - cellSize) / cellSize = i
    · exact .inr ⟨hRoom, hCell⟩
    · exact .inl (apply_getElem? hCell)

/-! ## Executions -/

/-- **Main theorem.** An entry that is executed on a snapshot, and whose instructions neither store
at addresses of their own choice nor call natives, leaves the initialised data as it was. What was
parked changes only where a push goes outside the gap that the parked context left; and the pointers
leave that gap only by an instruction that gives memory back. -/
theorem exec_footprint (hEmb : emb.UsesInterface) (hLook : emb.HooksLook) {p : Program}
    {bytes fuel : Nat} {entry : EntryPoint} {c c' : Context} {w w' : World σ} {outcome : Outcome}
    (hHolds : Holds emb p bytes (c, w)) (hEntry : entry ≠ .resume)
    (h : exec emb fuel entry c.snapshot w = some (outcome, c', w'))
    (hQuiet : ∀ t ∈ states (stepper emb) fuel entry c.snapshot w, Quiet t) :
    (∀ i, i * cellSize < p.dataSize → w'.region.memory[i]? = w.region.memory[i]?) ∧
    (∀ i, c.Parks i → w'.region.memory[i]? ≠ w.region.memory[i]? →
      ∃ t ∈ states (stepper emb) fuel entry c.snapshot w, PushesOnto t i ∧ ¬ Within c t) ∧
    (∀ t ∈ states (stepper emb) fuel entry c.snapshot w, ¬ Within c t →
      ∃ u ∈ states (stepper emb) fuel entry c.snapshot w, Within c u ∧
        ∃ op, operation? u = some op ∧ op.Releases) := by
  obtain ⟨held, hReaches, hMem⟩ := hHolds
  have hK := fits_bound p (layoutOf p bytes)
  have hLaid : Laid p (layoutOf p bytes) (Fits (layoutOf p bytes)) (c, w) :=
    hReaches.laid hEmb hK id c hMem
  have hExecuted := executed_of_exec h
  generalize states (stepper emb) fuel entry c.snapshot w = seen at hExecuted hQuiet ⊢
  generalize hx : (outcome, c', w') = x at hExecuted
  cases hExecuted with
  | refused _ =>
      cases hx
      refine ⟨fun _ _ => rfl, fun _ _ hChanged => absurd rfl hChanged, ?_⟩
      exact fun t ht => absurd ht List.not_mem_nil
  | @ran s seen pause c₁ w₁ hStart hTrail =>
      cases hx
      obtain ⟨hFirst, hEntered⟩ := start?_footprint hStart hEntry
      have hCell := hTrail.cell hEmb hLook hQuiet
      have hFits : ∀ t ∈ seen, Laid p (layoutOf p bytes) (Fits (layoutOf p bytes)) t :=
        (hTrail.keeps (fun t q ⟨n, hStep⟩ ht => step_laid hK hEmb (exec_laid hK hEmb n) hStep ht)
          (start?_laid hK hStart hLaid)).1
      refine ⟨?_, ?_, ?_⟩
      · -- the data: no pointers that fit push there
        intro i hi
        have hData : (layoutOf p bytes).hlw = p.data.size * cellSize := rfl
        have hNoPush : ∀ r : Registers, Fits (layoutOf p bytes) r.stk r.hea → ¬ r.Pushes i := by
          intro r hFits hPush
          have hAbove : p.dataSize ≤ i * cellSize := hlw_le_of_pushes hFits hData hPush
          omega
        rcases hCell i with hSame | ⟨t, ht, hOnto⟩
        · rcases hEntered i with hStarted | hPush
          · exact hSame.trans hStarted
          · exact absurd hPush (hNoPush _ hLaid.regs)
        · exact absurd hOnto.1 (hNoPush _ (hFits t ht).regs)
      · -- what is parked: the return address is pushed inside the gap
        intro i hParks hChanged
        rcases hCell i with hSame | ⟨t, ht, hOnto⟩
        · rcases hEntered i with hStarted | hPush
          · exact absurd (hSame.trans hStarted) hChanged
          · have hOwn : Within c (c, w) := ⟨Nat.le_refl _, Nat.le_refl _⟩
            exact absurd hParks (not_parks_of_pushes hOwn hPush)
        · exact ⟨t, ht, hOnto, fun hIn => not_parks_of_pushes hIn hOnto.1 hParks⟩
      · intro t ht hOut
        rcases hTrail.within hEmb hLook hQuiet hFirst t ht with hIn | hReleases
        · exact absurd hIn hOut
        · exact hReleases

/-- A program that sleeps on top of a five and returns it, and a public that takes its stack pointer
past the parked one before it pushes. -/
def stackLifter : Program where
  main := some 8
  code :=
    #[Opcode.halt.toCell, 0, Opcode.proc.toCell, Opcode.pushC.toCell, 5, Opcode.constPri.toCell,
      100, Opcode.sleep.toCell, Opcode.popPri.toCell, Opcode.ret.toCell, Opcode.stack.toCell, 8,
      Opcode.pushC.toCell, 9, Opcode.halt.toCell, 0]
  publics := [⟨"@lift", 40⟩]

/-- The program in a block of sixteen cells, as it is laid out. -/
def stackLifterAtRest : Context where
  program := stackLifter
  natives := []
  layout := ⟨0, 64⟩
  regs := { frm := 64, stk := 64, hea := 0 }
  resetStk := 64
  resetHea := 0

/-- The program parked at its sleep. -/
def stackLifterParked : Context :=
  { stackLifterAtRest with
    regs := { pri := 100, cip := 32, frm := 56, stk := 52, hea := 0 }, sleeping := true }

/-- The program's snapshot when its public has returned. -/
def stackLifterLifted : Context :=
  { stackLifterParked with regs.alt := 56 }

/-- The world of the program after so many instructions, with the cells on top of its memory. -/
def stackLifterWorld (started : Nat) (top : Array Cell) : World Unit where
  region := { memory := Array.replicate 12 0 ++ top }
  clock := .steady
  interrupts := { started }
  host := ()

theorem stackLifter_parks :
    exec .plain 8 .main stackLifterAtRest (stackLifterWorld 0 #[0, 0, 0, 0]) =
      some (.sleeping 100, stackLifterParked, stackLifterWorld 4 #[0, 5, 64, 0]) := rfl

theorem stackLifter_lifts :
    exec .plain 8 (.function 0) stackLifterParked.snapshot (stackLifterWorld 4 #[0, 5, 64, 0]) =
      some (.success 100, stackLifterLifted, stackLifterWorld 7 #[0, 9, 64, 0]) := rfl

theorem stackLifter_quiet :
    ∀ t ∈ states (stepper .plain) 8 (.function 0) stackLifterParked.snapshot
      (stackLifterWorld 4 #[0, 5, 64, 0]), Quiet t := by
  have hOps : (states (stepper .plain) 8 (.function 0) stackLifterParked.snapshot
      (stackLifterWorld 4 #[0, 5, 64, 0])).map operation? =
        [some .stack, some .pushC, some .halt] := rfl
  intro t ht
  have hMem := List.mem_map_of_mem (f := operation?) ht
  rw [hOps] at hMem
  simp only [List.mem_cons, List.not_mem_nil, or_false] at hMem
  rcases hMem with hOp | hOp | hOp
  all_goals
    unfold Quiet
    rw [hOp]
    decide

theorem stackLifter_holds :
    Holds .plain stackLifter 64 (stackLifterParked, stackLifterWorld 4 #[0, 5, 64, 0]) := by
  have hAtRest : Reaches .plain stackLifter 64 [stackLifterAtRest]
      (stackLifterWorld 0 #[0, 0, 0, 0]) := .creates rfl rfl
  have hParked := hAtRest.acts (i := 0) rfl (.executes stackLifter_parks)
  exact ⟨_, hParked, List.mem_singleton_self _⟩

/-- The public stores nothing and calls no native, and the five that the parked program would have
returned is a nine afterwards. -/
theorem stackLifter_overwrites_parked :
    Holds .plain stackLifter 64 (stackLifterParked, stackLifterWorld 4 #[0, 5, 64, 0]) ∧
    stackLifterParked.sleeping = true ∧
    (∀ t ∈ states (stepper .plain) 8 (.function 0) stackLifterParked.snapshot
      (stackLifterWorld 4 #[0, 5, 64, 0]), Quiet t) ∧
    exec .plain 8 (.function 0) stackLifterParked.snapshot (stackLifterWorld 4 #[0, 5, 64, 0]) =
      some (.success 100, stackLifterLifted, stackLifterWorld 7 #[0, 9, 64, 0]) ∧
    stackLifterParked.Parks 13 ∧
    (stackLifterWorld 4 #[0, 5, 64, 0]).region.memory[13]? = some 5 ∧
    (stackLifterWorld 7 #[0, 9, 64, 0]).region.memory[13]? = some 9 ∧
    (exec .plain 8 .resume stackLifterParked (stackLifterWorld 4 #[0, 5, 64, 0])).map (·.1) =
      some (.success 5) ∧
    (exec .plain 8 .resume stackLifterParked (stackLifterWorld 7 #[0, 9, 64, 0])).map (·.1) =
      some (.success 9) :=
  ⟨stackLifter_holds, rfl, stackLifter_quiet, stackLifter_lifts, .inl (by decide), rfl, rfl, rfl,
    rfl⟩

/-- The cell that changed was pushed onto from outside the gap, and an instruction that gives memory
back had led there. -/
theorem exec_footprint_stackLifter :
    (Embedder.plain : Embedder Unit).UsesInterface ∧ (Embedder.plain : Embedder Unit).HooksLook ∧
    Holds .plain stackLifter 64 (stackLifterParked, stackLifterWorld 4 #[0, 5, 64, 0]) ∧
    EntryPoint.function 0 ≠ .resume ∧
    ∃ seen, states (stepper .plain) 8 (.function 0) stackLifterParked.snapshot
        (stackLifterWorld 4 #[0, 5, 64, 0]) = seen ∧
      (∀ t ∈ seen, Quiet t) ∧
      (∃ t ∈ seen, PushesOnto t 13 ∧ ¬ Within stackLifterParked t) ∧
      ∃ u ∈ seen, Within stackLifterParked u ∧ ∃ op, operation? u = some op ∧ op.Releases := by
  have hEntry : EntryPoint.function 0 ≠ .resume := by decide
  obtain ⟨-, hChanged, hLeft⟩ := exec_footprint Embedder.plain_usesInterface
    Embedder.plain_hooksLook stackLifter_holds hEntry stackLifter_lifts stackLifter_quiet
  obtain ⟨t, ht, hOnto, hOut⟩ := hChanged 13 (.inl (by decide)) (by decide)
  exact ⟨Embedder.plain_usesInterface, Embedder.plain_hooksLook, stackLifter_holds, hEntry, _, rfl,
    stackLifter_quiet, ⟨t, ht, hOnto, hOut⟩, hLeft t ht hOut⟩

end Machine

end CellHost
