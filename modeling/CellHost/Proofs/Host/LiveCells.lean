import CellHost.Proofs.Host.Cells
import CellHost.Proofs.Host.Footprint

/-!
# Only stores change live cells

A cell is live if a program can read it: it belongs to the data, the heap or the stack. Apart from
stores, native calls and what hooks do at checkpoints, memory is written by pushing alone, and a
push goes to the cell on top of the gap between heap and stack, which nobody can read until it is
pushed. So whatever can be read before and after such an event reads the same, and a cell that was
pushed keeps its value while the stack pointer stays at or below it, whatever contexts of the same
memory are executed meanwhile.

All of this needs the heap pointer to be the address of a cell: the push compares addresses, and
writes the whole cell in which its address lies.

## Main definitions

* `Event` : an instruction that stores nothing, or the entry into a context.
* `Pushes` : an event pushes a value.
* `Lapse` : what happens to memory while the stack pointer stays at or below an address.

## Main results

* `Event.memory` : an event pushes a value or leaves memory alone.
* `Trail.lapses` : a run is a lapse.
* `event_spares_live` : events leave live cells alone.
-/

namespace CellHost

open Machine Instruction

variable {σ : Type} {emb : Embedder σ}

/-- An instruction that is neither a store nor a native call, however it comes out, or the entry
into a context. A checkpoint counts if the hook that is asked does not write. -/
inductive Event (emb : Embedder σ) (s : Point σ) : Point σ → Prop
  | executes {fuel : Nat} {r : Progress σ} :
      step emb (exec emb fuel) s.1 s.2 = some r → Quiet s →
      (operation? s = some .brk → r.point.2.region.memory = s.2.region.memory) →
      Event emb s r.point
  | enters {entry : EntryPoint} {t : Point σ} :
      start? entry s.1 s.2 = some t → Event emb s t

/-- Between two states a value is pushed: it goes to the cell below the stack pointer, which lies in
the gap, and nothing else is written. -/
structure Pushes (s t : Point σ) (value : Cell) : Prop where
  top : t.1.regs.stk + cellSize = s.1.regs.stk
  gap : s.1.regs.hea ≤ t.1.regs.stk
  memory : t.2.region.memory = s.2.region.memory.apply ⟨t.1.regs.stk, value⟩

/-- A program can read an address if it is that of a cell of the block, outside the gap. -/
theorem accessible_iff {l : Layout} {r : Registers} {address : Nat} :
    r.accessible l address = true ↔
      address % cellSize = 0 ∧ address < l.stp ∧ (address < r.hea ∨ r.stk ≤ address) := by
  simp only [Registers.accessible, Bool.and_eq_true, beq_iff_eq, decide_eq_true_eq,
    Bool.not_eq_true', Bool.and_eq_false_iff, decide_eq_false_iff_not, Nat.not_le, Nat.not_lt,
    and_assoc]

/-! ## One event -/

/-- What an event does to memory, by itself: a push, or nothing. -/
theorem Event.memory {s t : Point σ} (h : Event emb s t) :
    t.2.region.memory = s.2.region.memory ∨ ∃ value, Pushes s t value := by
  cases h with
  | @executes fuel r hStep hQuiet hCheckpoint =>
      have hBegin := beginInstruction_memory s.2
      have hMoved : ∀ {u : Point σ}, Moved s u →
          u.2.region.memory = s.2.region.memory ∨ ∃ value, Pushes s u value := by
        intro u hMoved
        cases hMoved with
        | rests hMemory _ _ => exact .inl hMemory
        | shifts _ _ hMemory => exact .inl hMemory
        | @pushes value hOnto hMemory hStk _ =>
            have hRoom := hOnto.1.1
            refine .inr ⟨value, by omega, by omega, ?_⟩
            rw [hStk]
            exact hMemory
      cases stepped_of_step hStep with
      | next hEffect => exact hMoved (moved_of_next hQuiet hEffect)
      | halt _ => exact .inl hBegin
      | sleep _ => exact .inl hBegin
      | fault hEffect => exact hMoved (moved_of_fault hEffect)
      | unbound hEffect _ => exact absurd (sysreq_of_native hEffect).1 hQuiet.2.2
      | native hEffect _ _ => exact absurd (sysreq_of_native hEffect).1 hQuiet.2.2
      | proceed hEffect _ => exact .inl (hCheckpoint (brk_of_checkpoint hEffect).1)
      | abort hEffect _ => exact .inl (hCheckpoint (brk_of_checkpoint hEffect).1)
  | enters hStart =>
      rcases start?_eq_some hStart with ⟨-, -, rfl⟩ | ⟨-, address, hAt⟩
      · exact .inl rfl
      · obtain ⟨hRoom, rfl⟩ := enterAt?_eq_some hAt
        refine .inr ⟨0, ?_, ?_, rfl⟩
        · exact Nat.sub_add_cancel (Nat.le_of_add_left_le hRoom)
        · exact Nat.le_sub_of_add_le hRoom

/-- A push writes no cell at or above the stack pointer. -/
theorem Pushes.cellAt_above {s t : Point σ} {value : Cell} (h : Pushes s t value) {address : Nat}
    (hAbove : s.1.regs.stk ≤ address) :
    t.2.region.memory.cellAt address = s.2.region.memory.cellAt address := by
  have hTop := h.top
  have hOther : t.1.regs.stk / cellSize ≠ address / cellSize := by
    rw [show cellSize = 4 from rfl] at hTop ⊢
    omega
  rw [h.memory]
  exact cellAt_apply_of_ne hOther

/-- A push from pointers at cells writes no cell that can be read before it. -/
theorem Pushes.cellAt_readable {s t : Point σ} {value : Cell} (h : Pushes s t value)
    (hs : s.1.OnCells) {address : Nat}
    (hReadable : s.1.regs.accessible s.1.layout address = true) :
    t.2.region.memory.cellAt address = s.2.region.memory.cellAt address := by
  have hTop := h.top
  have hGap := h.gap
  have hStk := hs.stk
  obtain ⟨hWhole, -, hOutside⟩ := accessible_iff.mp hReadable
  have hOther : t.1.regs.stk / cellSize ≠ address / cellSize := by
    rw [show cellSize = 4 from rfl] at hTop hStk hWhole ⊢
    omega
  rw [h.memory]
  exact cellAt_apply_of_ne hOther

theorem read_eq_ok {c : Context} {m : Memory} {address : Nat} {value : Cell}
    (h : c.read m address = .ok value) :
    c.regs.accessible c.layout address = true ∧ value = m.cellAt address := by
  unfold Context.read Registers.load at h
  split at h
  next hAccess => cases h; exact ⟨hAccess, rfl⟩
  · cases h

/-! ## Lapses -/

/-- What happens to a memory while the stack pointer stays at or below an address: events of
contexts that occur on it. They may be those of one run, of several executions with suspensions in
between, or of a context and its snapshots in any order. -/
inductive Lapse (emb : Embedder σ) (p : Program) (bytes address : Nat) : Memory → Memory → Prop
  | rests (m : Memory) : Lapse emb p bytes address m m
  | passes {s t : Point σ} {m : Memory} :
      Occurs emb p bytes s → s.1.regs.stk ≤ address → Event emb s t →
      Lapse emb p bytes address t.2.region.memory m →
      Lapse emb p bytes address s.2.region.memory m

/-- **A cell at or above the stack pointer outlasts every lapse.** -/
theorem Lapse.cellAt {p : Program} {bytes address : Nat} {m m' : Memory}
    (h : Lapse emb p bytes address m m') : m'.cellAt address = m.cellAt address := by
  induction h with
  | rests m => rfl
  | @passes s t m _ hBelow hEvent _ ih =>
      rcases hEvent.memory with hSame | ⟨value, hPush⟩
      · rw [ih, hSame]
      · rw [ih, hPush.cellAt_above hBelow]

/-- **A run is a lapse**, if its instructions are events below the address. -/
theorem Machine.Trail.lapses {p : Program} {bytes address : Nat} {s : Point σ}
    {seen : List (Point σ)} {r : Pause × Context × World σ} (h : Trail (stepper emb) s seen r)
    (hOccurs : Occurs emb p bytes s)
    (hEvents : ∀ t ∈ seen, t.1.regs.stk ≤ address ∧ Quiet t ∧ operation? t ≠ some .brk) :
    Lapse emb p bytes address s.2.region.memory r.2.2.region.memory := by
  induction h with
  | @pause s pause c w hStep =>
      obtain ⟨fuel, hStep⟩ := hStep
      obtain ⟨hBelow, hQuiet, hOther⟩ := hEvents s (List.mem_singleton_self s)
      have hEvent := Event.executes hStep hQuiet fun hBrk => absurd hBrk hOther
      exact .passes hOccurs hBelow hEvent (.rests _)
  | @next s c w seen r hStep _ ih =>
      obtain ⟨fuel, hStep⟩ := hStep
      obtain ⟨hBelow, hQuiet, hOther⟩ := hEvents s List.mem_cons_self
      have hRest := ih (hOccurs.next hStep) fun t ht => hEvents t (List.mem_cons_of_mem s ht)
      have hEvent := Event.executes hStep hQuiet fun hBrk => absurd hBrk hOther
      exact .passes hOccurs hBelow hEvent hRest

/-! ## Live cells -/

section Live

variable {p : Program} {bytes : Nat} (hEmb : emb.UsesInterface) (hCells : MovesCells emb p bytes)
include hEmb hCells

/-- Whatever can be read before and after an event reads the same. -/
theorem Event.read_eq {s t : Point σ} (hOccurs : Occurs emb p bytes s) (h : Event emb s t)
    {address : Nat} {value value' : Cell}
    (hBefore : s.1.read s.2.region.memory address = .ok value)
    (hAfter : t.1.read t.2.region.memory address = .ok value') : value' = value := by
  obtain ⟨hReadable, rfl⟩ := read_eq_ok hBefore
  obtain ⟨-, rfl⟩ := read_eq_ok hAfter
  rcases h.memory with hSame | ⟨pushed, hPush⟩
  · rw [hSame]
  · exact hPush.cellAt_readable (hOccurs.onCells hEmb hCells) hReadable

/-- A cell that was pushed is read, after any lapse, from every stack pointer at or below it. -/
theorem Pushes.read_eq {s t u : Point σ} {value : Cell} (h : Pushes s t value)
    (hOccurs : Occurs emb p bytes s)
    (hLapse : Lapse emb p bytes t.1.regs.stk t.2.region.memory u.2.region.memory)
    (hOccurs' : Occurs emb p bytes u) (hBelow : u.1.regs.stk ≤ t.1.regs.stk) :
    u.1.read u.2.region.memory t.1.regs.stk = .ok value := by
  have hLaid := hOccurs.laid hEmb
  have hTop := h.top
  have hHigh : t.1.regs.stk < (layoutOf p bytes).stp := by
    have hFits := hLaid.regs.high
    omega
  have hReadable : u.1.regs.accessible u.1.layout t.1.regs.stk = true := by
    rw [(hOccurs'.laid hEmb).layout]
    have hWhole : t.1.regs.stk % cellSize = 0 := by
      have hStk := (hOccurs.onCells hEmb hCells).stk
      rw [← hTop] at hStk
      exact Nat.mod_eq_zero_of_dvd ((Nat.dvd_add_left (Nat.dvd_refl _)).mp hStk)
    exact accessible_iff.mpr ⟨hWhole, hHigh, .inr hBelow⟩
  have hIndex : t.1.regs.stk / cellSize < s.2.region.memory.size :=
    div_cellSize_lt hLaid.block hHigh
  have hPushed : t.2.region.memory.cellAt t.1.regs.stk = value := by
    rw [h.memory]
    exact cellAt_apply_self (s := ⟨t.1.regs.stk, value⟩) hIndex
  unfold Context.read Registers.load
  rw [if_pos hReadable, hLapse.cellAt, hPushed]

/-- **Main theorem.** An event in a state that occurs leaves memory alone, or pushes a value onto
one cell, which lies in the gap between the heap pointer and the stack pointer. So whatever can be
read before and after the event reads the same; and a value that is pushed is still read after any
lapse, as long as the stack pointer is at or below its cell. -/
theorem event_spares_live {s t : Point σ} (hOccurs : Occurs emb p bytes s) (h : Event emb s t) :
    (t.2.region.memory = s.2.region.memory ∨
      ∃ value, Pushes s t value ∧ cellSize ∣ t.1.regs.stk) ∧
    (∀ address value value', s.1.read s.2.region.memory address = .ok value →
      t.1.read t.2.region.memory address = .ok value' → value' = value) ∧
    (∀ value, Pushes s t value → ∀ u : Point σ,
      Lapse emb p bytes t.1.regs.stk t.2.region.memory u.2.region.memory →
      Occurs emb p bytes u → u.1.regs.stk ≤ t.1.regs.stk →
      u.1.read u.2.region.memory t.1.regs.stk = .ok value) := by
  refine ⟨?_, ?_, ?_⟩
  · rcases h.memory with hSame | ⟨value, hPush⟩
    · exact .inl hSame
    · have hStk := (hOccurs.onCells hEmb hCells).stk
      rw [← hPush.top] at hStk
      exact .inr ⟨value, hPush, (Nat.dvd_add_left (Nat.dvd_refl _)).mp hStk⟩
  · intro address value value' hBefore hAfter
    exact h.read_eq hEmb hCells hOccurs hBefore hAfter
  · intro value hPush u hLapse hOccurs' hBelow
    exact hPush.read_eq hEmb hCells hOccurs hLapse hOccurs' hBelow

end Live

/-- A program that pushes a five, takes heap, and calls a function that moves its stack pointer to
and fro before it returns; it sleeps with the five on its stack. -/
def nester : Program where
  main := some 8
  code :=
    #[Opcode.halt.toCell, 0, Opcode.pushC.toCell, 5, Opcode.heap.toCell, 4, Opcode.call.toCell, 48,
      Opcode.sleep.toCell, Opcode.popPri.toCell, Opcode.halt.toCell, 0,
      Opcode.proc.toCell, Opcode.stack.toCell, -4, Opcode.pushC.toCell, 9, Opcode.stack.toCell, 8,
      Opcode.ret.toCell]

/-- The program in a block of ten cells, with some registers. -/
def nesterWith (regs : Registers) (sleeping : Bool) : Context where
  program := nester
  natives := []
  layout := ⟨0, 40⟩
  regs := regs
  resetStk := 40
  resetHea := 0
  sleeping := sleeping

/-- The world of the program after so many instructions, with the cells on top of its memory. -/
def nesterWorld (started : Nat) (top : Array Cell) : World Unit where
  region := { memory := Array.replicate 4 0 ++ top }
  clock := .steady
  interrupts := { started }
  host := ()

/-- The state in which the program pushes the five. -/
def nesterPushing : Point Unit :=
  (nesterWith { cip := 8, frm := 40, stk := 36, hea := 0 } false, nesterWorld 0 #[0, 0, 0, 0, 0, 0])

/-- The state after the push. -/
def nesterPushed : Point Unit :=
  (nesterWith { cip := 16, frm := 40, stk := 32, hea := 0 } false,
    nesterWorld 1 #[0, 0, 0, 0, 5, 0])

/-- The program parked at its sleep. -/
def nesterParked : Point Unit :=
  (nesterWith { alt := 24, cip := 36, frm := 40, stk := 32, hea := 4 } true,
    nesterWorld 9 #[9, 0, 40, 32, 5, 0])

theorem nester_reaches :
    Reaches (.plain : Embedder Unit) nester 40
      [nesterWith { frm := 40, stk := 40, hea := 0 } false]
      (nesterWorld 0 #[0, 0, 0, 0, 0, 0]) := .creates rfl rfl

theorem nesterPushing_occurs : Occurs (.plain : Embedder Unit) nester 40 nesterPushing :=
  .starts (.held nester_reaches (List.mem_singleton_self _))
    (show start? .main _ _ = some nesterPushing from rfl)

theorem nester_pushes :
    step .plain (exec .plain 0) nesterPushing.1 nesterPushing.2 =
      some (.continues nesterPushed.1 nesterPushed.2) := rfl

theorem nesterParked_occurs : Occurs (.plain : Embedder Unit) nester 40 nesterParked := by
  have hSleeps : exec .plain 10 .main (nesterWith { frm := 40, stk := 40, hea := 0 } false)
      (nesterWorld 0 #[0, 0, 0, 0, 0, 0]) =
        some (.sleeping 0, nesterParked.1, nesterParked.2) := rfl
  have hHeld := nester_reaches.acts (i := 0) rfl (.executes hSleeps)
  exact .held hHeld (List.mem_singleton_self _)

/-- Up to its sleep the program executes no store, and keeps its stack pointer below the five. -/
theorem nester_lapse :
    Lapse (.plain : Embedder Unit) nester 40 32 nesterPushed.2.region.memory
      nesterParked.2.region.memory := by
  have hRun : run .plain 10 nesterPushed.1 nesterPushed.2 =
      some (.slept 0, { nesterParked.1 with sleeping := false }, nesterParked.2) := rfl
  have hSeen : (visited (stepper .plain) 10 nesterPushed).map
      (fun t => (t.1.regs.stk, operation? t)) =
        [(32, some .heap), (32, some .call), (28, some .proc), (24, some .stack),
          (20, some .pushC), (16, some .stack), (24, some .ret), (32, some .sleep)] := rfl
  rw [run_eq_runWith] at hRun
  refine (trail_of_runWith hRun).lapses (nesterPushing_occurs.next nester_pushes) ?_
  intro t ht
  have hMem := List.mem_map_of_mem (f := fun t => (t.1.regs.stk, operation? t)) ht
  rw [hSeen] at hMem
  simp only [List.mem_cons, List.not_mem_nil, or_false, Prod.mk.injEq] at hMem
  unfold Quiet
  rcases hMem with ⟨hStk, hOp⟩ | ⟨hStk, hOp⟩ | ⟨hStk, hOp⟩ | ⟨hStk, hOp⟩ | ⟨hStk, hOp⟩ |
    ⟨hStk, hOp⟩ | ⟨hStk, hOp⟩ | ⟨hStk, hOp⟩
  all_goals
    rw [hStk, hOp]
    decide

/-- The five is still read when the program sleeps. -/
theorem event_spares_live_nester :
    (Embedder.plain : Embedder Unit).UsesInterface ∧
    MovesCells (.plain : Embedder Unit) nester 40 ∧
    Occurs (.plain : Embedder Unit) nester 40 nesterPushing ∧
    Event .plain nesterPushing nesterPushed ∧ Pushes nesterPushing nesterPushed 5 ∧
    Lapse (.plain : Embedder Unit) nester 40 32 nesterPushed.2.region.memory
      nesterParked.2.region.memory ∧
    nesterParked.1.read nesterParked.2.region.memory 32 = .ok 5 := by
  have hPlain : (Embedder.plain : Embedder Unit).UsesInterface := Embedder.plain_usesInterface
  have hCells : MovesCells (.plain : Embedder Unit) nester 40 := movesCells_of_check (by decide)
  have hQuiet : Quiet nesterPushing := by
    have hOp : operation? nesterPushing = some .pushC := rfl
    unfold Quiet
    rw [hOp]
    decide
  have hEvent : Event .plain nesterPushing nesterPushed :=
    .executes nester_pushes hQuiet fun hBrk => absurd hBrk (by decide)
  have hPush : Pushes nesterPushing nesterPushed 5 := ⟨rfl, by decide, rfl⟩
  obtain ⟨-, -, hKept⟩ := event_spares_live hPlain hCells nesterPushing_occurs hEvent
  have hRead := hKept 5 hPush nesterParked nester_lapse nesterParked_occurs (by decide)
  exact ⟨hPlain, hCells, nesterPushing_occurs, hEvent, hPush, nester_lapse, hRead⟩

end CellHost
