import CellHost.Proofs.Host.Interface
import CellHost.Proofs.Machine.Callbacks
import CellHost.Proofs.Machine.Shift

/-!
# The layout of memory survives

Whatever a program does, and whatever the host does to its contexts, the heap pointer stays between
the end of the data and the stack pointer, and the stack pointer stays below the end of memory, or
less than a cell above it. The intended bound, that the stack pointer does not pass the end of
memory, is not inductive: popping looks only at where a cell starts, and the stack pointer can be
made to start less than a cell below the end.

The same holds of the marks that a returning execution goes back to, since they were taken from
pointers. More generally, whatever the instructions of a program maintain of the two pointers holds
throughout every history of its contexts, and is proved of the instructions alone.

## Main definitions

* `Fits` : the bounds on the two pointers.
* `Bound` : a property of the two pointers that the instructions of a program maintain.
* `Laid` : a context whose pointers and marks have such a property.

## Main results

* `fits_bound` : the instructions of every program maintain the bounds.
* `step_laid`, `exec_laid` : steps and executions keep contexts laid out.
* `Reaches.laid` : every context that a host comes to hold is laid out.
-/

namespace CellHost

open Machine Instruction

variable {σ : Type}

/-- The registers that an effect leaves, if it leaves new ones. -/
def Effect.regs? : Effect → Option Registers
  | .next regs _ => some regs
  | .halt _ => none
  | .sleep regs => some regs
  | .native regs _ => some regs
  | .checkpoint regs => some regs
  | .fault _ regs => some regs

/-- A property of the stack pointer and the heap pointer that the instructions of a program
maintain, also those that fail, and that pushing a cell maintains. -/
structure Bound (p : Program) (l : Layout) (K : Nat → Nat → Prop) : Prop where
  effect : ∀ m r r', (effect p l m r).regs? = some r' → K r.stk r.hea → K r'.stk r'.hea
  push : ∀ stk hea, hea + cellSize ≤ stk → K stk hea → K (stk - cellSize) hea

/-- A context of a program whose pointers and marks have a property, in a world whose memory has the
size of its layout. -/
structure Laid (p : Program) (l : Layout) (K : Nat → Nat → Prop) (s : Point σ) : Prop where
  program : s.1.program = p
  layout : s.1.layout = l
  regs : K s.1.regs.stk s.1.regs.hea
  marks : K s.1.resetStk s.1.resetHea
  block : s.2.region.memory.size * cellSize = l.stp

/-- The address of a cell of the block is one of a cell of the memory that makes it up. -/
theorem div_cellSize_lt {m : Memory} {l : Layout} (hBlock : m.size * cellSize = l.stp)
    {address : Nat} (h : address < l.stp) : address / cellSize < m.size := by
  rw [Nat.div_lt_iff_lt_mul (by decide), hBlock]
  exact h

/-! ## Instructions -/

/-- What an effect does to the two pointers: it shifts them, leaves them, or fails in a return with
some cells popped. -/
theorem shift_of_effect {p : Program} {l : Layout} {m : Memory} {r r' : Registers}
    (h : (effect p l m r).regs? = some r') :
    (∃ op operand store, decode p r.cip = .ok (op, operand) ∧ Shift l r op operand r' store) ∨
    (r'.stk = r.stk ∧ r'.hea = r.hea) ∨
    ∃ cells, r.stk + cells * cellSize < l.stp ∧ r'.stk = r.stk + (cells + 1) * cellSize ∧
      r'.hea = r.hea := by
  cases hEffect : effect p l m r with
  | next regs store =>
      rw [hEffect] at h
      cases h
      obtain ⟨op, operand, hDecode, hOf⟩ := decode_of_effect hEffect (fun _ h => by cases h)
      exact .inl ⟨op, operand, store, hDecode, effectOf_next hOf⟩
  | halt value =>
      rw [hEffect] at h
      cases h
  | sleep regs =>
      rw [hEffect] at h
      cases h
      obtain ⟨op, operand, -, hOf⟩ := decode_of_effect hEffect (fun _ h => by cases h)
      rw [(effectOf_sleep hOf).2]
      exact .inr (.inl ⟨rfl, rfl⟩)
  | native regs index =>
      rw [hEffect] at h
      cases h
      obtain ⟨op, operand, -, hOf⟩ := decode_of_effect hEffect (fun _ h => by cases h)
      rw [(effectOf_native hOf).2.1]
      exact .inr (.inl ⟨rfl, rfl⟩)
  | checkpoint regs =>
      rw [hEffect] at h
      cases h
      obtain ⟨op, operand, -, hOf⟩ := decode_of_effect hEffect (fun _ h => by cases h)
      rw [(effectOf_checkpoint hOf).2]
      exact .inr (.inl ⟨rfl, rfl⟩)
  | fault e regs =>
      rw [hEffect] at h
      cases h
      rcases effect_fault hEffect with ⟨rfl, -⟩ | ⟨-, -, hFailed⟩
      · exact .inr (.inl ⟨rfl, rfl⟩)
      · rcases hFailed.popped with rfl | ⟨cells, -, hBelow, hHea, hStk⟩
        · exact .inr (.inl ⟨rfl, rfl⟩)
        · exact .inr (.inr ⟨cells, hBelow, hStk, hHea⟩)

/-- The bounds on the stack pointer and the heap pointer. -/
structure Fits (l : Layout) (stk hea : Nat) : Prop where
  low : l.hlw ≤ hea
  order : hea ≤ stk
  high : stk < l.stp + cellSize

/-- Every shift keeps the pointers within their bounds. -/
theorem fits_of_shift {l : Layout} {r r' : Registers} {op : Opcode} {operand : Cell}
    {store : Option Store} (h : Shift l r op operand r' store) (hFits : Fits l r.stk r.hea) :
    Fits l r'.stk r'.hea := by
  obtain ⟨hLow, hOrder, hHigh⟩ := hFits
  have hCell : cellSize = 4 := rfl
  cases h with
  | stays hStk hHea _ _ => constructor <;> omega
  | stores _ _ hStk hHea _ => constructor <;> omega
  | pushes hRoom _ hStk hHea _ =>
      constructor <;> omega
  | pops cells _ hBelow hStk hHea =>
      rw [hCell] at hBelow hStk
      constructor <;> omega
  | movesStack _ _ hHeap hTop hHea =>
      constructor <;> omega
  | movesHeap _ _ hBottom hStack hStk =>
      constructor <;> omega

/-- **No instruction takes the pointers out of their bounds**, and none leaves them out of bounds
when it fails. -/
theorem fits_bound (p : Program) (l : Layout) : Bound p l (Fits l) where
  effect := by
    intro m r r' h hFits
    rcases shift_of_effect h with ⟨op, operand, store, -, hShift⟩ | ⟨hStk, hHea⟩ |
      ⟨cells, hBelow, hStk, hHea⟩
    · exact fits_of_shift hShift hFits
    · rw [hStk, hHea]
      exact hFits
    · have hCell : cellSize = 4 := rfl
      obtain ⟨hLow, hOrder, -⟩ := hFits
      rw [hCell] at hBelow hStk
      constructor <;> omega
  push := by
    intro stk hea hRoom hFits
    obtain ⟨hLow, hOrder, hHigh⟩ := hFits
    constructor <;> omega

/-! ## Steps and executions -/

section Laid

variable {p : Program} {l : Layout} {K : Nat → Nat → Prop}

/-- Being laid out depends on little: on the two pointers, and on what no instruction changes. -/
theorem Laid.congr {s t : Point σ} (h : Laid p l K s) (hProgram : t.1.program = s.1.program)
    (hLayout : t.1.layout = s.1.layout) (hRegs : K t.1.regs.stk t.1.regs.hea)
    (hMarkStk : t.1.resetStk = s.1.resetStk) (hMarkHea : t.1.resetHea = s.1.resetHea)
    (hBlock : t.2.region.memory.size = s.2.region.memory.size) : Laid p l K t where
  program := hProgram.trans h.program
  layout := hLayout.trans h.layout
  regs := hRegs
  marks := by
    rw [hMarkStk, hMarkHea]
    exact h.marks
  block := by
    rw [hBlock]
    exact h.block

/-- Being laid out is nothing that a host can do anything about. -/
theorem laid_stable (p : Program) (l : Layout) (K : Nat → Nat → Prop) :
    Stable (Laid p l K : Point σ → Prop) where
  assigns := fun _ _ _ _ h => h.congr rfl rfl h.regs rfl rfl rfl
  equips := fun _ _ _ _ _ h => h.congr rfl rfl h.regs rfl rfl rfl
  world := fun _ _ _ hSize h => h.congr rfl rfl h.regs rfl rfl hSize
  aside := fun _ _ _ _ h h' => ⟨h.program, h.layout, h.regs, h.marks, h'.block⟩

theorem storeIf_size (w : World σ) (store : Option Store) :
    (w.storeIf store).region.memory.size = w.region.memory.size := by
  cases store with
  | none => rfl
  | some s => exact Array.size_setIfInBounds ..

theorem begin_size (w : World σ) :
    w.beginInstruction.region.memory.size = w.region.memory.size :=
  congrArg Array.size (beginInstruction_memory w)

variable {emb : Embedder σ}

theorem withAbortHook_laid (a : AbortState) {c : Context} {w : World σ} (h : Laid p l K (c, w)) :
    Laid p l K (withAbortHook c a, w) := by
  unfold withAbortHook
  split
  · exact h.congr rfl rfl h.regs rfl rfl rfl
  · exact h

theorem afterNative_laid {start : Nat} {answer : Except MachineError Cell} {c : Context}
    {w : World σ} (hLaid : Laid p l K (c, w)) :
    Laid p l K (afterNative start answer c w).point := by
  cases answer with
  | ok value => exact hLaid.congr rfl rfl hLaid.regs rfl rfl rfl
  | error e => exact hLaid.congr rfl rfl hLaid.regs rfl rfl rfl

variable (hK : Bound p l K)
include hK

/-- The context that an instruction leaves, in the world in which it started. -/
theorem effect_laid {s : Point σ} {regs : Registers} (hLaid : Laid p l K s)
    (h : (effectAt s).regs? = some regs) :
    Laid p l K ({ s.1 with regs }, s.2.beginInstruction) := by
  refine hLaid.congr rfl rfl ?_ rfl rfl (begin_size s.2)
  unfold effectAt Context.effect at h
  rw [hLaid.program, hLaid.layout] at h
  exact hK.effect _ _ _ h hLaid.regs

/-- **A step keeps a context laid out**, whatever it comes to. -/
theorem step_laid (hEmb : emb.UsesInterface) {engine : Engine σ}
    (hEngine : engine.Keeps (Laid p l K)) {s : Point σ} {r : Progress σ}
    (h : step emb engine s.1 s.2 = some r) (hLaid : Laid p l K s) : Laid p l K r.point := by
  cases stepped_of_step h with
  | @next regs store hEffect =>
      have hLeft : Laid p l K ({ s.1 with regs }, s.2.beginInstruction) :=
        effect_laid hK hLaid (by rw [hEffect]; rfl)
      exact hLeft.congr rfl rfl hLeft.regs rfl rfl (storeIf_size _ store)
  | halt _ => exact hLaid.congr rfl rfl hLaid.regs rfl rfl (begin_size s.2)
  | sleep hEffect => exact effect_laid hK hLaid (by rw [hEffect]; rfl)
  | fault hEffect => exact effect_laid hK hLaid (by rw [hEffect]; rfl)
  | @unbound regs index hEffect _ =>
      have hLeft : Laid p l K ({ s.1 with regs }, s.2.beginInstruction) :=
        effect_laid hK hLaid (by rw [hEffect]; rfl)
      exact hLeft.congr rfl rfl hLeft.regs rfl rfl rfl
  | native hEffect _ hAnswer =>
      have hLeft := effect_laid hK hLaid (by rw [hEffect]; rfl)
      exact afterNative_laid (nativeAnswer_keeps hEmb (laid_stable p l K) hEngine hAnswer hLeft)
  | proceed hEffect hAsk =>
      have hLeft := effect_laid hK hLaid (by rw [hEffect]; rfl)
      exact askHook_keeps hEmb (laid_stable p l K) hAsk hLeft
  | abort hEffect hAsk =>
      have hLeft := effect_laid hK hLaid (by rw [hEffect]; rfl)
      have hAsked := askHook_keeps hEmb (laid_stable p l K) hAsk hLeft
      exact hAsked.congr rfl rfl hAsked.regs rfl rfl rfl

/-- An execution starts laid out: it pushes a return address and takes the pointers as its marks. -/
theorem start?_laid {entry : EntryPoint} {c : Context} {w : World σ} {s : Point σ}
    (h : start? entry c w = some s) (hLaid : Laid p l K (c, w)) : Laid p l K s := by
  rcases start?_eq_some h with ⟨-, -, rfl⟩ | ⟨-, address, hAt⟩
  · exact hLaid.congr rfl rfl hLaid.regs rfl rfl rfl
  · obtain ⟨hRoom, rfl⟩ := enterAt?_eq_some hAt
    have hPushed := hK.push _ _ hRoom hLaid.regs
    refine ⟨hLaid.program, hLaid.layout, hPushed, hLaid.regs, ?_⟩
    rw [← hLaid.block]
    exact congrArg (· * cellSize) (Array.size_setIfInBounds ..)

omit hK in
theorem refusal_laid {entry : EntryPoint} {c : Context} {w : World σ}
    (hLaid : Laid p l K (c, w)) : Laid p l K ((refusal entry c).2, w) := by
  rcases refusal_eq entry c with hSame | hMarked
  · rw [hSame]
    exact hLaid
  · rw [hMarked]
    exact ⟨hLaid.program, hLaid.layout, hLaid.regs, hLaid.regs, hLaid.block⟩

omit hK in
/-- A pause settles on a context that is laid out: where it goes back to is where pointers were. -/
theorem settle_laid {entry : EntryPoint} {c c' : Context} {w w' : World σ} (pause : Pause)
    (hLaid : Laid p l K (c, w)) (h : Laid p l K (c', w')) :
    Laid p l K ((settle (place entry c) pause c').2, w') := by
  cases pause with
  | returned value =>
      cases entry with
      | resume => exact ⟨h.program, h.layout, h.marks, h.marks, h.block⟩
      | main => exact ⟨h.program, h.layout, h.marks, hLaid.marks, h.block⟩
      | function index => exact ⟨h.program, h.layout, h.marks, hLaid.marks, h.block⟩
  | slept delay => exact h.congr rfl rfl h.regs rfl rfl rfl
  | faulted e => exact h

/-- **Executions keep a context laid out.** -/
theorem exec_laid (hEmb : emb.UsesInterface) (fuel : Nat) :
    (exec emb fuel).Keeps (Laid p l K) := by
  have hPreserves : Preserves emb (Laid p l K : Point σ → Prop) := {
    steps := fun engine s r hEngine hStep hLaid => step_laid hK hEmb hEngine hStep hLaid
    starts := fun entry c w s hStart hLaid => start?_laid hK hStart hLaid
    refuses := fun entry c w hLaid => refusal_laid hLaid
    settles := fun entry c w pause c' w' hLaid hEnd => settle_laid pause hLaid hEnd }
  exact hPreserves.keeps_exec fuel

end Laid

/-! ## Histories -/

/-- The layout of a program in a block of so many bytes. -/
def layoutOf (p : Program) (bytes : Nat) : Layout := ⟨p.dataSize, bytes / cellSize * cellSize⟩

/-- What is true of a context and its memory when a program has just been laid out. -/
structure Fresh (p : Program) (bytes : Nat) (c : Context) (m : Memory) : Prop where
  program : c.program = p
  layout : c.layout = layoutOf p bytes
  stk : c.regs.stk = (layoutOf p bytes).stp
  hea : c.regs.hea = (layoutOf p bytes).hlw
  markStk : c.resetStk = (layoutOf p bytes).stp
  markHea : c.resetHea = (layoutOf p bytes).hlw
  awake : c.sleeping = false
  size : m.size = bytes / cellSize
  /-- There is room for an entry frame. -/
  room : (layoutOf p bytes).hlw + 2 * cellSize ≤ (layoutOf p bytes).stp

/-- What filling cells from the first one on does to a memory: to its size nothing, and to the cells
what it says. -/
theorem fold_setIfInBounds (n : Nat) (value : (i : Nat) → i < n → Cell) (m : Memory) :
    (n.fold (fun i h m => m.setIfInBounds i (value i h)) m).size = m.size ∧
    ∀ i, (n.fold (fun i h m => m.setIfInBounds i (value i h)) m)[i]? =
      if h : i < n then (if i < m.size then some (value i h) else none) else m[i]? := by
  induction n with
  | zero => exact ⟨rfl, fun i => rfl⟩
  | succ n ih =>
      obtain ⟨hSize, hCell⟩ := ih fun i h => value i (Nat.lt_succ_of_lt h)
      rw [Nat.fold_succ]
      refine ⟨(Array.size_setIfInBounds ..).trans hSize, fun i => ?_⟩
      rw [Array.getElem?_setIfInBounds, hCell, hSize]
      grind

/-- **A new block holds the initial contents, and zero behind them.** -/
theorem ofData_eq {data : Array Cell} {cells : Nat} (h : data.size ≤ cells) :
    Memory.ofData data cells = data ++ Array.replicate (cells - data.size) 0 := by
  obtain ⟨-, hCell⟩ :=
    fold_setIfInBounds data.size (fun i _ => data[i]) (Array.replicate cells 0)
  refine Array.ext_getElem? fun i => ?_
  unfold Memory.ofData
  rw [hCell, Array.getElem?_append]
  grind

theorem Context.create?_eq_some_ok_iff {p : Program} {bytes : Nat} {x : Context × Memory} :
    Context.create? p bytes = some (.ok x) ↔ Context.create p bytes = .ok x := by
  unfold Context.create
  cases Context.create? p bytes <;> simp

/-- A context is created where the block holds the program and an entry frame, and can be had. -/
theorem Context.create_eq_ok {p : Program} {bytes : Nat} {x : Context × Memory}
    (h : Context.create p bytes = .ok x) :
    p.dataSize + 2 * cellSize ≤ bytes / cellSize * cellSize ∧
      bytes / cellSize * cellSize ≤ Context.maxBlock ∧ x = Context.layOut p bytes := by
  rw [← Context.create?_eq_some_ok_iff, Context.create?] at h
  split at h
  · cases h
  next hRoom =>
    split at h
    · cases h
    next hBlock =>
      cases h
      exact ⟨Nat.le_of_not_lt hRoom, Nat.le_of_not_lt hBlock, rfl⟩

/-- The initial data of a program that fits is no longer than the block. -/
theorem Program.data_le {p : Program} {bytes : Nat}
    (h : p.dataSize + 2 * cellSize ≤ bytes / cellSize * cellSize) : p.data.size ≤ bytes / cellSize := by
  unfold Program.dataSize at h
  rw [show cellSize = 4 from rfl] at h ⊢
  omega

theorem create_fresh {p : Program} {bytes : Nat} {c : Context} {m : Memory}
    (h : Context.create p bytes = .ok (c, m)) : Fresh p bytes c m := by
  obtain ⟨hRoom, -, hLaidOut⟩ := Context.create_eq_ok h
  obtain ⟨rfl, rfl⟩ := Prod.mk.inj hLaidOut
  refine ⟨rfl, rfl, rfl, rfl, rfl, rfl, rfl, ?_, hRoom⟩
  have hData := Program.data_le hRoom
  rw [ofData_eq hData, Array.size_append, Array.size_replicate, Nat.add_sub_cancel' hData]

/-- The pointers of a fresh context fit. -/
theorem Fresh.fits {p : Program} {bytes : Nat} {c : Context} {m : Memory} (h : Fresh p bytes c m) :
    Fits (layoutOf p bytes) (layoutOf p bytes).stp (layoutOf p bytes).hlw := by
  have hCell : cellSize = 4 := rfl
  have hRoom := h.room
  constructor <;> omega

/-- A fresh context is laid out, for every property that its pointers have. -/
theorem Fresh.laid {p : Program} {bytes : Nat} {K : Nat → Nat → Prop} {c : Context} {m : Memory}
    {w : World σ} (h : Fresh p bytes c m) (hMemory : w.region.memory = m)
    (hInitial : K (layoutOf p bytes).stp (layoutOf p bytes).hlw) :
    Laid p (layoutOf p bytes) K (c, w) where
  program := h.program
  layout := h.layout
  regs := by
    show K c.regs.stk c.regs.hea
    rw [h.stk, h.hea]
    exact hInitial
  marks := by
    show K c.resetStk c.resetHea
    rw [h.markStk, h.markHea]
    exact hInitial
  block := by
    show w.region.memory.size * cellSize = bytes / cellSize * cellSize
    rw [hMemory, h.size]

/-- **Every context that a host comes to hold is laid out**, for every property of the two pointers
that holds at first and that the instructions of the program maintain. -/
theorem Reaches.laid {emb : Embedder σ} (hEmb : emb.UsesInterface) {p : Program} {bytes : Nat}
    {K : Nat → Nat → Prop} (hK : Bound p (layoutOf p bytes) K)
    (hInitial : Fits (layoutOf p bytes) (layoutOf p bytes).stp (layoutOf p bytes).hlw →
      K (layoutOf p bytes).stp (layoutOf p bytes).hlw)
    {held : List Context} {w : World σ} (h : Reaches emb p bytes held w) :
    ∀ c ∈ held, Laid p (layoutOf p bytes) K (c, w) := by
  induction h with
  | creates hCreate hMemory =>
      intro c hc
      rw [List.mem_singleton.mp hc]
      have hFresh := create_fresh hCreate
      exact hFresh.laid hMemory (hInitial hFresh.fits)
  | snapshots _ hMem ih =>
      intro c hc
      rcases List.mem_cons.mp hc with rfl | hc
      · exact ih _ hMem
      · exact ih c hc
  | @acts held w w' i fuel c₀ c₁ _ hAt hActs ih =>
      have hBefore := ih c₀ (List.mem_of_getElem? hAt)
      have hAfter := hActs.keeps (laid_stable _ _ _) (exec_laid hK hEmb fuel) hBefore
      intro c hc
      rcases List.mem_or_eq_of_mem_set hc with hc | rfl
      · -- another context of the host: only the memory has changed under it
        have hOther := ih c hc
        exact ⟨hOther.program, hOther.layout, hOther.regs, hOther.marks, hAfter.block⟩
      · exact hAfter

end CellHost
