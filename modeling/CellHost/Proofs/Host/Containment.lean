import CellHost.Proofs.Host.Layout

/-!
# Programs stay inside their memory

The guards of the four operations on memory compare addresses in bytes, while the accesses go to the
cell in which an address lies. The pointers need not be addresses of cells: moving the stack by an
odd amount is allowed, and so is returning with any frame pointer. What bounds the accesses is the
layout that survives every step, not the one intended: it is enough that the stack pointer is less
than a cell past the end of memory.

## Main definitions

* `Contained` : the four operations on memory stay inside the block, or fail with their own error.
* `Occurs` : the states in which memory is accessed.

## Main results

* `contained_of_fits` : operations on pointers that fit are contained.
* `effect_append` : an instruction does not depend on what lies behind the block.
* `occurs_contained` : in every state that occurs all accesses are contained.
-/

namespace CellHost

open Machine Instruction

variable {σ : Type}

/-! ## The four operations -/

/-- Whatever is asked of them, the four operations on memory access a cell of the block, or fail
with the error that says so; and pushing leaves the initialised data alone. -/
structure Contained (l : Layout) (m : Memory) (r : Registers) : Prop where
  load : ∀ address,
    (∃ value, r.load l m address = .ok value ∧ m[address / cellSize]? = some value) ∨
    r.load l m address = .error .memoryAccess
  store : ∀ address value,
    (r.store l address value = .ok ⟨address, value⟩ ∧ address / cellSize < m.size) ∨
    r.store l address value = .error .memoryAccess
  push : ∀ value,
    (∃ r', r.push value = .ok (r', ⟨r'.stk, value⟩) ∧ r'.stk + cellSize = r.stk ∧
      r'.stk / cellSize < m.size ∧
      ∀ i, i * cellSize < l.hlw → (m.apply ⟨r'.stk, value⟩)[i]? = m[i]?) ∨
    r.push value = .error .stackCollision
  pop :
    (∃ value, r.pop l m = .ok (value, { r with stk := r.stk + cellSize }) ∧
      m[r.stk / cellSize]? = some value) ∨
    r.pop l m = .error .stackUnderflow

theorem getElem?_cellAt {m : Memory} {address : Nat} (h : address / cellSize < m.size) :
    m[address / cellSize]? = some (m.cellAt address) := by
  unfold Memory.cellAt
  rw [Array.getElem?_eq_getElem h, Array.getD_eq_getD_getElem?, Array.getElem?_eq_getElem h]
  rfl

theorem lt_stp_of_accessible {l : Layout} {r : Registers} {address : Nat}
    (h : r.accessible l address = true) : address < l.stp := by
  simp only [Registers.accessible, Bool.and_eq_true, decide_eq_true_eq] at h
  exact h.1.2

/-- **Operations on pointers that fit are contained.** -/
theorem contained_of_fits {l : Layout} {m : Memory} {r : Registers} {data : Nat}
    (hFits : Fits l r.stk r.hea) (hBlock : m.size * cellSize = l.stp)
    (hData : l.hlw = data * cellSize) : Contained l m r where
  load := by
    intro address
    unfold Registers.load
    by_cases hAccess : r.accessible l address = true
    · have hIndex := div_cellSize_lt hBlock (lt_stp_of_accessible hAccess)
      rw [if_pos hAccess]
      exact .inl ⟨_, rfl, getElem?_cellAt hIndex⟩
    · rw [if_neg hAccess]
      exact .inr rfl
  store := by
    intro address value
    unfold Registers.store
    by_cases hAccess : r.accessible l address = true
    · rw [if_pos hAccess]
      exact .inl ⟨rfl, div_cellSize_lt hBlock (lt_stp_of_accessible hAccess)⟩
    · rw [if_neg hAccess]
      exact .inr rfl
  push := by
    intro value
    unfold Registers.push
    by_cases hRoom : r.stk < r.hea + cellSize
    · rw [if_pos hRoom]
      exact .inr rfl
    · rw [if_neg hRoom]
      obtain ⟨hLow, hOrder, hHigh⟩ := hFits
      have hTop : r.stk - cellSize < l.stp := by omega
      refine .inl ⟨_, rfl, ?_, div_cellSize_lt hBlock hTop, ?_⟩
      · show r.stk - cellSize + cellSize = r.stk
        omega
      · intro i hi
        have hAbove : data ≤ (r.stk - cellSize) / cellSize := by
          rw [Nat.le_div_iff_mul_le (by decide), ← hData]
          omega
        have hBelow : i < data := by
          rw [hData] at hi
          exact Nat.lt_of_mul_lt_mul_right hi
        unfold Memory.apply
        exact Array.getElem?_setIfInBounds_ne (by dsimp only; omega)
  pop := by
    unfold Registers.pop
    by_cases hEmpty : l.stp ≤ r.stk
    · rw [if_pos hEmpty]
      exact .inr rfl
    · rw [if_neg hEmpty]
      have hIndex := div_cellSize_lt hBlock (Nat.lt_of_not_le hEmpty)
      exact .inl ⟨_, rfl, getElem?_cellAt hIndex⟩

/-! ## Instructions -/

section Block

variable {l : Layout} {m : Memory} (hBlock : m.size * cellSize = l.stp) (rest : Memory)
include hBlock

theorem cellAt_append {address : Nat} (h : address < l.stp) :
    (m ++ rest).cellAt address = m.cellAt address := by
  have hIndex := div_cellSize_lt hBlock h
  unfold Memory.cellAt
  rw [Array.getD_eq_getD_getElem?, Array.getD_eq_getD_getElem?, Array.getElem?_append_left hIndex]

theorem load_append (r : Registers) (address : Nat) :
    r.load l (m ++ rest) address = r.load l m address := by
  unfold Registers.load
  by_cases hAccess : r.accessible l address = true
  · rw [if_pos hAccess, if_pos hAccess, cellAt_append hBlock rest (lt_stp_of_accessible hAccess)]
  · rw [if_neg hAccess, if_neg hAccess]

theorem pop_append (r : Registers) : r.pop l (m ++ rest) = r.pop l m := by
  unfold Registers.pop
  by_cases hEmpty : l.stp ≤ r.stk
  · rw [if_pos hEmpty, if_pos hEmpty]
  · rw [if_neg hEmpty, if_neg hEmpty, cellAt_append hBlock rest (Nat.lt_of_not_le hEmpty)]

/-- **An instruction does not depend on what lies behind the block**: it reads nothing there. -/
theorem effect_append (p : Program) (r : Registers) :
    effect p l (m ++ rest) r = effect p l m r := by
  unfold effect
  cases decode p r.cip with
  | error e => rfl
  | ok instruction =>
      obtain ⟨op, operand⟩ := instruction
      cases op
      case loadPri | loadAlt | loadSPri => simp only [effectOf, load_append hBlock rest]
      case popPri | popAlt => simp only [effectOf, pop_append hBlock rest]
      case ret => simp only [effectOf, returnToCaller, pop_append hBlock rest]
      all_goals rfl

end Block

/-- An instruction writes into the block. -/
theorem effect_store {p : Program} {l : Layout} {m : Memory} {r r' : Registers} {s : Store}
    (hBlock : m.size * cellSize = l.stp) (hFits : Fits l r.stk r.hea)
    (h : effect p l m r = .next r' (some s)) : s.address / cellSize < m.size := by
  obtain ⟨op, operand, -, hOf⟩ := decode_of_effect h (fun _ h => by cases h)
  obtain ⟨-, -, hHigh⟩ := hFits
  cases effectOf_next hOf with
  | stores _ hAccess _ _ _ => exact div_cellSize_lt hBlock (lt_stp_of_accessible hAccess)
  | pushes hRoom hAddress _ _ _ =>
      refine div_cellSize_lt hBlock ?_
      omega

/-- Whether an operation accesses memory. -/
def Opcode.accesses : Opcode → Bool
  | .loadPri | .loadAlt | .storPri | .loadSPri | .storSPri => true
  | .pushPri | .pushAlt | .pushC | .popPri | .popAlt => true
  | .call | .proc | .ret => true
  | _ => false

/-- The errors that stand for an illegal access. -/
def MachineError.IsAccessFault (e : MachineError) : Prop :=
  e = .memoryAccess ∨ e = .stackCollision ∨ e = .stackUnderflow

/-- A guarded step fails as the step does, or as what follows does. -/
theorem isAccessFault_of_guarded {α : Type} {r : Registers} {step : Except MachineError α}
    {k : α → Effect} (hStep : ∀ e, step = .error e → e.IsAccessFault)
    (hRest : ∀ a e r', k a = .fault e r' → e.IsAccessFault) :
    ∀ e r', guarded r step k = .fault e r' → e.IsAccessFault := by
  intro e r' h
  rcases guarded_eq_fault h with ⟨hError, -⟩ | ⟨a, -, hNext⟩
  · exact hStep e hError
  · exact hRest a e r' hNext

theorem isAccessFault_of_dataAddress (base : Nat) (offset : Cell) :
    ∀ e, dataAddress base offset = .error e → e.IsAccessFault := by
  intro e h
  unfold dataAddress at h
  split at h
  · cases h
  · cases h
    exact .inl rfl

theorem isAccessFault_of_codeTarget (p : Program) (cell : Cell) :
    ∀ e, codeTarget p cell = .error e → e.IsAccessFault := by
  intro e h
  unfold codeTarget at h
  split at h
  · cases h
  · cases h
    exact .inl rfl

theorem isAccessFault_of_load (l : Layout) (m : Memory) (r : Registers) (address : Nat) :
    ∀ e, r.load l m address = .error e → e.IsAccessFault := by
  intro e h
  unfold Registers.load at h
  split at h
  · cases h
  · cases h
    exact .inl rfl

theorem isAccessFault_of_store (l : Layout) (r : Registers) (address : Nat) (value : Cell) :
    ∀ e, r.store l address value = .error e → e.IsAccessFault := by
  intro e h
  unfold Registers.store at h
  split at h
  · cases h
  · cases h
    exact .inl rfl

theorem isAccessFault_of_push (r : Registers) (value : Cell) :
    ∀ e, r.push value = .error e → e.IsAccessFault :=
  fun _ h => .inr (.inl (push_eq_error h))

theorem isAccessFault_of_pop (l : Layout) (m : Memory) (r : Registers) :
    ∀ e, r.pop l m = .error e → e.IsAccessFault := by
  intro e h
  unfold Registers.pop at h
  split at h
  · cases h
    exact .inr (.inr rfl)
  · cases h

/-- **An operation that accesses memory fails with an error that says so.** -/
theorem isAccessFault_of_effectOf {p : Program} {l : Layout} {m : Memory} {r : Registers}
    {op : Opcode} {operand : Cell} (hOp : op.accesses = true) :
    ∀ e r', effectOf p l m r op operand = .fault e r' → e.IsAccessFault := by
  have hNext : ∀ regs store e r', Effect.next regs store = .fault e r' → e.IsAccessFault := by
    intro regs store e r' h
    cases h
  cases op
  case loadPri | loadAlt | loadSPri =>
    refine isAccessFault_of_guarded (isAccessFault_of_dataAddress _ _) fun a => ?_
    exact isAccessFault_of_guarded (isAccessFault_of_load _ _ _ _) fun _ => hNext _ _
  case storPri | storSPri =>
    refine isAccessFault_of_guarded (isAccessFault_of_dataAddress _ _) fun a => ?_
    exact isAccessFault_of_guarded (isAccessFault_of_store _ _ _ _) fun _ => hNext _ _
  case pushPri | pushAlt | pushC | proc =>
    exact isAccessFault_of_guarded (isAccessFault_of_push _ _) fun _ => hNext _ _
  case popPri | popAlt =>
    exact isAccessFault_of_guarded (isAccessFault_of_pop _ _ _) fun _ => hNext _ _
  case call =>
    refine isAccessFault_of_guarded (isAccessFault_of_codeTarget _ _) fun a => ?_
    exact isAccessFault_of_guarded (isAccessFault_of_push _ _) fun _ => hNext _ _
  case ret =>
    refine isAccessFault_of_guarded (isAccessFault_of_pop _ _ _) fun a => ?_
    refine isAccessFault_of_guarded (isAccessFault_of_pop _ _ _) fun b e r' h => ?_
    dsimp only at h
    split at h
    · cases h
      exact .inl rfl
    · exact isAccessFault_of_guarded (isAccessFault_of_codeTarget _ _) (fun _ => hNext _ _) e r' h
  all_goals cases hOp

/-! ## The states that occur -/

/-- The states in which memory is accessed: on a context that the host holds, at every instruction
of every execution, and in the hands of the callbacks. The relation admits more than can happen,
such as an instruction on a context that nobody has entered. -/
inductive Occurs (emb : Embedder σ) (p : Program) (bytes : Nat) : Point σ → Prop
  | held {held : List Context} {c : Context} {w : World σ} :
      Reaches emb p bytes held w → c ∈ held → Occurs emb p bytes (c, w)
  | starts {entry : EntryPoint} {s t : Point σ} :
      Occurs emb p bytes s → start? entry s.1 s.2 = some t → Occurs emb p bytes t
  | next {fuel : Nat} {s : Point σ} {c : Context} {w : World σ} :
      Occurs emb p bytes s → step emb (exec emb fuel) s.1 s.2 = some (.continues c w) →
      Occurs emb p bytes (c, w)
  /-- What a native is given. -/
  | handed {s : Point σ} {regs : Registers} {index : Cell} :
      Occurs emb p bytes s → effectAt s = .native regs index →
      Occurs emb p bytes ({ s.1 with regs }, s.2.beginInstruction)
  /-- What a hook is given. -/
  | watched {s : Point σ} {regs : Registers} :
      Occurs emb p bytes s → effectAt s = .checkpoint regs →
      Occurs emb p bytes
        (withAbortHook { s.1 with regs } s.2.beginInstruction.region.abort, s.2.beginInstruction)
  /-- What the host or a callback makes of a context. -/
  | acts {fuel : Nat} {s t : Point σ} :
      Occurs emb p bytes s → Acts (exec emb fuel) s t → Occurs emb p bytes t

/-- Whatever occurs is laid out, with pointers that fit. -/
theorem Occurs.laid {emb : Embedder σ} (hEmb : emb.UsesInterface) {p : Program} {bytes : Nat}
    {s : Point σ} (h : Occurs emb p bytes s) :
    Laid p (layoutOf p bytes) (Fits (layoutOf p bytes)) s := by
  have hK := fits_bound p (layoutOf p bytes)
  induction h with
  | held hReaches hMem => exact hReaches.laid hEmb hK id _ hMem
  | starts _ hStart ih => exact start?_laid hK hStart ih
  | next _ hStep ih => exact step_laid hK hEmb (exec_laid hK hEmb _) hStep ih
  | handed _ hEffect ih => exact effect_laid hK ih (by rw [hEffect]; rfl)
  | watched _ hEffect ih => exact withAbortHook_laid _ (effect_laid hK ih (by rw [hEffect]; rfl))
  | acts _ hActs ih => exact hActs.keeps (laid_stable _ _ _) (exec_laid hK hEmb _) ih

/-- **Main theorem.** In every state that occurs, all accesses to memory are contained in the block:
those of the four operations, also after the first of the two pops of a return, and those of the
instruction that is executed there, which does not depend on anything behind the block, writes into
it, and fails with an access fault if it accesses memory and fails. -/
theorem occurs_contained {emb : Embedder σ} (hEmb : emb.UsesInterface) {p : Program} {bytes : Nat}
    {s : Point σ} (h : Occurs emb p bytes s) :
    let l := s.1.layout
    let m := s.2.region.memory
    let r := s.1.regs
    l.hlw = p.dataSize ∧ m.size = bytes / cellSize ∧
    Contained l m r ∧ (∀ value r', r.pop l m = .ok (value, r') → Contained l m r') ∧
    (∀ rest, effect s.1.program l (m ++ rest) r = effect s.1.program l m r) ∧
    (∀ r' store, effect s.1.program l m r = .next r' (some store) →
      store.address / cellSize < m.size) ∧
    (∀ op operand e r', decode s.1.program r.cip = .ok (op, operand) → op.accesses = true →
      effect s.1.program l m r = .fault e r' → e.IsAccessFault) := by
  obtain ⟨-, hLayout, hRegs, -, hBlock⟩ := h.laid hEmb
  dsimp only
  rw [hLayout]
  have hSize : s.2.region.memory.size = bytes / cellSize :=
    Nat.eq_of_mul_eq_mul_right (by decide) hBlock
  have hData : (layoutOf p bytes).hlw = p.data.size * cellSize := rfl
  refine ⟨rfl, hSize, contained_of_fits hRegs hBlock hData, ?_, ?_, ?_, ?_⟩
  · intro value r' hPop
    obtain ⟨hBelow, -, rfl⟩ := pop_ok hPop
    obtain ⟨hLow, hOrder, -⟩ := hRegs
    have hPopped : Fits (layoutOf p bytes) (s.1.regs.stk + cellSize) s.1.regs.hea :=
      ⟨hLow, by omega, by omega⟩
    exact contained_of_fits hPopped hBlock hData
  · intro rest
    exact effect_append hBlock rest s.1.program s.1.regs
  · intro r' store hEffect
    exact effect_store hBlock hRegs hEffect
  · intro op operand e r' hDecode hOp hEffect
    rw [effect_of_decode hDecode] at hEffect
    exact isAccessFault_of_effectOf hOp e r' hEffect

/-- A program that moves the stack pointer off the cells before it pushes and pops. -/
def offCells : Program where
  main := some 8
  code :=
    #[Opcode.halt.toCell, 0, Opcode.stack.toCell, -3, Opcode.pushC.toCell, 7,
      Opcode.popPri.toCell, Opcode.halt.toCell, 0]
  data := #[1]

/-- The program in a block of six cells, as it is laid out. -/
def offCellsAtRest : Context where
  program := offCells
  natives := []
  layout := ⟨4, 24⟩
  regs := { frm := 24, stk := 24, hea := 4 }
  resetStk := 24
  resetHea := 4

/-- The world of the program. -/
def offCellsWorld : World Unit where
  region := { memory := #[1, 0, 0, 0, 0, 0] }
  clock := .steady
  host := ()

/-- The state in which the program pops: its stack pointer is not the address of a cell. -/
def offCellsPopping : Point Unit :=
  ({ offCellsAtRest with
      regs := { pri := 0, alt := 17, cip := 24, frm := 24, stk := 13, hea := 4 } },
    { offCellsWorld with
      region := { memory := #[1, 0, 0, 7, 0, 0] }, interrupts := { started := 2 } })

theorem offCellsPopping_occurs :
    Occurs (Embedder.plain : Embedder Unit) offCells 24 offCellsPopping := by
  have hHeld : Occurs (Embedder.plain : Embedder Unit) offCells 24
      (offCellsAtRest, offCellsWorld) :=
    .held (.creates rfl rfl) (List.mem_singleton_self _)
  have hStart := Occurs.starts hHeld (show start? .main _ _ = some _ from rfl)
  have hMoved := Occurs.next hStart
    (show step .plain (exec .plain 0) _ _ = some (.continues _ _) from rfl)
  exact Occurs.next hMoved (show step .plain (exec .plain 0) _ _ = some (.continues _ _) from rfl)

/-- The pop reads the cell in which the stack pointer lies, and that is a cell of the block. -/
theorem occurs_contained_offCells :
    (Embedder.plain : Embedder Unit).UsesInterface ∧
    Occurs (Embedder.plain : Embedder Unit) offCells 24 offCellsPopping ∧
    offCellsPopping.2.region.memory.size = 24 / cellSize ∧
    Contained offCellsPopping.1.layout offCellsPopping.2.region.memory
      offCellsPopping.1.regs := by
  have hAll := occurs_contained Embedder.plain_usesInterface offCellsPopping_occurs
  exact ⟨Embedder.plain_usesInterface, offCellsPopping_occurs, hAll.2.1, hAll.2.2.1⟩

end CellHost
