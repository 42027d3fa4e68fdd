import CellHost.Proofs.Host.Occurrence
import CellHost.Proofs.Machine.Frames

/-!
# Pointers at cells

Memory is guarded by address and accessed by cell, so how the two fit together depends on whether
the stack pointer and the heap pointer are addresses of cells. They are in every state that occurs,
if the stack and the heap are only ever moved by whole cells. What is asked of a program is asked of
the instructions that it comes to execute, and not of cells of its code that merely look like one;
a check of all its code cells is enough.

## Main definitions

* `MovesCells` : the instructions that occur move the stack and the heap by whole cells.
* `Context.OnCells` : pointers and marks are addresses of cells.

## Main results

* `movesCells_of_check` : the check of all code cells.
* `Occurs.onCells` : pointers and marks are addresses of cells in every state that occurs.
-/

namespace CellHost

open Machine Instruction

variable {σ : Type}

/-- An instruction that moves the stack or the heap moves it by whole cells. -/
def WholeMove (op : Opcode) (operand : Cell) : Prop :=
  op = .stack ∨ op = .heap → (cellSize : Int) ∣ operand.toInt

instance (op : Opcode) (operand : Cell) : Decidable (WholeMove op operand) :=
  inferInstanceAs (Decidable (_ → _))

/-- Wherever an instruction of a program moves the stack or the heap, it moves it by whole cells. -/
def MovesCells (emb : Embedder σ) (p : Program) (bytes : Nat) : Prop :=
  ∀ s, Occurs emb p bytes s → ∀ op operand, decode p s.1.regs.cip = .ok (op, operand) →
    WholeMove op operand

/-- Every code cell, taken for the start of an instruction, moves stack and heap by whole cells. -/
def Program.movesCells (p : Program) : Bool :=
  (List.range p.code.size).all fun i =>
    match decode p (i * cellSize) with
    | .ok (op, operand) => decide (WholeMove op operand)
    | .error _ => true

theorem movesCells_of_check {emb : Embedder σ} {p : Program} {bytes : Nat}
    (h : p.movesCells = true) : MovesCells emb p bytes := by
  intro s _ op operand hDecode
  have hWhole := (decode_within hDecode).1
  have hInside : s.1.regs.cip / cellSize < p.code.size :=
    (Nat.div_lt_iff_lt_mul (by decide)).mpr (lt_codeSize_of_decode hDecode)
  have hCell : s.1.regs.cip / cellSize * cellSize = s.1.regs.cip :=
    Nat.div_mul_cancel (Nat.dvd_of_mod_eq_zero hWhole)
  have hAt := List.all_eq_true.mp h _ (List.mem_range.mpr hInside)
  rw [hCell, hDecode] at hAt
  exact of_decide_eq_true hAt

/-- The pointers and the marks of a context are addresses of cells. -/
structure Context.OnCells (c : Context) : Prop where
  stk : cellSize ∣ c.regs.stk
  hea : cellSize ∣ c.regs.hea
  markStk : cellSize ∣ c.resetStk
  markHea : cellSize ∣ c.resetHea

/-- A host can do nothing about where the pointers are. -/
theorem onCells_stable : Stable (fun s : Point σ => s.1.OnCells) where
  assigns := fun _ _ _ _ h => ⟨h.stk, h.hea, h.markStk, h.markHea⟩
  equips := fun _ _ _ _ _ h => ⟨h.stk, h.hea, h.markStk, h.markHea⟩
  world := fun _ _ _ _ h => h
  aside := fun _ _ _ _ h _ => h

/-! ## Instructions -/

/-- A number a whole number of cells away from an address of a cell is one. -/
theorem dvd_of_displace? {base address : Nat} {offset : Cell} (hBase : cellSize ∣ base)
    (hOffset : (cellSize : Int) ∣ offset.toInt) (h : Cell.displace? base offset = some address) :
    cellSize ∣ address := by
  have hMoved := displace?_eq_some h
  rw [show cellSize = 4 from rfl] at hBase hOffset ⊢
  omega

/-- An instruction that moves by whole cells leaves the pointers at cells, also if it fails. -/
theorem dvd_of_effect {p : Program} {l : Layout} {m : Memory} {r r' : Registers}
    (hMove : ∀ op operand, decode p r.cip = .ok (op, operand) → WholeMove op operand)
    (h : (effect p l m r).regs? = some r') (hStk : cellSize ∣ r.stk) (hHea : cellSize ∣ r.hea) :
    cellSize ∣ r'.stk ∧ cellSize ∣ r'.hea := by
  have hCell : cellSize = 4 := rfl
  rcases shift_of_effect h with ⟨op, operand, store, hDecode, hShift⟩ | ⟨hSame, hSame'⟩ |
    ⟨cells, -, hPopped, hSame⟩
  · have hWhole := hMove op operand hDecode
    cases hShift with
    | stays hSame hSame' _ _ => rw [hSame, hSame']; exact ⟨hStk, hHea⟩
    | stores _ _ hSame hSame' _ => rw [hSame, hSame']; exact ⟨hStk, hHea⟩
    | pushes _ _ hPushed hSame _ =>
        rw [hPushed, hSame]
        exact ⟨Nat.dvd_sub hStk (Nat.dvd_refl _), hHea⟩
    | pops cells _ _ hPopped hSame =>
        rw [hPopped, hSame]
        exact ⟨Nat.dvd_add hStk (Nat.dvd_mul_left _ _), hHea⟩
    | movesStack hOp hMoved _ _ hSame =>
        rw [hSame]
        exact ⟨dvd_of_displace? hStk (hWhole (.inl hOp)) hMoved, hHea⟩
    | movesHeap hOp hMoved _ _ hSame =>
        rw [hSame]
        exact ⟨hStk, dvd_of_displace? hHea (hWhole (.inr hOp)) hMoved⟩
  · rw [hSame, hSame']
    exact ⟨hStk, hHea⟩
  · rw [hPopped, hSame]
    exact ⟨Nat.dvd_add hStk (Nat.dvd_mul_left _ _), hHea⟩

/-! ## What occurs -/

section Occurring

variable {emb : Embedder σ} {p : Program} {bytes : Nat}

/-- A fresh context is at cells: its data and its block are made of them. -/
theorem Fresh.onCells {c : Context} {m : Memory} (h : Fresh p bytes c m) : c.OnCells := by
  have hTop : cellSize ∣ (layoutOf p bytes).stp := Nat.dvd_mul_left _ _
  have hData : cellSize ∣ (layoutOf p bytes).hlw := Nat.dvd_mul_left _ _
  exact ⟨h.stk ▸ hTop, h.hea ▸ hData, h.markStk ▸ hTop, h.markHea ▸ hData⟩

/-- An execution starts at cells. -/
theorem start?_onCells {entry : EntryPoint} {c : Context} {w : World σ} {s : Point σ}
    (h : start? entry c w = some s) (hc : c.OnCells) : s.1.OnCells := by
  rcases start?_eq_some h with ⟨-, -, rfl⟩ | ⟨-, address, hAt⟩
  · exact ⟨hc.stk, hc.hea, hc.markStk, hc.markHea⟩
  · obtain ⟨-, rfl⟩ := enterAt?_eq_some hAt
    exact ⟨Nat.dvd_sub hc.stk (Nat.dvd_refl _), hc.hea, hc.stk, hc.hea⟩

theorem refusal_onCells {entry : EntryPoint} {c : Context} (hc : c.OnCells) :
    (refusal entry c).2.OnCells := by
  rcases refusal_eq entry c with hSame | hMarked
  · rw [hSame]
    exact hc
  · rw [hMarked]
    exact ⟨hc.stk, hc.hea, hc.stk, hc.hea⟩

theorem settle_onCells {entry : EntryPoint} {c c' : Context} (pause : Pause) (hc : c.OnCells)
    (h : c'.OnCells) : (settle (place entry c) pause c').2.OnCells := by
  cases pause with
  | returned value =>
      cases entry with
      | resume => exact ⟨h.markStk, h.markHea, h.markStk, h.markHea⟩
      | main => exact ⟨h.markStk, h.markHea, hc.markStk, hc.markHea⟩
      | function index => exact ⟨h.markStk, h.markHea, hc.markStk, hc.markHea⟩
  | slept delay => exact ⟨h.stk, h.hea, h.markStk, h.markHea⟩
  | faulted e => exact h

variable (hEmb : emb.UsesInterface) (hCells : MovesCells emb p bytes)
include hEmb hCells

/-- The registers that an instruction leaves are at cells if it occurs at cells. -/
theorem effect_onCells {s : Point σ} {regs : Registers} (hOccurs : Occurs emb p bytes s)
    (hs : s.1.OnCells) (h : (effectAt s).regs? = some regs) :
    ({ s.1 with regs } : Context).OnCells := by
  have hMove := hCells s hOccurs
  rw [← (hOccurs.laid hEmb).program] at hMove
  obtain ⟨hStk, hHea⟩ := dvd_of_effect hMove h hs.stk hs.hea
  exact ⟨hStk, hHea, hs.markStk, hs.markHea⟩

theorem onCells_inherited : Inherited emb p bytes Context.OnCells where
  creates := fun _ _ h => (create_fresh h).onCells
  stable := onCells_stable
  rewinds := fun _ _ h => ⟨h.stk, h.hea, h.markStk, h.markHea⟩
  effect := fun _ _ hOccurs hs h => effect_onCells hEmb hCells hOccurs hs h
  starts := fun _ _ _ _ h hc => start?_onCells h hc
  refuses := fun _ _ hc => refusal_onCells hc
  settles := fun _ _ pause _ hc h => settle_onCells pause hc h

/-- **In every state that occurs, the pointers and the marks are addresses of cells.** -/
theorem Occurs.onCells {s : Point σ} (h : Occurs emb p bytes s) : s.1.OnCells :=
  (onCells_inherited hEmb hCells).occurs hEmb h

end Occurring

end CellHost
