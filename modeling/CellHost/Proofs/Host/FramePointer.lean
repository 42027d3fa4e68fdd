import CellHost.Proofs.Host.Occurrence
import CellHost.Proofs.Machine.Frames

/-!
# Where the frame pointer is

The frame pointer is not checked when it is set. It starts at the end of the block, the start of a
frame takes it to the cell that it pushes, and a return takes it to whatever address the saved cell
denotes. So it lies in the block, or at its end, or is an address that a cell can hold.

## Main results

* `frm_of_effect` : what an instruction can do to the frame pointer.
* `Occurs.frm_le` : a bound on the frame pointer in every state that occurs.
-/

namespace CellHost

open Machine Instruction

variable {σ : Type} {emb : Embedder σ} {p : Program} {bytes : Nat}

/-- The frame pointer that an effect leaves is the one that it finds, one that was kept in a cell,
or the address of the cell below the stack pointer. -/
theorem frm_of_effect {p : Program} {l : Layout} {m : Memory} {r r' : Registers}
    (h : (effect p l m r).regs? = some r') :
    r'.frm = r.frm ∨ r'.frm ≤ Cell.maxValue ∨ r'.frm + cellSize = r.stk := by
  cases hEffect : effect p l m r with
  | next regs store =>
      rw [hEffect] at h
      cases h
      obtain ⟨op, operand, -, hOf⟩ := decode_of_effect hEffect (fun _ h => by cases h)
      by_cases hProc : op = .proc
      · subst hProc
        obtain ⟨hRoom, rfl, -⟩ := effectOf_proc hOf
        exact .inr (.inr (Nat.sub_add_cancel (Nat.le_of_add_left_le hRoom)))
      by_cases hRet : op = .ret
      · subst hRet
        exact .inr (.inl (frm_of_ret hOf))
      exact .inl (effectOf_frm hOf hProc hRet)
  | halt value =>
      rw [hEffect] at h
      cases h
  | sleep regs =>
      rw [hEffect] at h
      cases h
      obtain ⟨op, operand, -, hOf⟩ := decode_of_effect hEffect (fun _ h => by cases h)
      rw [(effectOf_sleep hOf).2]
      exact .inl rfl
  | native regs index =>
      rw [hEffect] at h
      cases h
      obtain ⟨op, operand, -, hOf⟩ := decode_of_effect hEffect (fun _ h => by cases h)
      rw [(effectOf_native hOf).2.1]
      exact .inl rfl
  | checkpoint regs =>
      rw [hEffect] at h
      cases h
      obtain ⟨op, operand, -, hOf⟩ := decode_of_effect hEffect (fun _ h => by cases h)
      rw [(effectOf_checkpoint hOf).2]
      exact .inl rfl
  | fault e regs =>
      rw [hEffect] at h
      cases h
      rcases effect_fault hEffect with ⟨rfl, -⟩ | ⟨-, -, hFailed⟩
      · exact .inl rfl
      · cases hFailed with
        | noFrame _ => exact .inl rfl
        | noAddress _ _ => exact .inl rfl
        | badFrame _ _ => exact .inl rfl
        | badAddress _ hFrame _ => exact .inr (.inl (Cell.toAddress?_le hFrame))

/-- The frame pointer of a context lies in the block, or at its end, or fits in a cell. -/
def Context.FrameWithin (p : Program) (bytes : Nat) (c : Context) : Prop :=
  c.regs.frm ≤ max (layoutOf p bytes).stp Cell.maxValue

theorem frameWithin_stable :
    Stable (fun s : Point σ => s.1.FrameWithin p bytes) where
  assigns := fun _ _ _ _ h => h
  equips := fun _ _ _ _ _ h => h
  world := fun _ _ _ _ h => h
  aside := fun _ _ _ _ h _ => h

/-- The registers of a new context: an empty stack, with the frame pointer at its end. -/
theorem create_regs {c : Context} {m : Memory} (h : Context.create p bytes = .ok (c, m)) :
    c.regs = {
      frm := (layoutOf p bytes).stp, stk := (layoutOf p bytes).stp,
      hea := (layoutOf p bytes).hlw } := by
  obtain ⟨-, -, hLaidOut⟩ := Context.create_eq_ok h
  obtain ⟨rfl, -⟩ := Prod.mk.inj hLaidOut
  rfl

theorem effect_frameWithin (hEmb : emb.UsesInterface) {s : Point σ} {regs : Registers}
    (hOccurs : Occurs emb p bytes s) (hs : s.1.FrameWithin p bytes)
    (h : (effectAt s).regs? = some regs) :
    ({ s.1 with regs } : Context).FrameWithin p bytes := by
  have hHigh := (hOccurs.laid hEmb).regs.high
  unfold Context.FrameWithin at hs
  show regs.frm ≤ max (layoutOf p bytes).stp Cell.maxValue
  rcases frm_of_effect h with hSame | hFits | hPushed <;> omega

theorem start?_frm {entry : EntryPoint} {c : Context} {w : World σ} {s : Point σ}
    (h : start? entry c w = some s) : s.1.regs.frm = c.regs.frm := by
  rcases start?_eq_some h with ⟨-, -, rfl⟩ | ⟨-, address, hAt⟩
  · rfl
  · obtain ⟨-, rfl⟩ := enterAt?_eq_some hAt
    rfl

theorem refusal_frm (entry : EntryPoint) (c : Context) :
    (refusal entry c).2.regs.frm = c.regs.frm := by
  rcases refusal_eq entry c with hSame | hMarked
  · rw [hSame]
  · rw [hMarked]
    rfl

theorem frameWithin_inherited (hEmb : emb.UsesInterface) :
    Inherited emb p bytes (Context.FrameWithin p bytes) where
  creates := fun _ _ h => by
    unfold Context.FrameWithin
    rw [create_regs h]
    exact Nat.le_max_left _ _
  stable := frameWithin_stable
  rewinds := fun _ _ h => h
  effect := fun _ _ hOccurs hs h => effect_frameWithin hEmb hOccurs hs h
  starts := fun _ _ _ _ h hc => by
    unfold Context.FrameWithin at hc ⊢
    rwa [start?_frm h]
  refuses := fun entry c hc => by
    unfold Context.FrameWithin at hc ⊢
    rwa [refusal_frm]
  settles := fun _ _ _ _ _ h => by
    unfold Context.FrameWithin at h ⊢
    rwa [settle_frm]

/-- **In every state that occurs** the frame pointer lies in the block, or at its end, or fits in a
cell. -/
theorem Occurs.frm_le (hEmb : emb.UsesInterface) {s : Point σ} (h : Occurs emb p bytes s) :
    s.1.regs.frm ≤ max (layoutOf p bytes).stp Cell.maxValue :=
  (frameWithin_inherited hEmb).occurs hEmb h

end CellHost
