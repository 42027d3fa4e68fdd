import CellHost.Proofs.Host.Interface

/-!
# Fittings

Executing a context moves its registers, its marks and its sleeping flag, and may put a hook on it.
The rest are its *fittings*: the program, the natives it is bound to, the layout of its memory and its
registry. No instruction touches them, so what holds of them before an execution holds after it, as
far as the host's own callbacks see to it.

## Main definitions

* `Fitting` : properties of a context that look at its fittings only.
* `Embedder.Leaves` : callbacks leave such a property in force.
* `Context.SameFittings` : two contexts with the same fittings.

## Main results

* `exec_leaves` : executions leave such properties in force.
-/

namespace CellHost

variable {σ : Type}

/-- A property of contexts looks at their fittings only. -/
def Fitting (P : Context → Prop) : Prop :=
  ∀ c regs resetStk resetHea sleeping hook, P c →
    P { c with regs, resetStk, resetHea, sleeping, hook }

/-- Callbacks leave a property of contexts in force, if the engine that they are given does. -/
structure Embedder.Leaves (emb : Embedder σ) (P : Context → Prop) : Prop where
  native : ∀ id (e : Engine σ) c w r c' w', e.Keeps (fun s => P s.1) →
    emb.native id e c w = some (r, c', w') → P c → P c'
  hook : ∀ id c w v c' w', emb.hook id c w = (v, c', w') → P c → P c'

theorem Embedder.plain_leaves (P : Context → Prop) : (Embedder.plain : Embedder σ).Leaves P where
  native := by
    intro id e c w r c' w' _ h hBefore
    cases h
    exact hBefore
  hook := by
    intro id c w v c' w' h hBefore
    cases h
    exact hBefore

/-- Two contexts with the same fittings. -/
structure Context.SameFittings (c c' : Context) : Prop where
  program : c'.program = c.program
  natives : c'.natives = c.natives
  layout : c'.layout = c.layout
  registry : c'.registry = c.registry

theorem Context.SameFittings.rfl {c : Context} : c.SameFittings c :=
  ⟨Eq.refl _, Eq.refl _, Eq.refl _, Eq.refl _⟩

theorem Context.sameFittings_fitting (c : Context) : Fitting c.SameFittings :=
  fun _ _ _ _ _ _ h => ⟨h.program, h.natives, h.layout, h.registry⟩

namespace Machine

variable {emb : Embedder σ} {P : Context → Prop}

theorem askHook_leaves (hP : Fitting P) (hEmb : emb.Leaves P) {c c' : Context} {w w' : World σ}
    {a : AbortState} {verdict : Checkpoint} (hBefore : P c)
    (h : askHook emb (withAbortHook c a) w = (verdict, c', w')) : P c' := by
  obtain ⟨hook, hWith⟩ := withAbortHook_eq c a
  have hHooked : P { c with hook } := hP c c.regs c.resetStk c.resetHea c.sleeping hook hBefore
  rw [hWith] at h
  unfold askHook at h
  split at h
  · cases h
    exact hHooked
  · cases h
    exact hHooked
  · exact hEmb.hook _ _ _ _ _ _ h hHooked

/-- No step touches the fittings. -/
theorem step_leaves (hP : Fitting P) (hEmb : emb.Leaves P) {engine : Engine σ}
    (hEngine : engine.Keeps fun s => P s.1) {s : Point σ} {p : Progress σ}
    (h : step emb engine s.1 s.2 = some p) (hBefore : P s.1) : P p.point.1 := by
  have hMoved : ∀ regs, P { s.1 with regs } := fun regs =>
    hP s.1 regs s.1.resetStk s.1.resetHea s.1.sleeping s.1.hook hBefore
  cases stepped_of_step h with
  | next _ => exact hMoved _
  | halt _ => exact hBefore
  | sleep _ => exact hMoved _
  | fault _ => exact hMoved _
  | unbound _ _ => exact hMoved _
  | @native regs _ native answer c w _ _ hAnswer =>
      have hLeft : P c := by
        unfold nativeAnswer at hAnswer
        split at hAnswer
        · exact hEmb.native _ _ _ _ _ _ _ hEngine hAnswer (hMoved regs)
        · cases hAnswer
          exact hMoved regs
      have hEnd : ∀ regs, P { c with regs } := fun regs =>
        hP c regs c.resetStk c.resetHea c.sleeping c.hook hLeft
      cases answer with
      | ok value => exact hEnd _
      | error e => exact hEnd _
  | proceed _ hAsk => exact askHook_leaves hP hEmb (hMoved _) hAsk
  | @abort _ c _ _ hAsk =>
      have hLeft : P c := askHook_leaves hP hEmb (hMoved _) hAsk
      exact hP c _ c.resetStk c.resetHea c.sleeping c.hook hLeft

/-- **Executions leave the fittings alone.** -/
theorem exec_leaves (hP : Fitting P) (hEmb : emb.Leaves P) (fuel : Nat) :
    (exec emb fuel).Keeps fun s => P s.1 := by
  have hPreserves : Preserves emb fun s => P s.1 := {
    steps := fun engine s r hEngine hStep hBefore => step_leaves hP hEmb hEngine hStep hBefore
    starts := by
      intro entry c w s hStart hBefore
      rcases start?_eq_some hStart with ⟨-, -, rfl⟩ | ⟨-, address, hAt⟩
      · exact hP c _ _ _ _ _ hBefore
      · obtain ⟨-, rfl⟩ := enterAt?_eq_some hAt
        exact hP c _ _ _ _ _ hBefore
    refuses := by
      intro entry c w hBefore
      rcases refusal_eq entry c with hSame | hMarked
      · rw [hSame]
        exact hBefore
      · rw [hMarked]
        exact hP c _ _ _ _ _ hBefore
    settles := by
      intro entry c w pause c' w' _ hEnd
      cases pause with
      | returned value => cases entry <;> exact hP c' _ _ _ _ _ hEnd
      | slept delay => exact hP c' _ _ _ _ _ hEnd
      | faulted e => exact hEnd }
  exact hPreserves.keeps_exec fuel

end Machine

end CellHost
