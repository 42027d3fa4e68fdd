import CellHost.Proofs.Driver.Contexts
import CellHost.Proofs.Machine.Fittings

/-!
# Imports that are bound stay bound

Natives are bound by name and never taken away, and a snapshot has the bindings of its original. So
once every import of a program has its native, no native call with an index inside the import table
fails for want of one: not on the context, not on snapshots of it, and not on what a callback is given
while code runs.

## Main definitions

* `Context.Becomes` : what can become of a context in the hands of a host.
* `Embedder.UsesContexts` : callbacks do no more with contexts than that.
* `Yields` : the contexts that come of executing one.
* `Context.Binds` : every import of a program is bound.

## Main results

* `Context.Binds.becomes` : whatever becomes of such a context, its imports are bound.
* `Context.Binds.native?` : its native calls find their natives.
-/

namespace CellHost

open Machine

variable {σ : Type}

/-! ## What a host does with contexts -/

/-- What can become of a context in the hands of a host, the world around it aside. What comes of
executing code is left open. -/
inductive Context.Becomes (executes : Context → Context → Prop) : Context → Context → Prop
  | rests (c : Context) : Becomes executes c c
  | follows {c c₁ c₂ : Context} :
      Becomes executes c c₁ → Becomes executes c₁ c₂ → Becomes executes c c₂
  | snapshots (c : Context) : Becomes executes c c.snapshot
  | assigns (c : Context) (pri alt : Cell) :
      Becomes executes c { c with regs.pri := pri, regs.alt := alt }
  | binds (c : Context) (table : List (String × Native)) :
      Becomes executes c (c.bindNatives table)
  | equips (c : Context) (registry : Registry Entry) (hook : Option Hook) :
      Becomes executes c { c with registry, hook }
  | executes {c c' : Context} : executes c c' → Becomes executes c c'

/-- An engine turns one context into another. -/
def Engine.Leads (engine : Engine σ) (c c' : Context) : Prop :=
  ∃ entry w outcome w', engine entry c w = some (outcome, c', w')

/-- Callbacks do no more with the contexts that they are given than a host can. -/
structure Embedder.UsesContexts (emb : Embedder σ) : Prop where
  native : ∀ id (e : Engine σ) c w r c' w',
    emb.native id e c w = some (r, c', w') → c.Becomes e.Leads c'
  hook : ∀ id c w v c' w', emb.hook id c w = (v, c', w') → c.Becomes (fun _ _ => False) c'
  idle : ∀ id (e : Engine σ) c w status c' w',
    emb.idle id e c w = some (status, c', w') → c.Becomes e.Leads c'

theorem Embedder.plain_usesContexts : (Embedder.plain : Embedder σ).UsesContexts where
  native := by
    intro id e c w r c' w' h
    cases h
    exact .rests c
  hook := by
    intro id c w v c' w' h
    cases h
    exact .rests c
  idle := by
    intro id e c w status c' w' h
    cases h
    exact .rests c

/-- The contexts that come of executing a context: what an execution or a call of the idle function
leaves, and what callbacks are given on the way. -/
inductive Yields (emb : Embedder σ) : Context → Context → Prop
  | ends {fuel : Nat} {entry : EntryPoint} {c c' : Context} {w w' : World σ} {outcome : Outcome} :
      exec emb fuel entry c w = some (outcome, c', w') → Yields emb c c'
  | idles {fuel : Nat} {f : IdleFunction} {c c' : Context} {w w' : World σ} {status : IdleStatus} :
      f.invoke emb (exec emb fuel) c w = some (status, c', w') → Yields emb c c'
  | passes {fuel : Nat} {entry : EntryPoint} {c : Context} {w : World σ} {t : Point σ}
      (regs : Registers) :
      t ∈ states (stepper emb) fuel entry c w → Yields emb c { t.1 with regs }

/-! ## Properties of the fittings -/

section Leaves

variable {P : Context → Prop}

/-- A property of the fittings that binding natives and editing the registry leave in force. -/
structure Firm (P : Context → Prop) : Prop where
  fitting : Fitting P
  binds : ∀ c table, P c → P (c.bindNatives table)
  equips : ∀ c registry, P c → P { c with registry }

theorem Context.Becomes.keeps {executes : Context → Context → Prop} {c c' : Context}
    (h : c.Becomes executes c') (hP : Firm P) (hExec : ∀ c c', executes c c' → P c → P c')
    (hc : P c) : P c' := by
  induction h with
  | rests c => exact hc
  | follows _ _ ih ih' => exact ih' (ih hc)
  | snapshots c => exact hc
  | assigns c pri alt => exact hP.fitting c _ _ _ _ _ hc
  | binds c table => exact hP.binds c table hc
  | equips c registry hook =>
      exact hP.fitting { c with registry } c.regs _ _ _ hook (hP.equips c registry hc)
  | executes hExecutes => exact hExec _ _ hExecutes hc

/-- What executions keep, the contexts that an engine leads to have. -/
theorem Engine.Leads.keeps {engine : Engine σ} (hEngine : engine.Keeps fun s => P s.1)
    {c c' : Context} (h : engine.Leads c c') (hc : P c) : P c' := by
  obtain ⟨entry, w, outcome, w', hExec⟩ := h
  exact hEngine entry c w outcome c' w' hExec hc

theorem Embedder.UsesContexts.leaves {emb : Embedder σ} (hEmb : emb.UsesContexts) (hP : Firm P) :
    emb.Leaves P where
  native id e c w r c' w' hEngine h hc :=
    (hEmb.native id e c w r c' w' h).keeps hP (fun _ _ hLeads => hLeads.keeps hEngine) hc
  hook id c w v c' w' h hc :=
    (hEmb.hook id c w v c' w' h).keeps hP (fun _ _ hNever => hNever.elim) hc

variable {emb : Embedder σ} (hEmb : emb.UsesContexts) (hP : Firm P)
include hEmb hP

theorem states_leave {fuel : Nat} {entry : EntryPoint} {c : Context} {w : World σ} (hc : P c) :
    ∀ t ∈ states (stepper emb) fuel entry c w, P t.1 := by
  have hLeaves : emb.Leaves P := hEmb.leaves hP
  unfold states
  split
  next s hStart =>
    have hFirst : P s.1 := by
      rcases start?_eq_some hStart with ⟨-, -, rfl⟩ | ⟨-, address, hAt⟩
      · exact hP.fitting c _ _ _ _ _ hc
      · obtain ⟨-, rfl⟩ := enterAt?_eq_some hAt
        exact hP.fitting c _ _ _ _ _ hc
    exact visited_keeps (P := fun s => P s.1)
      (fun n s p hMove => step_leaves hP.fitting hLeaves (exec_leaves hP.fitting hLeaves n) hMove)
      hFirst
  next => exact List.forall_mem_nil _

/-- What comes of executing a context with such a property has it as well. -/
theorem Yields.keeps {c c' : Context} (h : Yields emb c c') (hc : P c) : P c' := by
  have hExec (fuel : Nat) : (exec emb fuel).Keeps fun s => P s.1 :=
    exec_leaves hP.fitting (hEmb.leaves hP) fuel
  cases h with
  | ends h => exact hExec _ _ _ _ _ _ _ h hc
  | @idles fuel f _ _ w w' status h =>
      cases f with
      | timer => exact Driver.timerIdle_keeps (hExec fuel) h hc
      | custom id =>
          have hBecomes := hEmb.idle id _ _ _ _ _ _ h
          exact hBecomes.keeps hP (fun _ _ hLeads => hLeads.keeps (hExec fuel)) hc
  | passes regs ht => exact hP.fitting _ regs _ _ _ _ (states_leave hEmb hP hc _ ht)

end Leaves

/-! ## Bound imports -/

/-- The context is one of the program, and every import of the program is bound. -/
structure Context.Binds (p : Program) (c : Context) : Prop where
  program : c.program = p
  bound : ∀ i < p.natives.length, ∃ native, c.natives[i]? = some (some native)

/-- Binding natives leaves none without one. -/
theorem Context.Binds.bindNatives {p : Program} {c : Context} (h : c.Binds p)
    (table : List (String × Native)) : (c.bindNatives table).Binds p := by
  refine ⟨h.program, fun i hi => ?_⟩
  obtain ⟨native, hBound⟩ := h.bound i hi
  rw [Context.bindNatives, List.getElem?_zipWith, hBound, h.program, List.getElem?_eq_getElem hi]
  cases hLookup : table.lookup p.natives[i] with
  | none => exact ⟨native, by simp [hLookup]⟩
  | some other => exact ⟨other, by simp [hLookup]⟩

theorem binds_firm (p : Program) : Firm (Context.Binds p) where
  fitting _ _ _ _ _ _ h := ⟨h.program, h.bound⟩
  binds _ table h := h.bindNatives table
  equips _ _ h := ⟨h.program, h.bound⟩

/-- **Whatever becomes of a context, imports that are bound stay bound.** -/
theorem Context.Binds.becomes {emb : Embedder σ} (hEmb : emb.UsesContexts) {p : Program}
    {c c' : Context} (h : c.Binds p) (hBecomes : c.Becomes (Yields emb) c') : c'.Binds p :=
  hBecomes.keeps (binds_firm p) (fun _ _ hYields => hYields.keeps hEmb (binds_firm p)) h

/-- A native call with an index inside the import table finds its native. -/
theorem Context.Binds.native? {p : Program} {c : Context} (h : c.Binds p) {index : Cell} {i : Nat}
    (hIndex : Cell.toAddress? index = some i) (hi : i < p.natives.length) :
    ∃ native, c.native? index = some native := by
  obtain ⟨native, hBound⟩ := h.bound i hi
  refine ⟨native, ?_⟩
  rw [Context.native?, hIndex]
  simp [hBound]

/-! ## Natives of the extensions -/

/-- No native of the extensions fails as one does that is not there. -/
theorem Native.call_ne_noCallback {native : Native} (hBuiltIn : ∀ id, native ≠ .custom id)
    (c : Context) (w : World σ) : (native.call c w).1 ≠ .error .noCallback := by
  have hTimer (step : Nat → Except MachineError Cell × World σ)
      (hStep : ∀ ref, (step ref).1 ≠ .error .noCallback) :
      (withTimer c w step).1 ≠ .error .noCallback := by
    unfold withTimer
    split
    · exact nofun
    · exact hStep _
  cases native with
  | custom id => exact absurd rfl (hBuiltIn id)
  | print => exact nofun
  | tickCount => exact nofun
  | argumentCount => exact nofun
  | printChar =>
      unfold call
      dsimp only
      split <;> exact nofun
  | delay =>
      unfold call
      dsimp only
      split <;> exact nofun
  | argument =>
      unfold call callArgument
      dsimp only
      split <;> exact nofun
  | setTimer =>
      unfold call callSetTimer
      dsimp only
      split
      · exact nofun
      · refine hTimer _ fun ref => ?_
        split <;> exact nofun
  | getTimer => exact hTimer _ fun ref => nofun
  | killTimer => exact hTimer _ fun ref => nofun

/-- A native call that finds a native of the extensions does not fail as one does that finds none. -/
theorem step_ne_noCallback {emb : Embedder σ} {engine : Engine σ} {t : Point σ} {regs : Registers}
    {index : Cell} {native : Native} (hEffect : effectAt t = .native regs index)
    (hFound : t.1.native? index = some native) (hBuiltIn : ∀ id, native ≠ .custom id)
    {progress : Progress σ} (hStep : step emb engine t.1 t.2 = some progress) (c : Context)
    (w : World σ) : progress ≠ .pauses (.faulted .noCallback) c w := by
  cases stepped_of_step hStep with
  | next h => cases hEffect.symm.trans h
  | halt h => cases hEffect.symm.trans h
  | sleep h => cases hEffect.symm.trans h
  | fault h => cases hEffect.symm.trans h
  | proceed h => cases hEffect.symm.trans h
  | abort h => cases hEffect.symm.trans h
  | unbound h hNone =>
      cases hEffect.symm.trans h
      cases hFound.symm.trans hNone
  | @native _ _ _ answer _ _ h hSome hAnswer =>
      cases hEffect.symm.trans h
      cases hFound.symm.trans hSome
      have hCall : (native.call { t.1 with regs } t.2.beginInstruction).1 = answer := by
        cases native with
        | custom id => exact absurd rfl (hBuiltIn id)
        | _ => cases hAnswer; rfl
      cases answer with
      | ok value => exact nofun
      | error e =>
          intro hFault
          cases hFault
          exact Native.call_ne_noCallback hBuiltIn _ _ hCall

end CellHost
