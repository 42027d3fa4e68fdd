import CellHost.Proofs.Machine.Callbacks
import CellHost.Proofs.Machine.Step
import CellHost.Proofs.Machine.Start

/-!
# What a host can do

A host owns contexts, and its callbacks are given contexts while a program runs. Neither sees the
stack pointer or the heap pointer of a context except to read them: what they can do is what the
interface of a context offers, namely set the two argument registers, bind natives, edit the
registry, install a hook, write accessible cells, execute, and take snapshots. `Acts` is the
relation that this interface spans.

## Main definitions

* `Acts` : what can become of a context through its interface.
* `Embedder.UsesInterface` : callbacks do no more than that.
* `Reaches` : the contexts a host can come to hold.
* `Engine.Keeps`, `Stable` : properties that executions, and the rest of the interface, leave in
  force.

* `Machine.Preserves` : what has to be shown of a property for executions to do so.

## Main results

* `Acts.keeps` : the interface leaves a stable property in force if executions do.
* `Machine.Preserves.keeps_exec` : executions leave a property in force if steps do.
-/

namespace CellHost

variable {σ : Type}

/-- What can become of a context, and of the world around it, through the interface of contexts.
Code is executed by `engine`. -/
inductive Acts (engine : Engine σ) : Machine.Point σ → Machine.Point σ → Prop
  | rests (s : Machine.Point σ) : Acts engine s s
  | follows {s t u : Machine.Point σ} : Acts engine s t → Acts engine t u → Acts engine s u
  | assigns (c : Context) (w : World σ) (pri alt : Cell) :
      Acts engine (c, w) ({ c with regs.pri := pri, regs.alt := alt }, w)
  | equips (c : Context) (w : World σ) (natives : List (Option Native)) (registry : Registry Entry)
      (hook : Option Hook) :
      Acts engine (c, w) ({ c with natives, registry, hook }, w)
  | writes {c : Context} {w : World σ} {address : Nat} {value : Cell} {m : Memory} :
      c.write w.region.memory address value = .ok m →
      Acts engine (c, w) (c, { w with region.memory := m })
  /-- Whatever happens in the world, short of a write to this memory. -/
  | elsewhere {c : Context} {w w' : World σ} :
      w'.region.memory = w.region.memory → Acts engine (c, w) (c, w')
  | executes {entry : EntryPoint} {c c' : Context} {w w' : World σ} {outcome : Outcome} :
      engine entry c w = some (outcome, c', w') → Acts engine (c, w) (c', w')
  /-- What is done to a snapshot stays with the snapshot, except for the world. -/
  | aside {c c' : Context} {w w' : World σ} :
      Acts engine (c.snapshot, w) (c', w') → Acts engine (c, w) (c, w')

/-- Callbacks act on the context they are given through its interface. -/
structure Embedder.UsesInterface (emb : Embedder σ) : Prop where
  native : ∀ id (e : Engine σ) c w r c' w',
    emb.native id e c w = some (r, c', w') → Acts e (c, w) (c', w')
  hook : ∀ id c w v c' w',
    emb.hook id c w = (v, c', w') → Acts (fun _ _ _ => none) (c, w) (c', w')

theorem Embedder.plain_usesInterface : (Embedder.plain : Embedder σ).UsesInterface where
  native := by
    intro id e c w r c' w' h
    cases h
    exact .rests (c, w)
  hook := by
    intro id c w v c' w' h
    cases h
    exact .rests (c, w)

/-- The contexts that a host can come to hold of a program in a block of so many bytes, with the
world they share: a context that was laid out, its snapshots, and what becomes of each of them. -/
inductive Reaches (emb : Embedder σ) (p : Program) (bytes : Nat) :
    List Context → World σ → Prop
  | creates {c : Context} {m : Memory} {w : World σ} :
      Context.create p bytes = .ok (c, m) → w.region.memory = m → Reaches emb p bytes [c] w
  | snapshots {held : List Context} {w : World σ} {c : Context} :
      Reaches emb p bytes held w → c ∈ held → Reaches emb p bytes (c.snapshot :: held) w
  | acts {held : List Context} {w w' : World σ} {i fuel : Nat} {c c' : Context} :
      Reaches emb p bytes held w → held[i]? = some c →
      Acts (Machine.exec emb fuel) (c, w) (c', w') → Reaches emb p bytes (held.set i c') w'

/-- A context that the host can come to hold, in a world in which it holds it. -/
def Holds (emb : Embedder σ) (p : Program) (bytes : Nat) (s : Machine.Point σ) : Prop :=
  ∃ held, Reaches emb p bytes held s.2 ∧ s.1 ∈ held

theorem Holds.acts {emb : Embedder σ} {p : Program} {bytes fuel : Nat} {s t : Machine.Point σ}
    (h : Holds emb p bytes s) (hActs : Acts (Machine.exec emb fuel) s t) : Holds emb p bytes t := by
  obtain ⟨held, hReaches, hMem⟩ := h
  obtain ⟨i, hi, hAt⟩ := List.mem_iff_getElem.mp hMem
  have hFound : held[i]? = some s.1 := by
    rw [List.getElem?_eq_getElem hi, hAt]
  exact ⟨held.set i t.1, hReaches.acts hFound hActs, List.mem_set hi t.1⟩

/-- Executions leave a property of contexts and their worlds in force. -/
def Engine.Keeps (engine : Engine σ) (P : Machine.Point σ → Prop) : Prop :=
  ∀ entry c w outcome c' w', engine entry c w = some (outcome, c', w') → P (c, w) → P (c', w')

/-- A property of contexts and their worlds that the host can do nothing about: it does not depend
on what the interface sets, and of the world on no more than the size of the memory. -/
structure Stable (P : Machine.Point σ → Prop) : Prop where
  assigns : ∀ c w pri alt, P (c, w) → P ({ c with regs.pri := pri, regs.alt := alt }, w)
  equips : ∀ c w natives registry hook, P (c, w) → P ({ c with natives, registry, hook }, w)
  world : ∀ c w w', w'.region.memory.size = w.region.memory.size → P (c, w) → P (c, w')
  aside : ∀ c c' w w', P (c, w) → P (c', w') → P (c, w')

theorem write_size {c : Context} {m m' : Memory} {address : Nat} {value : Cell}
    (h : c.write m address value = .ok m') : m'.size = m.size := by
  unfold Context.write at h
  split at h
  · cases h
    exact Array.size_setIfInBounds ..
  · cases h

/-- **The interface leaves a stable property in force** if executions do. -/
theorem Acts.keeps {engine : Engine σ} {P : Machine.Point σ → Prop} {s t : Machine.Point σ}
    (h : Acts engine s t) (hP : Stable P) (hEngine : engine.Keeps P) (hs : P s) : P t := by
  induction h with
  | rests s => exact hs
  | follows _ _ ih ih' =>
      have hMiddle := ih hs
      exact ih' hMiddle
  | assigns c w pri alt => exact hP.assigns c w pri alt hs
  | equips c w natives registry hook => exact hP.equips c w natives registry hook hs
  | writes hWrite => exact hP.world _ _ _ (write_size hWrite) hs
  | elsewhere hMemory => exact hP.world _ _ _ (congrArg Array.size hMemory) hs
  | executes hExec => exact hEngine _ _ _ _ _ _ hExec hs
  | aside _ ih =>
      have hSnapshot := ih hs
      exact hP.aside _ _ _ _ hs hSnapshot

/-- An engine that gives no results leaves everything in force. -/
theorem Engine.keeps_none (P : Machine.Point σ → Prop) :
    Engine.Keeps (fun _ _ _ => none) P := by
  intro entry c w outcome c' w' h
  cases h

/-! ## Callbacks and executions -/

namespace Machine

section Callbacks

variable {emb : Embedder σ} (hEmb : emb.UsesInterface) {P : Point σ → Prop} (hP : Stable P)
  {c c' : Context} {w w' : World σ}
include hEmb hP

/-- A native leaves a stable property in force if the executions that it makes do. -/
theorem nativeAnswer_keeps {engine : Engine σ} (hEngine : engine.Keeps P) {native : Native}
    {answer : Except MachineError Cell}
    (h : nativeAnswer emb engine native c w = some (answer, c', w')) (hBefore : P (c, w)) :
    P (c', w') := by
  unfold nativeAnswer at h
  split at h
  · have hActs := hEmb.native _ _ _ _ _ _ _ h
    exact hActs.keeps hP hEngine hBefore
  · cases h
    exact hP.world _ _ _ (congrArg Array.size (call_spares _ c w).memory) hBefore

/-- A checkpoint leaves a stable property in force. -/
theorem askHook_keeps {a : AbortState} {verdict : Checkpoint}
    (h : askHook emb (withAbortHook c a) w = (verdict, c', w')) (hBefore : P (c, w)) :
    P (c', w') := by
  obtain ⟨hook, hWith⟩ := withAbortHook_eq c a
  have hHooked : P ({ c with hook }, w) := hP.equips c w c.natives c.registry hook hBefore
  rw [hWith] at h
  unfold askHook at h
  split at h
  · cases h
    exact hHooked
  · cases h
    exact hP.world _ _ _ (congrArg Array.size (monitor_spares _ w).memory) hHooked
  · have hActs := hEmb.hook _ _ _ _ _ _ h
    exact hActs.keeps hP (Engine.keeps_none _) hHooked

end Callbacks

/-- What has to be shown of a property for executions to leave it in force: that a step does if the
engine of its callbacks does, and that starting, refusing and settling an execution do. -/
structure Preserves (emb : Embedder σ) (P : Point σ → Prop) : Prop where
  steps : ∀ (engine : Engine σ) (s : Point σ) (r : Progress σ), engine.Keeps P →
    step emb engine s.1 s.2 = some r → P s → P r.point
  starts : ∀ entry c (w : World σ) s, start? entry c w = some s → P (c, w) → P s
  refuses : ∀ entry c (w : World σ), P (c, w) → P ((refusal entry c).2, w)
  settles : ∀ entry c (w : World σ) pause c' (w' : World σ), P (c, w) → P (c', w') →
    P ((settle (place entry c) pause c').2, w')

variable {emb : Embedder σ} {P : Point σ → Prop}

/-- An engine leaves a property in force if its runner does, and if starting, refusing and settling
an execution do. -/
theorem keeps_execWith {go : Runner σ}
    (hStarts : ∀ entry c (w : World σ) s, start? entry c w = some s → P (c, w) → P s)
    (hRefuses : ∀ entry c (w : World σ), P (c, w) → P ((refusal entry c).2, w))
    (hSettles : ∀ entry c (w : World σ) pause c' (w' : World σ), P (c, w) → P (c', w') →
      P ((settle (place entry c) pause c').2, w'))
    (hGo : ∀ c w r, go c w = some r → P (c, w) → P r.2) : (execWith go).Keeps P := by
  intro entry c w outcome c' w' h hBefore
  rw [execWith_eq] at h
  cases hStart : start? entry c w with
  | none =>
      rw [hStart] at h
      cases h
      exact hRefuses entry c w hBefore
  | some s =>
      rw [hStart] at h
      obtain ⟨⟨pause, c₁, w₁⟩, hRun, hSettle⟩ := Option.map_eq_some_iff.mp h
      cases hSettle
      have hEnd := hGo _ _ _ hRun (hStarts _ _ _ _ hStart hBefore)
      exact hSettles entry c w pause c₁ _ hBefore hEnd

theorem Preserves.keeps_execWith (hP : Preserves emb P) {go : Runner σ}
    (hGo : ∀ c w r, go c w = some r → P (c, w) → P r.2) : (execWith go).Keeps P :=
  Machine.keeps_execWith hP.starts hP.refuses hP.settles hGo

/-- **A run leaves a property in force if steps do.** The induction is on the fuel, which bounds
both the rest of the run and what callbacks execute. -/
theorem Preserves.of_run (hP : Preserves emb P) (fuel : Nat) {c : Context} {w : World σ}
    {r : Pause × Context × World σ} (h : run emb fuel c w = some r) (hBefore : P (c, w)) :
    P r.2 := by
  induction fuel generalizing c w r with
  | zero => cases h
  | succ fuel ih =>
      have hEngine : (execWith (run emb fuel)).Keeps P :=
        hP.keeps_execWith fun c w r hRun hBefore => ih hRun hBefore
      simp only [run] at h
      cases hStep : step emb (execWith (run emb fuel)) c w with
      | none => rw [hStep] at h; cases h
      | some progress =>
          have hNext := hP.steps _ (c, w) progress hEngine hStep hBefore
          rw [hStep] at h
          cases progress with
          | continues c' w' => exact ih h hNext
          | pauses pause c' w' => cases h; exact hNext

/-- Executions leave a property in force if steps do. -/
theorem Preserves.keeps_exec (hP : Preserves emb P) (fuel : Nat) : (exec emb fuel).Keeps P :=
  hP.keeps_execWith fun _ _ _ h hBefore => hP.of_run fuel h hBefore

end Machine

end CellHost
