import CellHost.Machine.Run

/-!
# What one step can do

Everything that is to be known about a step is known from the effect of its instruction and, where
the instruction involves the host, from what the host answers. `Stepped` lists the ways in which a
step can come out, one constructor for each; whoever has to show that steps preserve something goes
through the list and never opens `step`.

## Main results

* `stepped_of_step` : every step comes out in one of the ways listed.
-/

namespace CellHost.Machine

variable {σ : Type}

/-- A context with its world, as an instruction finds them. -/
abbrev Point (σ : Type) := Context × World σ

/-- What the instruction of a state does. -/
def effectAt (s : Point σ) : Effect := s.1.effect s.2.beginInstruction.region.memory

/-- The state that a step leads to. -/
def Progress.point : Progress σ → Point σ
  | .continues c w => (c, w)
  | .pauses _ c w => (c, w)

/-- What a native answers, and what it leaves. -/
def nativeAnswer (emb : Embedder σ) (engine : Engine σ) (native : Native) (c : Context)
    (w : World σ) : Option (Except MachineError Cell × Context × World σ) :=
  match native with
  | .custom id => emb.native id engine c w
  | native => some ((native.call c w).1, c, (native.call c w).2)

/-- The ways in which the step of a state can come out. -/
inductive Stepped (emb : Embedder σ) (engine : Engine σ) (s : Point σ) : Progress σ → Prop
  | next {regs : Registers} {store : Option Store} :
      effectAt s = .next regs store →
      Stepped emb engine s (.continues { s.1 with regs } (s.2.beginInstruction.storeIf store))
  | halt {value : Cell} :
      effectAt s = .halt value →
      Stepped emb engine s (.pauses (.returned value) s.1 s.2.beginInstruction)
  | sleep {regs : Registers} :
      effectAt s = .sleep regs →
      Stepped emb engine s (.pauses (.slept regs.pri) { s.1 with regs } s.2.beginInstruction)
  | fault {e : MachineError} {regs : Registers} :
      effectAt s = .fault e regs →
      Stepped emb engine s (.pauses (.faulted e) { s.1 with regs } s.2.beginInstruction)
  /-- A native call without a native. -/
  | unbound {regs : Registers} {index : Cell} :
      effectAt s = .native regs index → s.1.native? index = none →
      Stepped emb engine s
        (faultAt s.1.regs.cip .noCallback { s.1 with regs } s.2.beginInstruction)
  | native {regs : Registers} {index : Cell} {native : Native}
      {answer : Except MachineError Cell} {c : Context} {w : World σ} :
      effectAt s = .native regs index → s.1.native? index = some native →
      nativeAnswer emb engine native { s.1 with regs } s.2.beginInstruction =
        some (answer, c, w) →
      Stepped emb engine s (afterNative s.1.regs.cip answer c w)
  | proceed {regs : Registers} {c : Context} {w : World σ} :
      effectAt s = .checkpoint regs →
      askHook emb (withAbortHook { s.1 with regs } s.2.beginInstruction.region.abort)
        s.2.beginInstruction = (.proceed, c, w) →
      Stepped emb engine s (.continues c w)
  | abort {regs : Registers} {c : Context} {w : World σ} :
      effectAt s = .checkpoint regs →
      askHook emb (withAbortHook { s.1 with regs } s.2.beginInstruction.region.abort)
        s.2.beginInstruction = (.abort, c, w) →
      Stepped emb engine s (faultAt s.1.regs.cip .forcedExit c w)

theorem beginInstruction_memory (w : World σ) :
    w.beginInstruction.region.memory = w.region.memory := by
  unfold World.beginInstruction
  dsimp only
  split <;> rfl

/-- What a checkpoint may put on a context before it asks is a hook, and nothing else. -/
theorem withAbortHook_eq (c : Context) (a : AbortState) :
    ∃ hook, withAbortHook c a = { c with hook } := by
  unfold withAbortHook
  split
  · exact ⟨some a.hook, rfl⟩
  · exact ⟨c.hook, rfl⟩

theorem callNative_eq (emb : Embedder σ) (engine : Engine σ) (start : Nat) (index : Cell)
    (c : Context) (w : World σ) :
    callNative emb engine start index c w =
      match c.native? index with
      | none => some (faultAt start .noCallback c w)
      | some native => (nativeAnswer emb engine native c w).map fun (r, c', w') =>
          afterNative start r c' w' := by
  unfold callNative nativeAnswer
  cases c.native? index with
  | none => rfl
  | some native => cases native <;> rfl

/-- **Every step comes out in one of the ways listed.** -/
theorem stepped_of_step {emb : Embedder σ} {engine : Engine σ} {s : Point σ} {p : Progress σ}
    (h : step emb engine s.1 s.2 = some p) : Stepped emb engine s p := by
  unfold step at h
  dsimp only at h
  rw [show s.1.effect s.2.beginInstruction.region.memory = effectAt s from rfl] at h
  cases hEffect : effectAt s with
  | next regs store =>
      rw [hEffect] at h
      cases h
      exact .next hEffect
  | halt value =>
      rw [hEffect] at h
      cases h
      exact .halt hEffect
  | sleep regs =>
      rw [hEffect] at h
      cases h
      exact .sleep hEffect
  | fault e regs =>
      rw [hEffect] at h
      cases h
      exact .fault hEffect
  | native regs index =>
      rw [hEffect] at h
      dsimp only at h
      rw [callNative_eq,
        show ({ s.1 with regs } : Context).native? index = s.1.native? index from rfl] at h
      cases hBound : s.1.native? index with
      | none =>
          rw [hBound] at h
          cases h
          exact .unbound hEffect hBound
      | some native =>
          rw [hBound] at h
          obtain ⟨⟨r, c, w⟩, hAnswer, rfl⟩ := Option.map_eq_some_iff.mp h
          exact .native hEffect hBound hAnswer
  | checkpoint regs =>
      rw [hEffect] at h
      dsimp only at h
      unfold checkpoint at h
      generalize hAsk : askHook emb _ _ = asked at h
      obtain ⟨verdict, c, w⟩ := asked
      cases verdict with
      | proceed =>
          cases h
          exact .proceed hEffect hAsk
      | abort =>
          cases h
          exact .abort hEffect hAsk

/-! ## Steps and runs, by the effect of their first instruction -/

section Effect

variable {emb : Embedder σ} {engine : Engine σ} {s : Point σ} {regs : Registers}

theorem step_of_next {store : Option Store} (h : effectAt s = .next regs store) :
    step emb engine s.1 s.2 =
      some (.continues { s.1 with regs } (s.2.beginInstruction.storeIf store)) := by
  unfold effectAt at h
  simp only [step, h]

theorem step_of_fault {e : MachineError} (h : effectAt s = .fault e regs) :
    step emb engine s.1 s.2 =
      some (.pauses (.faulted e) { s.1 with regs } s.2.beginInstruction) := by
  unfold effectAt at h
  simp only [step, h]

end Effect

theorem run_of_continues {emb : Embedder σ} {n : Nat} {s t : Point σ}
    (h : step emb (exec emb n) s.1 s.2 = some (.continues t.1 t.2)) :
    run emb (n + 1) s.1 s.2 = run emb n t.1 t.2 := by
  unfold exec at h
  simp only [run, h]

theorem run_of_pauses {emb : Embedder σ} {n : Nat} {s : Point σ} {pause : Pause} {c : Context}
    {w : World σ} (h : step emb (exec emb n) s.1 s.2 = some (.pauses pause c w)) :
    run emb (n + 1) s.1 s.2 = some (pause, c, w) := by
  unfold exec at h
  simp only [run, h]

section Run

variable {emb : Embedder σ} {c : Context} {w : World σ} {regs : Registers}

theorem run_of_next {store : Option Store} (n : Nat) (h : effectAt (c, w) = .next regs store) :
    run emb (n + 1) c w = run emb n { c with regs } (w.beginInstruction.storeIf store) := by
  unfold effectAt at h
  simp only [run, step, h]

theorem run_of_fault {e : MachineError} (n : Nat) (h : effectAt (c, w) = .fault e regs) :
    run emb (n + 1) c w = some (.faulted e, { c with regs }, w.beginInstruction) := by
  unfold effectAt at h
  simp only [run, step, h]

theorem run_of_halt {value : Cell} (n : Nat) (h : effectAt (c, w) = .halt value) :
    run emb (n + 1) c w = some (.returned value, c, w.beginInstruction) := by
  unfold effectAt at h
  simp only [run, step, h]

end Run

end CellHost.Machine
