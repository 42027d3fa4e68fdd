import CellHost.Proofs.Driver.Abort
import CellHost.Proofs.Driver.Naps
import Mathlib.Data.List.Chain

/-!
# Faults are precise

An execution that fails was refused, or ran from instruction to instruction, each of which completed,
up to one that failed. The instruction pointer stands at the start of that one. What it has left
behind is known too: nothing, unless it called into the host or was a return. A return takes the
stack pointer and the frame pointer back before it looks at the address that it is to go to, and when
there is no code at that address they stay where they are.

A driven run comes to the error of the execution that fails in it, at the address of the instruction
that failed.

## Main definitions

* `Machine.LeadsTo` : an instruction completes, and the next one starts in the state it leads to.
* `Machine.FailsAt` : what an instruction that failed has left.

## Main results

* `Driver.exec_fatal_precise` : where a fault is reported, and what it has left.
-/

namespace CellHost

variable {σ : Type} {emb : Embedder σ}

namespace Machine

/-! ## The instructions before a pause -/

/-- The instruction that starts in the first state completes, and leads to the second. -/
def LeadsTo (emb : Embedder σ) (s t : Point σ) : Prop :=
  (stepper emb).Moves s (.continues t.1 t.2)

/-- Along a trail every instruction but the last completes, and the last one pauses. -/
theorem Trail.completes {s : Point σ} {seen : List (Point σ)} {r : Pause × Context × World σ}
    (h : Trail (stepper emb) s seen r) :
    seen.head? = some s ∧ seen.IsChain (LeadsTo emb) ∧
      ∃ before t, seen = before ++ [t] ∧ (stepper emb).Moves t (.pauses r.1 r.2.1 r.2.2) := by
  induction h with
  | @pause s pause c w hStep => exact ⟨rfl, .singleton s, [], s, rfl, hStep⟩
  | @next s c w states r hStep _ ih =>
      obtain ⟨hHead, hChain, before, t, rfl, hLast⟩ := ih
      refine ⟨rfl, hChain.cons ?_, s :: before, t, rfl, hLast⟩
      intro next hNext
      rw [hHead] at hNext
      cases hNext
      exact hStep

/-! ## The instruction that fails -/

/-- The instruction that starts in a state does not call into the host. -/
def Inside (t : Point σ) : Prop := operation? t ≠ some .sysreq ∧ operation? t ≠ some .brk

/-- The registers that the instruction that starts in a state has left, if it failed with an error:
those that it found, but for a return. -/
def Leaves (t : Point σ) (e : MachineError) (regs : Registers) : Prop :=
  if operation? t = some .ret then
    Instruction.FailedReturn t.1.program t.1.layout t.2.region.memory t.1.regs e regs
  else regs = t.1.regs

/-- What the instruction that starts in a state has left, if it failed with an error. The instruction
pointer stands at its start; and unless the instruction called into the host, nothing has changed but
the registers, and these as `Leaves` says. -/
structure FailsAt (t : Point σ) (e : MachineError) (c : Context) (w : World σ) : Prop where
  cip : c.regs.cip = t.1.regs.cip
  rest : Inside t → c = { t.1 with regs := c.regs } ∧ w.region.memory = t.2.region.memory
  regs : Inside t → Leaves t e c.regs

/-- An instruction whose effect is a fault. -/
theorem failsAt_of_fault {t : Point σ} {e : MachineError} {regs : Registers}
    (h : effectAt t = .fault e regs) : FailsAt t e { t.1 with regs } t.2.beginInstruction := by
  have hMemory : t.2.beginInstruction.region.memory = t.2.region.memory := beginInstruction_memory t.2
  rcases Instruction.effect_fault h with ⟨hSame, hOther⟩ | ⟨operand, hDecode, hFailed⟩
  · have hOp : operation? t ≠ some .ret := by
      intro hRet
      obtain ⟨operand, hDecode⟩ := decode_of_operation? hRet
      exact hOther operand hDecode
    subst hSame
    exact ⟨rfl, fun _ => ⟨rfl, hMemory⟩, fun _ => (if_neg hOp).mpr rfl⟩
  · have hCip : regs.cip = t.1.regs.cip := by cases hFailed <;> rfl
    rw [hMemory] at hFailed
    exact ⟨hCip, fun _ => ⟨rfl, hMemory⟩, fun _ => (if_pos (operation?_of_decode hDecode)).mpr hFailed⟩

/-- Of an instruction that called into the host, only its address is known. -/
theorem failsAt_of_host {t : Point σ} {e : MachineError} {c : Context} {w : World σ}
    (hCip : c.regs.cip = t.1.regs.cip) (hHost : ¬ Inside t) : FailsAt t e c w :=
  ⟨hCip, fun hInside => absurd hInside hHost, fun hInside => absurd hInside hHost⟩

/-- **An instruction that fails is where the instruction pointer stands**, and has left nothing but
what `FailsAt` says. -/
theorem failsAt_of_step {engine : Engine σ} {t : Point σ} {e : MachineError} {c : Context}
    {w : World σ} (h : step emb engine t.1 t.2 = some (.pauses (.faulted e) c w)) :
    FailsAt t e c w := by
  have hNative : ∀ {regs index}, effectAt t = .native regs index → ¬ Inside t :=
    fun hEffect hInside => hInside.1 (sysreq_of_native hEffect).1
  have hCheckpoint : ∀ {regs}, effectAt t = .checkpoint regs → ¬ Inside t :=
    fun hEffect hInside => hInside.2 (brk_of_checkpoint hEffect).1
  generalize hp : Progress.pauses (.faulted e) c w = p at h
  cases stepped_of_step h with
  | fault hEffect => cases hp; exact failsAt_of_fault hEffect
  | unbound hEffect _ => cases hp; exact failsAt_of_host rfl (hNative hEffect)
  | @native _ _ _ answer _ _ hEffect _ _ =>
      cases answer with
      | ok value => cases hp
      | error e => cases hp; exact failsAt_of_host rfl (hNative hEffect)
  | abort hEffect _ => cases hp; exact failsAt_of_host rfl (hCheckpoint hEffect)
  | next _ => cases hp
  | halt _ => cases hp
  | sleep _ => cases hp
  | proceed _ _ => cases hp

/-- Behind a failure of an execution that started there is an instruction that failed. -/
theorem failed_of_exec {fuel : Nat} {entry : EntryPoint} {c c' : Context} {w w' : World σ}
    {s : Point σ} {e : MachineError} (hStart : start? entry c w = some s)
    (h : exec emb fuel entry c w = some (.fatal e, c', w')) :
    Trail (stepper emb) s (states (stepper emb) fuel entry c w) (.faulted e, c', w') := by
  have hExecuted := executed_of_exec h
  generalize states (stepper emb) fuel entry c w = seen at hExecuted ⊢
  generalize hx : (Outcome.fatal e, c', w') = x at hExecuted
  cases hExecuted with
  | refused hRefused => cases hStart.symm.trans hRefused
  | @ran _ _ pause _ _ hStart' hTrail =>
      cases hStart.symm.trans hStart'
      cases pause with
      | returned value => cases hx
      | slept delay => cases hx
      | faulted error => cases hx; exact hTrail

end Machine

namespace Driver

open Machine

/-! ## Failures of driven runs -/

/-- An idle function is called on the live context, again and again, and gets so far. -/
inductive GoesOn (call : IdleCaller σ) : Context → World σ → Context → World σ → Prop
  | here {c : Context} {w : World σ} : GoesOn call c w c w
  | later {c c₁ c₂ : Context} {w w₁ w₂ : World σ} :
      call c w = some (.again, c₁, w₁) → GoesOn call c₁ w₁ c₂ w₂ → GoesOn call c w c₂ w₂

/-- A driven run meets with the failure of an execution: the execution is one of its own, or an idle
function that serves the live context hands the error over, and the context as it was left. -/
inductive Meets (emb : Embedder σ) (fuel : Nat) (d : Driver) (c₀ : Context) (w₀ : World σ)
    (x : Execution σ) (e : MachineError) (c' : Context) : Prop
  | executes : Executes emb fuel d c₀ w₀ x → Meets emb fuel d c₀ w₀ x e c'
  | serves {f : IdleFunction} {c₁ c₂ : Context} {w₁ w₂ w₃ : World σ} :
      c₀.idleFunction? = some f →
      exec emb fuel .main c₀ w₀.readClock.2 = some (.noEntryPoint, c₁, w₁) →
      GoesOn (f.invoke emb (exec emb fuel)) c₁ w₁ c₂ w₂ →
      f.invoke emb (exec emb fuel) c₂ w₂ = some (.failed e, c', w₃) →
      Meets emb fuel d c₀ w₀ x e c'

/-- Serving comes to an end where the idle function fails. -/
theorem idleUntilDone_of_failed {call : IdleCaller σ} {c c₁ c' : Context} {w w₁ w' : World σ}
    {e : MachineError} (hGoesOn : GoesOn call c w c₁ w₁)
    (hFailed : call c₁ w₁ = some (.failed e, c', w')) {fuel n : Nat}
    {r : Except Fault Cell × Nat × Context × World σ}
    (hServe : idleUntilDone call fuel n c w = some r) : r.1 = .error ⟨e, c'.regs.cip⟩ := by
  induction hGoesOn generalizing fuel n with
  | here =>
      cases fuel with
      | zero => cases hServe
      | succ fuel =>
          simp only [idleUntilDone, hFailed] at hServe
          cases hServe
          rfl
  | later hAgain _ ih =>
      cases fuel with
      | zero => cases hServe
      | succ fuel =>
          simp only [idleUntilDone, hAgain] at hServe
          exact ih hFailed hServe

/-- **A driven run comes to the failure that it meets with.** -/
theorem execute_of_meets {fuel : Nat} {d d' : Driver} {c₀ c c₁ : Context} {w₀ w w₁ : World σ}
    {x : Execution σ} {e : MachineError} {result : Except Fault Cell}
    (hMeets : Meets emb fuel d c₀ w₀ x e c)
    (hFatal : exec emb fuel x.1 x.2.1 x.2.2 = some (.fatal e, c, w))
    (hRun : execute emb fuel d c₀ w₀ = some (result, d', c₁, w₁)) :
    result = .error ⟨e, c.regs.cip⟩ := by
  cases hMeets with
  | executes hExecutes => exact execute_of_fatal hExecutes hFatal hRun
  | serves hIdle hMain hGoesOn hFailed =>
      simp only [execute, hMain, hIdle] at hRun
      obtain ⟨r, hProceed, hEq⟩ := Option.map_eq_some_iff.mp hRun
      cases fuel with
      | zero => cases hProceed
      | succ fuel =>
          obtain ⟨served, hServe, rfl⟩ := Option.map_eq_some_iff.mp hProceed
          have hResult := idleUntilDone_of_failed hGoesOn hFailed hServe
          cases hEq
          exact hResult

/-- **Main theorem.** An execution that started and failed ran from its start through instructions
that all completed, up to one that failed. The instruction pointer stands at that one; unless it
called into the host it has left memory and the context as they were, and the registers too, but for
what a return has popped. A driven run that meets with the failure comes to its error, at the address
of that instruction. -/
theorem exec_fatal_precise {fuel : Nat} {entry : EntryPoint} {c c' : Context} {w w' : World σ}
    {s : Point σ} {e : MachineError} (hStart : start? entry c w = some s)
    (h : exec emb fuel entry c w = some (.fatal e, c', w')) :
    ∃ before t, states (stepper emb) fuel entry c w = before ++ [t] ∧
      (before ++ [t]).head? = some s ∧ (before ++ [t]).IsChain (LeadsTo emb) ∧
      FailsAt t e c' w' ∧
      ∀ d c₀ w₀ result d' c₁ w₁, Meets emb fuel d c₀ w₀ (entry, c, w) e c' →
        execute emb fuel d c₀ w₀ = some (result, d', c₁, w₁) →
        result = .error ⟨e, t.1.regs.cip⟩ := by
  obtain ⟨hHead, hChain, before, t, hSeen, n, hLast⟩ := (failed_of_exec hStart h).completes
  have hFails : FailsAt t e c' w' := failsAt_of_step hLast
  rw [hSeen] at hHead hChain
  refine ⟨before, t, hSeen, hHead, hChain, hFails, ?_⟩
  intro d c₀ w₀ result d' c₁ w₁ hMeets hRun
  have hResult := execute_of_meets hMeets h hRun
  rw [hResult, hFails.cip]

/-- A program that returns with a good frame pointer to an address where there is no code. -/
def strayReturner : Program where
  main := some 8
  code :=
    #[Opcode.halt.toCell, 0, Opcode.pushC.toCell, 4096, Opcode.pushC.toCell, 8, Opcode.ret.toCell]

/-- The program in a block of sixteen cells. -/
def strayReturnerFresh : Context where
  program := strayReturner
  natives := []
  layout := ⟨0, 64⟩
  regs := { frm := 64, stk := 64, hea := 0 }
  resetStk := 64
  resetHea := 0

/-- The world of the program. -/
def strayReturnerWorld : World Unit where
  region := { memory := Array.replicate 16 0 }
  clock := .steady
  host := ()

/-- The return fails, and has moved the stack pointer and the frame pointer. -/
theorem strayReturner_moves_frame :
    ∃ t c w,
      (states (stepper .plain) 8 .main strayReturnerFresh strayReturnerWorld).getLast? = some t ∧
      exec .plain 8 .main strayReturnerFresh strayReturnerWorld =
        some (.fatal .memoryAccess, c, w) ∧
      operation? t = some .ret ∧ t.1.regs.frm = 64 ∧ t.1.regs.stk = 52 ∧
      c.regs.cip = t.1.regs.cip ∧ c.regs.frm = 8 ∧ c.regs.stk = 60 :=
  ⟨_, _, _, rfl, rfl, rfl, rfl, rfl, rfl, rfl, rfl⟩

/-- The failure is reported at the return all the same. -/
theorem exec_fatal_precise_strayReturner :
    ∃ s c w t, start? .main strayReturnerFresh strayReturnerWorld.readClock.2 = some s ∧
      exec .plain 8 .main strayReturnerFresh strayReturnerWorld.readClock.2 =
        some (.fatal .memoryAccess, c, w) ∧
      (states (stepper .plain) 8 .main strayReturnerFresh
        strayReturnerWorld.readClock.2).getLast? = some t ∧
      FailsAt t .memoryAccess c w ∧
      (execute .plain 8 {} strayReturnerFresh strayReturnerWorld).map (·.1) =
        some (.error ⟨.memoryAccess, 24⟩) := by
  have hStart : ∃ s, start? .main strayReturnerFresh strayReturnerWorld.readClock.2 = some s :=
    ⟨_, rfl⟩
  have hExec : ∃ c w, exec .plain 8 .main strayReturnerFresh strayReturnerWorld.readClock.2 =
      some (.fatal .memoryAccess, c, w) := ⟨_, _, rfl⟩
  obtain ⟨s, hStart⟩ := hStart
  obtain ⟨c, w, hExec⟩ := hExec
  obtain ⟨before, t, hSeen, -, -, hFails, hDriven⟩ := exec_fatal_precise hStart hExec
  have hLast : (states (stepper .plain) 8 .main strayReturnerFresh
      strayReturnerWorld.readClock.2).getLast? = some t := by
    rw [hSeen]
    exact List.getLast?_concat
  have hCip : t.1.regs.cip = 24 := by
    have hAt : (states (stepper .plain) 8 .main strayReturnerFresh
      strayReturnerWorld.readClock.2).getLast?.map (·.1.regs.cip) = some 24 := rfl
    rw [hLast] at hAt
    exact Option.some.inj hAt
  refine ⟨s, c, w, t, hStart, hExec, hLast, hFails, ?_⟩
  cases hRun : execute .plain 8 {} strayReturnerFresh strayReturnerWorld with
  | none => cases hRun
  | some r =>
      obtain ⟨result, d', c₁, w₁⟩ := r
      have hMeets : Meets .plain 8 {} strayReturnerFresh strayReturnerWorld
          (.main, strayReturnerFresh, strayReturnerWorld.readClock.2) .memoryAccess c :=
        .executes (.inl rfl)
      rw [hDriven _ _ _ _ _ _ _ hMeets hRun, hCip]
      rfl

end Driver

end CellHost
