import CellHost.Proofs.Timer.Driven

/-!
# The contexts of a driven run

A driver executes the context that it is given, and calls the idle function on that context or on
snapshots of it. Whatever property executions keep of a context therefore holds of every context that
is executed in a run, and of the context that the run leaves.

## Main definitions

* `HostAct.On` : the context of an act has a property.

## Main results

* `Driver.runActs_on` : what executions keep holds of every context of a run.
* `Driver.execute_keeps` : and of the context that the run leaves.
-/

namespace CellHost

open Machine

variable {σ : Type}

/-- The context of an act has a property; an act without one leaves the region alone. -/
def HostAct.On (P : Context → Prop) : HostAct σ → Prop
  | executes _ _ c => P c
  | idles _ c => P c
  | elsewhere change => ∀ w, (change w).region = w.region

namespace Driver

section Contexts

variable {emb : Embedder σ} {fuel : Nat} {P : Context → Prop} {c c' : Context} {w w' : World σ}

/-- What executions keep of a context, the idle function keeps. -/
theorem timerIdle_keeps (hExec : (exec emb fuel).Keeps fun s => P s.1) {status : IdleStatus}
    (h : timerIdle (exec emb fuel) c w = some (status, c', w')) (hContext : P c) : P c' := by
  rw [timerIdle_eq] at h
  cases hExecution : timerExecution? c w with
  | some x =>
      obtain ⟨_, rest, index, -, -, rfl⟩ := timerExecution?_eq_some hExecution
      rw [hExecution] at h
      obtain ⟨⟨outcome, c₁, w₁⟩, hRun, hAnswer⟩ := Option.map_eq_some_iff.mp h
      cases hAnswer
      exact hExec _ _ _ _ _ _ hRun hContext
  | none =>
      rw [hExecution] at h
      obtain ⟨rfl, -⟩ := timerIdle_rests h
      exact hContext

theorem napActs_on (hExec : (exec emb fuel).Keeps fun s => P s.1) (policy : SnapshotPolicy)
    {parked last : Context} (hParked : P parked) (stamp limit n : Nat) (hLast : P last)
    (w : World σ) :
    ∀ act ∈ napActs emb fuel policy parked stamp limit n last w, act.On P := by
  induction n generalizing last w with
  | zero => exact List.forall_mem_nil _
  | succ n ih =>
      have hGiven : P (nextSnapshot policy parked last) := by
        cases policy with
        | perSleep => exact hLast
        | perIteration => exact hParked
      unfold napActs
      refine List.forall_mem_cons.mpr ⟨fun _ => rfl, ?_⟩
      split
      · refine List.forall_mem_cons.mpr ⟨hGiven, ?_⟩
        split
        next c w hIdle => exact ih (timerIdle_keeps hExec hIdle hGiven) w
        · exact List.forall_mem_nil _
      · exact List.forall_mem_nil _

theorem serviceActs_on (hExec : (exec emb fuel).Keeps fun s => P s.1) (n : Nat) (hContext : P c)
    (w : World σ) : ∀ act ∈ serviceActs emb fuel n c w, act.On P := by
  induction n generalizing c w with
  | zero => exact List.forall_mem_nil _
  | succ n ih =>
      unfold serviceActs
      refine List.forall_mem_cons.mpr ⟨hContext, ?_⟩
      split
      next c w hIdle => exact ih (timerIdle_keeps hExec hIdle hContext) w
      · exact List.forall_mem_nil _

theorem thenActs_on (hExec : (exec emb fuel).Keeps fun s => P s.1) (policy : SnapshotPolicy)
    (served : Bool) (n : Nat) (outcome : Outcome) (hContext : P c) (w : World σ) :
    ∀ act ∈ thenActs emb fuel policy served n outcome c w, act.On P := by
  induction n generalizing outcome c w with
  | zero => exact List.forall_mem_nil _
  | succ n ih =>
      unfold thenActs
      split
      · exact serviceActs_on hExec fuel hContext w
      · refine List.forall_mem_append.mpr ⟨?_, ?_⟩
        · exact List.forall_mem_cons.mpr
            ⟨fun _ => rfl, napActs_on hExec policy hContext _ _ fuel hContext _⟩
        · split
          · refine List.forall_mem_cons.mpr ⟨hContext, ?_⟩
            split
            next outcome c w hResumed => exact ih outcome (hExec _ _ _ _ _ _ hResumed hContext) w
            · exact List.forall_mem_nil _
          · exact List.forall_mem_nil _
      · exact List.forall_mem_nil _

/-- What executions keep of a context holds of every context that a driver gives to one. -/
theorem runActs_on (hExec : (exec emb fuel).Keeps fun s => P s.1) (d : Driver) (hContext : P c)
    (w : World σ) : ∀ act ∈ runActs emb fuel d c w, act.On P := by
  refine List.forall_mem_cons.mpr ⟨fun _ => rfl,
    List.forall_mem_cons.mpr ⟨hContext, List.forall_mem_append.mpr ⟨?_, ?_⟩⟩⟩
  · split
    next outcome c w hMain =>
      exact thenActs_on hExec d.policy _ fuel outcome (hExec _ _ _ _ _ _ hMain hContext) w
    · exact List.forall_mem_nil _
  · exact List.forall_mem_singleton.mpr fun _ => rfl

theorem idleUntilDone_keeps (hExec : (exec emb fuel).Keeps fun s => P s.1) {n calls calls' : Nat}
    {result : Except Fault Cell}
    (h : idleUntilDone (timerIdle (exec emb fuel)) n calls c w = some (result, calls', c', w'))
    (hContext : P c) : P c' := by
  induction n generalizing calls c w with
  | zero => cases h
  | succ n ih =>
      unfold idleUntilDone at h
      cases hIdle : timerIdle (exec emb fuel) c w with
      | none => rw [hIdle] at h; cases h
      | some answer =>
          obtain ⟨status, c₁, w₁⟩ := answer
          have hNext : P c₁ := timerIdle_keeps hExec hIdle hContext
          rw [hIdle] at h
          cases status with
          | again => exact ih h hNext
          | done => cases h; exact hNext
          | failed e => cases h; exact hNext

theorem proceed_keeps (hExec : (exec emb fuel).Keeps fun s => P s.1) {policy : SnapshotPolicy}
    {idle : Option IdleFunction} (hBuiltIn : ∀ id, idle ≠ some (.custom id)) {n : Nat}
    {stats stats' : RunStats} {outcome : Outcome} {result : Except Fault Cell}
    (h : proceed emb (exec emb fuel) policy idle fuel n stats outcome c w =
      some (result, stats', c', w')) (hContext : P c) : P c' := by
  induction n generalizing stats outcome c w with
  | zero => cases h
  | succ n ih =>
      unfold proceed at h
      cases outcome with
      | success v => cases h; exact hContext
      | fatal e => cases h; exact hContext
      | noEntryPoint =>
          cases idle with
          | none => cases h; exact hContext
          | some f =>
              cases f with
              | custom id => exact absurd rfl (hBuiltIn id)
              | timer =>
                  obtain ⟨⟨served, calls, c₁, w₁⟩, hServed, hEnd⟩ := Option.map_eq_some_iff.mp h
                  cases hEnd
                  exact idleUntilDone_keeps hExec hServed hContext
      | sleeping delay =>
          cases idle with
          | none => cases h; exact hContext
          | some f =>
              dsimp only at h
              cases hSlept : idleWhileSleeping (f.invoke emb (exec emb fuel)) policy fuel c delay
                  w with
              | none => rw [hSlept] at h; cases h
              | some slept =>
                  obtain ⟨served, calls, w₁⟩ := slept
                  rw [hSlept] at h
                  cases served with
                  | error fault => cases h; exact hContext
                  | ok _ =>
                      dsimp only at h
                      cases hResumed : exec emb fuel .resume c w₁ with
                      | none => rw [hResumed] at h; cases h
                      | some next =>
                          rw [hResumed] at h
                          exact ih h (hExec _ _ _ _ _ _ hResumed hContext)

/-- What executions keep of a context, a driven run keeps, however it ends. -/
theorem execute_keeps (hExec : (exec emb fuel).Keeps fun s => P s.1)
    (hBuiltIn : ∀ id, c.idleFunction? ≠ some (.custom id)) {d d' : Driver}
    {result : Except Fault Cell} (h : execute emb fuel d c w = some (result, d', c', w'))
    (hContext : P c) : P c' := by
  unfold execute at h
  dsimp only at h
  cases hMain : exec emb fuel .main c w.readClock.2 with
  | none => rw [hMain] at h; cases h
  | some first =>
      obtain ⟨outcome, c₁, w₁⟩ := first
      rw [hMain] at h
      obtain ⟨⟨served, stats, c₂, w₂⟩, hRun, hEnd⟩ := Option.map_eq_some_iff.mp h
      cases hEnd
      exact proceed_keeps hExec hBuiltIn hRun (hExec _ _ _ _ _ _ hMain hContext)

/-! ## Executions -/

theorem napExecutes_on (hExec : (exec emb fuel).Keeps fun s => P s.1) {policy : SnapshotPolicy}
    {parked last : Context} {stamp limit : Nat} {x : Execution σ} (hParked : P parked)
    (hLast : P last) (h : NapExecutes (exec emb fuel) policy parked stamp limit last w x) :
    P x.2.1 := by
  have hGiven : ∀ {last : Context}, P last → P (nextSnapshot policy parked last) := by
    intro last hLast
    cases policy with
    | perSleep => exact hLast
    | perIteration => exact hParked
  induction h with
  | here _ hExecution =>
      obtain ⟨_, _, _, -, -, rfl⟩ := timerExecution?_eq_some hExecution
      exact hGiven hLast
  | later _ hAgain _ ih => exact ih (timerIdle_keeps hExec hAgain (hGiven hLast))

theorem serviceExecutes_on (hExec : (exec emb fuel).Keeps fun s => P s.1) {x : Execution σ}
    (hContext : P c) (h : ServiceExecutes (exec emb fuel) c w x) : P x.2.1 := by
  induction h with
  | here hExecution =>
      obtain ⟨_, _, _, -, -, rfl⟩ := timerExecution?_eq_some hExecution
      exact hContext
  | later hAgain _ ih => exact ih (timerIdle_keeps hExec hAgain hContext)

theorem thenExecutes_on (hExec : (exec emb fuel).Keeps fun s => P s.1) {policy : SnapshotPolicy}
    {idle : Option IdleFunction} {calls : Nat} {s : Outcome × Context × World σ} {x : Execution σ}
    (hContext : P s.2.1) (h : ThenExecutes emb (exec emb fuel) policy idle calls s x) :
    P x.2.1 := by
  induction h with
  | naps _ hNap => exact napExecutes_on hExec hContext hContext hNap
  | resumes _ _ => exact hContext
  | goesOn _ _ hResumed _ ih => exact ih (hExec _ _ _ _ _ _ hResumed hContext)
  | serves _ hService => exact serviceExecutes_on hExec hContext hService

/-- What executions keep of a context holds of every context that is executed in a run. -/
theorem executes_on (hExec : (exec emb fuel).Keeps fun s => P s.1) {d : Driver} {x : Execution σ}
    (hContext : P c) (h : Executes emb fuel d c w x) : P x.2.1 := by
  rcases h with rfl | ⟨first, hMain, hThen⟩
  · exact hContext
  · exact thenExecutes_on hExec (hExec _ _ _ _ _ _ hMain hContext) hThen

end Contexts

end Driver

end CellHost
