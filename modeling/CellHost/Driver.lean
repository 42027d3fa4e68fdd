import CellHost.Machine.Run

/-!
# The driver

The driver runs a program to its end. Whenever the program suspends, it calls the context's idle
function on a snapshot, over and over, until the wanted delay has passed or the function is done,
and then resumes the program; since the function works on a snapshot, the program finds its
registers as it left them. A program without `main` is served by the idle function on the live
context until the function is done. A program that needs an idle function and has none fails.

The clock is read before every idle call, and one call is the finest step of time.

## Main definitions

* `timerIdle` : the built-in idle function.
* `Driver.idleWhileSleeping` : the idle calls of one sleep.
* `Driver.execute` : a whole run, with its statistics.
-/

namespace CellHost

/-- When the idle function gets a fresh snapshot. -/
inductive SnapshotPolicy where
  /-- Once per sleep. -/
  | perSleep
  /-- Before every idle call. -/
  | perIteration
  deriving DecidableEq, Repr, Inhabited

/-- A failure with the code address at which it happened. -/
structure Fault where
  error : MachineError
  cip : Nat
  deriving DecidableEq, Repr, Inhabited

/-- What a run did. -/
structure RunStats where
  sleeps : Nat := 0
  resumes : Nat := 0
  idleCalls : Nat := 0
  /-- Nanoseconds from first to last reading of the clock. -/
  elapsed : Nat := 0
  deriving DecidableEq, Repr, Inhabited

variable {σ : Type}

/-- The public that the timer calls. -/
def timerPublic : String := "@timer"

/-- The longest single wait of the idle function, in nanoseconds. -/
def idlePoll : Nat := nanosPerMilli

/-- What an idle function makes of an execution it asked for. -/
def IdleStatus.ofOutcome : Outcome → IdleStatus
  | .success _ => .again
  | .fatal e => .failed e
  | .sleeping _ => .failed .asleep
  | .noEntryPoint => .failed .badIndex

/-- Call the timer public of a context. -/
def callTimerPublic (engine : Engine σ) (c : Context) (w : World σ) :
    Option (IdleStatus × Context × World σ) :=
  match c.program.findPublic? timerPublic with
  | none => some (.failed .notFound, c, w)
  | some index =>
    (engine (.function index) c w).map fun (outcome, c', w') => (.ofOutcome outcome, c', w')

/-- Serve the registered timer: call the program's timer public if the timer is due, and wait a
little if it is not. Without an armed timer a sleeping context waits, so that its sleep lasts, and
any other is done. -/
def timerIdle (engine : Engine σ) (c : Context) (w : World σ) :
    Option (IdleStatus × Context × World σ) :=
  match c.timerRef? with
  | none => some (.done, c, w)
  | some ref =>
    let (now, w) := w.readClock
    match (w.timer ref).due with
    | none => if c.sleeping then some (.again, c, w.wait idlePoll) else some (.done, c, w)
    | some due =>
      match (w.timer ref).fire? now with
      | none => some (.again, c, w.wait (min (due - now) idlePoll))
      | some rest => callTimerPublic engine c (w.setTimer ref rest)

/-- Call an idle function. -/
def IdleFunction.invoke (emb : Embedder σ) (engine : Engine σ) (f : IdleFunction) (c : Context)
    (w : World σ) : Option (IdleStatus × Context × World σ) :=
  match f with
  | .timer => timerIdle engine c w
  | .custom id => emb.idle id engine c w

/-- A way of running programs, with what is known of the last run. -/
structure Driver where
  policy : SnapshotPolicy := .perSleep
  stats : RunStats := {}
  deriving DecidableEq, Repr, Inhabited

namespace Driver

/-- The delay that a suspended program wants, in nanoseconds; a negative one is none. -/
def budget (delay : Cell) : Nat := delay.toNatClampNeg * nanosPerMilli

/-- The snapshot for the next idle call of a sleep. -/
def nextSnapshot (policy : SnapshotPolicy) (parked last : Context) : Context :=
  match policy with
  | .perSleep => last
  | .perIteration => parked.snapshot

/-- Idle calls until the budget is used up since `stamp`, at most `fuel` of them. The calls made so
far are counted in `calls`. The parked context is not touched. -/
def idleUntil (call : Context → World σ → Option (IdleStatus × Context × World σ))
    (policy : SnapshotPolicy) (parked : Context) (stamp limit : Nat) :
    Nat → Context → Nat → World σ → Option (Except Fault Unit × Nat × World σ)
  | 0, _, _, _ => none
  | fuel + 1, last, calls, w =>
    let (now, w) := w.readClock
    if now - stamp < limit then
      match call (nextSnapshot policy parked last) w with
      | none => none
      | some (.again, c, w) => idleUntil call policy parked stamp limit fuel c (calls + 1) w
      | some (.done, _, w) => some (.ok (), calls + 1, w)
      | some (.failed e, c, w) => some (.error ⟨e, c.regs.cip⟩, calls + 1, w)
    else some (.ok (), calls, w)

/-- The idle calls of one sleep. -/
def idleWhileSleeping (call : Context → World σ → Option (IdleStatus × Context × World σ))
    (policy : SnapshotPolicy) (fuel : Nat) (parked : Context) (delay : Cell) (w : World σ) :
    Option (Except Fault Unit × Nat × World σ) :=
  let (stamp, w) := w.readClock
  idleUntil call policy parked stamp (budget delay) fuel parked.snapshot 0 w

/-- Serve a program without `main` on the live context, with at most `fuel` idle calls. -/
def idleUntilDone (call : Context → World σ → Option (IdleStatus × Context × World σ)) :
    Nat → Nat → Context → World σ → Option (Except Fault Cell × Nat × Context × World σ)
  | 0, _, _, _ => none
  | fuel + 1, calls, c, w =>
    match call c w with
    | none => none
    | some (.again, c, w) => idleUntilDone call fuel (calls + 1) c w
    | some (.done, c, w) => some (.ok 0, calls + 1, c, w)
    | some (.failed e, c, w) => some (.error ⟨e, c.regs.cip⟩, calls + 1, c, w)

/-- Go on after an outcome: sleep and resume, serve, or finish. At most `fuel` outcomes are looked
at, and each sleep may take `calls` idle calls. -/
def proceed (emb : Embedder σ) (engine : Engine σ) (policy : SnapshotPolicy)
    (idle : Option IdleFunction) (calls : Nat) :
    Nat → RunStats → Outcome → Context → World σ →
      Option (Except Fault Cell × RunStats × Context × World σ)
  | 0, _, _, _, _ => none
  | fuel + 1, stats, outcome, c, w =>
    match outcome, idle with
    | .success value, _ => some (.ok value, stats, c, w)
    | .fatal e, _ => some (.error ⟨e, c.regs.cip⟩, stats, c, w)
    | .noEntryPoint, none => some (.error ⟨.badIndex, c.regs.cip⟩, stats, c, w)
    | .noEntryPoint, some f =>
      (idleUntilDone (f.invoke emb engine) calls 0 c w).map fun (result, n, c, w) =>
        (result, { stats with idleCalls := stats.idleCalls + n }, c, w)
    | .sleeping _, none =>
      some (.error ⟨.asleep, c.regs.cip⟩, { stats with sleeps := stats.sleeps + 1 }, c, w)
    | .sleeping delay, some f =>
      match idleWhileSleeping (f.invoke emb engine) policy calls c delay w with
      | none => none
      | some (result, n, w) =>
        let stats :=
          { stats with sleeps := stats.sleeps + 1, idleCalls := stats.idleCalls + n }
        match result with
        | .error fault => some (.error fault, stats, c, w)
        | .ok () =>
          match engine .resume c w with
          | none => none
          | some (outcome, c, w) =>
            proceed emb engine policy idle calls fuel
              { stats with resumes := stats.resumes + 1 } outcome c w

/-- Run a context until it completes or fails. The idle function is the one registered at the start.
There is no result if the run takes more steps of some kind than `fuel`. -/
def execute (emb : Embedder σ) (fuel : Nat) (d : Driver) (c : Context) (w : World σ) :
    Option (Except Fault Cell × Driver × Context × World σ) :=
  let (started, w) := w.readClock
  let engine := Machine.exec emb fuel
  match engine .main c w with
  | none => none
  | some (outcome, c', w) =>
    (proceed emb engine d.policy c.idleFunction? fuel fuel {} outcome c' w).map
      fun (result, stats, c', w) =>
        let (ended, w) := w.readClock
        (result, { d with stats := { stats with elapsed := ended - started } }, c', w)

end Driver

end CellHost
