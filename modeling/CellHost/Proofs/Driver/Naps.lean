import CellHost.Driver
import CellHost.Proofs.Machine.Start

/-!
# The sleeps of a driven run

A driver that keeps a log is a driver: `idleLogged` and `proceedLogged` do what `idleUntil` and
`proceed` do, and note down what every idle call is given and leaves, and with what the program is
resumed. The log is kept also of a run that comes to no end, as far as the fuel goes, so that what
holds of every entry holds of every time a program is resumed.

## Main definitions

* `IdleCall`, `Nap` : what is noted of an idle call and of a sleep.
* `naps` : the sleeps from which a driver resumes a program.

## Main results

* `executeLogged_snd` : the driver that keeps a log is the driver.
-/

namespace CellHost.Driver

variable {σ : Type}

/-- A call of an idle function: what it is given, and what it leaves. -/
structure IdleCall (σ : Type) where
  given : Context
  before : World σ
  status : IdleStatus
  left : Context
  after : World σ

/-- A sleep, from where the program suspends to where it is resumed. -/
structure Nap (σ : Type) where
  delay : Cell
  /-- The context as the program left it. -/
  parked : Context
  /-- The world as the program left it. -/
  asleep : World σ
  calls : List (IdleCall σ)
  /-- The context with which the program is resumed. -/
  resumed : Context
  /-- The world in which the program is resumed. -/
  awake : World σ

/-- A way of calling an idle function. -/
abbrev IdleCaller (σ : Type) := Context → World σ → Option (IdleStatus × Context × World σ)

/-- The idle calls of a sleep, with a log of them. -/
def idleLogged (call : IdleCaller σ) (policy : SnapshotPolicy) (parked : Context)
    (stamp limit : Nat) :
    Nat → Context → Nat → World σ →
      List (IdleCall σ) × Option (Except Fault Unit × Nat × World σ)
  | 0, _, _, _ => ([], none)
  | fuel + 1, last, calls, w =>
    let (now, w) := w.readClock
    if now - stamp < limit then
      let given := nextSnapshot policy parked last
      match call given w with
      | none => ([], none)
      | some (.again, c, w') =>
        let rest := idleLogged call policy parked stamp limit fuel c (calls + 1) w'
        (⟨given, w, .again, c, w'⟩ :: rest.1, rest.2)
      | some (.done, c, w') =>
        ([⟨given, w, .done, c, w'⟩], some (.ok (), calls + 1, w'))
      | some (.failed e, c, w') =>
        ([⟨given, w, .failed e, c, w'⟩], some (.error ⟨e, c.regs.cip⟩, calls + 1, w'))
    else ([], some (.ok (), calls, w))

/-- The idle calls of one sleep from its start, with a log of them. -/
def sleepLogged (call : IdleCaller σ) (policy : SnapshotPolicy) (fuel : Nat) (parked : Context)
    (delay : Cell) (w : World σ) :
    List (IdleCall σ) × Option (Except Fault Unit × Nat × World σ) :=
  let (stamp, w) := w.readClock
  idleLogged call policy parked stamp (budget delay) fuel parked.snapshot 0 w

/-- Go on after an outcome, with a log of the sleeps from which the program is resumed. -/
def proceedLogged (emb : Embedder σ) (engine : Engine σ) (policy : SnapshotPolicy)
    (idle : Option IdleFunction) (calls : Nat) :
    Nat → RunStats → Outcome → Context → World σ →
      List (Nap σ) × Option (Except Fault Cell × RunStats × Context × World σ)
  | 0, _, _, _, _ => ([], none)
  | fuel + 1, stats, outcome, c, w =>
    match outcome, idle with
    | .success value, _ => ([], some (.ok value, stats, c, w))
    | .fatal e, _ => ([], some (.error ⟨e, c.regs.cip⟩, stats, c, w))
    | .noEntryPoint, none => ([], some (.error ⟨.badIndex, c.regs.cip⟩, stats, c, w))
    | .noEntryPoint, some f =>
      ([], (idleUntilDone (f.invoke emb engine) calls 0 c w).map fun (result, n, c, w) =>
        (result, { stats with idleCalls := stats.idleCalls + n }, c, w))
    | .sleeping _, none =>
      ([], some (.error ⟨.asleep, c.regs.cip⟩, { stats with sleeps := stats.sleeps + 1 }, c, w))
    | .sleeping delay, some f =>
      let slept := sleepLogged (f.invoke emb engine) policy calls c delay w
      match slept.2 with
      | none => ([], none)
      | some (result, n, w') =>
        let stats :=
          { stats with sleeps := stats.sleeps + 1, idleCalls := stats.idleCalls + n }
        match result with
        | .error fault => ([], some (.error fault, stats, c, w'))
        | .ok () =>
          let nap : Nap σ := ⟨delay, c, w, slept.1, c, w'⟩
          match engine .resume nap.resumed nap.awake with
          | none => ([nap], none)
          | some (outcome, c, w) =>
            let rest := proceedLogged emb engine policy idle calls fuel
              { stats with resumes := stats.resumes + 1 } outcome c w
            (nap :: rest.1, rest.2)

/-- Run a context, with a log of the sleeps from which it is resumed. -/
def executeLogged (emb : Embedder σ) (fuel : Nat) (d : Driver) (c : Context) (w : World σ) :
    List (Nap σ) × Option (Except Fault Cell × Driver × Context × World σ) :=
  let (started, w) := w.readClock
  let engine := Machine.exec emb fuel
  match engine .main c w with
  | none => ([], none)
  | some (outcome, c', w) =>
    let run := proceedLogged emb engine d.policy c.idleFunction? fuel fuel {} outcome c' w
    (run.1, run.2.map fun (result, stats, c', w) =>
      let (ended, w) := w.readClock
      (result, { d with stats := { stats with elapsed := ended - started } }, c', w))

/-- The sleeps from which a driver resumes a program, as far as its fuel goes. -/
def naps (emb : Embedder σ) (fuel : Nat) (d : Driver) (c : Context) (w : World σ) :
    List (Nap σ) :=
  (executeLogged emb fuel d c w).1

/-! ## The log changes nothing -/

theorem idleLogged_snd (call : IdleCaller σ) (policy : SnapshotPolicy) (parked : Context)
    (stamp limit fuel : Nat) (last : Context) (calls : Nat) (w : World σ) :
    (idleLogged call policy parked stamp limit fuel last calls w).2 =
      idleUntil call policy parked stamp limit fuel last calls w := by
  induction fuel generalizing last calls w with
  | zero => rfl
  | succ fuel ih =>
      simp only [idleLogged, idleUntil]
      split
      · obtain _ | ⟨status, c, w'⟩ := call (nextSnapshot policy parked last) w.readClock.2
        · rfl
        · cases status with
          | again => exact ih c (calls + 1) w'
          | done => rfl
          | failed e => rfl
      · rfl

theorem sleepLogged_snd (call : IdleCaller σ) (policy : SnapshotPolicy) (fuel : Nat)
    (parked : Context) (delay : Cell) (w : World σ) :
    (sleepLogged call policy fuel parked delay w).2 =
      idleWhileSleeping call policy fuel parked delay w :=
  idleLogged_snd ..

theorem proceedLogged_snd (emb : Embedder σ) (engine : Engine σ) (policy : SnapshotPolicy)
    (idle : Option IdleFunction) (calls fuel : Nat) (stats : RunStats) (outcome : Outcome)
    (c : Context) (w : World σ) :
    (proceedLogged emb engine policy idle calls fuel stats outcome c w).2 =
      proceed emb engine policy idle calls fuel stats outcome c w := by
  induction fuel generalizing stats outcome c w with
  | zero => rfl
  | succ fuel ih =>
      cases outcome with
      | success value => rfl
      | fatal e => rfl
      | noEntryPoint => cases idle <;> rfl
      | sleeping delay =>
          cases idle with
          | none => rfl
          | some f =>
              simp only [proceedLogged, proceed, sleepLogged_snd]
              obtain _ | ⟨result, n, w'⟩ :=
                idleWhileSleeping (f.invoke emb engine) policy calls c delay w
              · rfl
              · cases result with
                | error fault => rfl
                | ok done =>
                    cases done
                    dsimp only
                    obtain _ | ⟨outcome, c', w'⟩ := engine .resume c w'
                    · rfl
                    · exact ih _ outcome c' w'

/-- **The driver that keeps a log is the driver.** -/
theorem executeLogged_snd (emb : Embedder σ) (fuel : Nat) (d : Driver) (c : Context)
    (w : World σ) : (executeLogged emb fuel d c w).2 = execute emb fuel d c w := by
  simp only [executeLogged, execute]
  obtain _ | ⟨outcome, c', w'⟩ := Machine.exec emb fuel .main c w.readClock.2
  · rfl
  · simp only [proceedLogged_snd]

end CellHost.Driver
