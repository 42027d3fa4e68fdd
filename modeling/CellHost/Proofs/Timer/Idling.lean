import CellHost.Proofs.Driver.Isolation
import CellHost.Proofs.Machine.Fittings
import CellHost.Proofs.Session.Creation
import CellHost.Proofs.Timer.Events

/-!
# Sleeps are not cut short

The built-in idle function ends a sleep only by failing. What tells it to go on when no timer is armed
is that the snapshot it is given is asleep, and a snapshot that is used again stays asleep: an
execution of the timer public that returns goes back to the parking place, and one that suspends
leaves the snapshot asleep at another place. An execution that faults does neither. It leaves the
snapshot where it failed, which is no sleep; a host that goes on calling the idle function on it, as
the driver never does, gets the answer that a context awake gets.

## Main definitions

* `Idled`, `TimerFails` : the ways in which a call of the idle function can come out, and fail.
* `IdleCalls` : calls of the idle function in a sleep, on one snapshot or on fresh ones.

## Main results

* `sleep_not_cut_short` : no call ends a sleep before the timer public has faulted on its snapshot.
-/

namespace CellHost

open Machine Driver

variable {σ : Type} {emb : Embedder σ}

/-! ## What an execution leaves -/

theorem timed_fitting : Fitting Context.Timed := fun _ _ _ _ _ _ h => h

namespace Machine

/-- An entry that returns leaves a context asleep if it was asleep. -/
theorem sleeping_of_success {fuel : Nat} {entry : EntryPoint} (hEntry : entry ≠ .resume)
    {c c' : Context} {w w' : World σ} {v : Cell}
    (h : exec emb fuel entry c w = some (.success v, c', w')) : c'.sleeping = c.sleeping := by
  obtain ⟨s, c₁, -, -, rfl⟩ := returned_of_exec h
  rw [place_of_ne_resume hEntry]
  rfl

end Machine

/-! ## One call -/

section Call

variable {engine : Engine σ} {c : Context} {w : World σ} {ref : Nat}

/-- The ways in which a call of the idle function comes out on a context with a timer. -/
inductive Idled (engine : Engine σ) (c : Context) (w : World σ) (ref : Nat) :
    IdleStatus × Context × World σ → Prop
  | asleep : (w.timer ref).isArmed = false → c.sleeping = true →
      Idled engine c w ref (.again, c, w.readClock.2.wait idlePoll)
  | awake : (w.timer ref).isArmed = false → c.sleeping = false →
      Idled engine c w ref (.done, c, w.readClock.2)
  | early {nanos : Nat} : (w.timer ref).isArmed = true →
      (w.timer ref).fire? w.readClock.1 = none →
      Idled engine c w ref (.again, c, w.readClock.2.wait nanos)
  | missed {rest : Timer} : (w.timer ref).isArmed = true →
      (w.timer ref).fire? w.readClock.1 = some rest → timerExecution? c w = none →
      Idled engine c w ref (.failed .notFound, c, w.readClock.2.setTimer ref rest)
  | executed {x : Execution σ} {r : Outcome × Context × World σ} :
      (w.timer ref).isArmed = true → timerExecution? c w = some x →
      engine x.1 x.2.1 x.2.2 = some r → Idled engine c w ref (answerOf r)

theorem isArmed_of_fire? {t t' : Timer} {now : Nat} (h : t.fire? now = some t') :
    t.isArmed = true := by
  unfold Timer.fire? at h
  unfold Timer.isArmed
  cases hDue : t.due with
  | none => rw [hDue] at h; cases h
  | some due => rfl

variable (engine) in
/-- Without an execution a call of the idle function looks at the timer and waits. -/
theorem idled_of_rest (hRef : c.timerRef? = some ref) (hNone : timerExecution? c w = none) :
    ∃ r, timerIdle engine c w = some r ∧ Idled engine c w ref r := by
  cases hFire : (w.timer ref).fire? w.readClock.1 with
  | some rest =>
      exact ⟨_, timerIdle_of_miss hRef hFire hNone, .missed (isArmed_of_fire? hFire) hFire hNone⟩
  | none =>
      have hClock : (w.readClock.2.timer ref).fire? w.readClock.1 = none := hFire
      unfold timerIdle
      rw [hRef]
      dsimp only
      rw [hClock]
      cases hDue : (w.timer ref).due with
      | none =>
          have hDue' : (w.readClock.2.timer ref).due = none := hDue
          have hOff : (w.timer ref).isArmed = false := by
            unfold Timer.isArmed
            rw [hDue]
            rfl
          rw [hDue']
          cases hAsleep : c.sleeping with
          | true => exact ⟨_, rfl, .asleep hOff hAsleep⟩
          | false => exact ⟨_, rfl, .awake hOff hAsleep⟩
      | some due =>
          have hDue' : (w.readClock.2.timer ref).due = some due := hDue
          have hOn : (w.timer ref).isArmed = true := by
            unfold Timer.isArmed
            rw [hDue]
            rfl
          rw [hDue']
          exact ⟨_, rfl, .early hOn hFire⟩

/-- **A call of the idle function comes out in one of the ways listed.** -/
theorem idled_of_timerIdle (hRef : c.timerRef? = some ref) {r : IdleStatus × Context × World σ}
    (h : timerIdle engine c w = some r) : Idled engine c w ref r := by
  cases hExecution : timerExecution? c w with
  | none =>
      obtain ⟨r', hRest, hIdled⟩ := idled_of_rest engine hRef hExecution
      cases h.symm.trans hRest
      exact hIdled
  | some x =>
      obtain ⟨other, rest, index, hOther, hFire, -⟩ := timerExecution?_eq_some hExecution
      cases hRef.symm.trans hOther
      rw [timerIdle_eq, hExecution] at h
      obtain ⟨r, hRun, rfl⟩ := Option.map_eq_some_iff.mp h
      exact .executed (isArmed_of_fire? hFire) hExecution hRun

/-- A call without a result is one whose execution of the timer public has none. -/
theorem timerIdle_eq_none_iff (hTimed : c.Timed) : timerIdle engine c w = none ↔
    ∃ x, timerExecution? c w = some x ∧ engine x.1 x.2.1 x.2.2 = none := by
  obtain ⟨ref, hRef⟩ := hTimed
  cases hExecution : timerExecution? c w with
  | none =>
      obtain ⟨r, hRest, -⟩ := idled_of_rest engine hRef hExecution
      simp [hRest]
  | some x => simp [timerIdle_eq, hExecution]

/-- A call is done only on a context that is awake, and while no timer is armed. -/
theorem awake_of_done (hRef : c.timerRef? = some ref) {c' : Context} {w' : World σ}
    (h : timerIdle engine c w = some (.done, c', w')) :
    c.sleeping = false ∧ (w.timer ref).isArmed = false := by
  generalize hr : (IdleStatus.done, c', w') = r at h
  cases idled_of_timerIdle hRef h with
  | asleep _ _ => cases hr
  | awake hOff hAwake => exact ⟨hAwake, hOff⟩
  | early _ _ => cases hr
  | missed _ _ _ => cases hr
  | @executed x r _ _ _ =>
      obtain ⟨outcome, c₁, w₁⟩ := r
      cases outcome <;> cases hr

/-- On a context that is awake a call is done exactly when no timer is armed. -/
theorem done_iff_not_armed (hRef : c.timerRef? = some ref) (hAwake : c.sleeping = false) :
    (∃ c' w', timerIdle engine c w = some (.done, c', w')) ↔ (w.timer ref).isArmed = false := by
  constructor
  · rintro ⟨c', w', h⟩
    exact (awake_of_done hRef h).2
  · intro hOff
    have hNone : timerExecution? c w = none := by
      cases hExecution : timerExecution? c w with
      | none => rfl
      | some x =>
          obtain ⟨other, rest, index, hOther, hFire, -⟩ := timerExecution?_eq_some hExecution
          cases hRef.symm.trans hOther
          exact absurd (isArmed_of_fire? hFire) (by simp [hOff])
    obtain ⟨r, hRest, hIdled⟩ := idled_of_rest engine hRef hNone
    cases hIdled with
    | asleep _ hAsleep => exact absurd hAsleep (by simp [hAwake])
    | awake _ _ => exact ⟨_, _, hRest⟩
    | early hOn _ => exact absurd hOn (by simp [hOff])
    | missed hOn _ _ => exact absurd hOn (by simp [hOff])
    | executed hOn _ _ => exact absurd hOn (by simp [hOff])

/-- What goes wrong in a call of the idle function that finds the timer due: there is no timer public,
or it faults, or it goes to sleep. -/
inductive TimerFails (engine : Engine σ) (c : Context) (w : World σ) : MachineError → Prop
  | missing {ref : Nat} {rest : Timer} : c.timerRef? = some ref →
      (w.timer ref).fire? w.readClock.1 = some rest → c.program.findPublic? timerPublic = none →
      TimerFails engine c w .notFound
  | faults {x : Execution σ} {e : MachineError} {c' : Context} {w' : World σ} :
      timerExecution? c w = some x → engine x.1 x.2.1 x.2.2 = some (.fatal e, c', w') →
      TimerFails engine c w e
  | sleeps {x : Execution σ} {d : Cell} {c' : Context} {w' : World σ} :
      timerExecution? c w = some x → engine x.1 x.2.1 x.2.2 = some (.sleeping d, c', w') →
      TimerFails engine c w .asleep

theorem timerExecution?_of_missing (h : c.program.findPublic? timerPublic = none) :
    timerExecution? c w = none := by
  unfold timerExecution?
  rw [h]
  split
  · rfl
  · dsimp only
    split
    next hSome => cases hSome
    · rfl

/-- What fails in a call is its result. -/
theorem TimerFails.failed {e : MachineError} (h : TimerFails engine c w e) :
    ∃ c' w', timerIdle engine c w = some (.failed e, c', w') := by
  cases h with
  | missing hRef hFire hMissing =>
      exact ⟨_, _, timerIdle_of_miss hRef hFire (timerExecution?_of_missing hMissing)⟩
  | faults hExecution hRun => exact ⟨_, _, timerIdle_of_execution hExecution hRun⟩
  | sleeps hExecution hRun => exact ⟨_, _, timerIdle_of_execution hExecution hRun⟩

variable {emb : Embedder σ} {fuel : Nat}

/-- A call fails exactly where a due timer cannot be served. -/
theorem failed_iff_timerFails (hTimed : c.Timed) {r : IdleStatus × Context × World σ}
    (h : timerIdle (exec emb fuel) c w = some r) {e : MachineError} :
    r.1 = .failed e ↔ TimerFails (exec emb fuel) c w e := by
  constructor
  · obtain ⟨ref, hRef⟩ := hTimed
    intro hFailed
    cases idled_of_timerIdle hRef h with
    | asleep _ _ => cases hFailed
    | awake _ _ => cases hFailed
    | early _ _ => cases hFailed
    | missed _ hFire hNone =>
        cases hFailed
        exact .missing hRef hFire (findPublic?_of_miss hRef hFire hNone)
    | @executed x r _ hExecution hRun =>
        obtain ⟨_, _, index, -, -, rfl⟩ := timerExecution?_eq_some hExecution
        obtain ⟨outcome, c', w'⟩ := r
        cases outcome with
        | success v => cases hFailed
        | sleeping d => cases hFailed; exact .sleeps hExecution hRun
        | noEntryPoint => exact absurd (unentered_of_exec hRun).1 nofun
        | fatal e => cases hFailed; exact .faults hExecution hRun
  · intro hFails
    obtain ⟨c', w', hFailed⟩ := hFails.failed
    cases h.symm.trans hFailed
    rfl

end Call

/-! ## The calls of a sleep -/

/-- The context is parked and has a timer, as the idle function finds it in a sleep. -/
structure Context.Dozes (c : Context) : Prop where
  asleep : c.sleeping = true
  timed : c.Timed

/-- The timer public faults in a call of the idle function. -/
def Driver.IdleCall.Faulted (engine : Engine σ) (call : IdleCall σ) : Prop :=
  ∃ x e c w, timerExecution? call.given call.before = some x ∧
    engine x.1 x.2.1 x.2.2 = some (.fatal e, c, w)

/-- Calls of the built-in idle function, each on the snapshot that the policy has for it. The first
snapshot is `last`; between the calls the world may become any other. -/
inductive IdleCalls (engine : Engine σ) (policy : SnapshotPolicy) (parked : Context) :
    Context → List (IdleCall σ) → Prop
  | ends (last : Context) : IdleCalls engine policy parked last []
  | call {last : Context} {call : IdleCall σ} {calls : List (IdleCall σ)} :
      call.given = nextSnapshot policy parked last →
      timerIdle engine call.given call.before = some (call.status, call.left, call.after) →
      IdleCalls engine policy parked call.left calls →
      IdleCalls engine policy parked last (call :: calls)

section Calls

variable {fuel : Nat} {policy : SnapshotPolicy} {parked last : Context}

/-- **A snapshot stays asleep**, and keeps its timer, unless the timer public faults on it. -/
theorem dozes_of_timerIdle (hEmb : emb.Leaves Context.Timed) {call : IdleCall σ}
    (h : timerIdle (exec emb fuel) call.given call.before =
      some (call.status, call.left, call.after))
    (hDozes : call.given.Dozes) (hSound : ¬ call.Faulted (exec emb fuel)) : call.left.Dozes := by
  obtain ⟨ref, hRef⟩ := hDozes.timed
  generalize hr : (call.status, call.left, call.after) = r at h
  have hLeft : call.left = r.2.1 := congrArg (·.2.1) hr
  rw [hLeft]
  cases idled_of_timerIdle hRef h with
  | asleep _ _ => exact hDozes
  | awake _ hAwake => exact absurd hDozes.asleep (by simp [hAwake])
  | early _ _ => exact hDozes
  | missed _ _ _ => exact hDozes
  | @executed x r _ hExecution hRun =>
      obtain ⟨_, _, index, -, -, rfl⟩ := timerExecution?_eq_some hExecution
      obtain ⟨outcome, c', w'⟩ := r
      refine ⟨?_, exec_leaves timed_fitting hEmb fuel _ _ _ _ _ _ hRun hDozes.timed⟩
      cases outcome with
      | success v =>
          have hEntry : EntryPoint.function index ≠ .resume := nofun
          exact (sleeping_of_success hEntry hRun).trans hDozes.asleep
      | sleeping d => exact exec_marksSleep emb fuel _ _ _ _ _ _ hRun
      | noEntryPoint => exact absurd (unentered_of_exec hRun).1 nofun
      | fatal e => exact absurd ⟨_, e, c', w', hExecution, hRun⟩ hSound

/-- Every call is given a snapshot that is asleep, as long as the timer public has not faulted on
it. -/
theorem IdleCalls.given_dozes (hEmb : emb.Leaves Context.Timed) {calls : List (IdleCall σ)}
    (h : IdleCalls (exec emb fuel) policy parked last calls)
    (hFirst : (nextSnapshot policy parked last).Dozes) {before after : List (IdleCall σ)}
    {call : IdleCall σ} (hSplit : calls = before ++ call :: after)
    (hSound : policy = .perIteration ∨ ∀ x ∈ before, ¬ x.Faulted (exec emb fuel)) :
    call.given.Dozes ∧ timerIdle (exec emb fuel) call.given call.before =
      some (call.status, call.left, call.after) := by
  induction h generalizing before with
  | ends last => cases before <;> cases hSplit
  | @call last first rest hGiven hMade hRest ih =>
      rw [← hGiven] at hFirst
      cases before with
      | nil =>
          cases hSplit
          exact ⟨hFirst, hMade⟩
      | cons earlier before =>
          cases hSplit
          have hNext : (nextSnapshot policy parked first.left).Dozes := by
            cases policy with
            | perIteration => exact hGiven ▸ hFirst
            | perSleep =>
                have hSafe := hSound.resolve_left nofun first List.mem_cons_self
                exact dozes_of_timerIdle hEmb hMade hFirst hSafe
          exact ih hNext rfl (hSound.imp_right fun hAll x hx => hAll x (List.mem_cons_of_mem _ hx))

end Calls

/-- **Main theorem.** On a context that an execution left asleep, no call of the built-in idle
function ends the sleep by being done, on fresh snapshots or on one that is used again and on which the
timer public has not faulted before: the call asks for another one, or it fails, which it does exactly
where a due timer cannot be served. A context that is awake is done exactly when no timer is armed. A
call has no result only where the timer public has none. -/
theorem sleep_not_cut_short (hEmb : emb.Leaves Context.Timed) (fuel : Nat) :
    (∀ (policy : SnapshotPolicy) (entry : EntryPoint) (c parked : Context) (w w' : World σ)
      (delay : Cell) (calls before after : List (IdleCall σ)) (call : IdleCall σ),
      c.Timed → exec emb fuel entry c w = some (.sleeping delay, parked, w') →
      IdleCalls (exec emb fuel) policy parked parked.snapshot calls →
      calls = before ++ call :: after →
      (policy = .perIteration ∨ ∀ x ∈ before, ¬ x.Faulted (exec emb fuel)) →
      (call.status = .again ∨ ∃ e, call.status = .failed e) ∧
        ∀ e, call.status = .failed e ↔ TimerFails (exec emb fuel) call.given call.before e) ∧
    (∀ (c : Context) (w : World σ) (ref : Nat), c.timerRef? = some ref → c.sleeping = false →
      ((∃ c' w', timerIdle (exec emb fuel) c w = some (.done, c', w')) ↔
        (w.timer ref).isArmed = false)) ∧
    ∀ (c : Context) (w : World σ), c.Timed →
      (timerIdle (exec emb fuel) c w = none ↔
        ∃ x, timerExecution? c w = some x ∧ exec emb fuel x.1 x.2.1 x.2.2 = none) := by
  refine ⟨?_, fun c w ref hRef hAwake => done_iff_not_armed hRef hAwake,
    fun c w hTimed => timerIdle_eq_none_iff hTimed⟩
  intro policy entry c parked w w' delay calls before after call hTimed hSlept hCalls hSplit hSound
  have hParked : parked.Dozes :=
    ⟨exec_marksSleep emb fuel _ _ _ _ _ _ hSlept,
      exec_leaves timed_fitting hEmb fuel _ _ _ _ _ _ hSlept hTimed⟩
  have hFirst : (nextSnapshot policy parked parked.snapshot).Dozes := by
    cases policy <;> exact hParked
  obtain ⟨hGiven, hMade⟩ := hCalls.given_dozes hEmb hFirst hSplit hSound
  refine ⟨?_, fun e => failed_iff_timerFails hGiven.timed hMade⟩
  obtain ⟨ref, hRef⟩ := hGiven.timed
  cases hStatus : call.status with
  | again => exact .inl rfl
  | failed e => exact .inr ⟨e, rfl⟩
  | done =>
      rw [hStatus] at hMade
      exact absurd hGiven.asleep (by simp [(awake_of_done hRef hMade).1])

/-- A program that sleeps for a second, and whose timer public halts with a code. -/
def drowsing (code : Cell) : Program where
  main := some 8
  publics := [⟨timerPublic, 28⟩]
  code :=
    #[Opcode.halt.toCell, 0, Opcode.constPri.toCell, 1000, Opcode.sleep.toCell, Opcode.halt.toCell,
      0, Opcode.halt.toCell, code]
  data := #[]

/-- The program in a block of sixteen cells, with a timer. -/
def drowser (code : Cell) : Context where
  program := drowsing code
  natives := []
  layout := ⟨0, 64⟩
  regs := { frm := 64, stk := 64, hea := 0 }
  resetStk := 64
  resetHea := 0
  registry := ⟨[(.timer, .timer 0)]⟩

/-- The program in its sleep. -/
def drowserParked (code : Cell) : Context :=
  { drowser code with regs := { pri := 1000, cip := 20, frm := 64, stk := 60, hea := 0 },
                      sleeping := true }

/-- The world of the program after so many instructions, with a timer. -/
def drowserWorld (timer : Timer) (reads started : Nat) : World Unit where
  region := { memory := Array.replicate 16 0, objects := { timers := #[timer] } }
  clock := { Clock.steady with reads }
  interrupts := { started }
  host := ()

/-- The timer public, which is due once, returns in the first call. -/
def drowserCalls : List (IdleCall Unit) :=
  [⟨drowserParked 0, drowserWorld { due := some 0 } 0 2, .again, drowserParked 0,
    drowserWorld {} 1 3⟩]

/-- The second call, on the same snapshot, finds no timer armed. -/
def drowserCall : IdleCall Unit :=
  ⟨drowserParked 0, drowserWorld {} 1 3, .again, drowserParked 0,
    (drowserWorld {} 2 3).wait idlePoll⟩

/-- The second call is not done. -/
theorem sleep_not_cut_short_drowser :
    (Embedder.plain : Embedder Unit).Leaves Context.Timed ∧ (drowser 0).Timed ∧
    exec .plain 8 .main (drowser 0) (drowserWorld { due := some 0 } 0 0) =
      some (.sleeping 1000, drowserParked 0, drowserWorld { due := some 0 } 0 2) ∧
    IdleCalls (exec .plain 8) .perSleep (drowserParked 0) (drowserParked 0).snapshot
      (drowserCalls ++ [drowserCall]) ∧
    (∀ x ∈ drowserCalls, ¬ x.Faulted (exec .plain 8)) ∧
    (drowserCall.before.timer 0).isArmed = false ∧
    (drowserCall.status = .again ∨ ∃ e, drowserCall.status = .failed e) := by
  have hPlain : (Embedder.plain : Embedder Unit).Leaves Context.Timed := Embedder.plain_leaves _
  have hTimed : (drowser 0).Timed := ⟨0, rfl⟩
  have hSlept : exec .plain 8 .main (drowser 0) (drowserWorld { due := some 0 } 0 0) =
      some (.sleeping 1000, drowserParked 0, drowserWorld { due := some 0 } 0 2) := rfl
  have hCalls : IdleCalls (exec .plain 8) .perSleep (drowserParked 0) (drowserParked 0).snapshot
      (drowserCalls ++ [drowserCall]) := .call rfl rfl (.call rfl rfl (.ends _))
  have hSound : ∀ x ∈ drowserCalls, ¬ x.Faulted (exec .plain 8) := by
    intro call hCall
    obtain rfl := List.mem_singleton.mp hCall
    rintro ⟨x, e, c, w, hExecution, hRun⟩
    cases hExecution
    cases hRun
  exact ⟨hPlain, hTimed, hSlept, hCalls, hSound, rfl,
    ((sleep_not_cut_short hPlain 8).1 .perSleep .main _ _ _ _ _ _ _ _ _ hTimed hSlept hCalls rfl
      (.inr hSound)).1⟩

/-- Where the timer public faults, the snapshot is left awake. -/
def drowserFaulted : Context :=
  { drowserParked 4 with regs := { pri := 1000, cip := 28, frm := 64, stk := 56, hea := 0 },
                         resetStk := 60, sleeping := false }

/-- A second call on that snapshot is done. -/
theorem drowser_cut_short :
    exec .plain 8 .main (drowser 4) (drowserWorld { due := some 0 } 0 0) =
      some (.sleeping 1000, drowserParked 4, drowserWorld { due := some 0 } 0 2) ∧
    IdleCalls (exec .plain 8) .perSleep (drowserParked 4) (drowserParked 4).snapshot
      [⟨drowserParked 4, drowserWorld { due := some 0 } 0 2, .failed .outOfBounds, drowserFaulted,
          drowserWorld {} 1 3⟩,
        ⟨drowserFaulted, drowserWorld {} 1 3, .done, drowserFaulted, drowserWorld {} 2 3⟩] :=
  ⟨rfl, .call rfl rfl (.call rfl rfl (.ends _))⟩

end CellHost
