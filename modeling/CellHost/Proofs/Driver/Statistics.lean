import CellHost.Proofs.Driver.Isolation

/-!
# What the statistics of a run count

A driven run is a sequence of *turns*. In each the engine executes the program, from `main` at first
and resuming it from then on, and comes to an outcome; the idle function may then be called any number
of times. Every turn but the last is a sleep from which the program is resumed. The statistics of the
run are counts over its turns, and say nothing of any run before.

## Main definitions

* `SleepCalls` : the idle calls of one sleep, with the readings of the clock that lead to them.
* `ServiceCalls` : the idle calls for a program without `main`.
* `Turn`, `Turns` : the turns of a run, and the result that they come to.
* `Unresumed` : a run ends with a sleep from which the program is not resumed.

## Main results

* `accounts_of_proceed` : each turn is counted once.
* `Turns.ends` : only the last turn is not resumed from.
* `execute_accounts` : the statistics of a run are those of its turns.
-/

namespace CellHost.Driver

variable {σ : Type}

/-! ## Idle calls -/

theorem budget_of_nonpos {delay : Cell} (h : delay ≤ 0) : budget delay = 0 := by
  have hNone : delay.toNatClampNeg = 0 := Int.toNat_of_nonpos (Int32.le_iff_toInt_le.mp h)
  rw [budget, hNone, Nat.zero_mul]

/-- The idle calls of one sleep. A call is made where the clock shows that less than the limit has
passed since `stamp`; the first snapshot is `last`. -/
inductive SleepCalls (caller : IdleCaller σ) (policy : SnapshotPolicy) (parked : Context)
    (stamp limit : Nat) :
    Context → World σ → List (IdleCall σ) → Except Fault Unit → World σ → Prop
  | expires {last : Context} {w : World σ} :
      limit ≤ w.readClock.1 - stamp →
      SleepCalls caller policy parked stamp limit last w [] (.ok ()) w.readClock.2
  | ends {last : Context} {w : World σ} {call : IdleCall σ} :
      w.readClock.1 - stamp < limit → call.Follows caller policy parked last w →
      call.status = .done →
      SleepCalls caller policy parked stamp limit last w [call] (.ok ()) call.after
  | fails {last : Context} {w : World σ} {call : IdleCall σ} {e : MachineError} :
      w.readClock.1 - stamp < limit → call.Follows caller policy parked last w →
      call.status = .failed e →
      SleepCalls caller policy parked stamp limit last w [call] (.error ⟨e, call.left.regs.cip⟩) call.after
  | goesOn {last : Context} {w w' : World σ} {call : IdleCall σ} {calls : List (IdleCall σ)}
      {result : Except Fault Unit} :
      w.readClock.1 - stamp < limit → call.Follows caller policy parked last w →
      call.status = .again →
      SleepCalls caller policy parked stamp limit call.left call.after calls result w' →
      SleepCalls caller policy parked stamp limit last w (call :: calls) result w'

section SleepCalls

variable {caller : IdleCaller σ} {policy : SnapshotPolicy} {parked last : Context}
  {stamp limit : Nat} {w w' : World σ} {calls : List (IdleCall σ)}

/-- The driver counts the idle calls of a sleep. -/
theorem sleepCalls_of_idleUntil {fuel n n' : Nat} {result : Except Fault Unit}
    (h : idleUntil caller policy parked stamp limit fuel last n w = some (result, n', w')) :
    ∃ calls, SleepCalls caller policy parked stamp limit last w calls result w' ∧
      n' = n + calls.length := by
  induction fuel generalizing last n w with
  | zero => cases h
  | succ fuel ih =>
      simp only [idleUntil] at h
      split at h
      next hTime =>
        cases hCall : caller (nextSnapshot policy parked last) w.readClock.2 with
        | none => rw [hCall] at h; cases h
        | some answer =>
            obtain ⟨status, c, w₁⟩ := answer
            rw [hCall] at h
            cases status with
            | again =>
                obtain ⟨calls, hRest, hCount⟩ := ih h
                refine ⟨⟨_, _, .again, c, w₁⟩ :: calls, .goesOn hTime ⟨rfl, rfl, hCall⟩ rfl hRest, ?_⟩
                rw [hCount, List.length_cons, Nat.add_assoc, Nat.add_comm 1]
            | done =>
                cases h
                exact ⟨[⟨_, _, .done, c, _⟩], .ends hTime ⟨rfl, rfl, hCall⟩ rfl, rfl⟩
            | failed e =>
                cases h
                exact ⟨[⟨_, _, .failed e, c, _⟩], .fails hTime ⟨rfl, rfl, hCall⟩ rfl, rfl⟩
      next hTime =>
        cases h
        exact ⟨[], .expires (Nat.le_of_not_lt hTime), rfl⟩

/-- Without time for it no call is made. -/
theorem SleepCalls.none_of_zero {result : Except Fault Unit}
    (h : SleepCalls caller policy parked stamp 0 last w calls result w') : calls = [] := by
  cases h with
  | expires _ => rfl
  | ends hTime _ _ => exact absurd hTime (Nat.not_lt_zero _)
  | fails hTime _ _ => exact absurd hTime (Nat.not_lt_zero _)
  | goesOn hTime _ _ _ => exact absurd hTime (Nat.not_lt_zero _)

/-- A sleep fails with the last call of it. -/
theorem SleepCalls.failed {fault : Fault}
    (h : SleepCalls caller policy parked stamp limit last w calls (.error fault) w') :
    ∃ call e, calls.getLast? = some call ∧ call.status = .failed e ∧
      fault = ⟨e, call.left.regs.cip⟩ := by
  generalize hResult : (.error fault : Except Fault Unit) = result at h
  induction h with
  | expires _ => cases hResult
  | ends _ _ _ => cases hResult
  | @fails _ _ call e _ _ hStatus =>
      cases hResult
      exact ⟨call, e, rfl, hStatus, rfl⟩
  | @goesOn _ _ _ call calls _ _ _ _ _ ih =>
      obtain ⟨final, e, hLast, hFailed⟩ := ih hResult
      refine ⟨final, e, ?_, hFailed⟩
      rw [List.getLast?_cons, hLast, Option.getD_some]

end SleepCalls

/-- A call of an idle function on a context, in a world. -/
structure IdleCall.Made (caller : IdleCaller σ) (c : Context) (w : World σ) (call : IdleCall σ) :
    Prop where
  given : call.given = c
  before : call.before = w
  answers : caller c w = some (call.status, call.left, call.after)

/-- The idle calls for a program without `main`, each on the context that the one before it left. -/
inductive ServiceCalls (caller : IdleCaller σ) :
    Context → World σ → List (IdleCall σ) → Except Fault Cell → Context → World σ → Prop
  | ends {c : Context} {w : World σ} {call : IdleCall σ} :
      call.Made caller c w → call.status = .done →
      ServiceCalls caller c w [call] (.ok 0) call.left call.after
  | fails {c : Context} {w : World σ} {call : IdleCall σ} {e : MachineError} :
      call.Made caller c w → call.status = .failed e →
      ServiceCalls caller c w [call] (.error ⟨e, call.left.regs.cip⟩) call.left call.after
  | goesOn {c c' : Context} {w w' : World σ} {call : IdleCall σ} {calls : List (IdleCall σ)}
      {result : Except Fault Cell} :
      call.Made caller c w → call.status = .again →
      ServiceCalls caller call.left call.after calls result c' w' →
      ServiceCalls caller c w (call :: calls) result c' w'

/-- The driver counts the idle calls for a program without `main`. -/
theorem serviceCalls_of_idleUntilDone {caller : IdleCaller σ} {fuel n n' : Nat} {c c' : Context}
    {w w' : World σ} {result : Except Fault Cell}
    (h : idleUntilDone caller fuel n c w = some (result, n', c', w')) :
    ∃ calls, ServiceCalls caller c w calls result c' w' ∧ n' = n + calls.length := by
  induction fuel generalizing n c w with
  | zero => cases h
  | succ fuel ih =>
      simp only [idleUntilDone] at h
      cases hCall : caller c w with
      | none => rw [hCall] at h; cases h
      | some answer =>
          obtain ⟨status, c₁, w₁⟩ := answer
          rw [hCall] at h
          cases status with
          | again =>
              obtain ⟨calls, hRest, hCount⟩ := ih h
              refine ⟨⟨c, w, .again, c₁, w₁⟩ :: calls, .goesOn ⟨rfl, rfl, hCall⟩ rfl hRest, ?_⟩
              rw [hCount, List.length_cons, Nat.add_assoc, Nat.add_comm 1]
          | done =>
              cases h
              exact ⟨[⟨c, w, .done, _, _⟩], .ends ⟨rfl, rfl, hCall⟩ rfl, rfl⟩
          | failed e =>
              cases h
              exact ⟨[⟨c, w, .failed e, _, _⟩], .fails ⟨rfl, rfl, hCall⟩ rfl, rfl⟩

/-! ## Turns -/

/-- One turn of a run: the entry point from which the program is executed, the outcome that the engine
comes to, and the idle calls that follow. -/
structure Turn (σ : Type) where
  entry : EntryPoint
  outcome : Outcome
  calls : List (IdleCall σ)

/-- The turns of a run from an outcome on, the first being that of the outcome, and the result of the
run. -/
inductive Turns (emb : Embedder σ) (engine : Engine σ) (policy : SnapshotPolicy)
    (idle : Option IdleFunction) :
    EntryPoint → Outcome × Context × World σ → List (Turn σ) → Except Fault Cell → Prop
  | success {entry : EntryPoint} {value : Cell} {c : Context} {w : World σ} :
      Turns emb engine policy idle entry (.success value, c, w) [⟨entry, .success value, []⟩]
        (.ok value)
  | fatal {entry : EntryPoint} {e : MachineError} {c : Context} {w : World σ} :
      Turns emb engine policy idle entry (.fatal e, c, w) [⟨entry, .fatal e, []⟩]
        (.error ⟨e, c.regs.cip⟩)
  | unentered {entry : EntryPoint} {c : Context} {w : World σ} :
      idle = none →
      Turns emb engine policy idle entry (.noEntryPoint, c, w) [⟨entry, .noEntryPoint, []⟩]
        (.error ⟨.badIndex, c.regs.cip⟩)
  | attended {entry : EntryPoint} {f : IdleFunction} {c c' : Context} {w w' : World σ}
      {calls : List (IdleCall σ)} {result : Except Fault Cell} :
      idle = some f → ServiceCalls (f.invoke emb engine) c w calls result c' w' →
      Turns emb engine policy idle entry (.noEntryPoint, c, w) [⟨entry, .noEntryPoint, calls⟩] result
  | unattended {entry : EntryPoint} {delay : Cell} {c : Context} {w : World σ} :
      idle = none →
      Turns emb engine policy idle entry (.sleeping delay, c, w) [⟨entry, .sleeping delay, []⟩]
        (.error ⟨.asleep, c.regs.cip⟩)
  | idleFailed {entry : EntryPoint} {f : IdleFunction} {delay : Cell} {c : Context}
      {w w' : World σ} {calls : List (IdleCall σ)} {fault : Fault} :
      idle = some f →
      SleepCalls (f.invoke emb engine) policy c w.readClock.1 (budget delay) c.snapshot w.readClock.2
        calls (.error fault) w' →
      Turns emb engine policy idle entry (.sleeping delay, c, w) [⟨entry, .sleeping delay, calls⟩]
        (.error fault)
  | resumes {entry : EntryPoint} {f : IdleFunction} {delay : Cell} {c : Context}
      {w w' : World σ} {calls : List (IdleCall σ)} {next : Outcome × Context × World σ}
      {rest : List (Turn σ)} {result : Except Fault Cell} :
      idle = some f →
      SleepCalls (f.invoke emb engine) policy c w.readClock.1 (budget delay) c.snapshot w.readClock.2
        calls (.ok ()) w' →
      engine .resume c w' = some next → Turns emb engine policy idle .resume next rest result →
      Turns emb engine policy idle entry (.sleeping delay, c, w)
        (⟨entry, .sleeping delay, calls⟩ :: rest) result

/-- The turn ends with a suspension. -/
def Turn.sleeps (turn : Turn σ) : Bool := turn.outcome.isResumable

/-- The turn resumes the program. -/
def Turn.resumes (turn : Turn σ) : Bool := turn.entry == .resume

/-- The statistics after turns are those before them with the turns counted in. The first turn is that
of an outcome that was there before, and each turn after it resumes the program. -/
structure Accounts (before after : RunStats) (turns : List (Turn σ)) : Prop where
  sleeps : after.sleeps = before.sleeps + turns.countP Turn.sleeps
  resumes : after.resumes = before.resumes + turns.tail.length
  idleCalls : after.idleCalls = before.idleCalls + (turns.flatMap Turn.calls).length

/-- A sleep from which the program is resumed counts as one, and its idle calls do. -/
theorem Accounts.cons {before after : RunStats} {calls : List (IdleCall σ)} {second : Turn σ}
    {rest : List (Turn σ)}
    (h : Accounts { before with
      sleeps := before.sleeps + 1
      idleCalls := before.idleCalls + calls.length
      resumes := before.resumes + 1 } after (second :: rest))
    (entry : EntryPoint) (delay : Cell) :
    Accounts before after (⟨entry, .sleeping delay, calls⟩ :: second :: rest) where
  sleeps := by
    have hSleeps : (⟨entry, .sleeping delay, calls⟩ : Turn σ).sleeps = true := rfl
    rw [h.sleeps, List.countP_cons_of_pos hSleeps, Nat.add_assoc, Nat.add_comm 1]
  resumes := by
    rw [h.resumes, List.tail_cons, List.tail_cons, List.length_cons, Nat.add_assoc, Nat.add_comm 1]
  idleCalls := by
    have hCalls : ((⟨entry, .sleeping delay, calls⟩ : Turn σ) :: second :: rest).flatMap Turn.calls =
        calls ++ (second :: rest).flatMap Turn.calls := List.flatMap_cons
    rw [h.idleCalls, hCalls, List.length_append, Nat.add_assoc]

section Turns

variable {emb : Embedder σ} {engine : Engine σ} {policy : SnapshotPolicy}
  {idle : Option IdleFunction} {entry : EntryPoint} {s : Outcome × Context × World σ}
  {turns : List (Turn σ)} {result : Except Fault Cell}

/-- The first turn is executed from the entry point at hand, and every other resumes. -/
theorem Turns.entries (h : Turns emb engine policy idle entry s turns result) :
    ∃ first rest, turns = first :: rest ∧ first.entry = entry ∧
      ∀ turn ∈ rest, turn.entry = .resume := by
  induction h with
  | success => exact ⟨_, [], rfl, rfl, List.forall_mem_nil _⟩
  | fatal => exact ⟨_, [], rfl, rfl, List.forall_mem_nil _⟩
  | unentered _ => exact ⟨_, [], rfl, rfl, List.forall_mem_nil _⟩
  | attended _ _ => exact ⟨_, [], rfl, rfl, List.forall_mem_nil _⟩
  | unattended _ => exact ⟨_, [], rfl, rfl, List.forall_mem_nil _⟩
  | idleFailed _ _ => exact ⟨_, [], rfl, rfl, List.forall_mem_nil _⟩
  | resumes _ _ _ _ ih =>
      obtain ⟨second, rest, rfl, hSecond, hRest⟩ := ih
      exact ⟨_, second :: rest, rfl, rfl, List.forall_mem_cons.mpr ⟨hSecond, hRest⟩⟩

theorem Turns.countP_resumes (h : Turns emb engine policy idle .main s turns result) :
    turns.countP Turn.resumes = turns.tail.length := by
  obtain ⟨first, rest, rfl, hFirst, hRest⟩ := h.entries
  have hNot : ¬ first.resumes = true := by
    unfold Turn.resumes
    rw [hFirst]
    decide
  rw [List.countP_cons_of_neg hNot]
  exact List.countP_eq_length.mpr fun turn hTurn => beq_iff_eq.mpr (hRest turn hTurn)

/-- **The driver counts each turn once**, and comes to the result of the turns. -/
theorem accounts_of_proceed {calls fuel : Nat} {stats stats' : RunStats} {outcome : Outcome}
    {c c' : Context} {w w' : World σ}
    (h : proceed emb engine policy idle calls fuel stats outcome c w =
      some (result, stats', c', w')) (entry : EntryPoint) :
    ∃ turns, Turns emb engine policy idle entry (outcome, c, w) turns result ∧
      Accounts stats stats' turns := by
  induction fuel generalizing stats outcome c w entry with
  | zero => cases h
  | succ fuel ih =>
      unfold proceed at h
      cases outcome with
      | success value =>
          cases h
          exact ⟨_, .success, rfl, rfl, rfl⟩
      | fatal e =>
          cases h
          exact ⟨_, .fatal, rfl, rfl, rfl⟩
      | noEntryPoint =>
          cases idle with
          | none =>
              cases h
              exact ⟨_, .unentered rfl, rfl, rfl, rfl⟩
          | some f =>
              obtain ⟨⟨served, n, c₁, w₁⟩, hService, hEnd⟩ := Option.map_eq_some_iff.mp h
              cases hEnd
              obtain ⟨made, hCalls, hCount⟩ := serviceCalls_of_idleUntilDone hService
              refine ⟨_, .attended rfl hCalls, rfl, rfl, ?_⟩
              simp [hCount]
      | sleeping delay =>
          cases idle with
          | none =>
              cases h
              exact ⟨_, .unattended rfl, rfl, rfl, rfl⟩
          | some f =>
              dsimp only at h
              cases hSleep : idleWhileSleeping (f.invoke emb engine) policy calls c delay w with
              | none => rw [hSleep] at h; cases h
              | some slept =>
                  obtain ⟨rested, n, w₁⟩ := slept
                  rw [hSleep] at h
                  obtain ⟨made, hCalls, hCount⟩ := sleepCalls_of_idleUntil hSleep
                  cases rested with
                  | error fault =>
                      cases h
                      refine ⟨_, .idleFailed rfl hCalls, rfl, rfl, ?_⟩
                      simp [hCount]
                  | ok done =>
                      cases done
                      dsimp only at h
                      cases hResume : engine .resume c w₁ with
                      | none => rw [hResume] at h; cases h
                      | some next =>
                          obtain ⟨outcome, c₂, w₂⟩ := next
                          rw [hResume] at h
                          obtain ⟨turns, hTurns, hRest⟩ := ih h .resume
                          obtain ⟨second, rest, rfl, -⟩ := hTurns.entries
                          rw [Nat.zero_add] at hCount
                          exact ⟨_, .resumes rfl hCalls hResume hTurns,
                            (hCount ▸ hRest).cons entry delay⟩

/-- How the last turn of a run gives its result. -/
inductive LastTurn (idle : Option IdleFunction) (turn : Turn σ) : Except Fault Cell → Prop
  | success {value : Cell} : turn.outcome = .success value → LastTurn idle turn (.ok value)
  | fatal {e : MachineError} {cip : Nat} :
      turn.outcome = .fatal e → LastTurn idle turn (.error ⟨e, cip⟩)
  | unentered {result : Except Fault Cell} :
      turn.outcome = .noEntryPoint → LastTurn idle turn result
  /-- The program sleeps, and there is no idle function. -/
  | unattended {delay : Cell} {cip : Nat} :
      turn.outcome = .sleeping delay → idle = none → LastTurn idle turn (.error ⟨.asleep, cip⟩)
  /-- The program sleeps, and the idle function fails. -/
  | idleFailed {delay : Cell} {call : IdleCall σ} {e : MachineError} :
      turn.outcome = .sleeping delay → turn.calls.getLast? = some call → call.status = .failed e →
      LastTurn idle turn (.error ⟨e, call.left.regs.cip⟩)

/-- **Only the last turn of a run is not resumed from.** -/
theorem Turns.ends (h : Turns emb engine policy idle entry s turns result) :
    ∃ before last, turns = before ++ [last] ∧ (∀ turn ∈ before, turn.sleeps = true) ∧
      LastTurn idle last result := by
  induction h with
  | success => exact ⟨[], _, rfl, List.forall_mem_nil _, .success rfl⟩
  | fatal => exact ⟨[], _, rfl, List.forall_mem_nil _, .fatal rfl⟩
  | unentered _ => exact ⟨[], _, rfl, List.forall_mem_nil _, .unentered rfl⟩
  | attended _ _ => exact ⟨[], _, rfl, List.forall_mem_nil _, .unentered rfl⟩
  | unattended hNone => exact ⟨[], _, rfl, List.forall_mem_nil _, .unattended rfl hNone⟩
  | idleFailed _ hCalls =>
      obtain ⟨call, e, hLast, hFailed, rfl⟩ := hCalls.failed
      exact ⟨[], _, rfl, List.forall_mem_nil _, .idleFailed rfl hLast hFailed⟩
  | resumes _ _ _ _ ih =>
      obtain ⟨before, last, rfl, hBefore, hLast⟩ := ih
      exact ⟨_ :: before, last, rfl, List.forall_mem_cons.mpr ⟨rfl, hBefore⟩, hLast⟩

/-- A run has a last turn, and resumes once for every sleep but a last one. -/
theorem Turns.countP_sleeps (h : Turns emb engine policy idle .main s turns result) :
    ∃ last, turns.getLast? = some last ∧ LastTurn idle last result ∧
      turns.countP Turn.sleeps = turns.countP Turn.resumes + if last.sleeps then 1 else 0 := by
  obtain ⟨before, last, rfl, hBefore, hLast⟩ := h.ends
  refine ⟨last, List.getLast?_concat, hLast, ?_⟩
  have hResumes : (before ++ [last]).countP Turn.resumes = before.length := by
    rw [h.countP_resumes, List.length_tail, List.length_append, List.length_singleton,
      Nat.add_sub_cancel]
  rw [hResumes, List.countP_append, List.countP_eq_length.mpr hBefore, List.countP_singleton]

/-- No idle call is made in a sleep without delay. -/
theorem Turns.calls_of_nonpos (h : Turns emb engine policy idle entry s turns result) {delay : Cell}
    (hDelay : delay ≤ 0) :
    ∀ turn ∈ turns, turn.outcome = .sleeping delay → turn.calls = [] := by
  have hBudget : budget delay = 0 := budget_of_nonpos hDelay
  induction h with
  | success => exact List.forall_mem_singleton.mpr nofun
  | fatal => exact List.forall_mem_singleton.mpr nofun
  | unentered _ => exact List.forall_mem_singleton.mpr nofun
  | attended _ _ => exact List.forall_mem_singleton.mpr nofun
  | unattended _ => exact List.forall_mem_singleton.mpr fun _ => rfl
  | idleFailed _ hCalls =>
      refine List.forall_mem_singleton.mpr fun hSame => ?_
      cases hSame
      exact (hBudget ▸ hCalls).none_of_zero
  | resumes _ hCalls _ _ ih =>
      refine List.forall_mem_cons.mpr ⟨fun hSame => ?_, ih⟩
      cases hSame
      exact (hBudget ▸ hCalls).none_of_zero

end Turns

/-- A run ends with a sleep from which the program is not resumed: there is no idle function, or its
last call fails. -/
def Unresumed (idle : Option IdleFunction) (last : Turn σ) (result : Except Fault Cell) : Prop :=
  last.sleeps = true ∧
    ((idle = none ∧ ∃ cip, result = .error ⟨.asleep, cip⟩) ∨
      ∃ call e, last.calls.getLast? = some call ∧ call.status = .failed e ∧
        result = .error ⟨e, call.left.regs.cip⟩)

theorem LastTurn.unresumed_iff {idle : Option IdleFunction} {last : Turn σ}
    {result : Except Fault Cell} (h : LastTurn idle last result) :
    Unresumed idle last result ↔ last.sleeps = true := by
  refine ⟨And.left, fun hSleeps => ⟨hSleeps, ?_⟩⟩
  unfold Turn.sleeps at hSleeps
  cases h with
  | success hOutcome => rw [hOutcome] at hSleeps; cases hSleeps
  | fatal hOutcome => rw [hOutcome] at hSleeps; cases hSleeps
  | unentered hOutcome => rw [hOutcome] at hSleeps; cases hSleeps
  | unattended _ hNone => exact .inl ⟨hNone, _, rfl⟩
  | idleFailed _ hLast hFailed => exact .inr ⟨_, _, hLast, hFailed, rfl⟩

theorem LastTurn.awake_of_ok {idle : Option IdleFunction} {last : Turn σ} {value : Cell}
    (h : LastTurn idle last (.ok value)) : last.sleeps = false := by
  unfold Turn.sleeps
  cases h with
  | success hOutcome => rw [hOutcome]; rfl
  | unentered hOutcome => rw [hOutcome]; rfl

/-- **Main theorem.** Whatever program, idle function, policy and clock a driver runs with, the turns
of the run account for its statistics: `sleeps` counts the suspensions that the engine came to,
`resumes` the turns that resumed the program, and `idleCalls` all calls of the idle function, of which
there are none in a sleep without delay. The program was resumed from every sleep if the run came to a
value, or to an error of the engine; it was resumed once less than it slept exactly if the last turn
is a sleep without an idle function, or with one whose last call failed. Statistics of a run before do
not matter. -/
theorem execute_accounts (emb : Embedder σ) {fuel : Nat} {d d' : Driver} {c c' : Context}
    {w w' : World σ} {result : Except Fault Cell}
    (h : execute emb fuel d c w = some (result, d', c', w')) :
    ∃ first turns last, Machine.exec emb fuel .main c w.readClock.2 = some first ∧
      Turns emb (Machine.exec emb fuel) d.policy c.idleFunction? .main first turns result ∧
      turns.getLast? = some last ∧
      d'.stats.sleeps = turns.countP Turn.sleeps ∧
      d'.stats.resumes = turns.countP Turn.resumes ∧
      d'.stats.idleCalls = (turns.flatMap Turn.calls).length ∧
      (∀ delay ≤ 0, ∀ turn ∈ turns, turn.outcome = .sleeping delay → turn.calls = []) ∧
      (∀ value, result = .ok value → d'.stats.resumes = d'.stats.sleeps) ∧
      (∀ e, last.outcome = .fatal e → d'.stats.resumes = d'.stats.sleeps) ∧
      (d'.stats.resumes = d'.stats.sleeps ∨ d'.stats.resumes + 1 = d'.stats.sleeps) ∧
      (d'.stats.resumes + 1 = d'.stats.sleeps ↔ Unresumed c.idleFunction? last result) ∧
      ∀ stats, execute emb fuel { d with stats } c w = some (result, d', c', w') := by
  have hAnew : ∀ stats, execute emb fuel { d with stats } c w = some (result, d', c', w') :=
    fun _ => h
  unfold execute at h
  dsimp only at h
  cases hMain : Machine.exec emb fuel .main c w.readClock.2 with
  | none => rw [hMain] at h; cases h
  | some first =>
      obtain ⟨outcome, c₁, w₁⟩ := first
      rw [hMain] at h
      obtain ⟨⟨served, stats, c₂, w₂⟩, hProceed, hEnd⟩ := Option.map_eq_some_iff.mp h
      obtain ⟨turns, hTurns, hCounts⟩ := accounts_of_proceed hProceed .main
      cases hEnd
      obtain ⟨last, hGet, hLast, hCount⟩ := hTurns.countP_sleeps
      have hSleeps : stats.sleeps = turns.countP Turn.sleeps := by
        rw [hCounts.sleeps, Nat.zero_add]
      have hResumes : stats.resumes = turns.countP Turn.resumes := by
        rw [hCounts.resumes, Nat.zero_add, hTurns.countP_resumes]
      have hIdle : stats.idleCalls = (turns.flatMap Turn.calls).length := by
        rw [hCounts.idleCalls, Nat.zero_add]
      rw [← hSleeps, ← hResumes] at hCount
      have hEqual : stats.resumes = stats.sleeps ↔ last.sleeps = false := by
        rw [hCount]
        cases last.sleeps <;> simp
      have hLess : stats.resumes + 1 = stats.sleeps ↔ last.sleeps = true := by
        rw [hCount]
        cases last.sleeps <;> simp
      refine ⟨_, _, last, rfl, hTurns, hGet, hSleeps, hResumes, hIdle,
        fun delay hDelay => hTurns.calls_of_nonpos hDelay, ?_, ?_, ?_,
        hLess.trans hLast.unresumed_iff.symm, hAnew⟩
      · rintro value rfl
        exact hEqual.mpr hLast.awake_of_ok
      · intro e hFatal
        refine hEqual.mpr ?_
        rw [Turn.sleeps, hFatal]
        rfl
      · rw [hEqual, hLess]
        exact (Bool.eq_false_or_eq_true last.sleeps).symm

/-- An idle function that has nothing to serve when it is called first, and fails when it is called
again. -/
def faltering : Embedder Bool where
  idle := fun _ _ c w =>
    if w.host then some (.failed .badParameter, c, w) else some (.done, c, { w with host := true })

/-- A program that sleeps three times, the second time for no time at all. -/
def napping : Context where
  program :=
    { main := some 8
      code :=
        #[Opcode.halt.toCell, 0, Opcode.proc.toCell, Opcode.constPri.toCell, 20,
          Opcode.sleep.toCell, Opcode.constPri.toCell, 0, Opcode.sleep.toCell,
          Opcode.constPri.toCell, 5, Opcode.sleep.toCell, Opcode.ret.toCell]
      data := #[] }
  natives := []
  layout := ⟨0, 64⟩
  regs := { frm := 64, stk := 64, hea := 0 }
  resetStk := 64
  resetHea := 0
  registry := ⟨[(.idle, .idle (.custom 0))]⟩

/-- The world of the program, before the first call of the idle function. -/
def nappingWorld : World Bool where
  region := { memory := Array.replicate 16 0 }
  clock := .steady
  host := false

/-- The run ends with the second idle call, in the third sleep. What was counted before is gone. -/
theorem execute_accounts_napping :
    ∃ result d' c' w', execute faltering 16 { stats := { sleeps := 7, resumes := 7, idleCalls := 7 } }
        napping nappingWorld = some (result, d', c', w') ∧
      ∃ turns : List (Turn Bool), ∃ last, turns.getLast? = some last ∧
        Unresumed napping.idleFunction? last result ∧ turns.countP Turn.sleeps = 3 ∧
        turns.countP Turn.resumes = 2 ∧ (turns.flatMap Turn.calls).length = 2 := by
  have hStats : (execute faltering 16 { stats := { sleeps := 7, resumes := 7, idleCalls := 7 } }
      napping nappingWorld).map (fun r => (r.2.1.stats.sleeps, r.2.1.stats.resumes,
        r.2.1.stats.idleCalls)) = some (3, 2, 2) := rfl
  obtain ⟨⟨result, d', c', w'⟩, hRun, hCounts⟩ := Option.map_eq_some_iff.mp hStats
  obtain ⟨hSleeps, hRest⟩ := Prod.mk.inj hCounts
  obtain ⟨hResumes, hIdle⟩ := Prod.mk.inj hRest
  obtain ⟨_, turns, last, -, -, hLast, hAllSleeps, hAllResumes, hAllIdle, -, -, -, -, hUnresumed, -⟩ :=
    execute_accounts faltering hRun
  refine ⟨result, d', c', w', hRun, turns, last, hLast, hUnresumed.mp ?_, ?_, ?_, ?_⟩
  · rw [hSleeps, hResumes]
  · rw [← hAllSleeps, hSleeps]
  · rw [← hAllResumes, hResumes]
  · rw [← hAllIdle, hIdle]

end CellHost.Driver
