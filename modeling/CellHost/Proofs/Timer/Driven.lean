import CellHost.Proofs.Timer.Safety

/-!
# Timers of driven runs

A driver that serves a program with the built-in idle function is a host: it reads the clock,
executes the program, and calls the idle function on snapshots and on the live context. What it does
can be written down act by act, along its own recursion; so what holds of the timers of every host
holds of those of a driven run, whatever the policy for snapshots.

## Main definitions

* `Driver.runActs` : what a driver does.

## Main results

* `Driver.worldAfter?_runActs` : a driven run ends in the world that its acts lead to.
* `Driver.execute_reflects` : the timer of a driven run is safe.
-/

namespace CellHost

open Machine

variable {σ : Type} {emb : Embedder σ} {ref : Nat} {t : Timer}

theorem worldAfter?_append (acts more : List (HostAct σ)) (w : World σ) :
    worldAfter? emb (acts ++ more) w = (worldAfter? emb acts w).bind (worldAfter? emb more) := by
  induction acts generalizing w with
  | nil => rfl
  | cons act acts ih =>
      simp only [List.cons_append, worldAfter?, Option.bind_assoc]
      exact congrArg _ (funext ih)

/-- Take a reading of the clock. -/
def HostAct.glance : HostAct σ := .elsewhere fun w => w.readClock.2

theorem HostAct.glance_spares (ref : Nat) : (HostAct.glance : HostAct σ).Spares ref := fun _ => rfl

theorem HostAct.after?_executes {fuel : Nat} {entry : EntryPoint} {c : Context} {w : World σ}
    {r : Outcome × Context × World σ} (h : exec emb fuel entry c w = some r) :
    (HostAct.executes fuel entry c).after? emb w = some r.2.2 := by
  simp only [after?, h, Option.map_some]

theorem HostAct.after?_idles {fuel : Nat} {c : Context} {w : World σ}
    {r : IdleStatus × Context × World σ} (h : timerIdle (exec emb fuel) c w = some r) :
    (HostAct.idles fuel c).after? emb w = some r.2.2 := by
  simp only [after?, h, Option.map_some]

namespace Driver

/-- What a driver does while a program sleeps: a reading before each idle call. -/
def napActs (emb : Embedder σ) (fuel : Nat) (policy : SnapshotPolicy) (parked : Context)
    (stamp limit : Nat) : Nat → Context → World σ → List (HostAct σ)
  | 0, _, _ => []
  | n + 1, last, w =>
    .glance ::
      if w.readClock.1 - stamp < limit then
        .idles fuel (nextSnapshot policy parked last) ::
          match timerIdle (exec emb fuel) (nextSnapshot policy parked last) w.readClock.2 with
          | some (.again, c, w) => napActs emb fuel policy parked stamp limit n c w
          | _ => []
      else []

/-- What a driver does in one sleep. -/
def sleepActs (emb : Embedder σ) (fuel : Nat) (policy : SnapshotPolicy) (parked : Context)
    (delay : Cell) (w : World σ) : List (HostAct σ) :=
  .glance ::
    napActs emb fuel policy parked w.readClock.1 (budget delay) fuel parked.snapshot w.readClock.2

/-- What a driver does for a program without `main`. -/
def serviceActs (emb : Embedder σ) (fuel : Nat) : Nat → Context → World σ → List (HostAct σ)
  | 0, _, _ => []
  | n + 1, c, w =>
    .idles fuel c ::
      match timerIdle (exec emb fuel) c w with
      | some (.again, c, w) => serviceActs emb fuel n c w
      | _ => []

/-- What a driver does after an outcome, if it has an idle function to call or not. -/
def thenActs (emb : Embedder σ) (fuel : Nat) (policy : SnapshotPolicy) (served : Bool) :
    Nat → Outcome → Context → World σ → List (HostAct σ)
  | 0, _, _, _ => []
  | n + 1, outcome, c, w =>
    match outcome, served with
    | .noEntryPoint, true => serviceActs emb fuel fuel c w
    | .sleeping delay, true =>
      sleepActs emb fuel policy c delay w ++
        match idleWhileSleeping (timerIdle (exec emb fuel)) policy fuel c delay w with
        | some (.ok (), _, w) =>
          .executes fuel .resume c ::
            match exec emb fuel .resume c w with
            | some (outcome, c, w) => thenActs emb fuel policy served n outcome c w
            | none => []
        | _ => []
    | _, _ => []

/-- What a driver does in a run. -/
def runActs (emb : Embedder σ) (fuel : Nat) (d : Driver) (c : Context) (w : World σ) :
    List (HostAct σ) :=
  .glance :: .executes fuel .main c ::
    ((match exec emb fuel .main c w.readClock.2 with
      | some (outcome, c', w) =>
        thenActs emb fuel d.policy c.idleFunction?.isSome fuel outcome c' w
      | none => []) ++ [.glance])

/-! ## The acts lead where the run does -/

theorem worldAfter?_napActs {fuel : Nat} {policy : SnapshotPolicy} {parked : Context}
    {stamp limit n : Nat} {last : Context} {calls : Nat} {w : World σ}
    {r : Except Fault Unit × Nat × World σ}
    (h : idleUntil (timerIdle (exec emb fuel)) policy parked stamp limit n last calls w = some r) :
    worldAfter? emb (napActs emb fuel policy parked stamp limit n last w) w = some r.2.2 := by
  induction n generalizing last calls w with
  | zero => cases h
  | succ n ih =>
      unfold idleUntil at h
      unfold napActs
      dsimp only at h ⊢
      change (some w.readClock.2).bind (worldAfter? emb _) = some r.2.2
      rw [Option.bind_some]
      by_cases hTime : w.readClock.1 - stamp < limit
      · rw [if_pos hTime] at h ⊢
        cases hIdle : timerIdle (exec emb fuel) (nextSnapshot policy parked last) w.readClock.2 with
        | none => rw [hIdle] at h; cases h
        | some answer =>
            obtain ⟨status, c, w₁⟩ := answer
            rw [hIdle] at h
            unfold worldAfter?
            rw [HostAct.after?_idles hIdle, Option.bind_some]
            cases status with
            | again => exact ih h
            | done => cases h; rfl
            | failed e => cases h; rfl
      · rw [if_neg hTime] at h ⊢
        cases h
        rfl

theorem worldAfter?_sleepActs {fuel : Nat} {policy : SnapshotPolicy} {parked : Context}
    {delay : Cell} {w : World σ} {r : Except Fault Unit × Nat × World σ}
    (h : idleWhileSleeping (timerIdle (exec emb fuel)) policy fuel parked delay w = some r) :
    worldAfter? emb (sleepActs emb fuel policy parked delay w) w = some r.2.2 :=
  worldAfter?_napActs h

theorem worldAfter?_serviceActs {fuel n calls : Nat} {c : Context} {w : World σ}
    {r : Except Fault Cell × Nat × Context × World σ}
    (h : idleUntilDone (timerIdle (exec emb fuel)) n calls c w = some r) :
    worldAfter? emb (serviceActs emb fuel n c w) w = some r.2.2.2 := by
  induction n generalizing calls c w with
  | zero => cases h
  | succ n ih =>
      unfold idleUntilDone at h
      unfold serviceActs worldAfter?
      cases hIdle : timerIdle (exec emb fuel) c w with
      | none => rw [hIdle] at h; cases h
      | some answer =>
          obtain ⟨status, c₁, w₁⟩ := answer
          rw [hIdle] at h
          rw [HostAct.after?_idles hIdle, Option.bind_some]
          cases status with
          | again => exact ih h
          | done => cases h; rfl
          | failed e => cases h; rfl

theorem worldAfter?_thenActs {fuel : Nat} {policy : SnapshotPolicy} {idle : Option IdleFunction}
    (hBuiltIn : ∀ id, idle ≠ some (.custom id)) {n : Nat} {stats : RunStats} {outcome : Outcome}
    {c : Context} {w : World σ} {r : Except Fault Cell × RunStats × Context × World σ}
    (h : proceed emb (exec emb fuel) policy idle fuel n stats outcome c w = some r) :
    worldAfter? emb (thenActs emb fuel policy idle.isSome n outcome c w) w = some r.2.2.2 := by
  induction n generalizing stats outcome c w with
  | zero => cases h
  | succ n ih =>
      unfold proceed at h
      unfold thenActs
      cases outcome with
      | success value => cases h; rfl
      | fatal e => cases h; rfl
      | noEntryPoint =>
          cases idle with
          | none => cases h; rfl
          | some f =>
              cases f with
              | custom id => exact absurd rfl (hBuiltIn id)
              | timer =>
                  obtain ⟨served, hServed, rfl⟩ := Option.map_eq_some_iff.mp h
                  exact worldAfter?_serviceActs hServed
      | sleeping delay =>
          cases idle with
          | none => cases h; rfl
          | some f =>
              cases f with
              | custom id => exact absurd rfl (hBuiltIn id)
              | timer =>
                  have hInvoke : IdleFunction.invoke emb (exec emb fuel) .timer =
                      timerIdle (exec emb fuel) := rfl
                  dsimp only [Option.isSome_some] at h ⊢
                  rw [hInvoke] at h
                  rw [worldAfter?_append]
                  cases hSlept : idleWhileSleeping (timerIdle (exec emb fuel)) policy fuel c delay
                      w with
                  | none =>
                      rw [hSlept] at h
                      cases h
                  | some slept =>
                      rw [hSlept] at h
                      rw [worldAfter?_sleepActs hSlept, Option.bind_some]
                      obtain ⟨result, calls, w₁⟩ := slept
                      cases result with
                      | error fault => cases h; rfl
                      | ok _ =>
                          dsimp only at h ⊢
                          cases hResumed : exec emb fuel .resume c w₁ with
                          | none => rw [hResumed] at h; cases h
                          | some next =>
                              rw [hResumed] at h
                              unfold worldAfter?
                              rw [HostAct.after?_executes hResumed, Option.bind_some]
                              exact ih h

/-- **A driven run ends in the world that its acts lead to.** -/
theorem worldAfter?_runActs {fuel : Nat} {d d' : Driver} {c c' : Context} {w w' : World σ}
    {result : Except Fault Cell} (hBuiltIn : ∀ id, c.idleFunction? ≠ some (.custom id))
    (h : execute emb fuel d c w = some (result, d', c', w')) :
    worldAfter? emb (runActs emb fuel d c w) w = some w' := by
  unfold execute at h
  unfold runActs
  dsimp only at h
  change (some w.readClock.2).bind (worldAfter? emb _) = some w'
  rw [Option.bind_some]
  cases hMain : exec emb fuel .main c w.readClock.2 with
  | none => rw [hMain] at h; cases h
  | some first =>
      rw [hMain] at h
      obtain ⟨r, hRun, hEnd⟩ := Option.map_eq_some_iff.mp h
      unfold worldAfter?
      rw [HostAct.after?_executes hMain, Option.bind_some, worldAfter?_append,
        worldAfter?_thenActs hBuiltIn hRun, Option.bind_some]
      cases hEnd
      rfl

/-! ## The acts leave timers to programs and to the idle function -/

theorem napActs_spare (ref fuel : Nat) (policy : SnapshotPolicy) (parked : Context)
    (stamp limit n : Nat) (last : Context) (w : World σ) :
    ∀ act ∈ napActs emb fuel policy parked stamp limit n last w, act.Spares ref := by
  induction n generalizing last w with
  | zero => exact List.forall_mem_nil _
  | succ n ih =>
      unfold napActs
      refine List.forall_mem_cons.mpr ⟨HostAct.glance_spares ref, ?_⟩
      split
      · refine List.forall_mem_cons.mpr ⟨trivial, ?_⟩
        split
        · exact ih _ _
        · exact List.forall_mem_nil _
      · exact List.forall_mem_nil _

theorem serviceActs_spare (ref fuel n : Nat) (c : Context) (w : World σ) :
    ∀ act ∈ serviceActs emb fuel n c w, act.Spares ref := by
  induction n generalizing c w with
  | zero => exact List.forall_mem_nil _
  | succ n ih =>
      unfold serviceActs
      refine List.forall_mem_cons.mpr ⟨trivial, ?_⟩
      split
      · exact ih _ _
      · exact List.forall_mem_nil _

theorem thenActs_spare (ref fuel : Nat) (policy : SnapshotPolicy) (served : Bool) (n : Nat)
    (outcome : Outcome) (c : Context) (w : World σ) :
    ∀ act ∈ thenActs emb fuel policy served n outcome c w, act.Spares ref := by
  induction n generalizing outcome c w with
  | zero => exact List.forall_mem_nil _
  | succ n ih =>
      unfold thenActs
      split
      · exact serviceActs_spare ref fuel fuel c w
      · refine List.forall_mem_append.mpr ⟨?_, ?_⟩
        · exact List.forall_mem_cons.mpr
            ⟨HostAct.glance_spares ref, napActs_spare ref fuel policy c _ _ fuel c.snapshot _⟩
        · split
          · refine List.forall_mem_cons.mpr ⟨trivial, ?_⟩
            split
            · exact ih _ _ _
            · exact List.forall_mem_nil _
          · exact List.forall_mem_nil _
      · exact List.forall_mem_nil _

theorem runActs_spare (ref fuel : Nat) (d : Driver) (c : Context) (w : World σ) :
    ∀ act ∈ runActs emb fuel d c w, act.Spares ref := by
  refine List.forall_mem_cons.mpr ⟨HostAct.glance_spares ref,
    List.forall_mem_cons.mpr ⟨trivial, List.forall_mem_append.mpr ⟨?_, ?_⟩⟩⟩
  · split
    · exact thenActs_spare ref fuel _ _ fuel _ _ _
    · exact List.forall_mem_nil _
  · exact List.forall_mem_singleton.mpr (HostAct.glance_spares ref)

/-- **The timer of a driven run is safe.** From a timer that is not armed on, every event of the timer
in the run of a driver is allowed by those before it, and at the end of the run the timer is what its
log says. -/
theorem execute_reflects {fuel : Nat} {d : Driver} {c : Context} {w : World σ}
    (hCallbacks : CallbacksSpare emb ref (runActs emb fuel d c w) w)
    (hBuiltIn : ∀ id, c.idleFunction? ≠ some (.custom id)) (hTimer : w.timer? ref = some t)
    (hOff : t.due = none) :
    (∀ before e after, timerLog emb ref (runActs emb fuel d c w) w = before ++ e :: after →
      e.Allowed before) ∧
    ∀ result d' c' w', execute emb fuel d c w = some (result, d', c', w') →
      ∃ t', w'.timer? ref = some t' ∧
        Reflects (timerLog emb ref (runActs emb fuel d c w) w) t' := by
  obtain ⟨t', hLog, hEnd⟩ := timerLog_unfolds (runActs_spare ref fuel d c w) hCallbacks hTimer
  obtain ⟨hReflects, hAllowed⟩ := (reflects_nil hOff).unfolds hLog
  refine ⟨hAllowed, fun result d' c' w' hRun => ⟨t', ?_, hReflects⟩⟩
  exact hEnd w' (worldAfter?_runActs hBuiltIn hRun)

end Driver

end CellHost
