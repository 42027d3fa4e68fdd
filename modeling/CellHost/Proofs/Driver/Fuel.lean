import CellHost.Proofs.Driver.Abort
import CellHost.Proofs.Machine.Fuel

/-!
# The fuel of a driven run

The fuel of a driver bounds how often it calls an idle function, how many outcomes it looks at, and the
executions that it asks for. It is only a bound: a run that comes to its end with some fuel comes to
the same end with more, so a run has one result.

## Main results

* `Driver.execute_mono` : what a run comes to with some fuel, it comes to with more.
-/

namespace CellHost

open Machine

variable {σ : Type} {emb : Embedder σ} {e e' : Engine σ}

/-- The built-in idle function answers whenever the engine does. -/
theorem timerIdle_mono (hBelow : e.Below e') {c : Context} {w : World σ}
    {r : IdleStatus × Context × World σ} (h : timerIdle e c w = some r) :
    timerIdle e' c w = some r := by
  rw [timerIdle_eq] at h ⊢
  cases hExecution : timerExecution? c w with
  | none => rw [hExecution] at h; exact h
  | some x =>
      rw [hExecution] at h
      obtain ⟨r', hRun, hAnswer⟩ := Option.map_eq_some_iff.mp h
      exact Option.map_eq_some_iff.mpr ⟨r', hBelow _ _ _ _ hRun, hAnswer⟩

namespace Driver

section Calls

variable {call call' : Context → World σ → Option (IdleStatus × Context × World σ)}

theorem idleUntil_mono (hCall : ∀ c w r, call c w = some r → call' c w = some r) {n m : Nat}
    (hle : n ≤ m) {policy : SnapshotPolicy} {parked last : Context} {stamp limit calls : Nat}
    {w : World σ} {r : Except Fault Unit × Nat × World σ}
    (h : idleUntil call policy parked stamp limit n last calls w = some r) :
    idleUntil call' policy parked stamp limit m last calls w = some r := by
  induction n generalizing m last calls w with
  | zero => cases h
  | succ n ih =>
      obtain ⟨m, rfl⟩ := Nat.exists_eq_add_one_of_ne_zero (show m ≠ 0 by omega)
      unfold idleUntil at h ⊢
      dsimp only at h ⊢
      by_cases hTime : w.readClock.1 - stamp < limit
      · rw [if_pos hTime] at h ⊢
        cases hIdle : call (nextSnapshot policy parked last) w.readClock.2 with
        | none => rw [hIdle] at h; cases h
        | some answer =>
            obtain ⟨status, c, v⟩ := answer
            rw [hCall _ _ _ hIdle]
            rw [hIdle] at h
            cases status with
            | again => exact ih (Nat.le_of_succ_le_succ hle) h
            | done => exact h
            | failed e => exact h
      · rw [if_neg hTime] at h ⊢
        exact h

theorem idleUntilDone_mono (hCall : ∀ c w r, call c w = some r → call' c w = some r) {n m : Nat}
    (hle : n ≤ m) {calls : Nat} {c : Context} {w : World σ}
    {r : Except Fault Cell × Nat × Context × World σ}
    (h : idleUntilDone call n calls c w = some r) : idleUntilDone call' m calls c w = some r := by
  induction n generalizing m calls c w with
  | zero => cases h
  | succ n ih =>
      obtain ⟨m, rfl⟩ := Nat.exists_eq_add_one_of_ne_zero (show m ≠ 0 by omega)
      unfold idleUntilDone at h ⊢
      cases hIdle : call c w with
      | none => rw [hIdle] at h; cases h
      | some answer =>
          obtain ⟨status, c₁, v⟩ := answer
          rw [hCall _ _ _ hIdle]
          rw [hIdle] at h
          cases status with
          | again => exact ih (Nat.le_of_succ_le_succ hle) h
          | done => exact h
          | failed e => exact h

end Calls

theorem proceed_mono (hBelow : e.Below e') {policy : SnapshotPolicy} {idle : Option IdleFunction}
    (hBuiltIn : ∀ id, idle ≠ some (.custom id)) {calls calls' n m : Nat} (hCalls : calls ≤ calls')
    (hle : n ≤ m) {stats : RunStats} {outcome : Outcome} {c : Context} {w : World σ}
    {r : Except Fault Cell × RunStats × Context × World σ}
    (h : proceed emb e policy idle calls n stats outcome c w = some r) :
    proceed emb e' policy idle calls' m stats outcome c w = some r := by
  induction n generalizing m stats outcome c w with
  | zero => cases h
  | succ n ih =>
      obtain ⟨m, rfl⟩ := Nat.exists_eq_add_one_of_ne_zero (show m ≠ 0 by omega)
      have hIdle : ∀ c w r, timerIdle e c w = some r → timerIdle e' c w = some r :=
        fun _ _ _ => timerIdle_mono hBelow
      unfold proceed at h ⊢
      cases outcome with
      | success v => exact h
      | fatal e => exact h
      | noEntryPoint =>
          cases idle with
          | none => exact h
          | some f =>
              cases f with
              | custom id => exact absurd rfl (hBuiltIn id)
              | timer =>
                  obtain ⟨served, hServed, hEnd⟩ := Option.map_eq_some_iff.mp h
                  exact Option.map_eq_some_iff.mpr
                    ⟨served, idleUntilDone_mono hIdle hCalls hServed, hEnd⟩
      | sleeping delay =>
          cases idle with
          | none => exact h
          | some f =>
              cases f with
              | custom id => exact absurd rfl (hBuiltIn id)
              | timer =>
                  dsimp only at h ⊢
                  cases hSlept : idleWhileSleeping (IdleFunction.invoke emb e .timer) policy calls
                      c delay w with
                  | none => rw [hSlept] at h; cases h
                  | some slept =>
                      obtain ⟨served, k, v⟩ := slept
                      have hSlept' : idleWhileSleeping (IdleFunction.invoke emb e' .timer) policy
                          calls' c delay w = some (served, k, v) :=
                        idleUntil_mono hIdle hCalls hSlept
                      rw [hSlept']
                      rw [hSlept] at h
                      cases served with
                      | error fault => exact h
                      | ok _ =>
                          dsimp only at h ⊢
                          cases hResumed : e .resume c v with
                          | none => rw [hResumed] at h; cases h
                          | some next =>
                              rw [hBelow _ _ _ _ hResumed]
                              rw [hResumed] at h
                              exact ih (Nat.le_of_succ_le_succ hle) h

/-- **What a run comes to with some fuel, it comes to with more.** -/
theorem execute_mono (hEmb : emb.FuelBlind) {n m : Nat} (hle : n ≤ m) {d : Driver} {c : Context}
    {w : World σ} (hBuiltIn : ∀ id, c.idleFunction? ≠ some (.custom id))
    {r : Except Fault Cell × Driver × Context × World σ}
    (h : execute emb n d c w = some r) : execute emb m d c w = some r := by
  unfold execute at h ⊢
  dsimp only at h ⊢
  cases hMain : exec emb n .main c w.readClock.2 with
  | none => rw [hMain] at h; cases h
  | some first =>
      rw [hMain] at h
      rw [exec_mono hEmb hle hMain]
      obtain ⟨last, hRun, hEnd⟩ := Option.map_eq_some_iff.mp h
      have hRun' := proceed_mono (exec_below hEmb hle) hBuiltIn hle hle hRun
      exact Option.map_eq_some_iff.mpr ⟨last, hRun', hEnd⟩

end Driver

end CellHost
