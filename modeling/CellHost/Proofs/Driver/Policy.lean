import CellHost.Proofs.Driver.Contexts
import CellHost.Proofs.Driver.Fuel
import CellHost.Proofs.Driver.Isolation
import CellHost.Proofs.Driver.Snapshots

/-!
# Snapshot policies

Under one policy the timer public works on a snapshot that grows older with every call, under the other
on fresh ones. To a timer public that goes by neither register they are of one kind, so the idle calls
of a sleep come to the same, and so does the program that is resumed after them. A timer public that
goes by a register in nothing but the address at which it fails can tell them apart. So can one whose
native leaves the marks of another call behind.

## Main results

* `Driver.idleUntil_kin` : the idle calls of a sleep, under two policies.
* `Driver.policy_unobservable` : a run does the same under both policies.
* `Driver.policies_told_apart` : two timer publics under which it does not.
-/

namespace CellHost

open Machine

variable {σ : Type} {emb : Embedder σ} {fuel : Nat}

namespace Driver

theorem kin_nextSnapshot {policy : SnapshotPolicy} {a : AbortState} {c parked last : Context}
    (hParked : c.Kin a parked) (hLast : c.Kin a last) : c.Kin a (nextSnapshot policy parked last) := by
  cases policy with
  | perSleep => exact hLast
  | perIteration => exact hParked

/-- **The idle calls of a sleep come to the same under every policy.** The induction is on the calls
that are allowed; what is left by each of them is of the kind of the parked context. -/
theorem idleUntil_kin (hEmb : emb.Discreet) {policy : SnapshotPolicy} (other : SnapshotPolicy)
    {parked parked₁ last last₁ : Context} {w w₁ w' : World σ} {stamp limit n calls calls' : Nat}
    {result : Except Fault Unit} (hParked : parked.Kin w.region.abort parked₁)
    (hLast : parked.Kin w.region.abort last) (hLast₁ : parked.Kin w.region.abort last₁)
    (hWorld : w.Alike w₁) (hAsleep : parked.sleeping = true)
    (hIndifferent : ∀ index c v,
      NapExecutes (exec emb fuel) policy parked stamp limit last w (.function index, c, v) →
      c.sleeping = true → Indifferent emb (.function index, c, v))
    (h : idleUntil (timerIdle (exec emb fuel)) policy parked stamp limit n last calls w =
      some (result, calls', w')) :
    ∃ fuel₁ w₁',
      idleUntil (timerIdle (exec emb fuel₁)) other parked₁ stamp limit n last₁ calls w₁ =
        some (result, calls', w₁') ∧
      w'.Alike w₁' ∧ w.region.abort.Stands w'.region.abort := by
  induction n generalizing last last₁ w w₁ calls with
  | zero => cases h
  | succ n ih =>
      have hNow : w₁.readClock.1 = w.readClock.1 := congrArg Clock.now hWorld.clock
      have hGiven : parked.Kin w.region.abort (nextSnapshot policy parked last) :=
        kin_nextSnapshot .rfl hLast
      have hGiven₁ : parked.Kin w.region.abort (nextSnapshot other parked₁ last₁) :=
        kin_nextSnapshot hParked hLast₁
      unfold idleUntil at h
      dsimp only at h
      by_cases hTime : w.readClock.1 - stamp < limit
      · rw [if_pos hTime] at h
        have hTime₁ : w₁.readClock.1 - stamp < limit := by rw [hNow]; exact hTime
        cases hCall : timerIdle (exec emb fuel) (nextSnapshot policy parked last)
            w.readClock.2 with
        | none => rw [hCall] at h; cases h
        | some answer =>
            obtain ⟨status, c, v⟩ := answer
            rw [hCall] at h
            have hBetween : (nextSnapshot policy parked last).Kin w.readClock.2.region.abort
                (nextSnapshot other parked₁ last₁) := hGiven.symm.trans hGiven₁
            have hAsleepGiven := hGiven.sleeping.trans hAsleep
            obtain ⟨fuel₁, c₁, v₁, hCall₁, hLeft, hStands, hAgain, hFailed⟩ :=
              timerIdle_kin hEmb hBetween hWorld.readClock
                (fun index v hRuns => hIndifferent index _ v (.here hTime hRuns) hAsleepGiven) hCall
            cases status with
            | again =>
                obtain ⟨hNext, hNext₁⟩ := hAgain rfl
                have hBack := hGiven.stands hStands
                obtain ⟨fuel₂, w₁', hRest, hEnd, hStands'⟩ :=
                  ih (hParked.stands hStands) (hBack.trans hNext) (hBack.trans hNext₁) hLeft
                    (fun index c v hRuns => hIndifferent index c v (.later hTime hCall hRuns)) h
                have hFirst := timerIdle_mono
                  (exec_below hEmb.fuelBlind (Nat.le_max_left fuel₁ fuel₂)) hCall₁
                refine ⟨max fuel₁ fuel₂, w₁', ?_, hEnd, hStands.trans hStands'⟩
                unfold idleUntil
                dsimp only
                rw [if_pos hTime₁, hFirst]
                exact idleUntil_mono (fun _ _ _ => timerIdle_mono
                  (exec_below hEmb.fuelBlind (Nat.le_max_right fuel₁ fuel₂))) (Nat.le_refl n) hRest
            | done =>
                cases h
                refine ⟨fuel₁, v₁, ?_, hLeft, hStands⟩
                unfold idleUntil
                dsimp only
                rw [if_pos hTime₁, hCall₁]
            | failed e =>
                cases h
                refine ⟨fuel₁, v₁, ?_, hLeft, hStands⟩
                unfold idleUntil
                dsimp only
                rw [if_pos hTime₁, hCall₁, ← hFailed e rfl]
      · rw [if_neg hTime] at h
        cases h
        refine ⟨0, w₁.readClock.2, ?_, hWorld.readClock, .rfl⟩
        unfold idleUntil
        dsimp only
        rw [hNow, if_neg hTime]

theorem idleWhileSleeping_alike (hEmb : emb.Discreet) {policy : SnapshotPolicy}
    (other : SnapshotPolicy) {s t : Point σ} {n calls : Nat} {delay : Cell} {v : World σ}
    {result : Except Fault Unit} (hAlike : Machine.Alike s t) (hAsleep : s.1.sleeping = true)
    (hIndifferent : ∀ index c v,
      NapExecutes (exec emb fuel) policy s.1 s.2.readClock.1 (budget delay) s.1.snapshot
        s.2.readClock.2 (.function index, c, v) →
      c.sleeping = true → Indifferent emb (.function index, c, v))
    (h : idleWhileSleeping (timerIdle (exec emb fuel)) policy n s.1 delay s.2 =
      some (result, calls, v)) :
    ∃ fuel₁ v₁, idleWhileSleeping (timerIdle (exec emb fuel₁)) other n t.1 delay t.2 =
        some (result, calls, v₁) ∧ Machine.Alike (s.1, v) (t.1, v₁) := by
  have hNow : t.2.readClock.1 = s.2.readClock.1 := congrArg Clock.now hAlike.world.clock
  have hKin : s.1.Kin s.2.readClock.2.region.abort t.1 := .of_alike hAlike.context
  obtain ⟨fuel₁, v₁, hSlept, hLeft, hStands⟩ :=
    idleUntil_kin hEmb other hKin .rfl hKin hAlike.world.readClock hAsleep hIndifferent h
  rw [← hNow] at hSlept
  exact ⟨fuel₁, v₁, hSlept, hAlike.context.stands hStands, hLeft⟩

/-! ## Driven runs -/

/-- Serving a program without `main`, on the live context, is the same in states that are alike. -/
theorem idleUntilDone_alike {e e' : Engine σ} (hEngine : e.Alike e') {s t s' : Point σ}
    {n calls calls' : Nat} {result : Except Fault Cell} (hAlike : Machine.Alike s t)
    (h : idleUntilDone (timerIdle e) n calls s.1 s.2 = some (result, calls', s')) :
    ∃ t', idleUntilDone (timerIdle e') n calls t.1 t.2 = some (result, calls', t') ∧
      Machine.Alike s' t' := by
  induction n generalizing s t calls with
  | zero => cases h
  | succ n ih =>
      unfold idleUntilDone at h ⊢
      cases hIdle : timerIdle e s.1 s.2 with
      | none => rw [hIdle] at h; cases h
      | some answer =>
          obtain ⟨status, s₁⟩ := answer
          obtain ⟨t₁, hIdle', hNext⟩ := timerIdle_alike hEngine hAlike hIdle
          rw [hIdle] at h
          rw [hIdle']
          cases status with
          | again => exact ih hNext h
          | done =>
              cases h
              exact ⟨t₁, rfl, hNext⟩
          | failed e =>
              cases h
              refine ⟨t₁, ?_, hNext⟩
              dsimp only
              rw [hNext.regs]

theorem proceed_of_failed_sleep {e : Engine σ} {policy : SnapshotPolicy} {calls n k : Nat}
    {stats : RunStats} {delay : Cell} {c : Context} {w v : World σ} {fault : Fault}
    (h : idleWhileSleeping (timerIdle e) policy calls c delay w = some (.error fault, k, v)) :
    proceed emb e policy (some .timer) calls (n + 1) stats (.sleeping delay) c w =
      some (.error fault,
        { stats with sleeps := stats.sleeps + 1, idleCalls := stats.idleCalls + k }, c, v) := by
  have hSlept : idleWhileSleeping (IdleFunction.invoke emb e .timer) policy calls c delay w = _ := h
  simp only [proceed, hSlept]

theorem proceed_of_sleep {e : Engine σ} {policy : SnapshotPolicy} {calls n k : Nat}
    {stats : RunStats} {delay : Cell} {outcome : Outcome} {c c' : Context} {w v w' : World σ}
    (h : idleWhileSleeping (timerIdle e) policy calls c delay w = some (.ok (), k, v))
    (hResumed : e .resume c v = some (outcome, c', w')) :
    proceed emb e policy (some .timer) calls (n + 1) stats (.sleeping delay) c w =
      proceed emb e policy (some .timer) calls n
        { stats with
          sleeps := stats.sleeps + 1, idleCalls := stats.idleCalls + k,
          resumes := stats.resumes + 1 }
        outcome c' w' := by
  have hSlept : idleWhileSleeping (IdleFunction.invoke emb e .timer) policy calls c delay w = _ := h
  simp only [proceed, hSlept, hResumed]

/-- **After an outcome, a run goes on in the same way under every policy**: while the program sleeps
by `idleUntil_kin`, and on its own context because that is alike. -/
theorem proceed_alike (hEmb : emb.Discreet) {policy : SnapshotPolicy} (other : SnapshotPolicy)
    {idle : Option IdleFunction} (hBuiltIn : ∀ id, idle ≠ some (.custom id)) {n : Nat}
    {stats stats' : RunStats} {outcome : Outcome} {result : Except Fault Cell} {s t s' : Point σ}
    (hAlike : Machine.Alike s t) (hMarked : ∀ delay, outcome = .sleeping delay → s.1.sleeping = true)
    (hIndifferent : ∀ index c v,
      ThenExecutes emb (exec emb fuel) policy idle fuel (outcome, s) (.function index, c, v) →
      c.sleeping = true → Indifferent emb (.function index, c, v))
    (h : proceed emb (exec emb fuel) policy idle fuel n stats outcome s.1 s.2 =
      some (result, stats', s')) :
    ∃ fuel₁ t', proceed emb (exec emb fuel₁) other idle fuel n stats outcome t.1 t.2 =
        some (result, stats', t') ∧ Machine.Alike s' t' := by
  induction n generalizing stats outcome s t with
  | zero => cases h
  | succ n ih =>
      unfold proceed at h
      cases outcome with
      | success v =>
          cases h
          exact ⟨0, t, rfl, hAlike⟩
      | fatal e =>
          cases h
          refine ⟨0, t, ?_, hAlike⟩
          simp only [proceed, hAlike.regs]
      | noEntryPoint =>
          cases idle with
          | none =>
              cases h
              refine ⟨0, t, ?_, hAlike⟩
              simp only [proceed, hAlike.regs]
          | some f =>
              cases f with
              | custom id => exact absurd rfl (hBuiltIn id)
              | timer =>
                  obtain ⟨⟨served, calls, s₁⟩, hServed, hEnd⟩ := Option.map_eq_some_iff.mp h
                  cases hEnd
                  obtain ⟨t', hServed', hLeft⟩ :=
                    idleUntilDone_alike (exec_alike hEmb fuel) hAlike hServed
                  exact ⟨fuel, t', Option.map_eq_some_iff.mpr ⟨_, hServed', rfl⟩, hLeft⟩
      | sleeping delay =>
          cases idle with
          | none =>
              cases h
              refine ⟨0, t, ?_, hAlike⟩
              simp only [proceed, hAlike.regs]
          | some f =>
              cases f with
              | custom id => exact absurd rfl (hBuiltIn id)
              | timer =>
                  dsimp only at h
                  cases hSlept : idleWhileSleeping (IdleFunction.invoke emb (exec emb fuel) .timer)
                      policy fuel s.1 delay s.2 with
                  | none => rw [hSlept] at h; cases h
                  | some slept =>
                      obtain ⟨slept, k, v⟩ := slept
                      obtain ⟨fuel₁, v₁, hSlept₁, hParked⟩ :=
                        idleWhileSleeping_alike hEmb other hAlike (hMarked delay rfl)
                          (fun index c v hRuns => hIndifferent index c v (.naps rfl hRuns)) hSlept
                      rw [hSlept] at h
                      cases slept with
                      | error fault =>
                          cases h
                          exact ⟨fuel₁, (t.1, v₁), proceed_of_failed_sleep hSlept₁, hParked⟩
                      | ok _ =>
                          dsimp only at h
                          cases hResumed : exec emb fuel .resume s.1 v with
                          | none => rw [hResumed] at h; cases h
                          | some next =>
                              obtain ⟨outcome, s₁⟩ := next
                              obtain ⟨t₁, hResumed₁, hNext⟩ :=
                                exec_alike hEmb fuel _ _ _ _ _ hParked hResumed
                              rw [hResumed] at h
                              obtain ⟨fuel₂, t', hRest, hEnd⟩ := ih hNext
                                (fun delay hSleep => exec_marksSleep emb fuel _ _ _ _ _ _
                                  (hSleep ▸ hResumed))
                                (fun index c v hRuns =>
                                  hIndifferent index c v (.goesOn rfl hSlept hResumed hRuns)) h
                              have hBelow : ∀ k ≤ max fuel (max fuel₁ fuel₂),
                                  (exec emb k).Below (exec emb (max fuel (max fuel₁ fuel₂))) :=
                                fun k => exec_below hEmb.fuelBlind
                              have hSlept' := idleUntil_mono
                                (fun _ _ _ => timerIdle_mono (hBelow fuel₁ (by omega)))
                                (Nat.le_refl fuel) hSlept₁
                              have hResumed' := hBelow fuel (by omega) _ _ _ _ hResumed₁
                              refine ⟨max fuel (max fuel₁ fuel₂), t', ?_, hEnd⟩
                              rw [proceed_of_sleep hSlept' hResumed']
                              exact proceed_mono (hBelow fuel₂ (by omega)) hBuiltIn
                                (Nat.le_refl fuel) (Nat.le_refl n) hRest

/-- **Main theorem.** The snapshot policy cannot be observed through a timer public that gives the
frame pointer back and goes by neither register. In a run with the built-in idle function, let every
call of the timer public on a parked context do the same with whatever the two registers hold: come
to the same outcome, in the same world, at the same address where it does not succeed, and in the
frame that it was called in where it does. Then the run comes under every policy to the same result,
with the same statistics and fault address, and leaves the same data memory, timers, console and
clock. -/
theorem policy_unobservable (hEmb : emb.Discreet) {d d' : Driver} (other : SnapshotPolicy)
    {c c' : Context} {w w' : World σ} {result : Except Fault Cell}
    (hBuiltIn : ∀ id, c.idleFunction? ≠ some (.custom id))
    (hIndifferent : ∀ index c₁ w₁, Executes emb fuel d c w (.function index, c₁, w₁) →
      c₁.sleeping = true → Indifferent emb (.function index, c₁, w₁))
    (h : execute emb fuel d c w = some (result, d', c', w')) :
    ∃ N c'' w'', (∀ F ≥ N, execute emb F { d with policy := other } c w =
        some (result, { d' with policy := other }, c'', w'')) ∧
      w''.region.memory = w'.region.memory ∧
      w''.region.objects.timers = w'.region.objects.timers ∧
      w''.console = w'.console ∧ w''.clock = w'.clock := by
  unfold execute at h
  dsimp only at h
  cases hMain : exec emb fuel .main c w.readClock.2 with
  | none => rw [hMain] at h; cases h
  | some first =>
      obtain ⟨outcome, s⟩ := first
      rw [hMain] at h
      obtain ⟨⟨served, stats, s₁⟩, hRun, hEnd⟩ := Option.map_eq_some_iff.mp h
      cases hEnd
      obtain ⟨fuel₁, t₁, hRun₁, hAlike⟩ := proceed_alike hEmb other hBuiltIn .rfl
        (fun delay hSleep => exec_marksSleep emb fuel _ _ _ _ _ _ (hSleep ▸ hMain))
        (fun index c₁ w₁ hThen => hIndifferent index c₁ w₁ (.inr ⟨_, hMain, hThen⟩)) hRun
      have hLeft := hAlike.world.readClock
      refine ⟨max fuel fuel₁, t₁.1, t₁.2.readClock.2, fun F hF => ?_, hLeft.memory, hLeft.timers,
        hLeft.console, hLeft.clock⟩
      have hBelow := exec_below hEmb.fuelBlind (show fuel₁ ≤ F by omega)
      have hMain' := exec_mono hEmb.fuelBlind (show fuel ≤ F by omega) hMain
      have hRun' := proceed_mono hBelow hBuiltIn (show fuel ≤ F by omega) (show fuel ≤ F by omega)
        hRun₁
      have hNow : t₁.2.readClock.1 = s₁.2.readClock.1 := congrArg Clock.now hAlike.world.clock
      unfold execute
      dsimp only
      rw [hMain']
      dsimp only
      rw [hRun', Option.map_some, hNow]

end Driver

/-- A program that sleeps, with a timer public that forks by its primary register: it goes on right
there, or, where the register is zero, at another place. At both it fails if its data cell is set,
and else sets it and returns. -/
def forking (branch : Nat) : Program where
  main := some 8
  publics := [⟨timerPublic, 28⟩]
  code :=
    #[Opcode.halt.toCell, 0, Opcode.constPri.toCell, 20, Opcode.sleep.toCell, Opcode.halt.toCell, 0,
      Opcode.jzer.toCell, Cell.ofAddress branch,
      Opcode.loadPri.toCell, 0, Opcode.jzer.toCell, 84, Opcode.halt.toCell, 4,
      Opcode.loadPri.toCell, 0, Opcode.jzer.toCell, 84, Opcode.halt.toCell, 4,
      Opcode.constPri.toCell, 1, Opcode.storPri.toCell, 0, Opcode.constPri.toCell, 0,
      Opcode.halt.toCell, 0]
  data := #[0]

/-! ## Timer publics that are told how old their snapshot is -/

section Runs

variable {p : Program} {c : Context} {w : World σ} {entry : EntryPoint}

theorem effectAt_in (hProgram : c.program = p) (r : Registers) {address : Nat} {op : Opcode}
    {operand : Cell} (hDecode : Instruction.decode p address = .ok (op, operand)) :
    effectAt ({ c with regs := { r with cip := address } }, w) =
      Instruction.effectOf p c.layout w.beginInstruction.region.memory { r with cip := address } op
        operand := by
  unfold effectAt Context.effect Instruction.effect
  dsimp only
  rw [hProgram, hDecode]

theorem settle_cip {place : Option Parking} {pause : Pause} (c : Context) {c₁ : Context}
    (h : ∀ value, (settle place pause c₁).1 ≠ .success value) :
    (settle place pause c).2.regs.cip = c.regs.cip := by
  cases pause with
  | returned value => exact absurd rfl (h value)
  | slept delay => rfl
  | faulted e => rfl

/-- A public that is called where there is no room for a return address is refused, and the marks are
taken. -/
theorem exec_of_full {index : Nat} {entry : Public} (hPublic : c.program.publics[index]? = some entry)
    (hFull : c.regs.stk < c.regs.hea + cellSize) (n : Nat) :
    exec emb n (.function index) c w = some (.fatal .stackCollision, marked c, w) := by
  have hPush : c.regs.push 0 = .error .stackCollision := if_pos hFull
  simp only [exec, execWith, hPublic, enter, hPush]
  rfl

/-- Called where there is room, it comes to what the run from its address comes to. -/
theorem exec_of_room {index n : Nat} {entry : Public} {r : Pause × Context × World σ}
    (hPublic : c.program.publics[index]? = some entry) (hRoom : c.regs.hea + cellSize ≤ c.regs.stk)
    (hRun : run emb n
      { marked c with regs := { c.regs with stk := c.regs.stk - cellSize, cip := entry.address } }
      (w.store ⟨c.regs.stk - cellSize, 0⟩) = some r) :
    exec emb n (.function index) c w =
      some ((settle (some (parking c)) r.1 r.2.1).1, (settle (some (parking c)) r.1 r.2.1).2,
        r.2.2) := by
  have hPush := Instruction.push_of_room hRoom 0
  simp only [exec, execWith, hPublic, enter, hPush]
  exact congrArg (Option.map _) hRun

/-- An execution is unswayed that comes to one outcome and one world, and gives the frame pointer
back, with whatever the two registers hold. -/
theorem unswayed_of_exec (hEmb : emb.FuelBlind) {n : Nat} {outcome : Outcome} {v : World σ}
    (h : ∀ pri alt, ∃ c', exec emb n entry (c.holding pri alt) w = some (outcome, c', v) ∧
      c'.regs.frm = c.regs.frm) : Unswayed emb (entry, c, w) := by
  refine ⟨fun fuel o c' w' hOwn pri alt => ?_, fun fuel pri alt value c' w' hHeld => ?_⟩
  · obtain ⟨_, hOwn', -⟩ := h c.regs.pri c.regs.alt
    obtain ⟨c'', hHeld, -⟩ := h pri alt
    cases exec_unique hEmb hOwn hOwn'
    exact ⟨n, c'', v, hHeld, .rfl⟩
  · obtain ⟨_, hHeld', hFrm⟩ := h pri alt
    cases exec_unique hEmb hHeld hHeld'
    exact hFrm

/-- It is indifferent if it also stops at one address where it does not succeed. -/
theorem indifferent_of_exec (hEmb : emb.FuelBlind) {n stop : Nat} {outcome : Outcome} {v : World σ}
    (h : ∀ pri alt, ∃ c', exec emb n entry (c.holding pri alt) w = some (outcome, c', v) ∧
      c'.regs.frm = c.regs.frm ∧ ((∀ value, outcome ≠ .success value) → c'.regs.cip = stop)) :
    Indifferent emb (entry, c, w) where
  toUnswayed := unswayed_of_exec hEmb fun pri alt =>
    (h pri alt).imp fun _ hHeld => ⟨hHeld.1, hHeld.2.1⟩
  place := by
    intro fuel o c' w' hOwn hFails fuel' pri alt c'' w'' hHeld
    obtain ⟨_, hOwn', -, hStop⟩ := h c.regs.pri c.regs.alt
    obtain ⟨_, hHeld', -, hStop'⟩ := h pri alt
    cases exec_unique hEmb hOwn hOwn'
    cases exec_unique hEmb hHeld hHeld'
    rw [hStop hFails, hStop' hFails]

end Runs

section Forking

variable {branch : Nat} {c : Context} {w : World σ}

/-- Where the data cell is not set, it is set. -/
theorem run_setting (hProgram : c.program = forking branch) {r : Registers}
    (hAccess : r.accessible c.layout 0 = true) (w : World σ) :
    run emb 4 { c with regs := { r with cip := 84 } } w =
      some (.returned 0, { c with regs := { r with pri := 0, cip := 108 } },
        (w.beginInstruction.beginInstruction.store ⟨0, 1⟩).beginInstruction.beginInstruction) := by
  have hMark : ∀ w : World σ, effectAt ({ c with regs := { r with cip := 84 } }, w) =
      .next { r with pri := 1, cip := 92 } none :=
    fun w => effectAt_in hProgram r
      (show Instruction.decode (forking branch) 84 = .ok (.constPri, 1) from rfl)
  have hStore : ∀ w : World σ, effectAt ({ c with regs := { r with pri := 1, cip := 92 } }, w) =
      .next { r with pri := 1, cip := 100 } (some ⟨0, 1⟩) := by
    intro w
    have hGranted : ({ r with pri := 1, cip := 92 } : Registers).store c.layout 0 1 = .ok ⟨0, 1⟩ :=
      if_pos hAccess
    rw [effectAt_in hProgram { r with pri := 1 }
      (show Instruction.decode (forking branch) 92 = .ok (.storPri, 0) from rfl)]
    show Instruction.guarded _ (Registers.store c.layout { r with pri := 1, cip := 92 } 0 1) _ = _
    rw [hGranted]
    rfl
  have hClear : ∀ w : World σ, effectAt ({ c with regs := { r with pri := 1, cip := 100 } }, w) =
      .next { r with pri := 0, cip := 108 } none :=
    fun w => effectAt_in hProgram { r with pri := 1 }
      (show Instruction.decode (forking branch) 100 = .ok (.constPri, 0) from rfl)
  have hHalt : ∀ w : World σ, effectAt ({ c with regs := { r with pri := 0, cip := 108 } }, w) =
      .halt 0 :=
    fun w => effectAt_in hProgram { r with pri := 0 }
      (show Instruction.decode (forking branch) 108 = .ok (.halt, 0) from rfl)
  rw [run_of_next 3 (hMark _), run_of_next 2 (hStore _), run_of_next 1 (hClear _),
    run_of_halt 0 (hHalt _)]
  rfl

/-- The test of the data cell, which stands at both places. -/
theorem decode_testing (branch : Nat) {p : Nat} (hPlace : p = 36 ∨ p = 60) :
    Instruction.decode (forking branch) p = .ok (.loadPri, 0) ∧
    Instruction.decode (forking branch) (p + 8) = .ok (.jzer, 84) ∧
    Instruction.decode (forking branch) (p + 16) = .ok (.halt, 4) := by
  rcases hPlace with rfl | rfl
  · exact ⟨rfl, rfl, rfl⟩
  · exact ⟨rfl, rfl, rfl⟩

/-- The two places differ in nothing but the address at which the public fails. -/
theorem run_testing (emb : Embedder σ) (hProgram : c.program = forking branch) (r : Registers)
    (w : World σ) :
    ∃ pause v, ∃ stop : Nat → Nat, ∀ pri alt p, p = 36 ∨ p = 60 →
      ∃ r', run emb 6 { c with regs := { r with pri, alt, cip := p } } w =
          some (pause, { c with regs := r' }, v) ∧
        r'.frm = r.frm ∧ r'.cip = stop p := by
  obtain ⟨cell, hCell⟩ : ∃ cell, w.beginInstruction.region.memory.cellAt 0 = cell := ⟨_, rfl⟩
  have hLoads : ∀ pri alt p, p = 36 ∨ p = 60 →
      effectAt ({ c with regs := { r with pri, alt, cip := p } }, w) =
        if r.accessible c.layout 0 then .next { r with pri := cell, alt, cip := p + 8 } none
        else .fault .memoryAccess { r with pri, alt, cip := p } := by
    intro pri alt p hPlace
    have hLoad : Registers.load c.layout w.beginInstruction.region.memory
        { r with pri, alt, cip := p } 0 =
        if r.accessible c.layout 0 then .ok cell else .error .memoryAccess := by
      rw [← hCell]
      rfl
    rw [effectAt_in hProgram { r with pri, alt } (decode_testing branch hPlace).1]
    show Instruction.guarded _ (Registers.load c.layout _ { r with pri, alt, cip := p } 0) _ = _
    rw [hLoad]
    split <;> rfl
  have hTests : ∀ alt p (w : World σ), p = 36 ∨ p = 60 →
      effectAt ({ c with regs := { r with pri := cell, alt, cip := p + 8 } }, w) =
        .next { r with pri := cell, alt, cip := if cell = 0 then 84 else p + 16 } none := by
    intro alt p w hPlace
    rw [effectAt_in hProgram { r with pri := cell, alt } (decode_testing branch hPlace).2.1]
    unfold Instruction.effectOf
    dsimp only
    split <;> rfl
  by_cases hAccess : r.accessible c.layout 0 = true
  · simp only [hAccess, if_true] at hLoads
    by_cases hClear : cell = 0
    · refine ⟨.returned 0, (w.beginInstruction.beginInstruction.beginInstruction.beginInstruction.store
        ⟨0, 1⟩).beginInstruction.beginInstruction, fun _ => 108, fun pri alt p hPlace =>
          ⟨{ r with pri := 0, alt, cip := 108 }, ?_, rfl, rfl⟩⟩
      have hTest := hTests alt p w.beginInstruction hPlace
      rw [if_pos hClear] at hTest
      rw [run_of_next 5 (hLoads pri alt p hPlace)]
      refine (run_of_next 4 hTest).trans ?_
      exact run_setting hProgram (r := { r with pri := cell, alt }) hAccess _
    · refine ⟨.faulted .outOfBounds, w.beginInstruction.beginInstruction.beginInstruction, (· + 16),
        fun pri alt p hPlace => ⟨{ r with pri := cell, alt, cip := p + 16 }, ?_, rfl, rfl⟩⟩
      have hTest := hTests alt p w.beginInstruction hPlace
      have hFail : ∀ w : World σ,
          effectAt ({ c with regs := { r with pri := cell, alt, cip := p + 16 } }, w) =
            .fault .outOfBounds { r with pri := cell, alt, cip := p + 16 } :=
        fun w => effectAt_in hProgram { r with pri := cell, alt }
          (decode_testing branch hPlace).2.2
      rw [if_neg hClear] at hTest
      rw [run_of_next 5 (hLoads pri alt p hPlace)]
      refine (run_of_next 4 hTest).trans ?_
      exact run_of_fault 3 (hFail _)
  · refine ⟨.faulted .memoryAccess, w.beginInstruction, id, fun pri alt p hPlace =>
      ⟨{ r with pri, alt, cip := p }, ?_, rfl, rfl⟩⟩
    have hLoad := hLoads pri alt p hPlace
    rw [if_neg hAccess] at hLoad
    exact run_of_fault 5 hLoad

/-- The public forks by its primary register. -/
theorem effectAt_fork (hProgram : c.program = forking branch) (hBranch : branch = 36 ∨ branch = 60)
    (r : Registers) :
    effectAt ({ c with regs := { r with cip := 28 } }, w) =
      .next { r with cip := if r.pri = 0 then branch else 36 } none := by
  have hDecode : Instruction.decode (forking branch) 28 = .ok (.jzer, Cell.ofAddress branch) := rfl
  have hTarget : Instruction.codeTarget (forking branch) (Cell.ofAddress branch) = .ok branch := by
    rcases hBranch with rfl | rfl
    · rfl
    · rfl
  rw [effectAt_in hProgram r hDecode]
  unfold Instruction.effectOf
  dsimp only
  split
  · unfold Instruction.jump
    rw [hTarget]
    rfl
  · rfl

/-- What the timer public does, and where it stops, depends on the primary register in nothing but
the place at which it tests its cell. -/
theorem exec_forking (emb : Embedder σ) (hProgram : c.program = forking branch)
    (hBranch : branch = 36 ∨ branch = 60) (index : Nat) (w : World σ) :
    ∃ outcome v, ∃ stop : Nat → Nat, ∀ pri alt, ∃ c',
      exec emb 7 (.function index) (c.holding pri alt) w = some (outcome, c', v) ∧
        c'.regs.frm = c.regs.frm ∧
        ((∀ value, outcome ≠ .success value) →
          c'.regs.cip = stop (if pri = 0 then branch else 36)) := by
  cases index with
  | succ index =>
      refine ⟨.fatal .badIndex, w, fun _ => c.regs.cip, fun pri alt =>
        ⟨c.holding pri alt, ?_, rfl, fun _ => rfl⟩⟩
      have hNone : (c.holding pri alt).program.publics[index + 1]? = none := by
        show c.program.publics[index + 1]? = none
        rw [hProgram]
        rfl
      simp only [exec, execWith, hNone]
  | zero =>
      have hFound : ∀ pri alt, (c.holding pri alt).program.publics[0]? = some ⟨timerPublic, 28⟩ := by
        intro pri alt
        show c.program.publics[0]? = _
        rw [hProgram]
        rfl
      by_cases hRoom : c.regs.stk < c.regs.hea + cellSize
      · refine ⟨.fatal .stackCollision, w, fun _ => c.regs.cip, fun pri alt =>
          ⟨marked (c.holding pri alt), ?_, rfl, fun _ => rfl⟩⟩
        have hPush : (c.holding pri alt).regs.push 0 = .error .stackCollision := if_pos hRoom
        simp only [exec, execWith, hFound, enter, hPush]
        rfl
      · obtain ⟨pause, v, stop, hTested⟩ := run_testing emb (c := marked c) hProgram
          { c.regs with stk := c.regs.stk - cellSize }
          (w.store ⟨c.regs.stk - cellSize, 0⟩).beginInstruction
        refine ⟨(settle (some (parking c)) pause c).1, v, stop, fun pri alt => ?_⟩
        have hPlace : (if pri = 0 then branch else 36) = 36 ∨ (if pri = 0 then branch else 36) = 60 := by
          split
          · exact hBranch
          · exact .inl rfl
        obtain ⟨r', hRun, hFrm, hCip⟩ := hTested pri alt _ hPlace
        have hFork := effectAt_fork (c := marked c) (w := w.store ⟨c.regs.stk - cellSize, 0⟩) hProgram
          hBranch { c.regs with pri, alt, stk := c.regs.stk - cellSize }
        refine ⟨(settle (some (parking c)) pause { marked c with regs := r' }).2, ?_, ?_, ?_⟩
        · have hRan := exec_of_room (hFound pri alt) (Nat.le_of_not_lt hRoom)
            ((run_of_next 6 hFork).trans hRun)
          cases pause <;> exact hRan
        · exact (settle_frm _ _ _).trans hFrm
        · intro hFails
          exact (settle_cip _ hFails).trans hCip

theorem unswayed_forking (hEmb : emb.FuelBlind) (hProgram : c.program = forking branch)
    (hBranch : branch = 36 ∨ branch = 60) (index : Nat) (w : World σ) :
    Unswayed emb (.function index, c, w) := by
  obtain ⟨outcome, v, stop, hForks⟩ := exec_forking emb hProgram hBranch index w
  have hHolding : ∀ pri alt, ∃ c',
      exec emb 7 (.function index) (c.holding pri alt) w = some (outcome, c', v) ∧
        c'.regs.frm = c.regs.frm :=
    fun pri alt => (hForks pri alt).imp fun _ hHeld => ⟨hHeld.1, hHeld.2.1⟩
  exact unswayed_of_exec hEmb hHolding

theorem indifferent_forking (hEmb : emb.FuelBlind) (hProgram : c.program = forking 36)
    (index : Nat) (w : World σ) : Indifferent emb (.function index, c, w) := by
  obtain ⟨outcome, v, stop, hForks⟩ := exec_forking emb hProgram (.inl rfl) index w
  simp only [ite_self] at hForks
  exact indifferent_of_exec hEmb hForks

end Forking

/-- The program in a block of sixteen cells, with a timer. -/
def forker (branch : Nat) : Context where
  program := forking branch
  natives := []
  layout := ⟨4, 64⟩
  regs := { frm := 64, stk := 64, hea := 4 }
  resetStk := 64
  resetHea := 4
  registry := ⟨[(.timer, .timer 0), (.idle, .idle .timer)]⟩

/-- The world of the program, with a timer that is due again and again. -/
def forkerWorld : World Unit where
  region :=
    { memory := Array.replicate 16 0, objects := { timers := #[Timer.armedAt 0 nanosPerMilli true] } }
  clock := .steady
  host := ()

namespace Driver

theorem indifferent_of_executes_forker {fuel index : Nat} {d : Driver} {c : Context}
    {w v : World Unit} (h : Executes .calling fuel d (forker 36) w (.function index, c, v)) :
    Indifferent .calling (.function index, c, v) := by
  have hFitting : Fitting fun c => c.program = forking 36 := fun _ _ _ _ _ _ h => h
  have hExec : (exec .calling fuel).Keeps fun s : Point Unit => s.1.program = forking 36 :=
    exec_leaves hFitting (Embedder.calling_leaves _) fuel
  have hProgram : c.program = forking 36 :=
    executes_on (P := fun c => c.program = forking 36) hExec rfl h
  exact indifferent_forking Embedder.calling_fuelBlind hProgram index v

/-- Where both ways lead to one place, the run fails at the same address under both policies. -/
theorem policy_unobservable_forker :
    (Embedder.calling : Embedder Unit).Discreet ∧
    (∀ id, (forker 36).idleFunction? ≠ some (.custom id)) ∧
    (∀ index c w, Executes .calling 32 {} (forker 36) forkerWorld (.function index, c, w) →
      c.sleeping = true → Indifferent .calling (.function index, c, w)) ∧
    (execute .calling 32 {} (forker 36) forkerWorld).map (·.1) = some (.error ⟨.outOfBounds, 52⟩) ∧
    ∃ N, ∀ F ≥ N,
      (execute .calling F { policy := .perIteration } (forker 36) forkerWorld).map (·.1) =
        some (.error ⟨.outOfBounds, 52⟩) := by
  have hBuiltIn : ∀ id, (forker 36).idleFunction? ≠ some (.custom id) := nofun
  have hIndifferent : ∀ index c w,
      Executes .calling 32 {} (forker 36) forkerWorld (.function index, c, w) →
      c.sleeping = true → Indifferent .calling (.function index, c, w) :=
    fun _ _ _ h _ => indifferent_of_executes_forker h
  have hFails : (execute .calling 32 {} (forker 36) forkerWorld).map (·.1) =
      some (.error ⟨.outOfBounds, 52⟩) := rfl
  obtain ⟨⟨result, d', c', w'⟩, hRun, hResult⟩ := Option.map_eq_some_iff.mp hFails
  obtain ⟨N, c'', w'', hOther, -, -, -, -⟩ :=
    policy_unobservable Embedder.calling_discreet .perIteration hBuiltIn hIndifferent hRun
  refine ⟨Embedder.calling_discreet, hBuiltIn, hIndifferent, hFails, N, fun F hF => ?_⟩
  rw [hOther F hF, ← hResult]
  rfl

/-- Where they lead to two places, the public goes by neither register in what it comes to, nor in
what it leaves, on whatever context, and gives the frame pointer back; but it fails at an address that
tells how old its snapshot is. -/
theorem forker_observes_policy :
    (∀ (c : Context) (w : World Unit) (index : Nat), c.program = forking 60 →
      Unswayed .plain (.function index, c, w)) ∧
    (execute .plain 32 { policy := .perSleep } (forker 60) forkerWorld).map (·.1) =
      some (.error ⟨.outOfBounds, 76⟩) ∧
    (execute .plain 32 { policy := .perIteration } (forker 60) forkerWorld).map (·.1) =
      some (.error ⟨.outOfBounds, 52⟩) :=
  ⟨fun _ w index hProgram =>
    unswayed_forking Embedder.plain_fuelBlind hProgram (.inr rfl) index w, rfl, rfl⟩

end Driver

/-- A program that sleeps, with a timer public that calls a native, and a public that sleeps. -/
def dawdling : Program where
  main := some 8
  publics := [⟨"@doze", 28⟩, ⟨timerPublic, 40⟩]
  natives := ["doze"]
  code :=
    #[Opcode.halt.toCell, 0, Opcode.constPri.toCell, 8, Opcode.sleep.toCell, Opcode.halt.toCell, 0,
      Opcode.sleep.toCell, Opcode.halt.toCell, 0,
      Opcode.sysreq.toCell, 0, Opcode.halt.toCell, 0]

section Dawdling

variable {c : Context}

theorem run_halting (emb : Embedder σ) (hProgram : c.program = dawdling) (r : Registers)
    (w : World σ) {p n : Nat} (hPlace : p = 32 ∨ p = 48) :
    run emb (n + 1) { c with regs := { r with cip := p } } w =
      some (.returned r.pri, { c with regs := { r with cip := p } }, w.beginInstruction) := by
  have hDecode : Instruction.decode dawdling p = .ok (.halt, 0) := by
    rcases hPlace with rfl | rfl
    · rfl
    · rfl
  exact run_of_halt n (effectAt_in hProgram r hDecode)

/-- Called where there is no room for it, the first public is refused; the marks are taken. -/
theorem exec_doze_of_full (emb : Embedder σ) (hProgram : c.program = dawdling)
    (hFull : c.regs.stk < c.regs.hea + cellSize) (n : Nat) (w : World σ) :
    exec emb n (.function 0) c w = some (.fatal .stackCollision, marked c, w) := by
  have hFound : c.program.publics[0]? = some ⟨"@doze", 28⟩ := by
    rw [hProgram]
    rfl
  exact exec_of_full hFound hFull n

/-- Called where there is room for it, the first public leaves the context asleep. -/
theorem exec_doze_of_room (emb : Embedder σ) (hProgram : c.program = dawdling)
    (hRoom : c.regs.hea + cellSize ≤ c.regs.stk) (n : Nat) (w : World σ) :
    exec emb (n + 1) (.function 0) c w =
      some (.sleeping c.regs.pri,
        { marked c with
          regs := { c.regs with stk := c.regs.stk - cellSize, cip := 32 }, sleeping := true },
        (w.store ⟨c.regs.stk - cellSize, 0⟩).beginInstruction) := by
  have hFound : c.program.publics[0]? = some ⟨"@doze", 28⟩ := by
    rw [hProgram]
    rfl
  have hSleep : effectAt ({ marked c with
      regs := { c.regs with stk := c.regs.stk - cellSize, cip := 28 } },
      w.store ⟨c.regs.stk - cellSize, 0⟩) =
      .sleep { c.regs with stk := c.regs.stk - cellSize, cip := 32 } :=
    effectAt_in (c := marked c) hProgram { c.regs with stk := c.regs.stk - cellSize }
      (show Instruction.decode dawdling 28 = .ok (.sleep, 0) from rfl)
  exact exec_of_room hFound hRoom (run_of_pauses (step_of_sleep hSleep))

/-- The native comes back to its caller in one of two places, in the same world, whatever the two
registers hold. -/
theorem nativeAnswer_doze (hProgram : c.program = dawdling) (n : Nat) (w : World Unit) :
    ∃ stk p sleeping v, (p = 32 ∨ p = 48) ∧ ∀ pri alt,
      nativeAnswer careless (exec careless (n + 1)) (.custom 0)
          { c with regs := { c.regs with pri, alt, cip := 48 } } w =
        some (.ok 0, { marked c with
          regs := { c.regs with pri, alt, stk, cip := p }, sleeping }, v) := by
  by_cases hRoom : c.regs.hea + cellSize ≤ c.regs.stk
  · refine ⟨c.regs.stk - cellSize, 32, true,
      (w.store ⟨c.regs.stk - cellSize, 0⟩).beginInstruction, .inl rfl, fun pri alt => ?_⟩
    have hDozes := exec_doze_of_room careless
      (c := { c with regs := { c.regs with pri, alt, cip := 48 } }) hProgram hRoom n w
    exact congrArg (Option.map _) hDozes
  · refine ⟨c.regs.stk, 48, false, w, .inr rfl, fun pri alt => ?_⟩
    have hRefused := exec_doze_of_full careless
      (c := { c with regs := { c.regs with pri, alt, cip := 48 } }) hProgram
      (Nat.lt_of_not_le hRoom) (n + 1) w
    exact congrArg (Option.map _) hRefused

/-- The timer public returns a zero, in the frame in which it was called. -/
theorem run_dawdling (hProgram : c.program = dawdling) (hNatives : c.natives = [some (.custom 0)])
    (w : World Unit) :
    ∃ v, ∀ pri alt, ∃ c',
      run careless 3 { c with regs := { c.regs with pri, alt, cip := 40 } } w =
        some (.returned 0, c', v) ∧ c'.regs.frm = c.regs.frm := by
  obtain ⟨stk, p, sleeping, v, hPlace, hAnswer⟩ := nativeAnswer_doze hProgram 1 w.beginInstruction
  refine ⟨v.beginInstruction, fun pri alt =>
    ⟨{ marked c with regs := { c.regs with pri := 0, alt, stk, cip := p }, sleeping }, ?_, rfl⟩⟩
  have hCall : effectAt ({ c with regs := { c.regs with pri, alt, cip := 40 } }, w) =
      .native { c.regs with pri, alt, cip := 48 } 0 :=
    effectAt_in hProgram { c.regs with pri, alt }
      (show Instruction.decode dawdling 40 = .ok (.sysreq, 0) from rfl)
  have hBound : c.native? 0 = some (.custom 0) := by
    unfold Context.native?
    rw [hNatives]
    rfl
  have hStep : step careless (exec careless 2)
      { c with regs := { c.regs with pri, alt, cip := 40 } } w =
      some (.continues
        { marked c with regs := { c.regs with pri := 0, alt, stk, cip := p }, sleeping } v) := by
    refine (step_of_native hCall hBound).trans ?_
    exact congrArg (Option.map _) (hAnswer pri alt)
  have hHalt := run_halting careless (n := 1) (c := { marked c with sleeping }) hProgram
    { c.regs with pri := 0, alt, stk } v hPlace
  exact (run_of_continues (s := (_, w)) (t := (_, v)) hStep).trans hHalt

theorem exec_dawdling (hProgram : c.program = dawdling) (hNatives : c.natives = [some (.custom 0)])
    (w : World Unit) :
    ∃ outcome v, ∀ pri alt, ∃ c',
      exec careless 3 (.function 1) (c.holding pri alt) w = some (outcome, c', v) ∧
        c'.regs.frm = c.regs.frm ∧
        ((∀ value, outcome ≠ .success value) → c'.regs.cip = c.regs.cip) := by
  have hFound : ∀ pri alt, (c.holding pri alt).program.publics[1]? = some ⟨timerPublic, 40⟩ := by
    intro pri alt
    show c.program.publics[1]? = _
    rw [hProgram]
    rfl
  by_cases hRoom : c.regs.hea + cellSize ≤ c.regs.stk
  · obtain ⟨v, hRuns⟩ := run_dawdling
      (c := { marked c with regs := { c.regs with stk := c.regs.stk - cellSize } }) hProgram hNatives
      (w.store ⟨c.regs.stk - cellSize, 0⟩)
    refine ⟨.success 0, v, fun pri alt => ?_⟩
    obtain ⟨c', hRun, hFrm⟩ := hRuns pri alt
    exact ⟨(settle (some (parking c)) (.returned 0) c').2, exec_of_room (hFound pri alt) hRoom hRun,
      hFrm, fun hFails => absurd rfl (hFails 0)⟩
  · exact ⟨.fatal .stackCollision, w, fun pri alt => ⟨marked (c.holding pri alt),
      exec_of_full (hFound pri alt) (Nat.lt_of_not_le hRoom) 3, rfl, fun _ => rfl⟩⟩

theorem indifferent_dawdling (hProgram : c.program = dawdling)
    (hNatives : c.natives = [some (.custom 0)]) (w : World Unit) :
    Indifferent careless (.function 1, c, w) := by
  obtain ⟨outcome, v, hExec⟩ := exec_dawdling hProgram hNatives w
  exact indifferent_of_exec careless_fuelBlind hExec

end Dawdling

/-- The program with room for four cells, and with a timer. -/
def dawdler : Context where
  program := dawdling
  natives := [some (.custom 0)]
  layout := ⟨48, 64⟩
  regs := { frm := 64, stk := 64, hea := 48 }
  resetStk := 64
  resetHea := 48
  registry := ⟨[(.timer, .timer 0), (.idle, .idle .timer)]⟩

namespace Driver

/-- The timer public always does the same; but the native calls a public on its snapshot that
suspends, and leaves the marks of that call. So a snapshot has a cell less with each call, until there
is no room for another. -/
theorem dawdler_observes_policy :
    (∀ (c : Context) (w : World Unit), c.program = dawdling → c.natives = [some (.custom 0)] →
      Indifferent careless (.function 1, c, w)) ∧
    (execute careless 32 { policy := .perSleep } dawdler forkerWorld).map (·.1) =
      some (.error ⟨.stackCollision, 20⟩) ∧
    (execute careless 32 { policy := .perIteration } dawdler forkerWorld).map (·.1) =
      some (.ok 8) :=
  ⟨fun _ w hProgram hNatives => indifferent_dawdling hProgram hNatives w, rfl, rfl⟩

/-- **Two timer publics can tell the policies apart**: one that goes by a register in nothing but the
address at which it fails, and one that goes by neither register in anything, but leaves the marks of
another call on its snapshot. -/
theorem policies_told_apart :
    ((∀ (c : Context) (w : World Unit) (index : Nat), c.program = forking 60 →
        Unswayed .plain (.function index, c, w)) ∧
      (execute .plain 32 { policy := .perSleep } (forker 60) forkerWorld).map (·.1) =
        some (.error ⟨.outOfBounds, 76⟩) ∧
      (execute .plain 32 { policy := .perIteration } (forker 60) forkerWorld).map (·.1) =
        some (.error ⟨.outOfBounds, 52⟩)) ∧
    ((∀ (c : Context) (w : World Unit), c.program = dawdling → c.natives = [some (.custom 0)] →
        Indifferent careless (.function 1, c, w)) ∧
      (execute careless 32 { policy := .perSleep } dawdler forkerWorld).map (·.1) =
        some (.error ⟨.stackCollision, 20⟩) ∧
      (execute careless 32 { policy := .perIteration } dawdler forkerWorld).map (·.1) =
        some (.ok 8)) :=
  ⟨forker_observes_policy, dawdler_observes_policy⟩

end Driver

end CellHost
