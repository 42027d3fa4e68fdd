import CellHost.Proofs.Driver.Naps

/-!
# Idle functions do not disturb the program they serve

While a program sleeps, its idle function is given a snapshot and may do with it what it likes:
change its registers, write memory, call publics, edit the registry. The program is resumed as it
was parked, register by register and with its own registry and hook; what reaches it is what the
last idle call left in the region that all of them share. A driven run is therefore the run of a
loop that knows of no idle function: it runs, lets the world change, and resumes.

## Main definitions

* `Serves` : the idle calls of one sleep, as they follow one another.
* `Nap.Isolated` : what a sleep leaves of the program, and of the world.
* `Chained` : sleeps that follow one another in a run.
* `replay` : resuming in one given world after another.

## Main results

* `execute_isolated` : every sleep is isolated, and the run is the one that its worlds replay.
-/

namespace CellHost.Driver

variable {σ : Type}

/-- A call that comes after `last` was left and in the world `w`: it is given the snapshot that the
policy has for it, after a reading of the clock. -/
structure IdleCall.Follows (caller : IdleCaller σ) (policy : SnapshotPolicy) (parked last : Context)
    (w : World σ) (call : IdleCall σ) : Prop where
  given : call.given = nextSnapshot policy parked last
  before : call.before = w.readClock.2
  made : caller call.given call.before = some (call.status, call.left, call.after)

/-- The idle calls of one sleep: each works on the world that the one before it left, and on a
snapshot. The first snapshot is `last`. -/
inductive Serves (caller : IdleCaller σ) (policy : SnapshotPolicy) (parked : Context) :
    Context → World σ → List (IdleCall σ) → Except Fault Unit → World σ → Prop
  | expires {last : Context} {w : World σ} :
      Serves caller policy parked last w [] (.ok ()) w.readClock.2
  | ends {last : Context} {w : World σ} {call : IdleCall σ} :
      call.Follows caller policy parked last w → call.status = .done →
      Serves caller policy parked last w [call] (.ok ()) call.after
  | fails {last : Context} {w : World σ} {call : IdleCall σ} {e : MachineError} :
      call.Follows caller policy parked last w → call.status = .failed e →
      Serves caller policy parked last w [call] (.error ⟨e, call.left.regs.cip⟩) call.after
  | goesOn {last : Context} {w w' : World σ} {call : IdleCall σ} {calls : List (IdleCall σ)}
      {result : Except Fault Unit} :
      call.Follows caller policy parked last w → call.status = .again →
      Serves caller policy parked call.left call.after calls result w' →
      Serves caller policy parked last w (call :: calls) result w'

/-- The region as the last of some calls left it. -/
def regionLeft (w : World σ) (calls : List (IdleCall σ)) : Region :=
  match calls.getLast? with
  | some call => call.after.region
  | none => w.region

theorem regionLeft_cons (w : World σ) (call : IdleCall σ) (calls : List (IdleCall σ)) :
    regionLeft w (call :: calls) = regionLeft call.after calls := by
  cases calls with
  | nil => rfl
  | cons next calls =>
      unfold regionLeft
      rw [List.getLast?_cons_cons]
      cases h : (next :: calls).getLast? with
      | none => rw [List.getLast?_eq_none_iff] at h; cases h
      | some last => rfl

/-- **What a sleep leaves in the region is what the last idle call left there.** -/
theorem Serves.region {caller : IdleCaller σ} {policy : SnapshotPolicy} {parked last : Context}
    {w w' : World σ} {calls : List (IdleCall σ)} {result : Except Fault Unit}
    (h : Serves caller policy parked last w calls result w') :
    w'.region = regionLeft w calls := by
  induction h with
  | expires => rfl
  | ends _ _ => rfl
  | fails _ _ => rfl
  | goesOn _ _ _ ih => rw [ih, regionLeft_cons]

theorem serves_of_idleLogged {caller : IdleCaller σ} {policy : SnapshotPolicy}
    {parked last : Context} {stamp limit fuel n n' : Nat} {w w' : World σ}
    {result : Except Fault Unit}
    (h : (idleLogged caller policy parked stamp limit fuel last n w).2 = some (result, n', w')) :
    Serves caller policy parked last w
      (idleLogged caller policy parked stamp limit fuel last n w).1 result w' := by
  induction fuel generalizing last n w with
  | zero => cases h
  | succ fuel ih =>
      simp only [idleLogged] at h ⊢
      by_cases hTime : w.readClock.1 - stamp < limit
      · rw [if_pos hTime] at h ⊢
        cases hCall : caller (nextSnapshot policy parked last) w.readClock.2 with
        | none => rw [hCall] at h; cases h
        | some answer =>
            obtain ⟨status, c, w₁⟩ := answer
            rw [hCall] at h
            cases status with
            | again => exact .goesOn ⟨rfl, rfl, hCall⟩ rfl (ih h)
            | done => cases h; exact .ends ⟨rfl, rfl, hCall⟩ rfl
            | failed e => cases h; exact .fails ⟨rfl, rfl, hCall⟩ rfl
      · rw [if_neg hTime] at h ⊢
        cases h
        exact .expires

/-- What a sleep leaves of the program, and of the world: the program is resumed exactly as it was
parked, and the region is as the last idle call left it. -/
structure Nap.Isolated (caller : IdleCaller σ) (policy : SnapshotPolicy) (nap : Nap σ) : Prop where
  sleeping : nap.parked.sleeping = true
  resumed : nap.resumed = nap.parked
  serves : Serves caller policy nap.parked nap.parked.snapshot nap.asleep.readClock.2 nap.calls
    (.ok ()) nap.awake
  region : nap.awake.region = regionLeft nap.asleep nap.calls

/-- Sleeps that follow one another in a run, from an outcome on: the first is the suspension that
this outcome is, and resuming from each gives the outcome that the next one is. -/
inductive Chained (engine : Engine σ) : Outcome × Context × World σ → List (Nap σ) → Prop
  | ends (s : Outcome × Context × World σ) : Chained engine s []
  | naps {nap : Nap σ} {naps : List (Nap σ)} :
      (∀ next, engine .resume nap.resumed nap.awake = some next → Chained engine next naps) →
      Chained engine (.sleeping nap.delay, nap.parked, nap.asleep) (nap :: naps)

/-- Resume an execution that suspended in one world after another. -/
def replay (engine : Engine σ) :
    List (World σ) → Outcome × Context × World σ → Option (Outcome × Context × World σ)
  | [], last => some last
  | w :: worlds, (.sleeping _, c, _) =>
    match engine .resume c w with
    | none => none
    | some next => replay engine worlds next
  | _ :: _, _ => none

/-- What a driver makes of the last outcome it looks at. -/
inductive Concludes (emb : Embedder σ) (engine : Engine σ) (policy : SnapshotPolicy)
    (idle : Option IdleFunction) :
    Outcome × Context × World σ → Except Fault Cell → Context → World σ → Prop
  | success {value : Cell} {c : Context} {w : World σ} :
      Concludes emb engine policy idle (.success value, c, w) (.ok value) c w
  | fatal {e : MachineError} {c : Context} {w : World σ} :
      Concludes emb engine policy idle (.fatal e, c, w) (.error ⟨e, c.regs.cip⟩) c w
  | noMain {c : Context} {w : World σ} :
      idle = none →
      Concludes emb engine policy idle (.noEntryPoint, c, w) (.error ⟨.badIndex, c.regs.cip⟩) c w
  | served {f : IdleFunction} {calls n : Nat} {result : Except Fault Cell} {c c' : Context}
      {w w' : World σ} :
      idle = some f → idleUntilDone (f.invoke emb engine) calls 0 c w = some (result, n, c', w') →
      Concludes emb engine policy idle (.noEntryPoint, c, w) result c' w'
  | unserved {delay : Cell} {c : Context} {w : World σ} :
      idle = none →
      Concludes emb engine policy idle (.sleeping delay, c, w) (.error ⟨.asleep, c.regs.cip⟩) c w
  /-- The idle function failed: its error is the result, and the program stays parked. -/
  | idleFailed {f : IdleFunction} {delay : Cell} {calls : List (IdleCall σ)} {fault : Fault}
      {c : Context} {w w' : World σ} :
      idle = some f →
      Serves (f.invoke emb engine) policy c c.snapshot w.readClock.2 calls (.error fault) w' →
      c.sleeping = true →
      Machine.start? .resume c w' = some ({ c with sleeping := false }, w') →
      Concludes emb engine policy idle (.sleeping delay, c, w) (.error fault) c w'

/-- A suspended outcome comes with a context that is marked asleep. -/
def MarksSleep (engine : Engine σ) : Prop :=
  ∀ entry c w delay c' w', engine entry c w = some (.sleeping delay, c', w') → c'.sleeping = true

theorem exec_marksSleep (emb : Embedder σ) (fuel : Nat) : MarksSleep (Machine.exec emb fuel) := by
  intro entry c w delay c' w' h
  unfold Machine.exec at h
  rw [Machine.execWith_eq] at h
  cases hStart : Machine.start? entry c w with
  | none =>
      rw [hStart] at h
      have hNot := Machine.refusal_not_resumable entry c
      rw [(Prod.mk.inj (Option.some.inj h)).1] at hNot
      cases hNot
  | some s =>
      rw [hStart] at h
      obtain ⟨⟨pause, c₁, w₁⟩, -, hSettle⟩ := Option.map_eq_some_iff.mp h
      cases pause with
      | returned value => cases hSettle
      | slept d => cases hSettle; rfl
      | faulted e => cases hSettle

/-- A parked context can be resumed, and starts where it was parked. -/
theorem start?_of_sleeping {c : Context} (w : World σ) (h : c.sleeping = true) :
    Machine.start? .resume c w = some ({ c with sleeping := false }, w) := by
  unfold Machine.start?
  dsimp only
  rw [if_pos h]

/-- What a driver does from an outcome on, and what it logs: it concludes, or it comes back from an
isolated sleep and goes on. It has no result where something that it runs has none. -/
inductive Proceeds (emb : Embedder σ) (engine : Engine σ) (policy : SnapshotPolicy)
    (idle : Option IdleFunction) :
    Outcome × Context × World σ → List (Nap σ) →
      Option (Except Fault Cell × Context × World σ) → Prop
  | stuck (s : Outcome × Context × World σ) : Proceeds emb engine policy idle s [] none
  | concludes {s : Outcome × Context × World σ} {result : Except Fault Cell} {c : Context}
      {w : World σ} :
      Concludes emb engine policy idle s result c w →
      Proceeds emb engine policy idle s [] (some (result, c, w))
  | lost {f : IdleFunction} {nap : Nap σ} :
      idle = some f → nap.Isolated (f.invoke emb engine) policy →
      engine .resume nap.resumed nap.awake = none →
      Proceeds emb engine policy idle (.sleeping nap.delay, nap.parked, nap.asleep) [nap] none
  | resumes {f : IdleFunction} {nap : Nap σ} {naps : List (Nap σ)}
      {next : Outcome × Context × World σ}
      {r : Option (Except Fault Cell × Context × World σ)} :
      idle = some f → nap.Isolated (f.invoke emb engine) policy →
      engine .resume nap.resumed nap.awake = some next →
      Proceeds emb engine policy idle next naps r →
      Proceeds emb engine policy idle (.sleeping nap.delay, nap.parked, nap.asleep) (nap :: naps) r

/-- The result of a driver without its statistics. -/
def bare {ε : Type} (r : Except Fault Cell × ε × Context × World σ) :
    Except Fault Cell × Context × World σ :=
  (r.1, r.2.2)

section Proceeds

variable {emb : Embedder σ} {engine : Engine σ} {policy : SnapshotPolicy}
  {idle : Option IdleFunction}

/-- A driver does what `Proceeds` says. The induction is on the outcomes that are still looked at;
what carries it is that a context is marked asleep whenever its outcome is a suspension. -/
theorem proceeds_of_proceedLogged (emb : Embedder σ) (hEngine : MarksSleep engine)
    (policy : SnapshotPolicy) (idle : Option IdleFunction) (calls fuel : Nat) (stats : RunStats)
    (outcome : Outcome) (c : Context) (w : World σ)
    (hMark : ∀ delay, outcome = .sleeping delay → c.sleeping = true) :
    Proceeds emb engine policy idle (outcome, c, w)
      (proceedLogged emb engine policy idle calls fuel stats outcome c w).1
      ((proceedLogged emb engine policy idle calls fuel stats outcome c w).2.map bare) := by
  induction fuel generalizing stats outcome c w with
  | zero => exact .stuck _
  | succ fuel ih =>
      cases outcome with
      | success value => exact .concludes .success
      | fatal e => exact .concludes .fatal
      | noEntryPoint =>
          cases idle with
          | none => exact .concludes (.noMain rfl)
          | some f =>
              simp only [proceedLogged]
              cases hServed : idleUntilDone (f.invoke emb engine) calls 0 c w with
              | none => exact .stuck _
              | some served => exact .concludes (.served rfl hServed)
      | sleeping delay =>
          have hAsleep : c.sleeping = true := hMark delay rfl
          cases idle with
          | none => exact .concludes (.unserved rfl)
          | some f =>
              simp only [proceedLogged]
              cases hSlept : (sleepLogged (f.invoke emb engine) policy calls c delay w).2 with
              | none => exact .stuck _
              | some answer =>
                  obtain ⟨served, n, w₁⟩ := answer
                  have hServes := serves_of_idleLogged hSlept
                  cases served with
                  | error fault =>
                      have hResumable := start?_of_sleeping w₁ hAsleep
                      exact .concludes (.idleFailed rfl hServes hAsleep hResumable)
                  | ok done =>
                      cases done
                      dsimp only
                      have hIsolated : Nap.Isolated (f.invoke emb engine) policy
                          ⟨delay, c, w,
                            (sleepLogged (f.invoke emb engine) policy calls c delay w).1, c, w₁⟩ :=
                        ⟨hAsleep, rfl, hServes, hServes.region⟩
                      cases hResume : engine .resume c w₁ with
                      | none => exact .lost rfl hIsolated hResume
                      | some next =>
                          obtain ⟨outcome, c₂, w₂⟩ := next
                          have hNext : ∀ d, outcome = .sleeping d → c₂.sleeping = true := by
                            rintro d rfl
                            exact hEngine _ _ _ _ _ _ hResume
                          exact .resumes rfl hIsolated hResume (ih _ outcome c₂ w₂ hNext)

variable {s : Outcome × Context × World σ} {naps : List (Nap σ)}
  {r : Option (Except Fault Cell × Context × World σ)}

theorem Proceeds.isolated (h : Proceeds emb engine policy idle s naps r) :
    ∀ nap ∈ naps, ∃ f, idle = some f ∧ nap.Isolated (f.invoke emb engine) policy := by
  induction h with
  | stuck s => exact fun nap hNap => absurd hNap List.not_mem_nil
  | concludes _ => exact fun nap hNap => absurd hNap List.not_mem_nil
  | @lost f nap hIdle hIsolated _ =>
      intro nap' hNap
      rw [List.mem_singleton.mp hNap]
      exact ⟨f, hIdle, hIsolated⟩
  | @resumes f nap naps next r hIdle hIsolated _ _ ih =>
      intro nap' hNap
      rcases List.mem_cons.mp hNap with rfl | hNap
      · exact ⟨f, hIdle, hIsolated⟩
      · exact ih nap' hNap

theorem Proceeds.chained (h : Proceeds emb engine policy idle s naps r) :
    Chained engine s naps := by
  induction h with
  | stuck s => exact .ends s
  | concludes _ => exact .ends _
  | lost _ _ _ => exact .naps fun next _ => .ends next
  | resumes _ _ hResume _ ih =>
      refine .naps fun next hNext => ?_
      cases hResume.symm.trans hNext
      exact ih

/-- A run that comes to a result is replayed by the worlds in which it was resumed. -/
theorem Proceeds.replay {result : Except Fault Cell} {c : Context} {w : World σ}
    (h : Proceeds emb engine policy idle s naps (some (result, c, w))) :
    ∃ last, Driver.replay engine (naps.map Nap.awake) s = some last ∧
      Concludes emb engine policy idle last result c w := by
  generalize hResult : some (result, c, w) = r at h
  induction h with
  | stuck s => cases hResult
  | concludes hEnd =>
      cases hResult
      exact ⟨_, rfl, hEnd⟩
  | lost _ _ _ => cases hResult
  | resumes _ hIsolated hResume _ ih =>
      obtain ⟨last, hLast, hEnd⟩ := ih hResult
      refine ⟨last, ?_, hEnd⟩
      rw [hIsolated.resumed] at hResume
      simp only [List.map_cons, Driver.replay, hResume]
      exact hLast

end Proceeds

/-- **Main theorem.** Whatever the idle function does, every sleep from which a driver resumes the
program is isolated: the program is resumed exactly as it was parked, and the region is as the last
idle call left it. The run is the one that the worlds left by the idle calls replay, and if it ends
with an error of the idle function then the program is still parked and can be resumed. -/
theorem execute_isolated (emb : Embedder σ) (fuel : Nat) (d : Driver) (c : Context)
    (w : World σ) :
    (∀ nap ∈ naps emb fuel d c w,
      ∃ f, c.idleFunction? = some f ∧
        nap.Isolated (f.invoke emb (Machine.exec emb fuel)) d.policy) ∧
    (∀ first, Machine.exec emb fuel .main c w.readClock.2 = some first →
      Chained (Machine.exec emb fuel) first (naps emb fuel d c w)) ∧
    ∀ result d' c' w', execute emb fuel d c w = some (result, d', c', w') →
      ∃ first last w₁,
        Machine.exec emb fuel .main c w.readClock.2 = some first ∧
        replay (Machine.exec emb fuel) ((naps emb fuel d c w).map Nap.awake) first = some last ∧
        Concludes emb (Machine.exec emb fuel) d.policy c.idleFunction? last result c' w₁ ∧
        w' = w₁.readClock.2 := by
  have hEngine := exec_marksSleep emb fuel
  rw [← executeLogged_snd]
  unfold naps executeLogged
  dsimp only
  cases hMain : Machine.exec emb fuel .main c w.readClock.2 with
  | none =>
      refine ⟨fun nap hNap => absurd hNap List.not_mem_nil, ?_, ?_⟩
      · intro first hFirst
        cases hFirst
      · intro result d' c' w' h
        cases h
  | some first =>
      obtain ⟨outcome, c₁, w₁⟩ := first
      have hMark : ∀ delay, outcome = .sleeping delay → c₁.sleeping = true := by
        rintro delay rfl
        exact hEngine _ _ _ _ _ _ hMain
      have hRun := proceeds_of_proceedLogged emb hEngine d.policy c.idleFunction?
        fuel fuel {} outcome c₁ w₁ hMark
      refine ⟨hRun.isolated, ?_, ?_⟩
      · intro first hFirst
        cases hFirst
        exact hRun.chained
      · intro result d' c' w' h
        obtain ⟨⟨result, stats, c₂, w₂⟩, hEnd, hEq⟩ := Option.map_eq_some_iff.mp h
        cases hEq
        rw [hEnd] at hRun
        obtain ⟨last, hLast, hConcludes⟩ := hRun.replay
        exact ⟨_, last, w₂, rfl, hLast, hConcludes, rfl⟩

/-- An idle function that scribbles over all that it is given, and stores a seven in memory. -/
def scribbling : Embedder Unit where
  idle := fun _ _ c w =>
    some (.done, { c with regs := { pri := -1, frm := 0, stk := 0, hea := 0 }, registry := {} },
      w.store ⟨0, 7⟩)

/-- A program that sleeps and returns its first data cell, served by the scribbling function. -/
def dozer : Context where
  program :=
    { main := some 8
      code :=
        #[Opcode.halt.toCell, 0, Opcode.proc.toCell, Opcode.constPri.toCell, 20,
          Opcode.sleep.toCell, Opcode.loadPri.toCell, 0, Opcode.ret.toCell]
      data := #[1] }
  natives := []
  layout := ⟨4, 64⟩
  regs := { frm := 64, stk := 64, hea := 4 }
  resetStk := 64
  resetHea := 4
  registry := ⟨[(.idle, .idle (.custom 0))]⟩

/-- The world of the program. -/
def dozerWorld : World Unit where
  region := { memory := (Array.replicate 16 0).setIfInBounds 0 1 }
  clock := .steady
  host := ()

/-- The seven reaches the program, and nothing else that the idle function has done. -/
theorem execute_isolated_scribbled :
    (naps scribbling 16 {} dozer dozerWorld).length = 1 ∧
    (∀ nap ∈ naps scribbling 16 {} dozer dozerWorld, nap.resumed = nap.parked) ∧
    (execute scribbling 16 {} dozer dozerWorld).map (·.1) = some (.ok 7) := by
  refine ⟨rfl, ?_, rfl⟩
  intro nap hNap
  obtain ⟨f, -, hIsolated⟩ := (execute_isolated scribbling 16 {} dozer dozerWorld).1 nap hNap
  exact hIsolated.resumed

end CellHost.Driver
