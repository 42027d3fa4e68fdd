import CellHost.Proofs.Machine.Fittings
import CellHost.Proofs.Machine.Nesting
import CellHost.Proofs.Session.Creation
import CellHost.Proofs.Timer.Idling

/-!
# Successful runs leave nothing behind

A context at rest has empty stack and heap, marks that say so, and is awake. Entering it takes the
empty stack and heap for marks, so that they are what the entry goes back to, at once or after any
number of sleeps, and whether or not its code cleans up after itself; the calls of the idle function
are entries of their own. A run that succeeds therefore leaves a context at rest that it finds at
rest, and a session can be run for as long as its runs succeed.

## Main definitions

* `Context.Rests`, `Context.Dormant` : a context at rest, and one that sleeps and will be at rest.
* `Session.Succeeds` : runs of a session that follow one another and succeed.

## Main results

* `Driver.rests_of_execute` : a run that succeeds leaves its context at rest.
* `Session.succeeds_rests` : so do any number of runs of a session.
-/

namespace CellHost

open Machine Driver

variable {σ : Type} {emb : Embedder σ} {c₀ c c' : Context} {w w' : World σ}

/-- A context that has kept its fittings is at rest: nothing is on its stack and on its heap, nor will
be when an entry returns, and it is awake. -/
structure Context.Rests (c₀ c : Context) : Prop where
  fittings : c₀.SameFittings c
  stk : c.regs.stk = c₀.layout.stp
  hea : c.regs.hea = c₀.layout.hlw
  markStk : c.resetStk = c₀.layout.stp
  markHea : c.resetHea = c₀.layout.hlw
  awake : c.sleeping = false

/-- A context that has kept its fittings will be at rest when the entry that sleeps returns. -/
structure Context.Dormant (c₀ c : Context) : Prop where
  fittings : c₀.SameFittings c
  markStk : c.resetStk = c₀.layout.stp
  markHea : c.resetHea = c₀.layout.hlw

/-- What an execution leaves of a context, in view of its outcome. -/
def Context.LeftBy (c₀ : Context) : Outcome → Context → Prop
  | .success _, c => c₀.Rests c
  | .noEntryPoint, c => c₀.Rests c
  | .sleeping _, c => c₀.Dormant c
  | .fatal _, _ => True

namespace Machine

section Rests

variable {fuel : Nat} {entry : EntryPoint} {outcome : Outcome}

/-- **An entry leaves a context at rest**, or, if it sleeps, one that will be. -/
theorem leaves_of_entry (hEmb : emb.LeavesMarks) (hFittings : emb.Leaves c₀.SameFittings)
    (hEntry : entry ≠ .resume) (hRests : c₀.Rests c)
    (h : exec emb fuel entry c w = some (outcome, c', w')) : c₀.LeftBy outcome c' := by
  have hSame : c₀.SameFittings c' :=
    exec_leaves c₀.sameFittings_fitting hFittings fuel _ _ _ _ _ _ h hRests.fittings
  cases outcome with
  | success v =>
      obtain ⟨hParking, hStk, hHea⟩ := parking_of_success hEmb hEntry h
      exact {
        fittings := hSame
        stk := hStk.trans hRests.stk
        hea := hHea.trans hRests.hea
        markStk := (congrArg Parking.resetStk hParking).trans hRests.markStk
        markHea := (congrArg Parking.resetHea hParking).trans hRests.markHea
        awake := (congrArg Parking.sleeping hParking).trans hRests.awake }
  | sleeping d =>
      obtain ⟨hStk, hHea⟩ := entry_suspended hEmb hEntry h
      exact ⟨hSame, hStk.trans hRests.stk, hHea.trans hRests.hea⟩
  | noEntryPoint =>
      rw [(unentered_of_exec h).2.2.1]
      exact hRests
  | fatal e => trivial

/-- A resumed execution leaves at rest what was to be at rest. -/
theorem leaves_of_resume (hEmb : emb.LeavesMarks) (hAwake : emb.KeepsAwake)
    (hFittings : emb.Leaves c₀.SameFittings) (hDormant : c₀.Dormant c)
    (h : exec emb fuel .resume c w = some (outcome, c', w')) : c₀.LeftBy outcome c' := by
  have hSame : c₀.SameFittings c' :=
    exec_leaves c₀.sameFittings_fitting hFittings fuel _ _ _ _ _ _ h hDormant.fittings
  cases outcome with
  | success v =>
      obtain ⟨-, hEnd, hStk, hHea, hMarkStk, hMarkHea⟩ := resume_success hEmb hAwake h
      exact {
        fittings := hSame
        stk := hStk.trans hDormant.markStk
        hea := hHea.trans hDormant.markHea
        markStk := hMarkStk.trans hDormant.markStk
        markHea := hMarkHea.trans hDormant.markHea
        awake := hEnd }
  | sleeping d =>
      obtain ⟨-, hStk, hHea⟩ := resume_suspended hEmb h
      exact ⟨hSame, hStk.trans hDormant.markStk, hHea.trans hDormant.markHea⟩
  | noEntryPoint => exact absurd (unentered_of_exec h).1 nofun
  | fatal e => trivial

end Rests

end Machine

namespace Driver

section Runs

variable {fuel : Nat}

/-- A call of the idle function that does not fail leaves a context at rest. -/
theorem rests_of_timerIdle (hEmb : emb.LeavesMarks) (hFittings : emb.Leaves c₀.SameFittings)
    (hTimed : c₀.Timed) (hRests : c₀.Rests c) {status : IdleStatus}
    (hStatus : ∀ e, status ≠ .failed e)
    (h : timerIdle (exec emb fuel) c w = some (status, c', w')) : c₀.Rests c' := by
  obtain ⟨ref, hRef⟩ := hTimed
  have hSame : c.timerRef? = c₀.timerRef? := by
    unfold Context.timerRef?
    rw [hRests.fittings.registry]
  generalize hr : (status, c', w') = r at h
  cases idled_of_timerIdle (hSame.trans hRef) h with
  | asleep _ _ => cases hr; exact hRests
  | awake _ _ => cases hr; exact hRests
  | early _ _ => cases hr; exact hRests
  | missed _ _ _ => cases hr; exact absurd rfl (hStatus _)
  | @executed x r _ hExecution hRun =>
      obtain ⟨_, _, index, -, -, rfl⟩ := timerExecution?_eq_some hExecution
      obtain ⟨outcome, c₁, w₁⟩ := r
      have hEntry : EntryPoint.function index ≠ .resume := nofun
      have hLeft := leaves_of_entry hEmb hFittings hEntry hRests hRun
      cases outcome with
      | success v => cases hr; exact hLeft
      | sleeping d => cases hr; exact absurd rfl (hStatus _)
      | noEntryPoint => cases hr; exact absurd rfl (hStatus _)
      | fatal e => cases hr; exact absurd rfl (hStatus _)

/-- Serving a program to its end leaves its context at rest. -/
theorem rests_of_idleUntilDone (hEmb : emb.LeavesMarks) (hFittings : emb.Leaves c₀.SameFittings)
    (hTimed : c₀.Timed) {n calls calls' : Nat} {value : Cell} (hRests : c₀.Rests c)
    (h : idleUntilDone (timerIdle (exec emb fuel)) n calls c w =
      some (.ok value, calls', c', w')) : c₀.Rests c' := by
  induction n generalizing calls c w with
  | zero => cases h
  | succ n ih =>
      unfold idleUntilDone at h
      cases hIdle : timerIdle (exec emb fuel) c w with
      | none => rw [hIdle] at h; cases h
      | some answer =>
          obtain ⟨status, c₁, w₁⟩ := answer
          rw [hIdle] at h
          cases status with
          | again =>
              have hSound : ∀ e, IdleStatus.again ≠ .failed e := fun _ h => by cases h
              exact ih (rests_of_timerIdle hEmb hFittings hTimed hRests hSound hIdle) h
          | done =>
              have hSound : ∀ e, IdleStatus.done ≠ .failed e := fun _ h => by cases h
              cases h
              exact rests_of_timerIdle hEmb hFittings hTimed hRests hSound hIdle
          | failed e => cases h

/-- A run that goes on after an outcome and succeeds leaves its context at rest. The idle calls of a
sleep work on snapshots; the context itself stays parked. -/
theorem rests_of_proceed (hEmb : emb.LeavesMarks) (hAwake : emb.KeepsAwake)
    (hFittings : emb.Leaves c₀.SameFittings) (hTimed : c₀.Timed) {policy : SnapshotPolicy}
    {n : Nat} {stats stats' : RunStats} {outcome : Outcome} {value : Cell}
    (hLeft : c₀.LeftBy outcome c)
    (h : proceed emb (exec emb fuel) policy (some .timer) fuel n stats outcome c w =
      some (.ok value, stats', c', w')) : c₀.Rests c' := by
  induction n generalizing stats outcome c w with
  | zero => cases h
  | succ n ih =>
      unfold proceed at h
      cases outcome with
      | success v => cases h; exact hLeft
      | fatal e => cases h
      | noEntryPoint =>
          obtain ⟨served, hServed, hEnd⟩ := Option.map_eq_some_iff.mp h
          obtain ⟨result, calls, c₁, w₁⟩ := served
          cases hEnd
          exact rests_of_idleUntilDone hEmb hFittings hTimed hLeft hServed
      | sleeping delay =>
          dsimp only at h
          cases hSlept : idleWhileSleeping (IdleFunction.invoke emb (exec emb fuel) .timer) policy
              fuel c delay w with
          | none => rw [hSlept] at h; cases h
          | some slept =>
              obtain ⟨result, calls, w₁⟩ := slept
              rw [hSlept] at h
              cases result with
              | error fault => cases h
              | ok _ =>
                  dsimp only at h
                  cases hResumed : exec emb fuel .resume c w₁ with
                  | none => rw [hResumed] at h; cases h
                  | some next =>
                      rw [hResumed] at h
                      exact ih (leaves_of_resume hEmb hAwake hFittings hLeft hResumed) h

/-- **A run that succeeds leaves its context at rest.** -/
theorem rests_of_execute (hEmb : emb.LeavesMarks) (hAwake : emb.KeepsAwake)
    (hFittings : emb.Leaves c₀.SameFittings) (hTimed : c₀.Timed)
    (hIdle : c₀.idleFunction? = some .timer) (hRests : c₀.Rests c) {d d' : Driver} {value : Cell}
    (h : execute emb fuel d c w = some (.ok value, d', c', w')) : c₀.Rests c' := by
  have hServed : c.idleFunction? = some .timer := by
    unfold Context.idleFunction?
    rw [hRests.fittings.registry]
    exact hIdle
  unfold execute at h
  dsimp only at h
  rw [hServed] at h
  cases hMain : exec emb fuel .main c w.readClock.2 with
  | none => rw [hMain] at h; cases h
  | some first =>
      obtain ⟨outcome, c₁, w₁⟩ := first
      rw [hMain] at h
      obtain ⟨⟨result, stats, c₂, w₂⟩, hRun, hEnd⟩ := Option.map_eq_some_iff.mp h
      cases hEnd
      have hEntry : EntryPoint.main ≠ .resume := nofun
      have hLeft := leaves_of_entry hEmb hFittings hEntry hRests hMain
      exact rests_of_proceed hEmb hAwake hFittings hTimed hLeft hRun

end Runs

end Driver

namespace Session

/-- Runs of a session that follow one another and all succeed, with their reports. -/
inductive Succeeds : Session → List RunReport → Session → Prop
  | none (s : Session) : Succeeds s [] s
  | run {s s₁ s₂ : Session} {fuel : Nat} {report : RunReport} {reports : List RunReport} :
      s.run fuel = some (.ok report, s₁) → Succeeds s₁ reports s₂ →
      Succeeds s (report :: reports) s₂

/-- A session begins at rest. -/
theorem Begins.rests {p : Program} {options : RunOptions} {s : Session}
    (h : s.Begins p options) : s.context.Rests s.context where
  fittings := .rfl
  stk := h.fresh.stk.trans (congrArg Layout.stp h.fresh.layout.symm)
  hea := h.fresh.hea.trans (congrArg Layout.hlw h.fresh.layout.symm)
  markStk := h.fresh.markStk.trans (congrArg Layout.stp h.fresh.layout.symm)
  markHea := h.fresh.markHea.trans (congrArg Layout.hlw h.fresh.layout.symm)
  awake := h.fresh.awake

/-- Successful runs leave a session at rest. -/
theorem Succeeds.rests {s s' : Session} {reports : List RunReport} (hTimed : c₀.Timed)
    (hIdle : c₀.idleFunction? = some .timer) (h : s.Succeeds reports s')
    (hRests : c₀.Rests s.context) : c₀.Rests s'.context := by
  induction h with
  | none s => exact hRests
  | @run s s₁ s₂ fuel report reports hRun _ ih =>
      obtain ⟨⟨result, d, c, w⟩, hExecute, hEnd⟩ := Option.map_eq_some_iff.mp hRun
      cases result with
      | error fault => cases hEnd
      | ok value =>
          cases hEnd
          exact ih (rests_of_execute Embedder.plain_leavesMarks Embedder.plain_keepsAwake
            (Embedder.plain_leaves _) hTimed hIdle hRests hExecute)

/-- A session at rest can be entered wherever its program can. -/
theorem Begins.enters {p : Program} {options : RunOptions} {s : Session} (h : s.Begins p options)
    (hRests : s.context.Rests c) {entry : EntryPoint} {address : Nat}
    (hAddress : entryAddress? p entry = some address) (w : World σ) :
    ∃ t, start? entry c w = some t := by
  have hAddress' : entryAddress? c.program entry = some address := by
    rw [hRests.fittings.program, h.fresh.program]
    exact hAddress
  have hRoom : c.regs.hea + 2 * cellSize ≤ c.regs.stk := by
    rw [hRests.stk, hRests.hea, h.fresh.layout]
    exact h.fresh.room
  have hEntry : start? entry c w = enterAt? address c w := by
    cases entry with
    | resume => cases hAddress
    | main => exact congrArg (·.bind fun address => enterAt? address c w) hAddress'
    | function index => exact congrArg (·.bind fun address => enterAt? address c w) hAddress'
  have hPush : ¬ c.regs.stk < c.regs.hea + cellSize := by omega
  rw [hEntry]
  unfold enterAt? Registers.push
  rw [if_neg hPush]
  exact ⟨_, rfl⟩

/-- **Main theorem.** However often a session is run, and whatever sleeps and timer calls there are in
its runs, as long as they succeed each leaves the stack and the heap empty and the context awake, with
marks that say so; and the session can be entered as it could at first. -/
theorem succeeds_rests {p : Program} {options : RunOptions} {abort : AbortState} {clock : Clock}
    {image : Option String} {s s' : Session} {reports : List RunReport}
    (hCreate : create p options abort clock = .ok s)
    (hRuns : Succeeds { s with image } reports s') :
    s'.context.regs.stk = s'.context.layout.stp ∧ s'.context.regs.hea = s'.context.layout.hlw ∧
    s'.context.sleeping = false ∧ s'.context.resetStk = s'.context.layout.stp ∧
    s'.context.resetHea = s'.context.layout.hlw ∧ s.context.SameFittings s'.context ∧
    ∀ entry address, entryAddress? p entry = some address →
      ∃ t, start? entry s'.context s'.world = some t := by
  have hBegins := create_begins hCreate
  have hRests := hRuns.rests hBegins.timed hBegins.idle hBegins.rests
  have hLayout := hRests.fittings.layout
  rw [hLayout]
  exact ⟨hRests.stk, hRests.hea, hRests.awake, hRests.markStk, hRests.markHea, hRests.fittings,
    fun entry address hAddress => hBegins.enters hRests hAddress s'.world⟩

/-- A program that pushes a cell and takes some heap, sleeps for no time, and halts without cleaning
up. -/
def litterer : Program where
  main := some 8
  code :=
    #[Opcode.halt.toCell, 0, Opcode.pushC.toCell, 5, Opcode.heap.toCell, 4, Opcode.constPri.toCell, 0,
      Opcode.sleep.toCell, Opcode.halt.toCell, 0]
  data := #[1]

/-- The program is run twice, sleeps once in the first run, and leaves no litter. -/
theorem succeeds_rests_litterer :
    ∃ s s' report report', create litterer { memorySize := 64 } {} .steady = .ok s ∧
      s.Succeeds [report, report'] s' ∧ report.stats.resumes = 1 ∧
      s'.context.regs.stk = s'.context.layout.stp ∧ s'.context.regs.hea = s'.context.layout.hlw ∧
      s'.context.sleeping = false := by
  have hRuns : ((create litterer { memorySize := 64 } {} .steady).toOption.bind fun s =>
      (s.run 16).bind fun first => (first.2.run 16).map fun second =>
        (first.1.map (·.stats.resumes), second.1.isOk)) = some (.ok 1, true) := rfl
  cases hCreate : create litterer { memorySize := 64 } {} .steady with
  | error e => rw [hCreate] at hRuns; cases hRuns
  | ok s =>
      rw [hCreate, Except.toOption, Option.bind_some] at hRuns
      obtain ⟨⟨first, s₁⟩, hFirst, hRest⟩ := Option.bind_eq_some_iff.mp hRuns
      obtain ⟨⟨second, s₂⟩, hSecond, hEnd⟩ := Option.map_eq_some_iff.mp hRest
      cases first with
      | error fault => cases hEnd
      | ok report =>
          obtain ⟨hResumes, hOk⟩ := Prod.mk.inj hEnd
          cases second with
          | error fault => cases hOk
          | ok report' =>
              have hSucceeds : s.Succeeds [report, report'] s₂ :=
                .run hFirst (.run hSecond (.none s₂))
              obtain ⟨hStk, hHea, hAwake, -⟩ := succeeds_rests hCreate hSucceeds
              exact ⟨s, s₂, report, report', rfl, hSucceeds, Except.ok.inj hResumes, hStk, hHea, hAwake⟩

end Session

end CellHost
