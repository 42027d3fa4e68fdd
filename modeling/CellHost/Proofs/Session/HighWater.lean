import CellHost.Proofs.Driver.Contexts
import CellHost.Proofs.Machine.Fittings
import CellHost.Proofs.Session.Creation

/-!
# High-water marks are exact

The record of a session stands in the world, the hook that writes it on every context. A snapshot is
a copy of the context, with its hook and with a registry that refers to the same record, so that a
break writes into the one record wherever it is executed: in a program, resumed or not, or in a timer
public on a snapshot or on the live context, and also if it then stops the run. No other instruction
touches the record. What it says after any number of runs is therefore the largest stack and, apart
from that, the largest heap at the breaks that were executed.

## Main definitions

* `breaks`, `highest` : the breaks among some states, and the largest value of a measure.
* `passed` : the states that a host's acts pass through.
* `Session.Runs` : runs of a session that follow one another, with the states they pass through.

## Main results

* `step_record` : what an instruction makes of the record.
* `passed_record` : what the acts of a host make of it.
* `Session.highWater_exact` : what runs of a session make of it.
-/

namespace CellHost

open Machine Driver

variable {σ : Type} {ref : Nat}

/-! ## Breaks and their samples -/

/-- The states in which a break is executed. -/
def breaks (seen : List (Point σ)) : List (Point σ) :=
  seen.filter fun s => operation? s = some .brk

/-- The largest value of a measure, zero if there are no states. -/
def highest (measure : Point σ → Nat) (seen : List (Point σ)) : Nat :=
  (seen.map measure).foldr max 0

theorem highest_append (measure : Point σ → Nat) (seen more : List (Point σ)) :
    highest measure (seen ++ more) = max (highest measure seen) (highest measure more) := by
  induction seen with
  | nil => exact (Nat.max_eq_right (Nat.zero_le _)).symm
  | cons s seen ih =>
      have hHead : ∀ rest, highest measure (s :: rest) = max (measure s) (highest measure rest) :=
        fun _ => rfl
      rw [List.cons_append, hHead, hHead, ih, Nat.max_assoc]

/-- High-water marks raised to what is in use at the breaks among some states. -/
def Usage.raise (u : Usage) (seen : List (Point σ)) : Usage where
  stack := max u.stack (highest (·.1.stackUsage) (breaks seen))
  heap := max u.heap (highest (·.1.heapUsage) (breaks seen))

@[simp] theorem Usage.raise_nil (u : Usage) : u.raise ([] : List (Point σ)) = u := by
  simp [raise, breaks, highest]

/-- A break is a sample. -/
theorem Usage.raise_of_break (u : Usage) {s : Point σ} (h : operation? s = some .brk) :
    u.raise [s] = u.sample s.1.stackUsage s.1.heapUsage := by
  simp [raise, breaks, highest, sample, h]

theorem Usage.raise_of_not_break (u : Usage) {s : Point σ} (h : operation? s ≠ some .brk) :
    u.raise [s] = u := by
  simp [raise, breaks, highest, h]

theorem Usage.raise_append (u : Usage) (seen more : List (Point σ)) :
    u.raise (seen ++ more) = (u.raise seen).raise more := by
  unfold raise breaks
  rw [List.filter_append, highest_append, highest_append, ← Nat.max_assoc, ← Nat.max_assoc]

/-- The usage record with a reference, if there is one. -/
def World.record? (w : World σ) (ref : Nat) : Option Usage := w.region.objects.usages[ref]?

theorem record?_sampleUsage (w : World σ) (stack heap : Nat) :
    (w.sampleUsage ref stack heap).record? ref =
      (w.record? ref).map (·.sample stack heap) := by
  unfold World.record? World.sampleUsage
  dsimp only
  rw [Array.getElem?_modify, if_pos rfl]

theorem record?_beginInstruction (w : World σ) :
    w.beginInstruction.record? ref = w.record? ref := by
  unfold World.beginInstruction World.record?
  dsimp only
  split <;> rfl

theorem record?_storeIf (w : World σ) (store : Option Store) :
    (w.storeIf store).record? ref = w.record? ref := by
  cases store <;> rfl

theorem record?_wait (w : World σ) (nanos : Nat) : (w.wait nanos).record? ref = w.record? ref := rfl

theorem record?_withTimer (c : Context) {w : World σ}
    {step : Nat → Except MachineError Cell × World σ}
    (h : ∀ timer, (step timer).2.record? ref = w.record? ref) :
    (Native.withTimer c w step).2.record? ref = w.record? ref := by
  unfold Native.withTimer
  split
  · rfl
  · exact h _

/-- The built-in natives leave the records alone. -/
theorem record?_call (native : Native) (c : Context) (w : World σ) :
    (native.call c w).2.record? ref = w.record? ref := by
  cases native with
  | setTimer =>
      unfold Native.call Native.callSetTimer
      dsimp only
      split
      · rfl
      · refine record?_withTimer c fun timer => ?_
        split <;> rfl
  | getTimer => exact record?_withTimer c fun timer => rfl
  | killTimer => exact record?_withTimer c fun timer => rfl
  | print => rfl
  | printChar =>
      unfold Native.call
      dsimp only
      split <;> rfl
  | tickCount => rfl
  | delay =>
      unfold Native.call
      dsimp only
      split
      · exact record?_wait w _
      · rfl
  | argumentCount => rfl
  | argument => rfl
  | custom id => rfl

namespace Machine

/-! ## Instructions -/

variable {engine : Engine σ} {s : Point σ} {p : Progress σ}

/-- The built-in hook takes a sample, and leaves the context alone. -/
theorem askHook_monitored {emb : Embedder σ} {a : AbortState} {c c' : Context} {w w' : World σ}
    {verdict : Checkpoint} (hMonitored : c.Monitored ref)
    (h : askHook emb (withAbortHook c a) w = (verdict, c', w')) :
    c' = c ∧ w' = w.sampleUsage ref c.stackUsage c.heapUsage := by
  have hSame : withAbortHook c a = c := by
    unfold withAbortHook
    rw [hMonitored.hook]
    rfl
  rw [hSame] at h
  unfold askHook at h
  rw [hMonitored.hook] at h
  unfold monitor at h
  rw [hMonitored.record] at h
  cases h
  exact ⟨rfl, rfl⟩

/-- A break takes a sample, whether or not it stops the run. -/
theorem step_record_of_break {emb : Embedder σ} (hMonitored : s.1.Monitored ref)
    (hBreak : operation? s = some .brk) (h : step emb engine s.1 s.2 = some p) :
    p.point.1.Monitored ref ∧
      p.point.2.record? ref = (s.2.record? ref).map (·.sample s.1.stackUsage s.1.heapUsage) := by
  have hCheckpoint := effectAt_of_break hBreak
  have hMoved : ∀ regs, ({ s.1 with regs } : Context).Monitored ref :=
    fun _ => ⟨hMonitored.hook, hMonitored.record⟩
  rw [← record?_beginInstruction s.2, ← record?_sampleUsage]
  cases stepped_of_step h with
  | next hEffect => rw [hCheckpoint] at hEffect; cases hEffect
  | halt hEffect => rw [hCheckpoint] at hEffect; cases hEffect
  | sleep hEffect => rw [hCheckpoint] at hEffect; cases hEffect
  | fault hEffect => rw [hCheckpoint] at hEffect; cases hEffect
  | unbound hEffect _ => rw [hCheckpoint] at hEffect; cases hEffect
  | native hEffect _ _ => rw [hCheckpoint] at hEffect; cases hEffect
  | proceed hEffect hAsk =>
      cases hCheckpoint.symm.trans hEffect
      obtain ⟨rfl, rfl⟩ := askHook_monitored (hMoved _) hAsk
      exact ⟨hMoved _, rfl⟩
  | abort hEffect hAsk =>
      cases hCheckpoint.symm.trans hEffect
      obtain ⟨rfl, rfl⟩ := askHook_monitored (hMoved _) hAsk
      exact ⟨hMoved _, rfl⟩

/-- No other instruction touches the record. -/
theorem step_record_of_not_break (hMonitored : s.1.Monitored ref)
    (hQuiet : operation? s ≠ some .brk) (h : step .plain engine s.1 s.2 = some p) :
    p.point.1.Monitored ref ∧ p.point.2.record? ref = s.2.record? ref := by
  have hBegin : s.2.beginInstruction.record? ref = s.2.record? ref := record?_beginInstruction s.2
  have hMoved : ∀ regs, ({ s.1 with regs } : Context).Monitored ref :=
    fun _ => ⟨hMonitored.hook, hMonitored.record⟩
  cases stepped_of_step h with
  | next _ => exact ⟨hMoved _, (record?_storeIf _ _).trans hBegin⟩
  | halt _ => exact ⟨hMonitored, hBegin⟩
  | sleep _ => exact ⟨hMoved _, hBegin⟩
  | fault _ => exact ⟨hMoved _, hBegin⟩
  | unbound _ _ => exact ⟨hMoved _, hBegin⟩
  | @native regs index native answer c w _ _ hAnswer =>
      have hLeft : c.Monitored ref ∧ w.record? ref = s.2.record? ref := by
        unfold nativeAnswer at hAnswer
        split at hAnswer
        · cases hAnswer
          exact ⟨hMoved _, hBegin⟩
        · cases hAnswer
          exact ⟨hMoved _, (record?_call native _ _).trans hBegin⟩
      have hEnd : ∀ regs, ({ c with regs } : Context).Monitored ref :=
        fun _ => ⟨hLeft.1.hook, hLeft.1.record⟩
      cases answer with
      | ok value => exact ⟨hEnd _, hLeft.2⟩
      | error e => exact ⟨hEnd _, hLeft.2⟩
  | proceed hEffect _ => exact absurd (brk_of_checkpoint hEffect).1 hQuiet
  | abort hEffect _ => exact absurd (brk_of_checkpoint hEffect).1 hQuiet

/-- **An instruction raises the record if it is a break**, and leaves it alone if not. -/
theorem step_record (hMonitored : s.1.Monitored ref)
    (h : step .plain engine s.1 s.2 = some p) :
    p.point.1.Monitored ref ∧ p.point.2.record? ref = (s.2.record? ref).map (·.raise [s]) := by
  by_cases hBreak : operation? s = some .brk
  · simp only [Usage.raise_of_break _ hBreak]
    exact step_record_of_break hMonitored hBreak h
  · simp only [Usage.raise_of_not_break _ hBreak, Option.map_id']
    exact step_record_of_not_break hMonitored hBreak h

/-! ## Executions -/

/-- The states of a run say what becomes of the record. -/
theorem Trail.record {seen : List (Point σ)} {r : Pause × Context × World σ}
    (h : Trail (stepper .plain) s seen r) (hMonitored : s.1.Monitored ref) :
    r.2.1.Monitored ref ∧ r.2.2.record? ref = (s.2.record? ref).map (·.raise seen) := by
  induction h with
  | pause hStep =>
      obtain ⟨fuel, hStep⟩ := hStep
      exact step_record hMonitored hStep
  | @next s c w seen r hStep _ ih =>
      obtain ⟨fuel, hStep⟩ := hStep
      obtain ⟨hLeft, hRaised⟩ := step_record hMonitored hStep
      obtain ⟨hEnd, hRest⟩ := ih hLeft
      refine ⟨hEnd, ?_⟩
      have hFirst : w.record? ref = (s.2.record? ref).map (·.raise [s]) := hRaised
      rw [hRest, hFirst, Option.map_map]
      exact congrArg (Option.map · _) (funext fun u => (u.raise_append [s] seen).symm)

/-- The states of an execution say what becomes of the record, and the context stays monitored. -/
theorem exec_record {fuel : Nat} {entry : EntryPoint} {c : Context} {w : World σ}
    {r : Outcome × Context × World σ} (hMonitored : c.Monitored ref)
    (h : exec .plain fuel entry c w = some r) :
    r.2.1.Monitored ref ∧ r.2.2.record? ref =
      (w.record? ref).map (·.raise (states (stepper .plain) fuel entry c w)) := by
  have hExecuted := executed_of_exec h
  generalize states (stepper .plain) fuel entry c w = seen at hExecuted ⊢
  cases hExecuted with
  | refused _ =>
      refine ⟨?_, by simp⟩
      rcases refusal_eq entry c with hSame | hMarked
      · rw [hSame]
        exact hMonitored
      · rw [hMarked]
        exact ⟨hMonitored.hook, hMonitored.record⟩
  | @ran s seen pause c₁ w₁ hStart hTrail =>
      have hBegins : s.1.Monitored ref ∧ s.2.record? ref = w.record? ref := by
        rcases start?_eq_some hStart with ⟨-, -, rfl⟩ | ⟨-, address, hAt⟩
        · exact ⟨⟨hMonitored.hook, hMonitored.record⟩, rfl⟩
        · obtain ⟨-, rfl⟩ := enterAt?_eq_some hAt
          exact ⟨⟨hMonitored.hook, hMonitored.record⟩, rfl⟩
      obtain ⟨hEnd, hRaised⟩ := hTrail.record hBegins.1
      rw [hBegins.2] at hRaised
      refine ⟨?_, hRaised⟩
      cases pause with
      | returned value => cases entry <;> exact ⟨hEnd.hook, hEnd.record⟩
      | slept delay => exact ⟨hEnd.hook, hEnd.record⟩
      | faulted e => exact hEnd

end Machine

/-! ## Acts of a host -/

/-- The states in which the instructions of an act start. -/
def HostAct.passes (emb : Embedder σ) (w : World σ) : HostAct σ → List (Point σ)
  | executes fuel entry c => states (stepper emb) fuel entry c w
  | idles fuel c =>
    match timerExecution? c w with
    | some (entry, c, w) => states (stepper emb) fuel entry c w
    | none => []
  | elsewhere _ => []

/-- The states that a host's acts pass through. -/
def passed (emb : Embedder σ) : List (HostAct σ) → World σ → List (Point σ)
  | [], _ => []
  | act :: acts, w =>
    act.passes emb w ++
      match act.after? emb w with
      | some w' => passed emb acts w'
      | none => []

theorem timerIdle_record {fuel : Nat} {c : Context} {w : World σ}
    {r : IdleStatus × Context × World σ} (hMonitored : c.Monitored ref)
    (h : timerIdle (exec .plain fuel) c w = some r) :
    r.2.2.record? ref =
      (w.record? ref).map (·.raise ((HostAct.idles fuel c).passes .plain w)) := by
  unfold HostAct.passes
  dsimp only
  rw [timerIdle_eq] at h
  cases hExecution : timerExecution? c w with
  | some x =>
      obtain ⟨_, rest, index, -, -, rfl⟩ := timerExecution?_eq_some hExecution
      rw [hExecution] at h
      obtain ⟨answer, hRun, rfl⟩ := Option.map_eq_some_iff.mp h
      exact (exec_record hMonitored hRun).2
  | none =>
      rw [hExecution] at h
      obtain ⟨status, c', w'⟩ := r
      obtain ⟨rfl, clock, timers, rfl⟩ := timerIdle_rests h
      simp only [Usage.raise_nil, Option.map_id']
      rfl

/-- The states of an act say what becomes of the record. -/
theorem HostAct.record {act : HostAct σ} (hAct : act.On (Context.Monitored ref)) {w w' : World σ}
    (h : act.after? .plain w = some w') :
    w'.record? ref = (w.record? ref).map (·.raise (act.passes .plain w)) := by
  cases act with
  | executes fuel entry c =>
      obtain ⟨r, hExec, rfl⟩ := Option.map_eq_some_iff.mp h
      exact (exec_record hAct hExec).2
  | idles fuel c =>
      obtain ⟨r, hIdle, rfl⟩ := Option.map_eq_some_iff.mp h
      exact timerIdle_record hAct hIdle
  | elsewhere change =>
      cases h
      simp only [passes, Usage.raise_nil, Option.map_id', World.record?]
      rw [hAct w]

/-- **The states that a host's acts pass through say what becomes of the record.** -/
theorem passed_record {acts : List (HostAct σ)}
    (hActs : ∀ act ∈ acts, act.On (Context.Monitored ref)) {w w' : World σ}
    (h : worldAfter? .plain acts w = some w') :
    w'.record? ref = (w.record? ref).map (·.raise (passed .plain acts w)) := by
  induction acts generalizing w with
  | nil =>
      cases h
      simp [passed]
  | cons act acts ih =>
      obtain ⟨hAct, hRest⟩ := List.forall_mem_cons.mp hActs
      obtain ⟨w₁, hAfter, hEnd⟩ := Option.bind_eq_some_iff.mp h
      unfold passed
      rw [hAfter, ih hRest hEnd, HostAct.record hAct hAfter, Option.map_map]
      exact congrArg (Option.map · _) (funext fun u => (u.raise_append _ _).symm)

/-! ## Runs of a session -/

namespace Machine

/-- Executions leave a context monitored. -/
theorem exec_monitored (ref fuel : Nat) :
    (exec (.plain : Embedder σ) fuel).Keeps fun s => s.1.Monitored ref :=
  fun _ _ _ _ _ _ h hMonitored => (exec_record hMonitored h).1

end Machine

namespace Session

/-- The states that a run of a session passes through. -/
def passes (s : Session) (fuel : Nat) : List (Point Unit) :=
  passed .plain (runActs .plain fuel s.driver s.context s.world) s.world

/-- Runs of a session that follow one another, however they end, with the states that they pass
through. -/
inductive Runs : Session → List (Point Unit) → Session → Prop
  | none (s : Session) : Runs s [] s
  | run {s s₁ s₂ : Session} {fuel : Nat} {result : Except Fault RunReport}
      {seen : List (Point Unit)} :
      s.run fuel = some (result, s₁) → Runs s₁ seen s₂ → Runs s (s.passes fuel ++ seen) s₂

/-- High-water marks are kept in a session, and are these. -/
structure Marks (ref : Nat) (u : Usage) (s : Session) : Prop where
  usageRef : s.usageRef = some ref
  monitored : s.context.Monitored ref
  builtIn : s.context.idleFunction? = some .timer
  record : s.world.record? ref = some u

theorem Marks.usage? {u : Usage} {s : Session} (h : s.Marks ref u) : s.usage? = some u := by
  unfold Session.usage? World.usage
  rw [h.usageRef, Option.map_some, Array.getD_eq_getD_getElem?]
  exact congrArg (fun record => some (Option.getD record {})) h.record

/-- A run raises the marks to what was in use at its breaks. -/
theorem Marks.run {u : Usage} {s s' : Session} {fuel : Nat} {result : Except Fault RunReport}
    (h : s.Marks ref u) (hRun : s.run fuel = some (result, s')) :
    s'.Marks ref (u.raise (s.passes fuel)) := by
  obtain ⟨⟨served, d, c, w⟩, hExecute, hEnd⟩ := Option.map_eq_some_iff.mp hRun
  cases hEnd
  have hBuiltIn : ∀ id, s.context.idleFunction? ≠ some (.custom id) := by
    rw [h.builtIn]
    exact nofun
  have hActs := runActs_on (exec_monitored ref fuel) s.driver h.monitored s.world
  have hAfter := worldAfter?_runActs hBuiltIn hExecute
  have hSame : s.context.SameFittings c :=
    execute_keeps (exec_leaves s.context.sameFittings_fitting (Embedder.plain_leaves _) fuel)
      hBuiltIn hExecute .rfl
  exact {
    usageRef := h.usageRef
    monitored := execute_keeps (exec_monitored ref fuel) hBuiltIn hExecute h.monitored
    builtIn := by
      unfold Context.idleFunction?
      rw [hSame.registry]
      exact h.builtIn
    record := by
      rw [passed_record hActs hAfter, h.record]
      rfl }

theorem Runs.marks {u : Usage} {s s' : Session} {seen : List (Point Unit)} (hRuns : s.Runs seen s')
    (h : s.Marks ref u) : s'.Marks ref (u.raise seen) := by
  induction hRuns generalizing u with
  | none s =>
      rw [u.raise_nil]
      exact h
  | run hRun _ ih =>
      rw [u.raise_append]
      exact ih (h.run hRun)

/-- **Main theorem.** After any number of runs, however they ended, the high-water marks of a session
are the largest stack and the largest heap that were in use at the breaks executed since it was made,
each for itself. More runs never lower them. -/
theorem highWater_exact {p : Program} {options : RunOptions} {abort : AbortState} {clock : Clock}
    {image : Option String} {s s' : Session} {seen : List (Point Unit)}
    (hCreate : create p options abort clock = .ok s) (hMonitor : options.monitorStack = true)
    (hRuns : Runs { s with image } seen s') :
    s'.usage? = some {
      stack := highest (·.1.stackUsage) (breaks seen)
      heap := highest (·.1.heapUsage) (breaks seen) } ∧
    ∀ more s'', s'.Runs more s'' → ∃ u u', s'.usage? = some u ∧ s''.usage? = some u' ∧
      u.stack ≤ u'.stack ∧ u.heap ≤ u'.heap := by
  have hBegins := create_begins hCreate
  obtain ⟨ref, hRef, hMonitored, hRecord⟩ := hBegins.monitored hMonitor
  have hMarks : Marks ref {} { s with image } := ⟨hRef, hMonitored, hBegins.idle, hRecord⟩
  have hEnd := hRuns.marks hMarks
  refine ⟨?_, fun more s'' hMore => ?_⟩
  · rw [hEnd.usage?]
    simp [Usage.raise]
  · have hLater := hMore.marks hEnd
    exact ⟨_, _, hEnd.usage?, hLater.usage?, Nat.le_max_left _ _, Nat.le_max_left _ _⟩

/-- A program that pushes a cell, and takes heap when that cell is popped again, with a break after
each. -/
def swelling : Program where
  main := some 8
  code :=
    #[Opcode.halt.toCell, 0, Opcode.pushC.toCell, 5, Opcode.brk.toCell, Opcode.popPri.toCell,
      Opcode.heap.toCell, 12, Opcode.brk.toCell, Opcode.halt.toCell, 0]
  data := #[]

/-- The marks come from different breaks. -/
theorem highWater_exact_swelling :
    ∃ s s', create swelling { memorySize := 64, monitorStack := true } {} .steady = .ok s ∧
      Runs { s with image := s.image } (s.passes 16) s' ∧
      s'.usage? = some { stack := 8, heap := 12 } := by
  have hMarks : ((create swelling { memorySize := 64, monitorStack := true } {}
      .steady).toOption.bind fun s => (s.run 16).map fun _ =>
        (highest (·.1.stackUsage) (breaks (s.passes 16)),
          highest (·.1.heapUsage) (breaks (s.passes 16)))) = some (8, 12) := rfl
  cases hCreate : create swelling { memorySize := 64, monitorStack := true } {} .steady with
  | error e => rw [hCreate] at hMarks; cases hMarks
  | ok s =>
      rw [hCreate, Except.toOption, Option.bind_some] at hMarks
      obtain ⟨⟨result, s'⟩, hRun, hEnd⟩ := Option.map_eq_some_iff.mp hMarks
      obtain ⟨hStack, hHeap⟩ := Prod.mk.inj hEnd
      have hRuns : Runs { s with image := s.image } (s.passes 16 ++ []) s' := .run hRun (.none s')
      rw [List.append_nil] at hRuns
      obtain ⟨hUsage, -⟩ := highWater_exact hCreate rfl hRuns
      rw [hStack, hHeap] at hUsage
      exact ⟨s, s', rfl, hRuns, hUsage⟩

end Session

end CellHost
