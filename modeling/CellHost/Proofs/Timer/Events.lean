import CellHost.Proofs.Driver.Abort
import CellHost.Proofs.Timer.Log

/-!
# What a host does with its timers

Of the instructions of a program only calls of three natives touch a timer, and only the timer that
the context has registered. Outside of programs only the idle function touches it, when it finds the
timer due; it does so before it calls the timer public, so that what the public does with the timer
comes later and stays. So everything that happens to a timer can be noted where it happens: at each
instruction of an execution, and at each call of the idle function, followed by what is noted in the
execution of the timer public. Nothing else is done to the timer, if the host's own callbacks leave
it alone where they are called.

What is noted of an execution does not depend on its result, so that an execution without an end has
its log, too.

## Main definitions

* `Machine.eventAt?` : what an instruction does with a timer.
* `execLog`, `idleLog` : what an execution, and a call of the idle function, do with a timer.
* `Machine.HostSpares` : what an instruction calls back leaves a timer alone.

## Main results

* `exec_unfolds`, `idle_unfolds` : the log says what becomes of the timer.
-/

namespace CellHost

open Machine

variable {σ : Type} {emb : Embedder σ} {ref fuel : Nat} {t : Timer}

/-! ## Timers in worlds -/

/-- The timer with a reference, if there is one. -/
def World.timer? (w : World σ) (ref : Nat) : Option Timer := w.region.objects.timers[ref]?

theorem timer_of_timer? {w : World σ} (h : w.timer? ref = some t) : w.timer ref = t := by
  unfold World.timer? at h
  rw [World.timer, Array.getD_eq_getD_getElem?, h]
  rfl

theorem timer?_setTimer_self {w : World σ} (h : w.timer? ref = some t) (t' : Timer) :
    (w.setTimer ref t').timer? ref = some t' := by
  obtain ⟨hInside, -⟩ := Array.getElem?_eq_some_iff.mp h
  exact Array.getElem?_setIfInBounds_self_of_lt hInside

theorem timer?_setTimer_of_ne {other : Nat} (h : other ≠ ref) (w : World σ) (t' : Timer) :
    (w.setTimer other t').timer? ref = w.timer? ref :=
  Array.getElem?_setIfInBounds_ne h

theorem timer?_beginInstruction (w : World σ) (ref : Nat) :
    w.beginInstruction.timer? ref = w.timer? ref := by
  unfold World.beginInstruction
  dsimp only
  split <;> rfl

theorem timer?_wait (w : World σ) (nanos ref : Nat) : (w.wait nanos).timer? ref = w.timer? ref :=
  rfl

theorem timer?_storeIf (w : World σ) (s : Option Store) (ref : Nat) :
    (w.storeIf s).timer? ref = w.timer? ref := by
  cases s <;> rfl

/-! ## Calls of natives -/

/-- A cell that is not negative is zero or positive, and so is its number. -/
theorem Cell.zero_or_positive {cell : Cell} (h : ¬ cell < 0) :
    (cell = 0 ∧ cell.toNatClampNeg = 0) ∨ (0 < cell ∧ cell.toNatClampNeg ≠ 0) := by
  have hZero : (0 : Cell).toInt = 0 := rfl
  have hNat : cell.toNatClampNeg = cell.toInt.toNat := rfl
  rw [Int32.lt_iff_toInt_lt, hZero] at h
  rw [Int32.lt_iff_toInt_lt, ← Int32.toInt_inj, hZero, hNat]
  omega

/-- What the call of a native does with the timer that a context has registered. -/
def Native.timerEvent? (native : Native) (c : Context) (w : World σ) : Option TimerEvent :=
  match native with
  | .setTimer => some (.set w.readClock.1 c.regs.pri (c.regs.alt != 0) (native.call c w).1)
  | .getTimer => some (.get (native.call c w).1)
  | .killTimer => some (.kill (native.call c w).1)
  | _ => none

theorem withTimer_of_ref {c : Context} (h : c.timerRef? = some ref) (w : World σ)
    (step : Nat → Except MachineError Cell × World σ) : Native.withTimer c w step = step ref := by
  unfold Native.withTimer
  rw [h]

/-- The built-in natives leave every timer alone but the one that the context has registered. -/
theorem call_spares_timer {c : Context} (h : c.timerRef? ≠ some ref) (native : Native)
    (w : World σ) : (native.call c w).2.timer? ref = w.timer? ref := by
  have hOther : ∀ step : Nat → Except MachineError Cell × World σ,
      (∀ other, other ≠ ref → (step other).2.timer? ref = w.timer? ref) →
      (Native.withTimer c w step).2.timer? ref = w.timer? ref := by
    intro step hStep
    unfold Native.withTimer
    split
    · rfl
    next other hRegistered =>
      refine hStep other ?_
      rintro rfl
      exact h hRegistered
  cases native with
  | setTimer =>
      simp only [Native.call, Native.callSetTimer]
      split
      · rfl
      · refine hOther _ fun other hNe => ?_
        split
        · exact timer?_setTimer_of_ne hNe w _
        · exact timer?_setTimer_of_ne hNe w.readClock.2 _
  | getTimer => exact hOther _ fun _ _ => rfl
  | killTimer => exact hOther _ fun other hNe => timer?_setTimer_of_ne hNe w _
  | printChar =>
      simp only [Native.call]
      split <;> rfl
  | delay =>
      simp only [Native.call]
      split
      · exact timer?_wait w _ ref
      · rfl
  | _ => rfl

/-- A call of a built-in native does to the registered timer what is noted of it. -/
theorem call_unfolds {c : Context} {w : World σ} (hRef : c.timerRef? = some ref)
    (hTimer : w.timer? ref = some t) (native : Native) :
    ∃ t', (native.call c w).2.timer? ref = some t' ∧
      Unfolds (native.timerEvent? c w).toList t t' := by
  have hNow : w.timer ref = t := timer_of_timer? hTimer
  cases native with
  | setTimer =>
      simp only [Native.timerEvent?, Native.call, Native.callSetTimer, Cell.toAddress?,
        Option.toList_some]
      by_cases hNegative : c.regs.pri < 0
      · rw [if_pos hNegative]
        exact ⟨t, hTimer, .single (.refused hNegative)⟩
      · rw [if_neg hNegative]
        dsimp only
        rw [withTimer_of_ref hRef]
        rcases Cell.zero_or_positive hNegative with ⟨hZero, hNone⟩ | ⟨hPositive, hSome⟩
        · rw [if_pos hNone, hZero, hNow]
          exact ⟨t.disarm, timer?_setTimer_self hTimer _, .single .stopped⟩
        · have hClock : w.readClock.2.timer? ref = some t := hTimer
          rw [if_neg hSome]
          exact ⟨_, timer?_setTimer_self hClock _, .single (.armed hPositive)⟩
  | getTimer =>
      simp only [Native.timerEvent?, Native.call, withTimer_of_ref hRef, hNow]
      exact ⟨t, hTimer, .single .told⟩
  | killTimer =>
      simp only [Native.timerEvent?, Native.call, withTimer_of_ref hRef, hNow]
      exact ⟨t.disarm, timer?_setTimer_self hTimer _, .single .killed⟩
  | printChar =>
      simp only [Native.timerEvent?, Native.call]
      split
      · exact ⟨t, hTimer, .done t⟩
      · exact ⟨t, hTimer, .done t⟩
  | delay =>
      simp only [Native.timerEvent?, Native.call]
      split
      · exact ⟨t, (timer?_wait w _ ref).trans hTimer, .done t⟩
      · exact ⟨t, hTimer, .done t⟩
  | _ => exact ⟨t, hTimer, .done t⟩

namespace Machine

/-! ## Instructions -/

/-- What the instruction that starts in a state does with a timer: something if it calls a native on
a context that has this timer registered. -/
def eventAt? (ref : Nat) (s : Point σ) : Option TimerEvent :=
  match effectAt s with
  | .native regs index =>
    if s.1.timerRef? = some ref then
      (s.1.native? index).bind fun native =>
        native.timerEvent? { s.1 with regs } s.2.beginInstruction
    else none
  | _ => none

theorem eventAt?_of_native {s : Point σ} {regs : Registers} {index : Cell}
    (h : effectAt s = .native regs index) :
    eventAt? ref s =
      if s.1.timerRef? = some ref then
        (s.1.native? index).bind fun native =>
          native.timerEvent? { s.1 with regs } s.2.beginInstruction
      else none := by
  unfold eventAt?
  rw [h]

/-- The instruction that starts in a state asks the host: it calls a native of the host's own, or it
is a break. -/
def AsksHost (s : Point σ) : Prop :=
  match effectAt s with
  | .native _ index => ∃ id, s.1.native? index = some (.custom id)
  | .checkpoint _ => True
  | _ => False

/-- If the instruction that starts in a state asks the host, it leaves a timer alone: the host does
nothing to the timer, neither itself nor in code that it runs. -/
def HostSpares (emb : Embedder σ) (ref : Nat) (s : Point σ) : Prop :=
  AsksHost s → ∀ p, (stepper emb).Moves s p → p.point.2.timer? ref = s.2.timer? ref

theorem asksHost_of_native {s : Point σ} {regs : Registers} {index : Cell} {id : Nat}
    (h : effectAt s = .native regs index) (hBound : s.1.native? index = some (.custom id)) :
    AsksHost s := by
  unfold AsksHost
  rw [h]
  exact ⟨id, hBound⟩

theorem asksHost_of_checkpoint {s : Point σ} {regs : Registers}
    (h : effectAt s = .checkpoint regs) : AsksHost s := by
  unfold AsksHost
  rw [h]
  trivial

theorem askHook_plain {c c' : Context} {w w' : World σ} {verdict : Checkpoint}
    (h : askHook .plain c w = (verdict, c', w')) : w'.timer? ref = w.timer? ref := by
  unfold askHook at h
  split at h
  · cases h
    rfl
  · cases h
    split <;> rfl
  · cases h
    rfl

/-- A host without callbacks of its own does nothing to a timer. -/
theorem hostSpares_plain (ref : Nat) (s : Point σ) : HostSpares .plain ref s := by
  intro hAsks p ⟨fuel, hStep⟩
  have hBegin := timer?_beginInstruction s.2 ref
  unfold AsksHost at hAsks
  cases stepped_of_step hStep with
  | @native regs index native answer c w hEffect hBound hAnswer =>
      rw [hEffect] at hAsks
      obtain ⟨id, hCustom⟩ := hAsks
      obtain rfl : native = .custom id := Option.some.inj (hBound.symm.trans hCustom)
      cases hAnswer
      exact hBegin
  | proceed _ hAsk => exact (askHook_plain hAsk).trans hBegin
  | abort _ hAsk => exact (askHook_plain hAsk).trans hBegin
  | next hEffect => rw [hEffect] at hAsks; exact hAsks.elim
  | halt hEffect => rw [hEffect] at hAsks; exact hAsks.elim
  | sleep hEffect => rw [hEffect] at hAsks; exact hAsks.elim
  | fault hEffect => rw [hEffect] at hAsks; exact hAsks.elim
  | unbound _ _ => exact hBegin

/-- An instruction that calls no native leaves every timer alone. -/
theorem step_spares_timer {s : Point σ} {p : Progress σ} (hHost : HostSpares emb ref s)
    (hQuiet : ∀ regs index, effectAt s = .native regs index → s.1.native? index = none)
    (h : (stepper emb).Moves s p) : p.point.2.timer? ref = s.2.timer? ref := by
  have hBegin := timer?_beginInstruction s.2 ref
  obtain ⟨fuel, hStep⟩ := h
  cases stepped_of_step hStep with
  | next _ => exact (timer?_storeIf _ _ ref).trans hBegin
  | halt _ => exact hBegin
  | sleep _ => exact hBegin
  | fault _ => exact hBegin
  | unbound _ _ => exact hBegin
  | native hEffect hBound _ =>
      rw [hQuiet _ _ hEffect] at hBound
      cases hBound
  | proceed hEffect _ => exact hHost (asksHost_of_checkpoint hEffect) _ ⟨fuel, hStep⟩
  | abort hEffect _ => exact hHost (asksHost_of_checkpoint hEffect) _ ⟨fuel, hStep⟩

/-- An instruction that calls a native that is bound goes where the native's answer leads. -/
theorem step_of_native {engine : Engine σ} {s : Point σ} {regs : Registers} {index : Cell}
    {native : Native} (hEffect : effectAt s = .native regs index)
    (hBound : s.1.native? index = some native) :
    step emb engine s.1 s.2 =
      (nativeAnswer emb engine native { s.1 with regs } s.2.beginInstruction).map
        fun (answer, c, w) => afterNative s.1.regs.cip answer c w := by
  have hNative : ({ s.1 with regs } : Context).native? index = some native := hBound
  unfold effectAt at hEffect
  unfold step
  dsimp only
  rw [hEffect]
  dsimp only
  rw [callNative_eq, hNative]

/-- An instruction that calls a native does to a timer what the built-in meaning of the native does;
natives of the host have none, and leave it alone. -/
theorem step_timer?_of_native {s : Point σ} {p : Progress σ} {regs : Registers} {index : Cell}
    {native : Native} (hHost : HostSpares emb ref s) (hEffect : effectAt s = .native regs index)
    (hBound : s.1.native? index = some native) (h : (stepper emb).Moves s p) :
    p.point.2.timer? ref =
      (native.call { s.1 with regs } s.2.beginInstruction).2.timer? ref := by
  by_cases hCustom : ∃ id, native = .custom id
  · obtain ⟨id, rfl⟩ := hCustom
    have hSpared := hHost (asksHost_of_native hEffect hBound) p h
    exact hSpared.trans (timer?_beginInstruction s.2 ref).symm
  · obtain ⟨fuel, hStep⟩ := h
    unfold stepper at hStep
    rw [step_of_native hEffect hBound] at hStep
    obtain ⟨⟨answer, c, w⟩, hAnswer, rfl⟩ := Option.map_eq_some_iff.mp hStep
    have hLeft : (afterNative s.1.regs.cip answer c w).point.2 = w := by cases answer <;> rfl
    rw [hLeft]
    unfold nativeAnswer at hAnswer
    split at hAnswer
    next id => exact absurd ⟨id, rfl⟩ hCustom
    next => exact (congrArg (fun r => r.2.2.timer? ref) (Option.some.inj hAnswer)).symm

/-- A call of `settimer` with a negative interval is a fault, and leaves the timer alone. -/
theorem step_of_refused {s : Point σ} {now : Nat} {ms : Cell} {repeats : Bool}
    {answer : Except MachineError Cell} (h : eventAt? ref s = some (.set now ms repeats answer))
    (hNegative : ms < 0) (engine : Engine σ) :
    ∃ c w, step emb engine s.1 s.2 = some (.pauses (.faulted .badParameter) c w) ∧
      w.timer? ref = s.2.timer? ref := by
  unfold eventAt? at h
  split at h
  next regs index hEffect =>
    split at h
    · obtain ⟨native, hBound, hEvent⟩ := Option.bind_eq_some_iff.mp h
      cases native with
      | setTimer =>
          cases hEvent
          have hRefused : Native.setTimer.call { s.1 with regs } s.2.beginInstruction =
              (.error .badParameter, s.2.beginInstruction) := by
            unfold Native.call Native.callSetTimer Cell.toAddress?
            rw [if_pos hNegative]
          rw [step_of_native hEffect hBound, nativeAnswer, hRefused]
          · exact ⟨_, _, rfl, timer?_beginInstruction s.2 ref⟩
          · exact nofun
      | _ => cases hEvent
    · cases h
  · cases h

/-- **What is noted of an instruction is what it does to the timer.** The note is there also of an
instruction that comes to no end. -/
theorem eventAt?_unfolds {s : Point σ} (hHost : HostSpares emb ref s)
    (hTimer : s.2.timer? ref = some t) :
    ∃ t', Unfolds (eventAt? ref s).toList t t' ∧
      ∀ p, (stepper emb).Moves s p → p.point.2.timer? ref = some t' := by
  have hBegin : s.2.beginInstruction.timer? ref = some t :=
    (timer?_beginInstruction s.2 ref).trans hTimer
  by_cases hQuiet : ∀ regs index, effectAt s = .native regs index → s.1.native? index = none
  · have hNone : eventAt? ref s = none := by
      unfold eventAt?
      split
      next regs index hEffect =>
        rw [hQuiet regs index hEffect]
        exact ite_self none
      · rfl
    rw [hNone]
    exact ⟨t, .done t, fun p h => (step_spares_timer hHost hQuiet h).trans hTimer⟩
  · simp only [Classical.not_forall] at hQuiet
    obtain ⟨regs, index, hEffect, hSome⟩ := hQuiet
    obtain ⟨native, hBound⟩ := Option.ne_none_iff_exists'.mp hSome
    rw [eventAt?_of_native hEffect, hBound]
    by_cases hRef : s.1.timerRef? = some ref
    · obtain ⟨t', hCalled, hUnfolds⟩ :=
        call_unfolds (c := { s.1 with regs }) hRef hBegin native
      rw [if_pos hRef]
      exact ⟨t', hUnfolds, fun p h =>
        (step_timer?_of_native hHost hEffect hBound h).trans hCalled⟩
    · have hSpared := call_spares_timer (c := { s.1 with regs }) hRef native s.2.beginInstruction
      rw [if_neg hRef]
      exact ⟨t, .done t, fun p h =>
        ((step_timer?_of_native hHost hEffect hBound h).trans hSpared).trans hBegin⟩

/-! ## Executions -/

/-- The first of the states that a run visits is the one in which it starts. -/
theorem mem_visited (fuel : Nat) (s : Point σ) : s ∈ visited (stepper emb) (fuel + 1) s := by
  unfold visited
  split <;> exact List.mem_cons_self

/-- **The notes of a run are what it does to the timer**, as far as it goes. The induction is on the
fuel, along the states that the run visits. -/
theorem visited_unfolds (fuel : Nat) {s : Point σ}
    (hHost : ∀ u ∈ visited (stepper emb) fuel s, HostSpares emb ref u)
    (hTimer : s.2.timer? ref = some t) :
    ∃ t', Unfolds ((visited (stepper emb) fuel s).filterMap (eventAt? ref)) t t' ∧
      ∀ r, runWith (stepper emb) fuel s.1 s.2 = some r → r.2.2.timer? ref = some t' := by
  induction fuel generalizing s t with
  | zero =>
      refine ⟨t, .done t, fun r h => ?_⟩
      cases h
  | succ fuel ih =>
      obtain ⟨t₁, hEvent, hStep⟩ := eventAt?_unfolds (hHost s (mem_visited fuel s)) hTimer
      have hLast : [s].filterMap (eventAt? ref) = (eventAt? ref s).toList := by
        cases h : eventAt? ref s <;> simp [h]
      unfold visited at hHost
      unfold visited runWith
      cases hMove : stepper emb fuel s with
      | none =>
          dsimp only
          rw [hLast]
          refine ⟨t₁, hEvent, fun r h => ?_⟩
          cases h
      | some p =>
          have hNext := hStep p ⟨fuel, hMove⟩
          cases p with
          | pauses pause c w =>
              dsimp only
              rw [hLast]
              refine ⟨t₁, hEvent, ?_⟩
              rintro _ ⟨⟩
              exact hNext
          | continues c w =>
              rw [hMove] at hHost
              obtain ⟨t', hRest, hEnd⟩ := ih (List.forall_mem_cons.mp hHost).2 hNext
              have hLog := hEvent.append hRest
              rw [← hLast, ← List.filterMap_append] at hLog
              exact ⟨t', hLog, hEnd⟩

theorem start?_spares_timer {entry : EntryPoint} {c : Context} {w : World σ} {s : Point σ}
    (h : start? entry c w = some s) : s.2.timer? ref = w.timer? ref := by
  rcases start?_eq_some h with ⟨-, -, rfl⟩ | ⟨-, address, hAt⟩
  · rfl
  · obtain ⟨-, rfl⟩ := enterAt?_eq_some hAt
    rfl

end Machine

/-- What an execution does with a timer, as far as its fuel goes. -/
def execLog (emb : Embedder σ) (ref fuel : Nat) (entry : EntryPoint) (c : Context) (w : World σ) :
    List TimerEvent :=
  (states (stepper emb) fuel entry c w).filterMap (eventAt? ref)

/-- **The log of an execution says what becomes of the timer.** -/
theorem exec_unfolds {fuel : Nat} {entry : EntryPoint} {c : Context} {w : World σ}
    (hHost : ∀ s ∈ states (stepper emb) fuel entry c w, HostSpares emb ref s)
    (hTimer : w.timer? ref = some t) :
    ∃ t', Unfolds (execLog emb ref fuel entry c w) t t' ∧
      ∀ r, exec emb fuel entry c w = some r → r.2.2.timer? ref = some t' := by
  unfold states at hHost
  unfold execLog states
  cases hStart : start? entry c w with
  | none =>
      refine ⟨t, .done t, fun r h => ?_⟩
      cases (execWith_of_refusal hStart).symm.trans h
      exact hTimer
  | some s =>
      rw [hStart] at hHost
      obtain ⟨t', hLog, hEnd⟩ :=
        visited_unfolds fuel hHost ((start?_spares_timer hStart).trans hTimer)
      refine ⟨t', hLog, fun r h => ?_⟩
      obtain ⟨r, hRun, rfl⟩ := (execWith_eq_some hStart).mp h
      rw [run_eq_runWith] at hRun
      exact hEnd r hRun

/-! ## The idle function -/

/-- What a call of the idle function does with a timer. If the timer public is called, that is noted
with the reading at which it is, and then what is noted of its execution. -/
def idleLog (emb : Embedder σ) (ref fuel : Nat) (c : Context) (w : World σ) : List TimerEvent :=
  match timerExecution? c w with
  | some (entry, c₁, w₁) =>
    (if c.timerRef? = some ref then [.run w.readClock.1] else [])
      ++ execLog emb ref fuel entry c₁ w₁
  | none =>
    if c.timerRef? = some ref ∧ ((w.timer ref).fire? w.readClock.1).isSome then
      [.miss w.readClock.1]
    else []

/-- The states in which the instructions of a call of the idle function start: those of the execution
of the timer public, if it is called. -/
def idleStates (emb : Embedder σ) (fuel : Nat) (c : Context) (w : World σ) : List (Point σ) :=
  match timerExecution? c w with
  | some (entry, c₁, w₁) => states (stepper emb) fuel entry c₁ w₁
  | none => []

/-- Where a timer is found due and nothing is executed, there is no timer public. -/
theorem findPublic?_of_miss {c : Context} {w : World σ} {other : Nat} {rest : Timer}
    (hRef : c.timerRef? = some other) (hFire : (w.timer other).fire? w.readClock.1 = some rest)
    (hNone : timerExecution? c w = none) : c.program.findPublic? timerPublic = none := by
  have hClock : (w.readClock.2.timer other).fire? w.readClock.1 = some rest := hFire
  cases hFound : c.program.findPublic? timerPublic with
  | none => rfl
  | some index =>
      unfold timerExecution? at hNone
      rw [hRef] at hNone
      dsimp only at hNone
      rw [hClock, hFound] at hNone
      cases hNone

/-- A timer that is found due has fired, also where there is no timer public to call. -/
theorem timerIdle_of_miss {engine : Engine σ} {c : Context} {w : World σ} {other : Nat}
    {rest : Timer} (hRef : c.timerRef? = some other)
    (hFire : (w.timer other).fire? w.readClock.1 = some rest)
    (hNone : timerExecution? c w = none) :
    timerIdle engine c w = some (.failed .notFound, c, w.readClock.2.setTimer other rest) := by
  have hClock : (w.readClock.2.timer other).fire? w.readClock.1 = some rest := hFire
  have hFires : ((w.readClock.2.timer other).fire? w.readClock.1).isSome := by rw [hClock]; rfl
  obtain ⟨due, hDue, -⟩ := (Timer.fire?_isSome_iff _ _).mp hFires
  have hPublic := findPublic?_of_miss hRef hFire hNone
  unfold timerIdle
  rw [hRef]
  dsimp only
  rw [hDue]
  dsimp only
  rw [hClock]
  dsimp only
  unfold callTimerPublic
  rw [hPublic]

/-- A call of the idle function that finds no timer due leaves all timers alone. -/
theorem timerIdle_spares_timer {engine : Engine σ} {c : Context} {w : World σ}
    {r : IdleStatus × Context × World σ}
    (hRests : ∀ other, c.timerRef? = some other → (w.timer other).fire? w.readClock.1 = none)
    (h : timerIdle engine c w = some r) : r.2.2.timer? ref = w.timer? ref := by
  unfold timerIdle at h
  split at h
  · cases h
    rfl
  next other hRef =>
    have hClock : (w.readClock.2.timer other).fire? w.readClock.1 = none := hRests other hRef
    dsimp only at h
    rw [hClock] at h
    split at h
    · split at h
      all_goals
        cases h
        rfl
    · cases h
      rfl

/-- A timer that fires changes as is noted of its own firing, and no other timer changes. -/
theorem fired_unfolds {c : Context} {w : World σ} {other : Nat} {rest : Timer} {e : TimerEvent}
    (hTimer : w.timer? ref = some t) (hRef : c.timerRef? = some other)
    (hFire : (w.timer other).fire? w.readClock.1 = some rest)
    (hEvent : ∀ t', t.fire? w.readClock.1 = some t' → e.Changes t t') :
    ∃ t', (w.readClock.2.setTimer other rest).timer? ref = some t' ∧
      Unfolds (if c.timerRef? = some ref then [e] else []) t t' := by
  have hClock : w.readClock.2.timer? ref = some t := hTimer
  rw [hRef]
  by_cases hSame : other = ref
  · subst hSame
    rw [timer_of_timer? hTimer] at hFire
    rw [if_pos rfl]
    exact ⟨rest, timer?_setTimer_self hClock rest, .single (hEvent rest hFire)⟩
  · have hOther : (w.readClock.2.setTimer other rest).timer? ref = some t :=
      (timer?_setTimer_of_ne hSame _ rest).trans hClock
    rw [if_neg fun hEq => hSame (Option.some.inj hEq)]
    exact ⟨t, hOther, .done t⟩

/-- **The log of a call of the idle function says what becomes of the timer.** -/
theorem idle_unfolds {fuel : Nat} {c : Context} {w : World σ}
    (hHost : ∀ s ∈ idleStates emb fuel c w, HostSpares emb ref s)
    (hTimer : w.timer? ref = some t) :
    ∃ t', Unfolds (idleLog emb ref fuel c w) t t' ∧
      ∀ r, timerIdle (exec emb fuel) c w = some r → r.2.2.timer? ref = some t' := by
  unfold idleStates at hHost
  unfold idleLog
  cases hExecution : timerExecution? c w with
  | some x =>
      rw [hExecution] at hHost
      obtain ⟨other, rest, index, hRef, hFire, rfl⟩ := timerExecution?_eq_some hExecution
      obtain ⟨t₁, hFired, hRun⟩ := fired_unfolds hTimer hRef hFire fun _ => .ran
      -- the timer has fired before its public is called, so what the public does comes after
      obtain ⟨t', hLog, hEnd⟩ := exec_unfolds hHost hFired
      refine ⟨t', hRun.append hLog, fun r h => ?_⟩
      rw [timerIdle_eq, hExecution] at h
      obtain ⟨answer, hExec, rfl⟩ := Option.map_eq_some_iff.mp h
      exact hEnd answer hExec
  | none =>
      dsimp only
      by_cases hFires : ∃ other, c.timerRef? = some other ∧
          ((w.timer other).fire? w.readClock.1).isSome
      · obtain ⟨other, hRef, hSome⟩ := hFires
        obtain ⟨rest, hFire⟩ := Option.isSome_iff_exists.mp hSome
        obtain ⟨t', hFired, hMiss⟩ := fired_unfolds hTimer hRef hFire fun _ => .missed
        have hLog : (if c.timerRef? = some ref ∧ ((w.timer ref).fire? w.readClock.1).isSome then
            [TimerEvent.miss w.readClock.1] else []) =
            if c.timerRef? = some ref then [.miss w.readClock.1] else [] := by
          by_cases hSame : c.timerRef? = some ref
          · obtain rfl : other = ref := Option.some.inj (hRef.symm.trans hSame)
            rw [if_pos ⟨hRef, hSome⟩, if_pos hRef]
          · rw [if_neg fun h => hSame h.1, if_neg hSame]
        rw [hLog]
        refine ⟨t', hMiss, fun r h => ?_⟩
        rw [timerIdle_of_miss hRef hFire hExecution] at h
        cases h
        exact hFired
      · rw [if_neg fun h => hFires ⟨ref, h⟩]
        refine ⟨t, .done t, fun r h => ?_⟩
        have hRests : ∀ other, c.timerRef? = some other →
            (w.timer other).fire? w.readClock.1 = none := by
          intro other hRef
          exact Option.not_isSome_iff_eq_none.mp fun hSome => hFires ⟨other, hRef, hSome⟩
        exact (timerIdle_spares_timer hRests h).trans hTimer

end CellHost
