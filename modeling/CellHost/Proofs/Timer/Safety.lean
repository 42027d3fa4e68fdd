import CellHost.Proofs.Timer.Events

/-!
# Timers are safe

A host executes contexts, at any entry point, and calls the idle function on contexts; what it does
apart from that, and what its own callbacks do in between, leaves the timer alone. Whatever it does in
which order, on whichever contexts, to an end or not: the timer public is called only under a setting
that stands, an interval after it was made and an interval after it was called last, and once only if
the setting does not repeat; and what was decided last, be it in the timer public itself, is what
holds. Nothing is assumed of the clock, which may even go back.

## Main definitions

* `HostAct` : what a host does.
* `CallbacksSpare` : while a host acts, its callbacks leave a timer alone.
* `timerLog` : what is done with a timer while a host acts.

## Main results

* `timerLog_unfolds` : the log of a host's acts says what becomes of the timer.
* `timer_safe` : all that happens to a timer is allowed by what has happened before.
-/

namespace CellHost

open Machine

variable {σ : Type} {emb : Embedder σ} {ref : Nat} {t : Timer}

/-! ## What was decided last -/

/-- What an event has decided holds of a timer: it is armed as the event has set it, or not at all. -/
def TimerEvent.Holds (e : TimerEvent) (t : Timer) : Prop :=
  match e.setting? with
  | some s => t = Timer.armedAt s.now s.interval s.repeats
  | none => t.due = none

theorem TimerEvent.decides_of_setting? {e : TimerEvent} {s : Setting} (h : e.setting? = some s) :
    e.Decides := by
  cases e with
  | set now ms repeats answer =>
      simp only [setting?] at h
      split at h
      next hPositive => exact Int32.lt_asymm hPositive
      · cases h
  | _ => cases h

/-- A log has only one last decision. -/
theorem last_decision {older older' since since' : List TimerEvent} {e e' : TimerEvent}
    (h : older ++ e :: since = older' ++ e' :: since') (he : e.Decides) (he' : e'.Decides)
    (hSince : ∀ x ∈ since, ¬ x.Decides) (hSince' : ∀ x ∈ since', ¬ x.Decides) :
    e = e' ∧ since = since' := by
  rcases List.append_eq_append_iff.mp h with ⟨middle, -, hMiddle⟩ | ⟨middle, -, hMiddle⟩
  · cases middle with
    | nil => exact List.cons.inj hMiddle
    | cons x middle =>
        obtain ⟨-, rfl⟩ := List.cons.inj hMiddle
        exact absurd he' (hSince e' (List.mem_append_right middle List.mem_cons_self))
  · cases middle with
    | nil =>
        obtain ⟨hEvent, hRest⟩ := List.cons.inj hMiddle
        exact ⟨hEvent.symm, hRest.symm⟩
    | cons x middle =>
        obtain ⟨-, rfl⟩ := List.cons.inj hMiddle
        exact absurd he (hSince' e (List.mem_append_right middle List.mem_cons_self))

/-- **What was decided last holds**, until the timer fires. -/
theorem Reflects.holds {older since : List TimerEvent} {e : TimerEvent}
    (h : Reflects (older ++ e :: since) t) (hDecides : e.Decides)
    (hSince : ∀ x ∈ since, ¬ x.Decides ∧ x.firing? = none) : e.Holds t := by
  have hFirings : firings since = [] :=
    List.filterMap_eq_nil_iff.mpr fun x hx => (hSince x hx).2
  unfold TimerEvent.Holds
  cases hSetting : e.setting? with
  | some s =>
      have hStands : Stands (older ++ e :: since) s since :=
        ⟨⟨older, e, rfl, hSetting⟩, fun x hx => (hSince x hx).1, fun _ => hFirings⟩
      rw [h.armed s since hStands, Setting.timer, Setting.due, hFirings]
      rfl
  | none =>
      refine h.disarmed fun s since' hStands => ?_
      obtain ⟨older', made, hSplit, hMade⟩ := hStands.made
      obtain ⟨rfl, -⟩ := last_decision hSplit hDecides (TimerEvent.decides_of_setting? hMade)
        (fun x hx => (hSince x hx).1) hStands.last
      rw [hSetting] at hMade
      cases hMade

/-! ## Acts of a host -/

/-- What a host does. -/
inductive HostAct (σ : Type) where
  /-- Execute a context. -/
  | executes (fuel : Nat) (entry : EntryPoint) (c : Context)
  /-- Call the idle function on a context. -/
  | idles (fuel : Nat) (c : Context)
  /-- Anything else. -/
  | elsewhere (change : World σ → World σ)

namespace HostAct

/-- What the act does with a timer, as far as its fuel goes. -/
def timerLog (emb : Embedder σ) (ref : Nat) (w : World σ) : HostAct σ → List TimerEvent
  | executes fuel entry c => execLog emb ref fuel entry c w
  | idles fuel c => idleLog emb ref fuel c w
  | elsewhere _ => []

/-- The world after the act, if it comes to an end. -/
def after? (emb : Embedder σ) (w : World σ) : HostAct σ → Option (World σ)
  | executes fuel entry c => (exec emb fuel entry c w).map (·.2.2)
  | idles fuel c => (timerIdle (exec emb fuel) c w).map (·.2.2)
  | elsewhere change => some (change w)

/-- Outside of executions and calls of the idle function, the act leaves a timer alone. -/
def Spares (ref : Nat) : HostAct σ → Prop
  | elsewhere change => ∀ w, (change w).timer? ref = w.timer? ref
  | _ => True

/-- The states in which the instructions of the act start. -/
def visits (emb : Embedder σ) (w : World σ) : HostAct σ → List (Point σ)
  | executes fuel entry c => states (stepper emb) fuel entry c w
  | idles fuel c => idleStates emb fuel c w
  | elsewhere _ => []

/-- The log of an act says what becomes of the timer. -/
theorem unfolds {w : World σ} {act : HostAct σ} (hAct : act.Spares ref)
    (hHost : ∀ s ∈ act.visits emb w, HostSpares emb ref s) (hTimer : w.timer? ref = some t) :
    ∃ t', Unfolds (act.timerLog emb ref w) t t' ∧
      ∀ w', act.after? emb w = some w' → w'.timer? ref = some t' := by
  cases act with
  | executes fuel entry c =>
      obtain ⟨t', hLog, hEnd⟩ := exec_unfolds hHost hTimer
      refine ⟨t', hLog, fun w' h => ?_⟩
      obtain ⟨r, hExec, rfl⟩ := Option.map_eq_some_iff.mp h
      exact hEnd r hExec
  | idles fuel c =>
      obtain ⟨t', hLog, hEnd⟩ := idle_unfolds hHost hTimer
      refine ⟨t', hLog, fun w' h => ?_⟩
      obtain ⟨r, hIdle, rfl⟩ := Option.map_eq_some_iff.mp h
      exact hEnd r hIdle
  | elsewhere change =>
      refine ⟨t, .done t, fun w' h => ?_⟩
      cases h
      exact (hAct w).trans hTimer

end HostAct

/-- What is done with a timer while a host acts; acts that come to no end are the last ones. -/
def timerLog (emb : Embedder σ) (ref : Nat) : List (HostAct σ) → World σ → List TimerEvent
  | [], _ => []
  | act :: acts, w =>
    act.timerLog emb ref w ++
      match act.after? emb w with
      | some w' => timerLog emb ref acts w'
      | none => []

/-- While a host acts, every native and hook of its own leaves a timer alone where it is called. -/
def CallbacksSpare (emb : Embedder σ) (ref : Nat) : List (HostAct σ) → World σ → Prop
  | [], _ => True
  | act :: acts, w =>
    (∀ s ∈ act.visits emb w, HostSpares emb ref s) ∧
      ∀ w', act.after? emb w = some w' → CallbacksSpare emb ref acts w'

theorem callbacksSpare_of_forall (h : ∀ s, HostSpares emb ref s) (acts : List (HostAct σ))
    (w : World σ) : CallbacksSpare emb ref acts w := by
  induction acts generalizing w with
  | nil => trivial
  | cons act acts ih => exact ⟨fun s _ => h s, fun w' _ => ih w'⟩

/-- The world after acts of a host, if they come to an end. -/
def worldAfter? (emb : Embedder σ) : List (HostAct σ) → World σ → Option (World σ)
  | [], w => some w
  | act :: acts, w => (act.after? emb w).bind (worldAfter? emb acts)

/-- **The log of a host's acts says what becomes of the timer.** -/
theorem timerLog_unfolds {acts : List (HostAct σ)} {w : World σ}
    (hActs : ∀ act ∈ acts, act.Spares ref) (hCallbacks : CallbacksSpare emb ref acts w)
    (hTimer : w.timer? ref = some t) :
    ∃ t', Unfolds (timerLog emb ref acts w) t t' ∧
      ∀ w', worldAfter? emb acts w = some w' → w'.timer? ref = some t' := by
  induction acts generalizing w t with
  | nil =>
      refine ⟨t, .done t, fun w' h => ?_⟩
      cases h
      exact hTimer
  | cons act acts ih =>
      obtain ⟨hAct, hRest⟩ := List.forall_mem_cons.mp hActs
      obtain ⟨hHost, hLater⟩ := hCallbacks
      obtain ⟨t₁, hLog, hEnd⟩ := HostAct.unfolds hAct hHost hTimer
      unfold timerLog worldAfter?
      cases hAfter : act.after? emb w with
      | none =>
          refine ⟨t₁, ?_, fun w' h => ?_⟩
          · rw [List.append_nil]
            exact hLog
          · cases h
      | some w₁ =>
          obtain ⟨t', hMore, hLeft⟩ := ih hRest (hLater w₁ hAfter) (hEnd w₁ hAfter)
          exact ⟨t', hLog.append hMore, hLeft⟩

/-- **Timers are safe.** From a timer that is not armed on, whatever a host does: every event of the
timer is allowed by those before it. So the timer public is called only under a setting that stands,
an interval after it was made and after the timer has fired last; `gettimer` tells the setting that
stands; and `settimer` refuses negative intervals, which is a fault that leaves the timer as it was.
The idle function executes what is noted as a call of the timer public, and nothing else. Whenever the
host has finished an act, the timer is as the setting that stands has left it, and not armed if there
is none; and what a call of `settimer` or `killtimer` has decided, in the timer public or elsewhere,
holds until another decides or the timer fires. -/
theorem timer_safe {acts : List (HostAct σ)} {w : World σ} (hActs : ∀ act ∈ acts, act.Spares ref)
    (hCallbacks : CallbacksSpare emb ref acts w) (hTimer : w.timer? ref = some t)
    (hOff : t.due = none) :
    (∀ before e after, timerLog emb ref acts w = before ++ e :: after → e.Allowed before) ∧
    (∀ (s : Point σ) now ms repeats answer, eventAt? ref s = some (.set now ms repeats answer) →
      ms < 0 → ∀ engine, ∃ c' w',
        step emb engine s.1 s.2 = some (.pauses (.faulted .badParameter) c' w') ∧
        w'.timer? ref = s.2.timer? ref) ∧
    (∀ engine c (w : World σ), timerIdle engine c w =
      match timerExecution? c w with
      | some (entry, c₁, w₁) => (engine entry c₁ w₁).map answerOf
      | none => timerIdle (fun _ _ _ => none) c w) ∧
    ∀ w', worldAfter? emb acts w = some w' → ∃ t', w'.timer? ref = some t' ∧
      (∀ s since, Stands (timerLog emb ref acts w) s since → t' = s.timer since) ∧
      ((∀ s since, ¬ Stands (timerLog emb ref acts w) s since) → t'.isArmed = false) ∧
      ∀ older e since, timerLog emb ref acts w = older ++ e :: since → e.Decides →
        (∀ x ∈ since, ¬ x.Decides ∧ x.firing? = none) → e.Holds t' := by
  obtain ⟨t', hLog, hEnd⟩ := timerLog_unfolds hActs hCallbacks hTimer
  obtain ⟨hReflects, hAllowed⟩ := (reflects_nil hOff).unfolds hLog
  rw [List.nil_append] at hReflects
  refine ⟨hAllowed, ?_, timerIdle_eq, ?_⟩
  · intro s now ms repeats answer hEvent hNegative engine
    exact step_of_refused hEvent hNegative engine
  · intro w' hAfter
    refine ⟨t', hEnd w' hAfter, hReflects.armed, fun hNone => ?_, ?_⟩
    · rw [Timer.isArmed, hReflects.disarmed hNone]
      rfl
    · intro older e since hSplit hDecides hSince
      rw [hSplit] at hReflects
      exact hReflects.holds hDecides hSince

/-- A program that sets a repeating timer; its timer public sets the timer to the same interval
again, to fire only once more. -/
def rearming : Program where
  main := some 8
  code :=
    #[Opcode.halt.toCell, 0, Opcode.constPri.toCell, 5, Opcode.constAlt.toCell, 1,
      Opcode.sysreq.toCell, 0, Opcode.halt.toCell, 0, Opcode.sysreq.toCell, 1,
      Opcode.sysreq.toCell, 0, Opcode.halt.toCell, 0]
  publics := [⟨"@timer", 40⟩]
  natives := ["settimer", "gettimer"]

/-- The program in a block of sixteen cells, with a timer. -/
def rearmer : Context where
  program := rearming
  natives := [some .setTimer, some .getTimer]
  layout := ⟨0, 64⟩
  regs := { frm := 64, stk := 64, hea := 0 }
  resetStk := 64
  resetHea := 0
  registry := ⟨[(.timer, .timer 0)]⟩

/-- The world of the program, with a timer that is not armed. -/
def rearmerWorld : World Unit where
  region := { memory := Array.replicate 16 0, objects := { timers := #[{}] } }
  clock := .steady
  host := ()

/-- The program is executed, and after ten milliseconds the idle function is called twice. -/
def rearmerActs : List (HostAct Unit) :=
  [.executes 8 .main rearmer, .elsewhere (·.wait 10000000), .idles 8 rearmer, .idles 8 rearmer]

theorem timerLog_rearmer :
    timerLog .plain 0 rearmerActs rearmerWorld =
      [.set 0 5 true (.ok 0), .run 10001000, .get (.ok 5), .set 10002000 5 false (.ok 0)] := rfl

theorem rearmerActs_spare : ∀ act ∈ rearmerActs, act.Spares 0 :=
  List.forall_mem_cons.mpr ⟨trivial, List.forall_mem_cons.mpr ⟨fun w => timer?_wait w 10000000 0,
    List.forall_mem_cons.mpr ⟨trivial, List.forall_mem_cons.mpr ⟨trivial, nofun⟩⟩⟩⟩

/-- The timer public is called late enough, and finds the interval; the timer is left as the timer
public has set it. -/
theorem timer_safe_rearmer :
    (∀ act ∈ rearmerActs, act.Spares 0) ∧ CallbacksSpare .plain 0 rearmerActs rearmerWorld ∧
    rearmerWorld.timer? 0 = some {} ∧ ({} : Timer).due = none ∧
    (TimerEvent.run 10001000).Allowed [.set 0 5 true (.ok 0)] ∧
    (TimerEvent.get (.ok 5)).Allowed [.set 0 5 true (.ok 0), .run 10001000] ∧
    ∃ w', worldAfter? .plain rearmerActs rearmerWorld = some w' ∧
      w'.timer? 0 = some (Timer.armedAt 10002000 5000000 false) := by
  have hCallbacks : CallbacksSpare .plain 0 rearmerActs rearmerWorld :=
    callbacksSpare_of_forall (hostSpares_plain 0) rearmerActs rearmerWorld
  have hTimer : rearmerWorld.timer? 0 = some {} := rfl
  obtain ⟨hAllowed, -, -, hEnd⟩ := timer_safe rearmerActs_spare hCallbacks hTimer rfl
  rw [timerLog_rearmer] at hAllowed hEnd
  refine ⟨rearmerActs_spare, hCallbacks, hTimer, rfl, hAllowed [_] _ _ rfl,
    hAllowed [_, _] _ _ rfl, ?_⟩
  obtain ⟨w', hAfter⟩ : ∃ w', worldAfter? .plain rearmerActs rearmerWorld = some w' := ⟨_, rfl⟩
  obtain ⟨t', hLeft, -, -, hHolds⟩ := hEnd w' hAfter
  have hSet : (TimerEvent.set 10002000 5 false (.ok 0)).Holds t' :=
    hHolds [_, _, _] _ [] rfl (by decide : ¬ (5 : Cell) < 0) nofun
  have hSetting : (TimerEvent.set 10002000 5 false (.ok 0)).setting? =
      some ⟨10002000, 5, false⟩ := rfl
  rw [TimerEvent.Holds, hSetting] at hSet
  exact ⟨w', hAfter, hLeft.trans (congrArg some hSet)⟩

end CellHost
