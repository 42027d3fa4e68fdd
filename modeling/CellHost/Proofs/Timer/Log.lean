import CellHost.Cell
import CellHost.MachineError
import CellHost.Timer

/-!
# Logs of a timer

What is done with a timer is noted in a log: the calls of `settimer`, `gettimer` and `killtimer` with
their answers, and the readings at which it fires. What a log may look like can be said of the log
alone. Of all that was done only one thing matters, the *setting* that stands: the last call that set
the timer to an interval, if no later call has set it to none, and if it has not fired since or
repeats. A timer whose every event does to it what the operations on timers do writes no other logs,
and is itself at any moment what its log says.

## Main definitions

* `TimerEvent`, `Stands` : what is noted, and the setting that stands at the end of a log.
* `TimerEvent.Allowed` : what may come next in a log.
* `TimerEvent.Changes`, `Unfolds` : what events do to a timer.
* `Reflects` : a timer is what its log says.

## Main results

* `Reflects.step` : an event that changes a timer as it should was allowed, and is reflected.
* `Reflects.unfolds` : so are all events of a log.
-/

namespace CellHost

/-- What is done with a timer. -/
inductive TimerEvent where
  /-- A call of `settimer` at a reading of the clock. -/
  | set (now : Nat) (ms : Cell) (repeats : Bool) (answer : Except MachineError Cell)
  /-- A call of `gettimer`. -/
  | get (answer : Except MachineError Cell)
  /-- A call of `killtimer`. -/
  | kill (answer : Except MachineError Cell)
  /-- The timer is found due at a reading, and the timer public is called. -/
  | run (now : Nat)
  /-- The timer is found due at a reading, and the program has no timer public. -/
  | miss (now : Nat)

/-- An interval in milliseconds that a timer was set to, and when. -/
structure Setting where
  now : Nat
  ms : Cell
  repeats : Bool
  deriving DecidableEq, Repr, Inhabited

namespace TimerEvent

/-- What the event sets the timer to, if that is an interval. -/
def setting? : TimerEvent → Option Setting
  | set now ms repeats _ => if 0 < ms then some ⟨now, ms, repeats⟩ else none
  | _ => none

/-- Whether the event decides what the timer is to do: a call of `killtimer`, or of `settimer` with an
argument that it accepts. -/
def Decides : TimerEvent → Prop
  | set _ ms _ _ => ¬ ms < 0
  | kill _ => True
  | _ => False

/-- The reading at which the event fires the timer, if it does. -/
def firing? : TimerEvent → Option Nat
  | run now => some now
  | miss now => some now
  | _ => none

end TimerEvent

/-- The readings at which a timer fires in a log. -/
def firings (log : List TimerEvent) : List Nat := log.filterMap TimerEvent.firing?

namespace Setting

/-- The interval in nanoseconds. -/
def interval (s : Setting) : Nat := s.ms.toNatClampNeg * nanosPerMilli

/-- When the timer is due: an interval after it was set, or after it has fired last. -/
def due (s : Setting) (since : List TimerEvent) : Nat :=
  (firings since).getLast?.getD s.now + s.interval

/-- The timer as it is after what has happened since it was set. -/
def timer (s : Setting) (since : List TimerEvent) : Timer where
  interval := s.interval
  repeats := s.repeats
  due := some (s.due since)

theorem timer_nil (s : Setting) : s.timer [] = Timer.armedAt s.now s.interval s.repeats := rfl

end Setting

/-- The setting that stands at the end of a log, and what has happened since: nothing was decided
after it, and the timer has not fired after it unless it repeats. -/
structure Stands (log : List TimerEvent) (s : Setting) (since : List TimerEvent) : Prop where
  made : ∃ older e, log = older ++ e :: since ∧ e.setting? = some s
  last : ∀ e ∈ since, ¬ e.Decides
  unused : s.repeats = false → firings since = []

/-- What may come next in a log. Arguments of `settimer` are refused if they are negative; `gettimer`
answers the milliseconds of the setting that stands, or zero; and the timer fires only under a setting
that stands, an interval after it was made, and an interval after the timer has fired under it. -/
def TimerEvent.Allowed (log : List TimerEvent) : TimerEvent → Prop
  | set _ ms _ answer => answer = if ms < 0 then .error .badParameter else .ok 0
  | get answer =>
    (∃ s since, Stands log s since ∧ answer = .ok s.ms) ∨
      (∀ s since, ¬ Stands log s since) ∧ answer = .ok 0
  | kill answer => answer = .ok 0
  | run now | miss now =>
    ∃ s since, Stands log s since ∧ s.now + s.interval ≤ now ∧
      ∀ earlier ∈ firings since, earlier + s.interval ≤ now

theorem TimerEvent.setting?_pos {e : TimerEvent} {s : Setting} (h : e.setting? = some s) :
    0 < s.ms := by
  cases e with
  | set now ms repeats answer =>
      simp only [setting?] at h
      split at h
      next hPositive =>
        cases h
        exact hPositive
      · cases h
  | _ => cases h

/-! ## What stands after one more event -/

theorem firings_concat (log : List TimerEvent) (e : TimerEvent) :
    firings (log ++ [e]) = firings log ++ e.firing?.toList := by
  rw [firings, List.filterMap_append]
  cases h : e.firing? <;> simp [firings, h]

theorem not_stands_nil (s : Setting) (since : List TimerEvent) : ¬ Stands [] s since := by
  rintro ⟨⟨older, e, hSplit, -⟩, -, -⟩
  cases older <;> cases hSplit

/-- A setting stands after one more event if the event makes it, or if it stood before and the event
neither decides anything nor uses it up. -/
theorem stands_concat {log since : List TimerEvent} {e : TimerEvent} {s : Setting} :
    Stands (log ++ [e]) s since ↔
      (since = [] ∧ e.setting? = some s) ∨
      ∃ before, since = before ++ [e] ∧ Stands log s before ∧ ¬ e.Decides ∧
        (s.repeats = false → e.firing? = none) := by
  constructor
  · rintro ⟨⟨older, made, hSplit, hMade⟩, hLast, hUnused⟩
    rcases List.eq_nil_or_concat since with rfl | ⟨before, final, rfl⟩
    · obtain ⟨-, hSame⟩ := List.append_inj' hSplit rfl
      cases hSame
      exact .inl ⟨rfl, hMade⟩
    · rw [List.concat_eq_append] at hSplit hLast hUnused ⊢
      rw [← List.cons_append, ← List.append_assoc] at hSplit
      obtain ⟨rfl, hSame⟩ := List.append_inj' hSplit rfl
      cases hSame
      obtain ⟨hBefore, hFinal⟩ := List.forall_mem_append.mp hLast
      have hUsed : s.repeats = false → firings before = [] ∧ e.firing? = none := by
        intro hOnce
        have hNone := hUnused hOnce
        rw [firings_concat, List.append_eq_nil_iff, Option.toList_eq_nil_iff] at hNone
        exact hNone
      exact .inr ⟨before, rfl, ⟨⟨older, made, rfl, hMade⟩, hBefore, fun hOnce => (hUsed hOnce).1⟩,
        hFinal e List.mem_cons_self, fun hOnce => (hUsed hOnce).2⟩
  · rintro (⟨rfl, hMade⟩ | ⟨before, rfl, hBefore, hKeeps, hFires⟩)
    · exact ⟨⟨log, e, rfl, hMade⟩, nofun, fun _ => rfl⟩
    · obtain ⟨⟨older, made, rfl, hMade⟩, hLast, hUnused⟩ := hBefore
      refine ⟨⟨older, made, by simp, hMade⟩, ?_, fun hOnce => ?_⟩
      · refine List.forall_mem_append.mpr ⟨hLast, fun final hFinal => ?_⟩
        rw [List.mem_singleton.mp hFinal]
        exact hKeeps
      · rw [firings_concat, hUnused hOnce, hFires hOnce]
        rfl

/-! ## Timers and their logs -/

/-- What an event does to a timer. -/
inductive TimerEvent.Changes : TimerEvent → Timer → Timer → Prop
  | refused {now : Nat} {ms : Cell} {repeats : Bool} {t : Timer} :
      ms < 0 → Changes (.set now ms repeats (.error .badParameter)) t t
  | stopped {now : Nat} {repeats : Bool} {t : Timer} :
      Changes (.set now 0 repeats (.ok 0)) t t.disarm
  | armed {now : Nat} {ms : Cell} {repeats : Bool} {t : Timer} :
      0 < ms →
      Changes (.set now ms repeats (.ok 0)) t
        (Timer.armedAt now (ms.toNatClampNeg * nanosPerMilli) repeats)
  | told {t : Timer} :
      Changes (.get (.ok (Cell.ofAddress (t.interval?.getD 0 / nanosPerMilli)))) t t
  | killed {t : Timer} : Changes (.kill (.ok 0)) t t.disarm
  | ran {now : Nat} {t t' : Timer} : t.fire? now = some t' → Changes (.run now) t t'
  | missed {now : Nat} {t t' : Timer} : t.fire? now = some t' → Changes (.miss now) t t'

/-- What the events of a log do to a timer. -/
inductive Unfolds : List TimerEvent → Timer → Timer → Prop
  | done (t : Timer) : Unfolds [] t t
  | next {e : TimerEvent} {log : List TimerEvent} {t t₁ t' : Timer} :
      e.Changes t t₁ → Unfolds log t₁ t' → Unfolds (e :: log) t t'

theorem Unfolds.single {e : TimerEvent} {t t' : Timer} (h : e.Changes t t') : Unfolds [e] t t' :=
  .next h (.done t')

theorem Unfolds.append {log more : List TimerEvent} {t t₁ t' : Timer} (h : Unfolds log t t₁)
    (h' : Unfolds more t₁ t') : Unfolds (log ++ more) t t' := by
  induction h with
  | done t => exact h'
  | next hChanges _ ih => exact .next hChanges (ih h')

/-- A timer is what its log says: armed as the setting that stands has armed it, and not at all if
none stands. It is due an interval after the setting was made, and after every firing since. -/
structure Reflects (log : List TimerEvent) (t : Timer) : Prop where
  armed : ∀ s since, Stands log s since → t = s.timer since
  spaced : ∀ s since, Stands log s since →
    s.now + s.interval ≤ s.due since ∧
      ∀ earlier ∈ firings since, earlier + s.interval ≤ s.due since
  disarmed : (∀ s since, ¬ Stands log s since) → t.due = none

theorem reflects_nil {t : Timer} (h : t.due = none) : Reflects [] t where
  armed s since hStands := absurd hStands (not_stands_nil s since)
  spaced s since hStands := absurd hStands (not_stands_nil s since)
  disarmed _ := h

namespace Reflects

variable {log : List TimerEvent} {t t' : Timer} {e : TimerEvent}

/-- Under a timer that is armed a setting stands. -/
theorem exists_stands (h : Reflects log t) {due : Nat} (hDue : t.due = some due) :
    ∃ s since, Stands log s since := by
  refine Classical.byContradiction fun hNone => ?_
  have hOff := h.disarmed fun s since hStands => hNone ⟨s, since, hStands⟩
  rw [hDue] at hOff
  cases hOff

/-- An event that neither decides nor fires changes nothing. -/
theorem quiet (h : Reflects log t) (hSetting : e.setting? = none) (hDecides : ¬ e.Decides)
    (hFiring : e.firing? = none) : Reflects (log ++ [e]) t := by
  have hBefore : ∀ s since, Stands (log ++ [e]) s since →
      ∃ before, Stands log s before ∧ firings since = firings before := by
    intro s since hStands
    rcases stands_concat.mp hStands with ⟨-, hMade⟩ | ⟨before, rfl, hBefore, -, -⟩
    · rw [hSetting] at hMade
      cases hMade
    · refine ⟨before, hBefore, ?_⟩
      rw [firings_concat, hFiring]
      exact List.append_nil _
  refine ⟨fun s since hStands => ?_, fun s since hStands => ?_, fun hNone => ?_⟩
  · obtain ⟨before, hStood, hFirings⟩ := hBefore s since hStands
    rw [h.armed s before hStood, Setting.timer, Setting.timer, Setting.due, Setting.due, hFirings]
  · obtain ⟨before, hStood, hFirings⟩ := hBefore s since hStands
    rw [Setting.due, hFirings]
    exact h.spaced s before hStood
  · refine h.disarmed fun s since hStood => hNone s (since ++ [e]) ?_
    exact stands_concat.mpr (.inr ⟨since, rfl, hStood, hDecides, fun _ => hFiring⟩)

/-- After an event that takes the timer out of action nothing stands. -/
theorem stop (hSetting : e.setting? = none) (hDecides : e.Decides) (hDue : t.due = none) :
    Reflects (log ++ [e]) t := by
  have hNone : ∀ s since, ¬ Stands (log ++ [e]) s since := by
    intro s since hStands
    rcases stands_concat.mp hStands with ⟨-, hMade⟩ | ⟨before, rfl, -, hKeeps, -⟩
    · rw [hSetting] at hMade
      cases hMade
    · exact hKeeps hDecides
  exact ⟨fun s since hStands => absurd hStands (hNone s since),
    fun s since hStands => absurd hStands (hNone s since), fun _ => hDue⟩

/-- After an event that sets the timer to an interval this setting stands. -/
theorem arm {s : Setting} (hSetting : e.setting? = some s) (hDecides : e.Decides) :
    Reflects (log ++ [e]) (s.timer []) := by
  have hOnly : ∀ s' since, Stands (log ++ [e]) s' since → s' = s ∧ since = [] := by
    intro s' since hStands
    rcases stands_concat.mp hStands with ⟨hSince, hMade⟩ | ⟨before, rfl, -, hKeeps, -⟩
    · exact ⟨Option.some.inj (hMade.symm.trans hSetting), hSince⟩
    · exact absurd hDecides hKeeps
  refine ⟨fun s' since hStands => ?_, fun s' since hStands => ?_, fun hNone => ?_⟩
  · obtain ⟨rfl, rfl⟩ := hOnly s' since hStands
    rfl
  · obtain ⟨rfl, rfl⟩ := hOnly s' since hStands
    exact ⟨Nat.le_refl _, nofun⟩
  · exact absurd (stands_concat.mpr (.inl ⟨rfl, hSetting⟩)) (hNone s [])

/-- The timer fires under a setting that stands, when it is due. -/
theorem allowed_fire (h : Reflects log t) {now : Nat} (hFire : t.fire? now = some t') :
    ∃ s since, Stands log s since ∧ s.now + s.interval ≤ now ∧
      ∀ earlier ∈ firings since, earlier + s.interval ≤ now := by
  have hFires : (t.fire? now).isSome := by rw [hFire]; rfl
  obtain ⟨due, hDue, hReached⟩ := (Timer.fire?_isSome_iff t now).mp hFires
  obtain ⟨s, since, hStands⟩ := h.exists_stands hDue
  have hSame : s.due since = due := by
    rw [h.armed s since hStands] at hDue
    exact Option.some.inj hDue
  obtain ⟨hMade, hFired⟩ := h.spaced s since hStands
  rw [hSame] at hMade hFired
  exact ⟨s, since, hStands, Nat.le_trans hMade hReached,
    fun earlier hEarlier => Nat.le_trans (hFired earlier hEarlier) hReached⟩

/-- A timer that has fired is due an interval later if it repeats, and is used up if not. -/
theorem fire (h : Reflects log t) {now : Nat} (hFiring : e.firing? = some now)
    (hSetting : e.setting? = none) (hDecides : ¬ e.Decides) (hFire : t.fire? now = some t') :
    Reflects (log ++ [e]) t' := by
  have hFires : (t.fire? now).isSome := by rw [hFire]; rfl
  obtain ⟨due, hDue, hReached⟩ := (Timer.fire?_isSome_iff t now).mp hFires
  have hLeft : t' = { t with due := if t.repeats then some (now + t.interval) else none } := by
    unfold Timer.fire? at hFire
    rw [hDue] at hFire
    dsimp only at hFire
    rw [if_pos hReached] at hFire
    exact (Option.some.inj hFire).symm
  have hBefore : ∀ s since, Stands (log ++ [e]) s since →
      ∃ before, Stands log s before ∧ s.repeats = true ∧
        firings since = firings before ++ [now] := by
    intro s since hStands
    rcases stands_concat.mp hStands with ⟨-, hMade⟩ | ⟨before, rfl, hStood, -, hUnused⟩
    · rw [hSetting] at hMade
      cases hMade
    · refine ⟨before, hStood, ?_, ?_⟩
      · cases hRepeats : s.repeats with
        | true => rfl
        | false =>
            rw [hUnused hRepeats] at hFiring
            cases hFiring
      · rw [firings_concat, hFiring]
        rfl
  have hDueAfter : ∀ (s : Setting) since before, firings since = firings before ++ [now] →
      s.due since = now + s.interval := by
    intro s since before hFirings
    rw [Setting.due, hFirings, List.getLast?_concat]
    rfl
  refine ⟨fun s since hStands => ?_, fun s since hStands => ?_, fun hNone => ?_⟩
  · obtain ⟨before, hStood, hRepeats, hFirings⟩ := hBefore s since hStands
    rw [hLeft, h.armed s before hStood, Setting.timer, Setting.timer,
      hDueAfter s since before hFirings]
    dsimp only
    rw [if_pos hRepeats]
  · obtain ⟨before, hStood, -, hFirings⟩ := hBefore s since hStands
    obtain ⟨hMade, hFired⟩ := h.spaced s before hStood
    have hSame : s.due before = due := by
      rw [h.armed s before hStood] at hDue
      exact Option.some.inj hDue
    rw [hDueAfter s since before hFirings, hFirings]
    refine ⟨by omega, fun earlier hEarlier => ?_⟩
    rcases List.mem_append.mp hEarlier with hOld | hNew
    · have := hFired earlier hOld
      omega
    · obtain rfl := List.mem_singleton.mp hNew
      exact Nat.le_refl _
  · obtain ⟨s, since, hStood⟩ := h.exists_stands hDue
    rw [hLeft, h.armed s since hStood, Setting.timer]
    dsimp only
    rw [if_neg]
    intro hRepeats
    have hStill : Stands (log ++ [e]) s (since ++ [e]) :=
      stands_concat.mpr (.inr ⟨since, rfl, hStood, hDecides, fun hOnce => by
        rw [hOnce] at hRepeats
        cases hRepeats⟩)
    exact hNone s (since ++ [e]) hStill

/-- What `gettimer` answers on a timer that is what its log says. -/
theorem allowed_get (h : Reflects log t) :
    (TimerEvent.get (.ok (Cell.ofAddress (t.interval?.getD 0 / nanosPerMilli)))).Allowed log := by
  cases hDue : t.due with
  | some due =>
      obtain ⟨s, since, hStands⟩ := h.exists_stands hDue
      obtain ⟨older, e, -, hMade⟩ := hStands.made
      have hInterval : t.interval?.getD 0 = s.ms.toNatClampNeg * nanosPerMilli := by
        rw [h.armed s since hStands]
        rfl
      refine .inl ⟨s, since, hStands, congrArg Except.ok ?_⟩
      rw [hInterval, Nat.mul_div_cancel _ (by decide)]
      exact Int32.ofNat_toNatClampNeg _ (Int32.le_of_lt (TimerEvent.setting?_pos hMade))
  | none =>
      have hNone : ∀ s since, ¬ Stands log s since := by
        intro s since hStands
        rw [h.armed s since hStands] at hDue
        cases hDue
      have hZero : Cell.ofAddress (0 / nanosPerMilli) = 0 := by decide
      refine .inr ⟨hNone, congrArg Except.ok ?_⟩
      rw [Timer.interval?, hDue]
      exact hZero

/-- **An event that changes a timer as it should was allowed, and is reflected.** -/
theorem step (h : Reflects log t) (hEvent : e.Changes t t') :
    e.Allowed log ∧ Reflects (log ++ [e]) t' := by
  cases hEvent with
  | @refused now ms repeats _ hNegative =>
      have hSetting : (if 0 < ms then some (Setting.mk now ms repeats) else none) = none :=
        if_neg (Int32.lt_asymm hNegative)
      exact ⟨(if_pos hNegative).symm, h.quiet hSetting (fun hDecides => hDecides hNegative) rfl⟩
  | @stopped now repeats _ =>
      have hZero : ¬ (0 : Cell) < 0 := Int32.lt_irrefl
      have hSetting : (if 0 < (0 : Cell) then some (Setting.mk now 0 repeats) else none) = none :=
        if_neg hZero
      exact ⟨(if_neg hZero).symm, stop hSetting hZero rfl⟩
  | @armed now ms repeats _ hPositive =>
      have hDecides : ¬ ms < 0 := Int32.lt_asymm hPositive
      have hSetting : (if 0 < ms then some (Setting.mk now ms repeats) else none) =
          some ⟨now, ms, repeats⟩ := if_pos hPositive
      have hArmed : Reflects (log ++ [.set now ms repeats (.ok 0)])
          ((Setting.mk now ms repeats).timer []) := arm hSetting hDecides
      rw [Setting.timer_nil] at hArmed
      exact ⟨(if_neg hDecides).symm, hArmed⟩
  | told => exact ⟨h.allowed_get, h.quiet rfl id rfl⟩
  | killed => exact ⟨rfl, stop rfl trivial rfl⟩
  | ran hFire => exact ⟨h.allowed_fire hFire, h.fire rfl rfl id hFire⟩
  | missed hFire => exact ⟨h.allowed_fire hFire, h.fire rfl rfl id hFire⟩

/-- **What happens to a timer that is what its log says is allowed at every moment**, and the timer
stays what its log says. -/
theorem unfolds {more : List TimerEvent} (h : Reflects log t) (hMore : Unfolds more t t') :
    Reflects (log ++ more) t' ∧
      ∀ before e after, more = before ++ e :: after → e.Allowed (log ++ before) := by
  induction hMore generalizing log with
  | done t =>
      rw [List.append_nil]
      refine ⟨h, fun before e after hSplit => ?_⟩
      cases before <;> cases hSplit
  | @next first rest t t₁ t' hChanges _ ih =>
      obtain ⟨hAllowed, hNext⟩ := h.step hChanges
      obtain ⟨hEnd, hRest⟩ := ih hNext
      rw [List.append_assoc] at hEnd
      refine ⟨hEnd, fun before e after hSplit => ?_⟩
      cases before with
      | nil =>
          cases hSplit
          rw [List.append_nil]
          exact hAllowed
      | cons b before =>
          cases hSplit
          have hLater := hRest before e after rfl
          rw [List.append_assoc] at hLater
          exact hLater

end Reflects

end CellHost
