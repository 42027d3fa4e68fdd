import CellHost.Proofs.Driver.Abort
import CellHost.Proofs.Machine.Likeness

/-!
# What a timer public leaves of a snapshot

Where the timer public returns, it takes the snapshot back to the parking place, with the stack, the
heap and the marks that it found. What is left of it there are the two registers that it computed
with, the hook of a request that was pending, and its frame pointer if it does not give that back. A
timer public that gives it back and goes by neither register does the same on a snapshot that it has
worked on before as on a fresh one.

## Main definitions

* `Context.Kin` : contexts that differ in the two registers, and in the hook of a request.
* `Unswayed` : executions that come to the same, and leave the same, whatever the two registers hold.
* `Indifferent` : such executions that also stop at the same address.

## Main results

* `kin_of_success` : an entry that returns leaves a context of the same kind.
* `exec_kin`, `timerIdle_kin` : on contexts of a kind, such executions and idle calls do the same.
-/

namespace CellHost

open Machine

variable {σ : Type} {emb : Embedder σ} {fuel : Nat}

/-! ## Snapshots -/

/-- The context without what its two registers hold. -/
def Context.blank (c : Context) : Context := { c with regs.pri := 0, regs.alt := 0 }

/-- The context with other contents in its two registers. -/
def Context.holding (c : Context) (pri alt : Cell) : Context :=
  { c with regs.pri := pri, regs.alt := alt }

/-- Two contexts that differ in nothing but what the two registers hold, and a hook that a checkpoint
would put on them. -/
def Context.Kin (a : AbortState) (c c' : Context) : Prop := c.blank.Alike a c'.blank

namespace Context.Kin

variable {a a' : AbortState} {c c' c₁ : Context}

theorem rfl : c.Kin a c := Eq.refl _

theorem symm (h : c.Kin a c') : c'.Kin a c := Eq.symm h

theorem trans (h : c.Kin a c₁) (h' : c₁.Kin a c') : c.Kin a c' := Eq.trans h' h

theorem of_alike (h : c.Alike a c') : c.Kin a c' := h.under Context.blank fun _ _ => Eq.refl _

theorem stands (h : c.Kin a c') (hStands : a.Stands a') : c.Kin a' c' :=
  Context.Alike.stands h hStands

theorem sleeping (h : c.Kin a c') : c'.sleeping = c.sleeping :=
  (congrArg Context.sleeping (Context.Alike.eq h) :)

theorem program (h : c.Kin a c') : c'.program = c.program :=
  (congrArg Context.program (Context.Alike.eq h) :)

theorem timerRef? (h : c.Kin a c') : c'.timerRef? = c.timerRef? :=
  (congrArg Context.timerRef? (Context.Alike.eq h) :)

theorem frm (h : c.Kin a c') : c'.regs.frm = c.regs.frm :=
  (congrArg (fun c : Context => c.regs.frm) (Context.Alike.eq h) :)

theorem cip (h : c.Kin a c') : c'.regs.cip = c.regs.cip :=
  (congrArg (fun c : Context => c.regs.cip) (Context.Alike.eq h) :)

/-- Holding what the other holds, a context is like it. -/
theorem alike (h : c.Kin a c') : (c.holding c'.regs.pri c'.regs.alt).Alike a c' := by
  have hHeld := h.under (·.holding c'.regs.pri c'.regs.alt) fun _ _ => Eq.refl _
  exact hHeld

end Context.Kin

/-- What neither the registers nor the hook of a context are, is given back by an entry that returns
in the frame in which it was called. -/
theorem kin_of_success (hEmb : emb.Discreet) {entry : EntryPoint} (hEntry : entry ≠ .resume)
    {c c' : Context} {w w' : World σ} {v : Cell}
    (h : exec emb fuel entry c w = some (.success v, c', w')) (hFrm : c'.regs.frm = c.regs.frm) :
    c.Kin w'.region.abort c' := by
  obtain ⟨hParking, hStk, hHea⟩ := parking_of_success hEmb.leavesMarks hEntry h
  have hTends : Tends (c, w) (c', w') := exec_tends hEmb (c, w) fuel _ _ _ _ _ _ h (.rfl _)
  have hSame : c'.blank = { c.blank with hook := c'.hook } := by
    obtain ⟨hProgram, hNatives, hLayout, hRegistry⟩ := hTends.fittings
    simp only [parking, Parking.mk.injEq] at hParking
    cases c
    cases c'
    simp_all [Context.blank]
  unfold Context.Kin
  rw [hSame]
  exact .of_hook hTends.hook

theorem stands_of_exec (hEmb : emb.Discreet) {entry : EntryPoint} {c c' : Context} {w w' : World σ}
    {outcome : Outcome} (h : exec emb fuel entry c w = some (outcome, c', w')) :
    w.region.abort.Stands w'.region.abort := by
  have hTends : Tends (c, w) (c', w') := exec_tends hEmb (c, w) fuel _ _ _ _ _ _ h (.rfl _)
  exact hTends.stands

/-! ## Executions that go by neither register -/

/-- With other contents in the two registers an execution comes to the same outcome, in a world that
is alike; and if it succeeds, it gives the frame pointer back. -/
structure Unswayed (emb : Embedder σ) (x : Execution σ) : Prop where
  same : ∀ fuel outcome c' w', exec emb fuel x.1 x.2.1 x.2.2 = some (outcome, c', w') →
    ∀ pri alt, ∃ fuel' c'' w'',
      exec emb fuel' x.1 (x.2.1.holding pri alt) x.2.2 = some (outcome, c'', w'') ∧ w'.Alike w''
  frame : ∀ fuel pri alt v c' w',
    exec emb fuel x.1 (x.2.1.holding pri alt) x.2.2 = some (.success v, c', w') →
    c'.regs.frm = x.2.1.regs.frm

/-- An unswayed execution that stops at the same address, too, where it does not succeed. -/
structure Indifferent (emb : Embedder σ) (x : Execution σ) : Prop extends Unswayed emb x where
  place : ∀ fuel outcome c' w', exec emb fuel x.1 x.2.1 x.2.2 = some (outcome, c', w') →
    (∀ v, outcome ≠ .success v) → ∀ fuel' pri alt c'' w'',
      exec emb fuel' x.1 (x.2.1.holding pri alt) x.2.2 = some (outcome, c'', w'') →
        c''.regs.cip = c'.regs.cip

/-- **Such an execution does the same on contexts of a kind**, and leaves them of a kind where it
succeeds. -/
theorem exec_kin (hEmb : emb.Discreet) {entry : EntryPoint} (hEntry : entry ≠ .resume)
    {c c₁ c' : Context} {w w₁ w' : World σ} {outcome : Outcome}
    (hIndifferent : Indifferent emb (entry, c, w)) (hKin : c.Kin w.region.abort c₁)
    (hWorld : w.Alike w₁)
    (h : exec emb fuel entry c w = some (outcome, c', w')) :
    ∃ fuel₁ c₁' w₁', exec emb fuel₁ entry c₁ w₁ = some (outcome, c₁', w₁') ∧ w'.Alike w₁' ∧
      (∀ v, outcome = .success v → c.Kin w'.region.abort c' ∧ c.Kin w'.region.abort c₁') ∧
      ((∀ v, outcome ≠ .success v) → c₁'.regs.cip = c'.regs.cip) := by
  obtain ⟨fuel', c'', w'', hHeld, hLeft⟩ := hIndifferent.same _ _ _ _ h c₁.regs.pri c₁.regs.alt
  obtain ⟨⟨c₁', w₁'⟩, hExec, hAlike⟩ :=
    exec_alike hEmb fuel' _ (c.holding c₁.regs.pri c₁.regs.alt, w) (c₁, w₁) _ _
      ⟨hKin.alike, hWorld⟩ hHeld
  have hWorlds : w'.Alike w₁' := hLeft.trans hAlike.world
  refine ⟨fuel', c₁', w₁', hExec, hWorlds, ?_, ?_⟩
  · rintro v rfl
    have hBack : c.Kin w'.region.abort c' :=
      kin_of_success hEmb hEntry h (hIndifferent.frame _ c.regs.pri c.regs.alt _ _ _ h)
    have hFrm : c₁'.regs.frm = c₁.regs.frm := by
      rw [hAlike.regs, hIndifferent.frame _ _ _ _ _ _ hHeld, hKin.frm]
    have hBack₁ : c₁.Kin w'.region.abort c₁' := by
      rw [← hWorlds.abort]
      exact kin_of_success hEmb hEntry hExec hFrm
    exact ⟨hBack, (hKin.stands (stands_of_exec hEmb h)).trans hBack₁⟩
  · intro hFails
    rw [hAlike.regs]
    exact hIndifferent.place _ _ _ _ h hFails _ _ _ _ _ hHeld

/-! ## Idle calls -/

/-- What the built-in idle function does in two states is one of two things: it rests in both, or it
executes the same public in both. -/
inductive Paired (c c₁ : Context) (w w₁ : World σ) : Prop
  | rests (status : IdleStatus) {v v₁ : World σ} :
      (∀ e : Engine σ, timerIdle e c w = some (status, c, v)) →
      (∀ e : Engine σ, timerIdle e c₁ w₁ = some (status, c₁, v₁)) →
      v.Alike v₁ → v.region.abort = w.region.abort → Paired c c₁ w w₁
  | executes (index : Nat) {v v₁ : World σ} :
      timerExecution? c w = some (.function index, c, v) →
      timerExecution? c₁ w₁ = some (.function index, c₁, v₁) →
      v.Alike v₁ → v.region.abort = w.region.abort → Paired c c₁ w w₁

/-- To the built-in idle function, contexts are alike with the same program, timer and flag. -/
theorem paired {c c₁ : Context} {w w₁ : World σ} (hProgram : c₁.program = c.program)
    (hRef : c₁.timerRef? = c.timerRef?) (hAsleep : c₁.sleeping = c.sleeping)
    (hWorld : w.Alike w₁) : Paired c c₁ w w₁ := by
  cases hTimer : c.timerRef? with
  | none =>
      refine .rests .done (fun e => ?_) (fun e => ?_) hWorld rfl
      · unfold timerIdle
        rw [hTimer]
      · unfold timerIdle
        rw [hRef, hTimer]
  | some ref =>
      have hRead : w.readClock.2.Alike w₁.readClock.2 := hWorld.readClock
      have hNow : w₁.readClock.1 = w.readClock.1 := congrArg Clock.now hWorld.clock
      have hSame : w₁.readClock.2.timer ref = w.readClock.2.timer ref := by
        unfold World.timer
        rw [hRead.timers]
      cases hDue : (w.readClock.2.timer ref).due with
      | none =>
          cases hSleeping : c.sleeping with
          | true =>
              refine .rests .again (fun e => ?_) (fun e => ?_)
                (hRead.wait idlePoll) rfl
              · simp only [timerIdle, hTimer, hDue, hSleeping, if_true]
              · simp only [timerIdle, hRef, hTimer, hSame, hDue, hAsleep, hSleeping, if_true]
          | false =>
              refine .rests .done (fun e => ?_) (fun e => ?_) hRead rfl
              · simp only [timerIdle, hTimer, hDue, hSleeping, Bool.false_eq_true, if_false]
              · simp only [timerIdle, hRef, hTimer, hSame, hDue, hAsleep, hSleeping,
                  Bool.false_eq_true, if_false]
      | some due =>
          cases hFire : (w.readClock.2.timer ref).fire? w.readClock.1 with
          | none =>
              refine .rests .again (fun e => ?_) (fun e => ?_)
                (hRead.wait (min (due - w.readClock.1) idlePoll)) rfl
              · simp only [timerIdle, hTimer, hDue, hFire]
              · simp only [timerIdle, hRef, hTimer, hSame, hNow, hDue, hFire]
          | some rest =>
              cases hPublic : c.program.findPublic? timerPublic with
              | none =>
                  refine .rests (.failed .notFound) (fun e => ?_) (fun e => ?_)
                    (hRead.setTimer ref rest) rfl
                  · simp only [timerIdle, hTimer, hDue, hFire, callTimerPublic, hPublic]
                  · simp only [timerIdle, hRef, hTimer, hSame, hNow, hDue, hFire,
                      callTimerPublic, hProgram, hPublic]
              | some index =>
                  refine .executes index ?_ ?_ (hRead.setTimer ref rest) rfl
                  · simp only [timerExecution?, hTimer, hFire, hPublic]
                  · simp only [timerExecution?, hRef, hTimer, hSame, hNow, hFire, hProgram,
                      hPublic]

/-- **An idle call does the same on contexts of a kind**, if it executes nothing that goes by the
registers; and it leaves them of a kind where it is to be called again. -/
theorem timerIdle_kin (hEmb : emb.Discreet) {c c₁ c' : Context} {w w₁ w' : World σ}
    {status : IdleStatus} (hKin : c.Kin w.region.abort c₁) (hWorld : w.Alike w₁)
    (hIndifferent : ∀ index v, timerExecution? c w = some (.function index, c, v) →
      Indifferent emb (.function index, c, v))
    (h : timerIdle (exec emb fuel) c w = some (status, c', w')) :
    ∃ fuel₁ c₁' w₁', timerIdle (exec emb fuel₁) c₁ w₁ = some (status, c₁', w₁') ∧
      w'.Alike w₁' ∧ w.region.abort.Stands w'.region.abort ∧
      (status = .again → c.Kin w'.region.abort c' ∧ c.Kin w'.region.abort c₁') ∧
      (∀ e, status = .failed e → c₁'.regs.cip = c'.regs.cip) := by
  cases paired hKin.program hKin.timerRef? hKin.sleeping hWorld with
  | rests status hRests hRests₁ hLeft hAbort =>
      cases (hRests (exec emb fuel)).symm.trans h
      rw [hAbort]
      exact ⟨0, c₁, _, hRests₁ _, hLeft, .rfl, fun _ => ⟨.rfl, hKin⟩,
        fun _ _ => hKin.cip⟩
  | @executes index v v₁ hRuns hRuns₁ hLeft hAbort =>
      rw [timerIdle_eq, hRuns] at h
      obtain ⟨⟨outcome, c', w'⟩, hExec, hAnswer⟩ := Option.map_eq_some_iff.mp h
      cases hAnswer
      rw [← hAbort] at hKin ⊢
      obtain ⟨fuel₁, c₁', w₁', hExec₁, hWorlds, hKin₁, hCip⟩ :=
        exec_kin hEmb (by nofun) (hIndifferent index v hRuns) hKin hLeft hExec
      refine ⟨fuel₁, c₁', w₁', timerIdle_of_execution hRuns₁ hExec₁, hWorlds,
        stands_of_exec hEmb hExec, ?_, ?_⟩
      · intro hAgain
        cases outcome with
        | success v => exact hKin₁ v rfl
        | sleeping delay => cases hAgain
        | noEntryPoint => cases hAgain
        | fatal e => cases hAgain
      · rintro e hFailed
        refine hCip ?_
        rintro v rfl
        cases hFailed

theorem timerIdle_alike {e e' : Engine σ} (hEngine : e.Alike e') {s t s' : Point σ}
    {status : IdleStatus} (hAlike : Machine.Alike s t)
    (h : timerIdle e s.1 s.2 = some (status, s')) :
    ∃ t', timerIdle e' t.1 t.2 = some (status, t') ∧ Machine.Alike s' t' := by
  have hSame := hAlike.context.eq
  have hPaired : Paired s.1 t.1 s.2 t.2 :=
    paired (by rw [hSame]) (by rw [hSame]; rfl) (by rw [hSame]) hAlike.world
  cases hPaired with
  | rests status hRests hRests' hLeft hAbort =>
      cases (hRests e).symm.trans h
      exact ⟨_, hRests' e', hAlike.inWorlds hLeft hAbort⟩
  | executes index hRuns hRuns' hLeft hAbort =>
      rw [timerIdle_eq, hRuns] at h
      obtain ⟨⟨outcome, s₁⟩, hExec, hAnswer⟩ := Option.map_eq_some_iff.mp h
      cases hAnswer
      obtain ⟨t₁, hExec', hEnd⟩ :=
        hEngine _ _ _ _ _ (hAlike.inWorlds hLeft hAbort) hExec
      exact ⟨t₁, timerIdle_of_execution hRuns' hExec', hEnd⟩

end CellHost
