import CellHost.Proofs.Machine.Callbacks
import CellHost.Proofs.Machine.Fittings
import CellHost.Proofs.Machine.Parking

/-!
# States that code cannot tell apart

Usage records are written and never read, and so is the count of instructions where no request to
stop arrives from outside. Worlds that differ in nothing else are alike to all code. Once a request is
pending, a context without a hook and one on which the request has put its hook are alike as well: a
checkpoint finds the same hook on both. From states that are alike, executions go the same way, and
they end in states that are alike.

Executions do not change everything of a context at that. What they *tend* is its fittings, and its
hook up to the one that a request puts on it.

## Main definitions

* `World.Alike`, `Context.Alike`, `Machine.Alike` : worlds, contexts and states that are alike.
* `Machine.Tends` : what executions may do to a context, in view of its later use.
* `Embedder.Discreet` : callbacks that go by no more than code does.

## Main results

* `exec_alike` : from states that are alike executions go the same way.
* `exec_tends` : executions tend the context that they are given.
-/

namespace CellHost

open Machine

variable {σ : Type}

/-! ## Worlds -/

/-- No request to stop arrives from outside. -/
def World.Quiet (w : World σ) : Prop := ∀ n, w.interrupts.due n = false

theorem World.Quiet.of_interrupts {w w' : World σ} (h : w.Quiet)
    (hSame : w'.interrupts = w.interrupts) : w'.Quiet :=
  fun n => (congrArg (·.due n) hSame).trans (h n)

/-- The world without what is only written. -/
def World.bare (w : World σ) : World σ :=
  { w with region.objects.usages := #[], interrupts := {} }

/-- Two worlds that differ in nothing but usage records and, where no request arrives, the count of
instructions. -/
structure World.Alike (w w' : World σ) : Prop where
  interrupts : w'.interrupts = w.interrupts ∨ w.Quiet ∧ w'.Quiet
  bare : w'.bare = w.bare

namespace World.Alike

variable {w w' w₁ w₂ : World σ}

theorem rfl : w.Alike w := ⟨.inl (Eq.refl _), Eq.refl _⟩

theorem symm (h : w.Alike w') : w'.Alike w where
  interrupts := h.interrupts.imp Eq.symm And.symm
  bare := h.bare.symm

theorem trans (h : w.Alike w₁) (h' : w₁.Alike w₂) : w.Alike w₂ where
  interrupts := by
    rcases h.interrupts with hSame | ⟨hQuiet, hQuiet₁⟩
    · rcases h'.interrupts with hSame' | ⟨hQuiet₁, hQuiet₂⟩
      · exact .inl (hSame'.trans hSame)
      · exact .inr ⟨hQuiet₁.of_interrupts hSame.symm, hQuiet₂⟩
    · rcases h'.interrupts with hSame' | ⟨-, hQuiet₂⟩
      · exact .inr ⟨hQuiet, hQuiet₁.of_interrupts hSame'⟩
      · exact .inr ⟨hQuiet, hQuiet₂⟩
  bare := h'.bare.trans h.bare

theorem memory (h : w.Alike w') : w'.region.memory = w.region.memory :=
  (congrArg (fun w : World σ => w.region.memory) h.bare :)

theorem abort (h : w.Alike w') : w'.region.abort = w.region.abort :=
  (congrArg (fun w : World σ => w.region.abort) h.bare :)

theorem timers (h : w.Alike w') : w'.region.objects.timers = w.region.objects.timers :=
  (congrArg (fun w : World σ => w.region.objects.timers) h.bare :)

theorem clock (h : w.Alike w') : w'.clock = w.clock :=
  (congrArg World.clock h.bare :)

theorem console (h : w.Alike w') : w'.console = w.console :=
  (congrArg World.console h.bare :)

/-- A change that leaves alone what is only written leaves worlds alike. -/
theorem under (f : World σ → World σ) (hBare : ∀ w, (f w).bare = f w.bare)
    (hInterrupts : ∀ w, (f w).interrupts = w.interrupts) (h : w.Alike w') :
    (f w).Alike (f w') where
  interrupts := by
    rw [hInterrupts, hInterrupts]
    exact h.interrupts.imp_right fun hQuiet =>
      ⟨hQuiet.1.of_interrupts (hInterrupts w), hQuiet.2.of_interrupts (hInterrupts w')⟩
  bare := by rw [hBare, hBare, h.bare]

theorem storeIf (h : w.Alike w') (store : Option Store) :
    (w.storeIf store).Alike (w'.storeIf store) := by
  cases store with
  | none => exact h
  | some s => exact h.under (·.store s) (fun _ => Eq.refl _) fun _ => Eq.refl _

theorem readClock (h : w.Alike w') : w.readClock.2.Alike w'.readClock.2 :=
  h.under (·.readClock.2) (fun _ => Eq.refl _) fun _ => Eq.refl _

theorem wait (h : w.Alike w') (nanos : Nat) : (w.wait nanos).Alike (w'.wait nanos) :=
  h.under (·.wait nanos) (fun _ => Eq.refl _) fun _ => Eq.refl _

theorem setTimer (h : w.Alike w') (ref : Nat) (timer : Timer) :
    (w.setTimer ref timer).Alike (w'.setTimer ref timer) :=
  h.under (·.setTimer ref timer) (fun _ => Eq.refl _) fun _ => Eq.refl _

end World.Alike

/-- To begin an instruction of a quiet world is to count it. -/
theorem beginInstruction_of_quiet {w : World σ} (h : w.Quiet) :
    w.beginInstruction = { w with interrupts.started := w.interrupts.started + 1 } := by
  unfold World.beginInstruction
  dsimp only
  rw [h]
  rfl

theorem World.Alike.beginInstruction {w w' : World σ} (h : w.Alike w') :
    w.beginInstruction.Alike w'.beginInstruction := by
  rcases h.interrupts with hSame | ⟨hQuiet, hQuiet'⟩
  · have hCounted := congrArg (fun i : Interrupts => { i with started := i.started + 1 }) hSame
    unfold World.beginInstruction
    dsimp only
    rw [hSame]
    -- a request arrives in both worlds or in none
    cases w.interrupts.due w.interrupts.started with
    | true =>
        have hRequested := h.under World.requestAbort (fun _ => Eq.refl _) fun _ => Eq.refl _
        exact ⟨.inl hCounted, hRequested.bare⟩
    | false => exact ⟨.inl hCounted, h.bare⟩
  · rw [beginInstruction_of_quiet hQuiet, beginInstruction_of_quiet hQuiet']
    exact ⟨.inr ⟨hQuiet, hQuiet'⟩, h.bare⟩

theorem alike_sampleUsage (w : World σ) (ref stack heap : Nat) :
    w.Alike (w.sampleUsage ref stack heap) :=
  ⟨.inl rfl, rfl⟩

/-! ## Natives -/

theorem wait_bare (w : World σ) (nanos : Nat) :
    w.bare.wait nanos = (w.wait nanos).bare ∧ (w.wait nanos).interrupts = w.interrupts :=
  ⟨rfl, rfl⟩

/-- The built-in natives do not look at what is only written, and leave it alone. -/
theorem call_bare (native : Native) (c : Context) (w : World σ) :
    native.call c w.bare = ((native.call c w).1, (native.call c w).2.bare) ∧
      (native.call c w).2.interrupts = w.interrupts := by
  have hTimer : ∀ step : World σ → Nat → Except MachineError Cell × World σ,
      (∀ ref, step w.bare ref = ((step w ref).1, (step w ref).2.bare) ∧
        (step w ref).2.interrupts = w.interrupts) →
      Native.withTimer c w.bare (step w.bare) =
          ((Native.withTimer c w (step w)).1, (Native.withTimer c w (step w)).2.bare) ∧
        (Native.withTimer c w (step w)).2.interrupts = w.interrupts := by
    intro step hStep
    unfold Native.withTimer
    split
    · exact ⟨rfl, rfl⟩
    · exact hStep _
  cases native with
  | print => exact ⟨rfl, rfl⟩
  | printChar =>
      unfold Native.call
      dsimp only
      split
      · exact ⟨rfl, rfl⟩
      · exact ⟨rfl, rfl⟩
  | tickCount => exact ⟨rfl, rfl⟩
  | delay =>
      unfold Native.call
      dsimp only
      split
      · exact ⟨congrArg (Prod.mk _) (wait_bare w _).1, (wait_bare w _).2⟩
      · exact ⟨rfl, rfl⟩
  | argumentCount => exact ⟨rfl, rfl⟩
  | argument => exact ⟨rfl, rfl⟩
  | setTimer =>
      unfold Native.call Native.callSetTimer
      dsimp only
      split
      · exact ⟨rfl, rfl⟩
      next ms _ =>
        by_cases hZero : ms = 0
        · simp only [if_pos hZero]
          exact hTimer (fun w ref => (.ok 0, w.setTimer ref (w.timer ref).disarm))
            fun _ => ⟨rfl, rfl⟩
        · simp only [if_neg hZero]
          exact hTimer (fun w ref => (.ok 0, w.readClock.2.setTimer ref
            (Timer.armedAt w.readClock.1 (ms * nanosPerMilli) (c.regs.alt != 0)))) fun _ => ⟨rfl, rfl⟩
  | getTimer =>
      exact hTimer (fun w ref =>
        (.ok (Cell.ofAddress ((w.timer ref).interval?.getD 0 / nanosPerMilli)), w)) fun _ => ⟨rfl, rfl⟩
  | killTimer =>
      exact hTimer (fun w ref => (.ok 0, w.setTimer ref (w.timer ref).disarm)) fun _ => ⟨rfl, rfl⟩
  | custom id => exact ⟨rfl, rfl⟩

/-- In worlds that are alike the built-in natives do the same. -/
theorem call_alike (native : Native) (c : Context) {w w' : World σ} (h : w.Alike w') :
    (native.call c w').1 = (native.call c w).1 ∧
      (native.call c w).2.Alike (native.call c w').2 := by
  obtain ⟨hCall, hInterrupts⟩ := call_bare native c w
  obtain ⟨hCall', hInterrupts'⟩ := call_bare native c w'
  rw [h.bare, hCall] at hCall'
  obtain ⟨hAnswer, hBare⟩ := Prod.mk.inj hCall'
  refine ⟨hAnswer.symm, ?_, hBare.symm⟩
  rw [hInterrupts, hInterrupts']
  exact h.interrupts.imp_right fun hQuiet =>
    ⟨hQuiet.1.of_interrupts hInterrupts, hQuiet.2.of_interrupts hInterrupts'⟩

/-! ## Contexts and states -/

/-- The hook that a checkpoint finds where a context has this one. -/
def AbortState.hookFound (a : AbortState) (hook : Option Hook) : Option Hook :=
  if hook.isNone && a.hookRequested then some a.hook else hook

/-- What is requested stays requested. -/
def AbortState.Stands (a a' : AbortState) : Prop :=
  a.hookRequested = true → a'.hookRequested = true ∧ a'.hook = a.hook

theorem AbortState.Stands.rfl {a : AbortState} : a.Stands a := fun h => ⟨h, Eq.refl _⟩

theorem AbortState.Stands.trans {a a₁ a₂ : AbortState} (h : a.Stands a₁) (h' : a₁.Stands a₂) :
    a.Stands a₂ := by
  intro hRequested
  obtain ⟨hStands, hHook⟩ := h hRequested
  obtain ⟨hStands', hHook'⟩ := h' hStands
  exact ⟨hStands', hHook'.trans hHook⟩

/-- Hooks between which a checkpoint makes no difference stay so. -/
theorem AbortState.Stands.hookFound {a a' : AbortState} (h : a.Stands a') {hook hook' : Option Hook}
    (hFound : a.hookFound hook' = a.hookFound hook) :
    a'.hookFound hook' = a'.hookFound hook := by
  by_cases hRequested : a.hookRequested = true
  · obtain ⟨hStands, hHook⟩ := h hRequested
    unfold AbortState.hookFound at hFound ⊢
    rw [hRequested] at hFound
    rw [hStands, hHook]
    exact hFound
  · unfold AbortState.hookFound at hFound
    simp only [hRequested, Bool.and_false, Bool.false_eq_true, if_false] at hFound
    rw [hFound]

theorem stands_beginInstruction (w : World σ) :
    w.region.abort.Stands w.beginInstruction.region.abort := by
  intro hRequested
  unfold World.beginInstruction
  dsimp only
  split
  · exact ⟨rfl, rfl⟩
  · exact ⟨hRequested, rfl⟩

theorem withAbortHook_eq_hookFound (c : Context) (a : AbortState) :
    withAbortHook c a = { c with hook := a.hookFound c.hook } := by
  unfold withAbortHook AbortState.hookFound
  split <;> rfl

/-- Two contexts that differ in nothing but a hook that a checkpoint would put on them. -/
def Context.Alike (a : AbortState) (c c' : Context) : Prop := withAbortHook c' a = withAbortHook c a

namespace Context.Alike

variable {a a' : AbortState} {c c' : Context}

theorem hook (h : c.Alike a c') : a.hookFound c'.hook = a.hookFound c.hook := by
  unfold Context.Alike at h
  rw [withAbortHook_eq_hookFound, withAbortHook_eq_hookFound] at h
  exact congrArg Context.hook h

/-- But for their hooks, contexts that are alike are one. -/
theorem eq (h : c.Alike a c') : c' = { c with hook := c'.hook } := by
  unfold Context.Alike at h
  rw [withAbortHook_eq_hookFound, withAbortHook_eq_hookFound] at h
  cases c
  cases c'
  simp only [Context.mk.injEq] at h ⊢
  obtain ⟨rfl, rfl, rfl, rfl, rfl, rfl, rfl, rfl, -⟩ := h
  simp only [and_self]

theorem of_hook {hook : Option Hook} (h : a.hookFound hook = a.hookFound c.hook) :
    c.Alike a { c with hook } := by
  unfold Context.Alike
  rw [withAbortHook_eq_hookFound, withAbortHook_eq_hookFound, h]

theorem stands (h : c.Alike a c') (hStands : a.Stands a') : c.Alike a' c' := by
  have hHook := hStands.hookFound h.hook
  rw [h.eq]
  exact of_hook hHook

/-- A change that does not look at the hook leaves contexts alike. -/
theorem under (f : Context → Context) (hf : ∀ c hook, f { c with hook } = { f c with hook })
    (h : c.Alike a c') : (f c).Alike a (f c') := by
  have hSame : (f c).hook = c.hook := (congrArg Context.hook (hf c c.hook) :)
  have hHook := h.hook
  rw [h.eq, hf c c'.hook]
  refine of_hook ?_
  rw [hSame]
  exact hHook

end Context.Alike

namespace Machine

/-- Two states that code cannot tell apart. -/
structure Alike (s t : Point σ) : Prop where
  context : s.1.Alike s.2.region.abort t.1
  world : s.2.Alike t.2

theorem Alike.rfl {s : Point σ} : Alike s s := ⟨Eq.refl _, .rfl⟩

/-- Two results of a step that code cannot tell apart. -/
inductive Progress.Alike : Progress σ → Progress σ → Prop
  | continues {s t : Point σ} : Machine.Alike s t →
      Alike (.continues s.1 s.2) (.continues t.1 t.2)
  | pauses {pause : Pause} {s t : Point σ} : Machine.Alike s t →
      Alike (.pauses pause s.1 s.2) (.pauses pause t.1 t.2)

end Machine

/-- Two engines that do the same in states that are alike. -/
def Engine.Alike (e e' : Engine σ) : Prop :=
  ∀ entry s t outcome s', Machine.Alike s t → e entry s.1 s.2 = some (outcome, s') →
    ∃ t', e' entry t.1 t.2 = some (outcome, t') ∧ Machine.Alike s' t'

namespace Machine

/-- What code may do to a context in view of its later use: the fittings stay, a request stays, and no
hook is put on the context or taken from it but what a request does. -/
structure Tends (s t : Point σ) : Prop where
  fittings : s.1.SameFittings t.1
  stands : s.2.region.abort.Stands t.2.region.abort
  hook : t.2.region.abort.hookFound t.1.hook = t.2.region.abort.hookFound s.1.hook

end Machine

/-- Callbacks go by no more than code does, and do no more to a context than code may do. They do the
same in states that are alike and with whatever fuel, and leave the marks where they answer. -/
structure Embedder.Discreet (emb : Embedder σ) : Prop where
  fuelBlind : emb.FuelBlind
  leavesMarks : emb.LeavesMarks
  nativeTends : ∀ id (e : Engine σ) s₀ s answer s', e.Keeps (Machine.Tends s₀) →
    emb.native id e s.1 s.2 = some (answer, s') → Machine.Tends s₀ s → Machine.Tends s₀ s'
  hookTends : ∀ id s₀ c (w : World σ), Machine.Tends s₀ (c, w) →
    Machine.Tends s₀ (emb.hook id c w).2
  native : ∀ id (e e' : Engine σ) s t answer s', e.Alike e' → Machine.Alike s t →
    emb.native id e s.1 s.2 = some (answer, s') →
    ∃ t', emb.native id e' t.1 t.2 = some (answer, t') ∧ Machine.Alike s' t'
  hook : ∀ id c (w w' : World σ), w.Alike w' →
    (emb.hook id c w').1 = (emb.hook id c w).1 ∧
      Machine.Alike (emb.hook id c w).2 (emb.hook id c w').2

theorem Embedder.plain_discreet : (Embedder.plain : Embedder σ).Discreet where
  fuelBlind := Embedder.plain_fuelBlind
  leavesMarks := Embedder.plain_leavesMarks
  nativeTends := by
    intro id e s₀ s answer s' _ h hBefore
    cases h
    exact hBefore
  hookTends := fun _ _ _ _ hBefore => hBefore
  native := by
    intro id e e' s t answer s' _ hAlike h
    cases h
    exact ⟨t, rfl, hAlike⟩
  hook := fun _ _ _ _ h => ⟨rfl, ⟨rfl, h⟩⟩

theorem Embedder.calling_leaves (P : Context → Prop) : (Embedder.calling : Embedder σ).Leaves P where
  native := by
    intro index e c w answer c' w' hEngine h hBefore
    obtain ⟨⟨outcome, c₁, w₁⟩, hExec, hAnswer⟩ := Option.map_eq_some_iff.mp h
    have hLeft : P c₁ := hEngine _ _ _ _ _ _ hExec hBefore
    cases outcome <;> cases hAnswer <;> exact hLeft
  hook := (Embedder.plain_leaves P).hook

/-- A host whose natives call publics on the context of their caller is discreet. -/
theorem Embedder.calling_discreet : (Embedder.calling : Embedder σ).Discreet where
  fuelBlind := Embedder.calling_fuelBlind
  leavesMarks := Embedder.calling_leavesMarks
  nativeTends := by
    intro index e s₀ s answer s' hEngine h hBefore
    obtain ⟨⟨outcome, c', w'⟩, hExec, hAnswer⟩ := Option.map_eq_some_iff.mp h
    have hLeft : Machine.Tends s₀ (c', w') := hEngine _ _ _ _ _ _ hExec hBefore
    cases outcome <;> cases hAnswer <;> exact hLeft
  hookTends := Embedder.plain_discreet.hookTends
  native := by
    intro index e e' s t answer s' hEngine hAlike h
    obtain ⟨⟨outcome, s₁⟩, hExec, hAnswer⟩ := Option.map_eq_some_iff.mp h
    obtain ⟨t₁, hExec', hLeft⟩ := hEngine _ _ _ _ _ hAlike hExec
    cases outcome <;> cases hAnswer <;>
      exact ⟨t₁, Option.map_eq_some_iff.mpr ⟨_, hExec', rfl⟩, hLeft⟩
  hook := Embedder.plain_discreet.hook

namespace Machine

variable {emb : Embedder σ} {e e' : Engine σ} {s t : Point σ}

/-! ## Steps -/

theorem Alike.begin (h : Alike s t) :
    Alike (s.1, s.2.beginInstruction) (t.1, t.2.beginInstruction) where
  context := h.context.stands (stands_beginInstruction s.2)
  world := h.world.beginInstruction

/-- Worlds that are alike may be put in place of the worlds of two states, under one abort state. -/
theorem Alike.inWorlds (h : Alike s t) {w w' : World σ} (hWorld : w.Alike w')
    (hAbort : w.region.abort = s.2.region.abort) : Alike (s.1, w) (t.1, w') where
  context := by
    rw [hAbort]
    exact h.context
  world := hWorld

theorem Alike.regs (h : Alike s t) : t.1.regs = s.1.regs := by rw [h.context.eq]

theorem effectAt_alike (h : Alike s t) : effectAt t = effectAt s := by
  unfold effectAt
  rw [h.begin.world.memory, h.context.eq]
  rfl

/-- The same may be done to the contexts of two states, if it does not look at their hooks. -/
theorem Alike.under (h : Alike s t) (f : Context → Context)
    (hf : ∀ c hook, f { c with hook } = { f c with hook }) : Alike (f s.1, s.2) (f t.1, t.2) :=
  ⟨h.context.under f hf, h.world⟩

theorem Alike.withRegs (h : Alike s t) (regs : Registers) :
    Alike ({ s.1 with regs }, s.2) ({ t.1 with regs }, t.2) :=
  h.under (fun c => { c with regs }) fun _ _ => Eq.refl _

theorem faultAt_alike (h : Alike s t) (start : Nat) (error : MachineError) :
    (faultAt start error s.1 s.2).Alike (faultAt start error t.1 t.2) :=
  .pauses (h.under (backTo · start) fun _ _ => rfl)

theorem afterNative_alike (h : Alike s t) (start : Nat) (answer : Except MachineError Cell) :
    (afterNative start answer s.1 s.2).Alike (afterNative start answer t.1 t.2) := by
  cases answer with
  | error error => exact faultAt_alike h start error
  | ok value => exact .continues (h.under (fun c => { c with regs.pri := value }) fun _ _ => rfl)

theorem nativeAnswer_alike (hEmb : emb.Discreet) (hEngine : e.Alike e') (h : Alike s t)
    {native : Native} {answer : Except MachineError Cell} {s' : Point σ}
    (hAnswer : nativeAnswer emb e native s.1 s.2 = some (answer, s')) :
    ∃ t', nativeAnswer emb e' native t.1 t.2 = some (answer, t') ∧ Alike s' t' := by
  unfold nativeAnswer at hAnswer ⊢
  split at hAnswer
  · exact hEmb.native _ _ _ _ _ _ _ hEngine h hAnswer
  next hBuiltIn =>
    cases hAnswer
    obtain ⟨hValue, hLeft⟩ := call_alike native s.1 h.world
    have hSame : native.call t.1 t.2 = native.call s.1 t.2 := by
      rw [h.context.eq]
      rfl
    rw [hSame, hValue]
    exact ⟨_, rfl, h.inWorlds hLeft (call_spares native s.1 s.2).abort⟩

theorem monitor_alike (c : Context) {w w' : World σ} (h : w.Alike w') :
    (monitor c w').1 = (monitor c w).1 ∧ (monitor c w).2.Alike (monitor c w').2 := by
  unfold monitor
  dsimp only
  split
  next ref _ =>
    refine ⟨?_, (alike_sampleUsage w ref _ _).symm.trans
      (h.trans (alike_sampleUsage w' ref _ _))⟩
    have hAbort : (w'.sampleUsage ref c.stackUsage c.heapUsage).region.abort =
        (w.sampleUsage ref c.stackUsage c.heapUsage).region.abort := h.abort
    rw [hAbort]
  · rw [h.abort]
    exact ⟨rfl, h⟩

theorem askHook_alike (hEmb : emb.Discreet) (c : Context) {w w' : World σ} (h : w.Alike w')
    {verdict : Checkpoint} {s' : Point σ} (hAsk : askHook emb c w = (verdict, s')) :
    ∃ t', askHook emb c w' = (verdict, t') ∧ Alike s' t' := by
  unfold askHook at hAsk ⊢
  split at hAsk
  · cases hAsk
    exact ⟨_, rfl, ⟨rfl, h⟩⟩
  · cases hAsk
    obtain ⟨hVerdict, hLeft⟩ := monitor_alike c h
    exact ⟨_, Prod.ext hVerdict rfl, ⟨rfl, hLeft⟩⟩
  next id hHook =>
    obtain ⟨hVerdict, hLeft⟩ := hEmb.hook id c w w' h
    rw [hAsk] at hVerdict hLeft
    exact ⟨(emb.hook id c w').2, Prod.ext hVerdict rfl, hLeft⟩

/-- **A step does the same in states that are alike.** -/
theorem step_alike (hEmb : emb.Discreet) (hEngine : e.Alike e') (h : Alike s t) {p : Progress σ}
    (hStep : step emb e s.1 s.2 = some p) :
    ∃ q, step emb e' t.1 t.2 = some q ∧ p.Alike q := by
  have hBegin := h.begin
  unfold step at hStep ⊢
  dsimp only at hStep ⊢
  rw [show s.1.effect s.2.beginInstruction.region.memory = effectAt s from rfl] at hStep
  rw [show t.1.effect t.2.beginInstruction.region.memory = effectAt t from rfl, effectAt_alike h]
  cases hSame : effectAt s with
  | next regs store =>
      rw [hSame] at hStep
      cases hStep
      have hMoved := hBegin.withRegs regs
      refine ⟨_, rfl, .continues (hMoved.inWorlds (hMoved.world.storeIf store) ?_)⟩
      cases store <;> rfl
  | halt value =>
      rw [hSame] at hStep
      cases hStep
      exact ⟨_, rfl, .pauses hBegin⟩
  | sleep regs =>
      rw [hSame] at hStep
      cases hStep
      exact ⟨_, rfl, .pauses (hBegin.withRegs regs)⟩
  | fault error regs =>
      rw [hSame] at hStep
      cases hStep
      exact ⟨_, rfl, .pauses (hBegin.withRegs regs)⟩
  | native regs index =>
      rw [hSame] at hStep
      dsimp only at hStep ⊢
      have hMoved := hBegin.withRegs regs
      have hNative : ({ t.1 with regs } : Context).native? index =
          ({ s.1 with regs } : Context).native? index := by
        rw [h.context.eq]
        rfl
      rw [callNative_eq] at hStep ⊢
      rw [h.regs, hNative]
      cases hBound : ({ s.1 with regs } : Context).native? index with
      | none =>
          rw [hBound] at hStep
          cases hStep
          exact ⟨_, rfl, faultAt_alike hMoved _ _⟩
      | some native =>
          rw [hBound] at hStep
          obtain ⟨⟨answer, s'⟩, hAnswer, rfl⟩ := Option.map_eq_some_iff.mp hStep
          obtain ⟨t', hAnswer', hLeft⟩ := nativeAnswer_alike hEmb hEngine hMoved hAnswer
          refine ⟨_, Option.map_eq_some_iff.mpr ⟨_, hAnswer', rfl⟩, ?_⟩
          exact afterNative_alike hLeft _ answer
  | checkpoint regs =>
      rw [hSame] at hStep
      dsimp only at hStep ⊢
      have hMoved := hBegin.withRegs regs
      -- with the hook that a request puts on them, both contexts are one
      have hOne : withAbortHook { t.1 with regs } t.2.beginInstruction.region.abort =
          withAbortHook { s.1 with regs } s.2.beginInstruction.region.abort := by
        rw [hMoved.world.abort]
        exact hMoved.context
      unfold checkpoint at hStep ⊢
      rw [hOne, h.regs]
      obtain ⟨⟨verdict, s'⟩, hAsk⟩ : ∃ r, askHook emb (withAbortHook { s.1 with regs }
          s.2.beginInstruction.region.abort) s.2.beginInstruction = r := ⟨_, rfl⟩
      obtain ⟨t', hAsk', hLeft⟩ := askHook_alike hEmb _ hMoved.world hAsk
      rw [hAsk] at hStep
      rw [hAsk']
      cases verdict with
      | proceed =>
          cases hStep
          exact ⟨_, rfl, .continues hLeft⟩
      | abort =>
          cases hStep
          exact ⟨_, rfl, faultAt_alike hLeft _ _⟩

/-! ## Executions -/

theorem enterAt?_alike (h : Alike s t) (address : Nat) :
    Option.Rel Alike (enterAt? address s.1 s.2) (enterAt? address t.1 t.2) := by
  unfold enterAt?
  rw [h.regs]
  cases s.1.regs.push 0 with
  | error error => exact .none
  | ok pushed =>
      obtain ⟨regs, store⟩ := pushed
      have hEntered := h.under (fun c => { marked c with regs := { regs with cip := address } })
        fun _ _ => rfl
      exact .some (hEntered.inWorlds (hEntered.world.storeIf (some store)) rfl)

/-- Where one execution starts the other starts. -/
theorem start?_alike (h : Alike s t) (entry : EntryPoint) :
    Option.Rel Alike (start? entry s.1 s.2) (start? entry t.1 t.2) := by
  have hProgram : t.1.program = s.1.program := by rw [h.context.eq]
  have hEnter : ∀ address? : Option Nat, Option.Rel Alike
      (address?.bind fun address => enterAt? address s.1 s.2)
      (address?.bind fun address => enterAt? address t.1 t.2) := by
    intro address?
    cases address? with
    | none => exact .none
    | some address => exact enterAt?_alike h address
  cases entry with
  | resume =>
      have hAsleep : t.1.sleeping = s.1.sleeping := by rw [h.context.eq]
      unfold start?
      dsimp only
      rw [hAsleep]
      split
      · exact .some (h.under (fun c => { c with sleeping := false }) fun _ _ => rfl)
      · exact .none
  | main =>
      unfold start?
      dsimp only
      rw [hProgram]
      exact hEnter _
  | function index =>
      unfold start?
      dsimp only
      rw [hProgram]
      exact hEnter _

theorem refusal_hook (entry : EntryPoint) (c : Context) (hook : Option Hook) :
    refusal entry { c with hook } = ((refusal entry c).1, { (refusal entry c).2 with hook }) := by
  unfold refusal
  cases entry with
  | resume => rfl
  | main =>
      dsimp only
      split <;> rfl
  | function index =>
      dsimp only
      split <;> rfl

theorem settle_hook (place : Option Parking) (pause : Pause) (c : Context) (hook : Option Hook) :
    settle place pause { c with hook } =
      ((settle place pause c).1, { (settle place pause c).2 with hook }) := by
  cases pause with
  | returned value => cases place <;> rfl
  | slept delay => rfl
  | faulted error => rfl

/-- Running does the same in states that are alike. -/
def RunsAlike (go go' : Runner σ) : Prop :=
  ∀ s t pause s', Alike s t → go s.1 s.2 = some (pause, s') →
    ∃ t', go' t.1 t.2 = some (pause, t') ∧ Alike s' t'

theorem execWith_alike {go go' : Runner σ} (hGo : RunsAlike go go') :
    (execWith go).Alike (execWith go') := by
  intro entry s t outcome s' h hExec
  have hPlace : place entry t.1 = place entry s.1 := by
    rw [h.context.eq]
    cases entry <;> rfl
  have hStarts := start?_alike h entry
  rw [execWith_eq] at hExec ⊢
  cases hStart : start? entry s.1 s.2 with
  | none =>
      rw [hStart] at hStarts hExec
      cases hExec
      generalize start? entry t.1 t.2 = start at hStarts
      cases hStarts
      have hRefused := h.under (fun c => (refusal entry c).2)
        fun c hook => congrArg Prod.snd (refusal_hook entry c hook)
      have hOutcome : (refusal entry t.1).1 = (refusal entry s.1).1 := by
        rw [h.context.eq, refusal_hook]
      exact ⟨_, congrArg (fun o => some (o, (refusal entry t.1).2, t.2)) hOutcome, hRefused⟩
  | some s₀ =>
      rw [hStart] at hStarts hExec
      obtain ⟨⟨pause, s₁⟩, hRun, hSettle⟩ := Option.map_eq_some_iff.mp hExec
      generalize start? entry t.1 t.2 = start at hStarts
      cases hStarts with
      | some hAlike =>
          obtain ⟨t₁, hRun', hEnd⟩ := hGo _ _ _ _ hAlike hRun
          have hSettled := hEnd.under (fun c => (settle (place entry s.1) pause c).2)
            fun c hook => congrArg Prod.snd (settle_hook (place entry s.1) pause c hook)
          have hOutcome : (settle (place entry s.1) pause t₁.1).1 =
              (settle (place entry s.1) pause s₁.1).1 := by
            rw [hEnd.context.eq, settle_hook]
          cases hSettle
          refine ⟨_, Option.map_eq_some_iff.mpr ⟨_, hRun', ?_⟩, hSettled⟩
          rw [hPlace]
          exact congrArg (fun o => (o, (settle (place entry s.1) pause t₁.1).2, t₁.2)) hOutcome

/-- A run goes the same way in states that are alike. The induction is on the fuel, which bounds both
the rest of the run and what callbacks execute. -/
theorem run_alike (hEmb : emb.Discreet) (fuel : Nat) : RunsAlike (run emb fuel) (run emb fuel) := by
  induction fuel with
  | zero => exact fun _ _ _ _ _ h => nomatch h
  | succ fuel ih =>
      intro s t pause s' h hRun
      simp only [run] at hRun ⊢
      cases hStep : step emb (execWith (run emb fuel)) s.1 s.2 with
      | none => rw [hStep] at hRun; cases hRun
      | some p =>
          obtain ⟨q, hStep', hLeft⟩ := step_alike hEmb (execWith_alike ih) h hStep
          rw [hStep] at hRun
          rw [hStep']
          cases hLeft with
          | continues hNext => exact ih _ _ _ _ hNext hRun
          | pauses hEnd =>
              cases hRun
              exact ⟨_, rfl, hEnd⟩

/-- **From states that are alike executions go the same way.** -/
theorem exec_alike (hEmb : emb.Discreet) (fuel : Nat) : (exec emb fuel).Alike (exec emb fuel) :=
  execWith_alike (run_alike hEmb fuel)

/-! ## What executions tend -/

section Tends

variable {s₀ : Point σ}

theorem Tends.rfl (s : Point σ) : Tends s s := ⟨.rfl, .rfl, Eq.refl _⟩

/-- Registers, marks and the sleeping flag may change, and the world under the same abort state. -/
theorem Tends.moves (h : Tends s₀ s) {c : Context} {w : World σ} (hFittings : s.1.SameFittings c)
    (hHook : c.hook = s.1.hook) (hAbort : w.region.abort = s.2.region.abort) : Tends s₀ (c, w) where
  fittings := ⟨hFittings.program.trans h.fittings.program,
    hFittings.natives.trans h.fittings.natives, hFittings.layout.trans h.fittings.layout,
    hFittings.registry.trans h.fittings.registry⟩
  stands := by
    rw [hAbort]
    exact h.stands
  hook := by
    rw [hAbort, hHook]
    exact h.hook

theorem Tends.begin (h : Tends s₀ s) : Tends s₀ (s.1, s.2.beginInstruction) := by
  have hBegin := stands_beginInstruction s.2
  exact ⟨h.fittings, h.stands.trans hBegin, hBegin.hookFound h.hook⟩

theorem hookFound_hookFound (a : AbortState) (hook : Option Hook) :
    a.hookFound (a.hookFound hook) = a.hookFound hook := by
  unfold AbortState.hookFound
  cases hook <;> cases a.hookRequested <;> rfl

theorem askHook_tends (hEmb : emb.Discreet) (h : Tends s₀ s) {verdict : Checkpoint} {s' : Point σ}
    (hAsk : askHook emb (withAbortHook s.1 s.2.region.abort) s.2 = (verdict, s')) :
    Tends s₀ s' := by
  have hHooked : Tends s₀ (withAbortHook s.1 s.2.region.abort, s.2) := by
    rw [withAbortHook_eq_hookFound]
    exact ⟨⟨h.fittings.program, h.fittings.natives, h.fittings.layout, h.fittings.registry⟩,
      h.stands, (hookFound_hookFound _ _).trans h.hook⟩
  unfold askHook at hAsk
  split at hAsk
  · cases hAsk
    exact hHooked
  · cases hAsk
    exact hHooked.moves .rfl (Eq.refl _) (monitor_spares _ _).abort
  · rw [show s' = (emb.hook _ _ _).2 from (congrArg Prod.snd hAsk).symm]
    exact hEmb.hookTends _ _ _ _ hHooked

theorem step_tends (hEmb : emb.Discreet) (hEngine : e.Keeps (Tends s₀)) {p : Progress σ}
    (hStep : step emb e s.1 s.2 = some p) (h : Tends s₀ s) : Tends s₀ p.point := by
  have hBegin := h.begin
  have hMoved : ∀ regs, Tends s₀ ({ s.1 with regs }, s.2.beginInstruction) := fun regs =>
    hBegin.moves ⟨Eq.refl _, Eq.refl _, Eq.refl _, Eq.refl _⟩ (Eq.refl _) (Eq.refl _)
  cases stepped_of_step hStep with
  | @next regs store _ =>
      refine (hMoved regs).moves .rfl (Eq.refl _) ?_
      cases store <;> rfl
  | halt _ => exact hBegin
  | sleep _ => exact hMoved _
  | fault _ => exact hMoved _
  | unbound _ _ => exact hMoved _
  | @native regs _ native answer c w _ _ hAnswer =>
      have hLeft : Tends s₀ (c, w) := by
        unfold nativeAnswer at hAnswer
        split at hAnswer
        · exact hEmb.nativeTends _ _ _ _ _ _ hEngine hAnswer (hMoved regs)
        · cases hAnswer
          exact (hMoved regs).moves .rfl (Eq.refl _) (call_spares _ _ _).abort
      have hEnd : ∀ regs, Tends s₀ ({ c with regs }, w) := fun regs =>
        hLeft.moves ⟨Eq.refl _, Eq.refl _, Eq.refl _, Eq.refl _⟩ (Eq.refl _) (Eq.refl _)
      cases answer with
      | ok value => exact hEnd _
      | error error => exact hEnd _
  | proceed _ hAsk => exact askHook_tends hEmb (hMoved _) hAsk
  | abort _ hAsk =>
      have hLeft := askHook_tends hEmb (hMoved _) hAsk
      exact hLeft.moves ⟨Eq.refl _, Eq.refl _, Eq.refl _, Eq.refl _⟩ (Eq.refl _) (Eq.refl _)

/-- **Executions tend the context that they are given.** -/
theorem exec_tends (hEmb : emb.Discreet) (s₀ : Point σ) (fuel : Nat) :
    (exec emb fuel).Keeps (Tends s₀) := by
  have hPreserves : Preserves emb (Tends s₀) := {
    steps := fun engine s p hEngine hStep h => step_tends hEmb hEngine hStep h
    starts := by
      intro entry c w s hStart h
      rcases start?_eq_some hStart with ⟨-, -, rfl⟩ | ⟨-, address, hAt⟩
      · exact h.moves ⟨Eq.refl _, Eq.refl _, Eq.refl _, Eq.refl _⟩ (Eq.refl _) (Eq.refl _)
      · obtain ⟨-, rfl⟩ := enterAt?_eq_some hAt
        exact h.moves ⟨Eq.refl _, Eq.refl _, Eq.refl _, Eq.refl _⟩ (Eq.refl _) (Eq.refl _)
    refuses := by
      intro entry c w h
      rcases refusal_eq entry c with hSame | hMarked
      · rw [hSame]
        exact h
      · rw [hMarked]
        exact h.moves ⟨Eq.refl _, Eq.refl _, Eq.refl _, Eq.refl _⟩ (Eq.refl _) (Eq.refl _)
    settles := by
      intro entry c w pause c' w' _ h
      have hSettled : ((settle (place entry c) pause c').2).hook = c'.hook ∧
          c'.SameFittings (settle (place entry c) pause c').2 := by
        cases pause with
        | returned value => cases entry <;> exact ⟨rfl, rfl, rfl, rfl, rfl⟩
        | slept delay => exact ⟨rfl, rfl, rfl, rfl, rfl⟩
        | faulted error => exact ⟨rfl, .rfl⟩
      exact h.moves hSettled.2 hSettled.1 (Eq.refl _) }
  exact hPreserves.keeps_exec fuel

end Tends

end Machine

end CellHost
