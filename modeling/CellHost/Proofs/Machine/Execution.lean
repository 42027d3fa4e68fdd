import CellHost.Proofs.Machine.Transparency

/-!
# What an execution passes through

An execution that gives a result was refused, or ran from its start along a trail to the pause that
its result settles on. Everything that is to be known about its result is known from the pause, and
what every step keeps is known of all states on the way.

## Main definitions

* `operation?` : the operation of the instruction that starts in a state.
* `Executed` : how an execution came to its result.

## Main results

* `executed_of_exec` : an execution was refused, or ran along the trail of its states.
* `returned_of_exec`, `slept_of_exec`, `unentered_of_exec` : what is behind a success, behind a
  suspension and behind a missing entry point.
* `visited_keeps`, `Trail.keeps` : what steps keep holds wherever a run comes.
* `visited_from` : from one of its states on, a run is a run from there.
-/

namespace CellHost.Machine

variable {σ : Type} {emb : Embedder σ}

/-! ## Invariants of runs -/

section Keeps

variable {move : Stepper σ} {P : Point σ → Prop}

/-- What every step keeps holds in every state in which an instruction of a run starts, whether or
not the run comes to an end. -/
theorem visited_keeps (hMove : ∀ fuel s p, move fuel s = some p → P s → P p.point) {fuel : Nat}
    {s : Point σ} (hs : P s) : ∀ t ∈ visited move fuel s, P t := by
  induction fuel generalizing s with
  | zero => exact fun t ht => absurd ht List.not_mem_nil
  | succ fuel ih =>
      intro t ht
      unfold visited at ht
      split at ht
      next c w hStep =>
        rcases List.mem_cons.mp ht with rfl | ht
        · exact hs
        · exact ih (hMove _ _ _ hStep hs) t ht
      next => exact List.mem_singleton.mp ht ▸ hs

/-- What every step keeps holds along a trail, and where the trail ends. -/
theorem Trail.keeps (hMove : ∀ s p, move.Moves s p → P s → P p.point) {s : Point σ}
    {seen : List (Point σ)} {r : Pause × Context × World σ} (h : Trail move s seen r) (hs : P s) :
    (∀ t ∈ seen, P t) ∧ P r.2 := by
  induction h with
  | pause hStep => exact ⟨fun t ht => List.mem_singleton.mp ht ▸ hs, hMove _ _ hStep hs⟩
  | next hStep _ ih =>
      obtain ⟨hSeen, hEnd⟩ := ih (hMove _ _ hStep hs)
      refine ⟨fun t ht => ?_, hEnd⟩
      rcases List.mem_cons.mp ht with rfl | ht
      · exact hs
      · exact hSeen t ht

/-- A trail ends with an instruction that pauses. -/
theorem Trail.last {s : Point σ} {seen : List (Point σ)} {r : Pause × Context × World σ}
    (h : Trail move s seen r) :
    ∃ t, seen.getLast? = some t ∧ move.Moves t (.pauses r.1 r.2.1 r.2.2) := by
  induction h with
  | pause hStep => exact ⟨_, rfl, hStep⟩
  | @next s c w states r hStep hRest ih =>
      obtain ⟨t, hLast, hPause⟩ := ih
      refine ⟨t, ?_, hPause⟩
      rw [List.getLast?_cons, hLast]
      rfl

end Keeps

/-! ## Instructions of a run -/

/-- The operation of the instruction that starts in a state, if there is an instruction. -/
def operation? (s : Point σ) : Option Opcode :=
  match Instruction.decode s.1.program s.1.regs.cip with
  | .ok (op, _) => some op
  | .error _ => none

theorem operation?_of_decode {s : Point σ} {op : Opcode} {operand : Cell}
    (h : Instruction.decode s.1.program s.1.regs.cip = .ok (op, operand)) :
    operation? s = some op := by
  unfold operation?
  rw [h]

theorem decode_of_operation? {s : Point σ} {op : Opcode} (h : operation? s = some op) :
    ∃ operand, Instruction.decode s.1.program s.1.regs.cip = .ok (op, operand) := by
  unfold operation? at h
  split at h
  next operand hDecode =>
    cases h
    exact ⟨operand, hDecode⟩
  · cases h

/-- An effect that is no fault is that of the operation. -/
theorem operation?_of_effect {s : Point σ} {e : Effect} (h : effectAt s = e)
    (hFault : ∀ error, e ≠ .fault error s.1.regs) :
    ∃ op operand, operation? s = some op ∧
      Instruction.effectOf s.1.program s.1.layout s.2.beginInstruction.region.memory s.1.regs op
        operand = e := by
  obtain ⟨op, operand, hDecode, hOf⟩ := Instruction.decode_of_effect h hFault
  exact ⟨op, operand, operation?_of_decode hDecode, hOf⟩

/-- Only a native call asks for a native, and it moves nothing but the instruction pointer. -/
theorem sysreq_of_native {s : Point σ} {regs : Registers} {index : Cell}
    (h : effectAt s = .native regs index) :
    operation? s = some .sysreq ∧ regs = Instruction.advanced s.1.regs .sysreq := by
  obtain ⟨op, operand, hOp, hOf⟩ := operation?_of_effect h (fun _ h => by cases h)
  obtain ⟨rfl, rfl, -⟩ := Instruction.effectOf_native hOf
  exact ⟨hOp, rfl⟩

/-- Only a break asks for a checkpoint, and it moves nothing but the instruction pointer. -/
theorem brk_of_checkpoint {s : Point σ} {regs : Registers} (h : effectAt s = .checkpoint regs) :
    operation? s = some .brk ∧ regs = Instruction.advanced s.1.regs .brk := by
  obtain ⟨op, operand, hOp, hOf⟩ := operation?_of_effect h (fun _ h => by cases h)
  obtain ⟨rfl, rfl⟩ := Instruction.effectOf_checkpoint hOf
  exact ⟨hOp, rfl⟩

/-! ## Results of executions -/

/-- How an execution came to its result: it was refused, or it ran through some states to a pause. -/
inductive Executed (emb : Embedder σ) (entry : EntryPoint) (c : Context) (w : World σ) :
    List (Point σ) → Outcome × Context × World σ → Prop
  | refused :
      start? entry c w = none →
      Executed emb entry c w [] ((refusal entry c).1, (refusal entry c).2, w)
  | ran {s : Point σ} {seen : List (Point σ)} {pause : Pause} {c₁ : Context} {w₁ : World σ} :
      start? entry c w = some s → Trail (stepper emb) s seen (pause, c₁, w₁) →
      Executed emb entry c w seen
        ((settle (place entry c) pause c₁).1, (settle (place entry c) pause c₁).2, w₁)

variable {fuel : Nat} {entry : EntryPoint} {c c' : Context} {w w' : World σ}

/-- **An execution was refused, or ran along the trail of its states.** -/
theorem executed_of_exec {x : Outcome × Context × World σ} (h : exec emb fuel entry c w = some x) :
    Executed emb entry c w (states (stepper emb) fuel entry c w) x := by
  unfold states
  cases hStart : start? entry c w with
  | none =>
      cases (execWith_of_refusal hStart).symm.trans h
      exact .refused hStart
  | some s =>
      obtain ⟨⟨pause, c₁, w₁⟩, hRun, rfl⟩ := (execWith_eq_some hStart).mp h
      rw [run_eq_runWith] at hRun
      exact .ran hStart (trail_of_runWith hRun)

/-- Only `main` is found missing, and then nothing changes. -/
theorem unentered_of_exec (h : exec emb fuel entry c w = some (.noEntryPoint, c', w')) :
    entry = .main ∧ c.program.main = none ∧ c' = c ∧ w' = w := by
  have hExecuted := executed_of_exec h
  generalize states (stepper emb) fuel entry c w = seen at hExecuted
  generalize hx : (Outcome.noEntryPoint, c', w') = x at hExecuted
  cases hExecuted with
  | refused _ =>
      unfold refusal at hx
      cases entry with
      | resume => cases hx
      | main =>
          dsimp only at hx
          cases hMain : c.program.main with
          | none => rw [hMain] at hx; cases hx; exact ⟨rfl, rfl, rfl, rfl⟩
          | some address => rw [hMain] at hx; cases hx
      | function index =>
          dsimp only at hx
          cases hPublic : c.program.publics[index]? with
          | none => rw [hPublic] at hx; cases hx
          | some entry => rw [hPublic] at hx; cases hx
  | @ran s seen pause c₁ w₁ _ _ => cases pause <;> cases hx

/-- Behind an outcome that no refusal has there is a run, and the pause that the outcome settles. -/
theorem paused_of_exec {outcome : Outcome} (hEntered : outcome ≠ .noEntryPoint)
    (hFatal : ∀ e, outcome ≠ .fatal e) (h : exec emb fuel entry c w = some (outcome, c', w')) :
    ∃ s pause c₁, start? entry c w = some s ∧
      Trail (stepper emb) s (states (stepper emb) fuel entry c w) (pause, c₁, w') ∧
      (outcome, c') = settle (place entry c) pause c₁ := by
  have hExecuted := executed_of_exec h
  generalize states (stepper emb) fuel entry c w = seen at hExecuted ⊢
  generalize hx : (outcome, c', w') = x at hExecuted
  cases hExecuted with
  | refused _ =>
      have hOutcome : outcome = (refusal entry c).1 := congrArg Prod.fst hx
      rcases refusal_outcome entry c with hNone | ⟨e, hError⟩
      · exact absurd (hOutcome.trans hNone) hEntered
      · exact absurd (hOutcome.trans hError) (hFatal e)
  | @ran s seen pause c₁ w₁ hStart hTrail =>
      cases hx
      exact ⟨s, pause, c₁, hStart, hTrail, rfl⟩

/-- Behind a success there is a run that returned. -/
theorem returned_of_exec {v : Cell} (h : exec emb fuel entry c w = some (.success v, c', w')) :
    ∃ s c₁, start? entry c w = some s ∧
      Trail (stepper emb) s (states (stepper emb) fuel entry c w) (.returned v, c₁, w') ∧
      c' = (settle (place entry c) (.returned v) c₁).2 := by
  obtain ⟨s, pause, c₁, hStart, hTrail, hSettle⟩ := paused_of_exec (by simp) (by simp) h
  cases pause with
  | returned value => cases hSettle; exact ⟨s, c₁, hStart, hTrail, rfl⟩
  | slept d => cases hSettle
  | faulted e => cases hSettle

/-- Behind a suspension there is a run that slept. -/
theorem slept_of_exec {d : Cell} (h : exec emb fuel entry c w = some (.sleeping d, c', w')) :
    ∃ s c₁, start? entry c w = some s ∧
      Trail (stepper emb) s (states (stepper emb) fuel entry c w) (.slept d, c₁, w') ∧
      c' = { c₁ with sleeping := true } := by
  obtain ⟨s, pause, c₁, hStart, hTrail, hSettle⟩ := paused_of_exec (by simp) (by simp) h
  cases pause with
  | returned value => cases hSettle
  | slept d => cases hSettle; exact ⟨s, c₁, hStart, hTrail, rfl⟩
  | faulted e => cases hSettle

/-- Only a `halt` returns. -/
theorem halt_of_returned {engine : Engine σ} {s : Point σ} {v : Cell}
    (h : step emb engine s.1 s.2 = some (.pauses (.returned v) c w)) :
    effectAt s = .halt v ∧ c = s.1 := by
  generalize hp : Progress.pauses (.returned v) c w = p at h
  cases stepped_of_step h with
  | halt hEffect => cases hp; exact ⟨hEffect, rfl⟩
  | @native _ _ _ answer _ _ _ _ _ => cases answer <;> cases hp
  | next _ => cases hp
  | sleep _ => cases hp
  | fault _ => cases hp
  | unbound _ _ => cases hp
  | proceed _ _ => cases hp
  | abort _ _ => cases hp

end CellHost.Machine
