import CellHost.Proofs.Machine.Nesting

/-!
# Refused executions

An execution is refused before its first instruction in one of four ways: the context to be resumed
is awake, the program has no `main`, it has no such public, or the return address finds no room on
the stack. A refusal writes nothing to memory and touches no register.

The first three leave the context as it was altogether, so that a parked context stays parked. The
fourth does not: by the time the return address is pushed, the marks have been taken anew and the
context has been woken, and neither is undone. A parked context whose heap has come up to its stack
is lost by such a call: it cannot be resumed any more.

## Main definitions

* `Refused` : the four ways, each with its outcome and the context it leaves.

## Main results

* `unstarted_iff_refused` : an execution starts no instruction exactly if it is refused.
* `exec_unstarted` : what an execution leaves that starts no instruction.
-/

namespace CellHost.Machine

variable {σ : Type} {emb : Embedder σ}

/-- The ways in which an execution is refused. -/
inductive Refused (c : Context) : EntryPoint → Outcome → Context → Prop
  | awake :
      c.sleeping = false → Refused c .resume (.fatal .invalidState) c
  | noMain :
      c.program.main = none → Refused c .main .noEntryPoint c
  | noPublic {index : Nat} :
      c.program.publics[index]? = none → Refused c (.function index) (.fatal .badIndex) c
  | noRoom {entry : EntryPoint} {address : Nat} :
      entryAddress? c.program entry = some address → c.regs.stk < c.regs.hea + cellSize →
      Refused c entry (.fatal .stackCollision) (marked c)

/-! ## When an execution is refused -/

/-- A context is entered unless the return address finds no room. -/
theorem enterAt?_eq_none_iff {address : Nat} {c : Context} {w : World σ} :
    enterAt? address c w = none ↔ c.regs.stk < c.regs.hea + cellSize := by
  unfold enterAt? Registers.push
  by_cases hRoom : c.regs.stk < c.regs.hea + cellSize
  · simp [hRoom]
  · simp [hRoom]

/-- There is no start exactly if one of the four ways applies. -/
theorem start?_eq_none_iff {entry : EntryPoint} {c : Context} {w : World σ} :
    start? entry c w = none ↔ ∃ outcome c', Refused c entry outcome c' := by
  constructor
  · intro h
    cases entry with
    | resume =>
        cases hAsleep : c.sleeping with
        | false => exact ⟨_, _, .awake hAsleep⟩
        | true => simp [start?, hAsleep] at h
    | main =>
        cases hMain : c.program.main with
        | none => exact ⟨_, _, .noMain hMain⟩
        | some address =>
            have hEntry : entryAddress? c.program .main = some address := hMain
            simp only [start?, hEntry, Option.bind_some] at h
            exact ⟨_, _, .noRoom hEntry (enterAt?_eq_none_iff.mp h)⟩
    | function index =>
        cases hPublic : c.program.publics[index]? with
        | none => exact ⟨_, _, .noPublic hPublic⟩
        | some found =>
            have hEntry : entryAddress? c.program (.function index) = some found.address := by
              simp [entryAddress?, hPublic]
            simp only [start?, hEntry, Option.bind_some] at h
            exact ⟨_, _, .noRoom hEntry (enterAt?_eq_none_iff.mp h)⟩
  · rintro ⟨outcome, c', h⟩
    cases h with
    | awake hAwake => simp [start?, hAwake]
    | noMain hMain => simp [start?, entryAddress?, hMain]
    | noPublic hPublic => simp [start?, entryAddress?, hPublic]
    | noRoom hEntry hRoom =>
        cases entry with
        | resume => cases hEntry
        | main =>
            simp only [start?, hEntry, Option.bind_some]
            exact enterAt?_eq_none_iff.mpr hRoom
        | function index =>
            simp only [start?, hEntry, Option.bind_some]
            exact enterAt?_eq_none_iff.mpr hRoom

/-- The ways exclude each other: a refusal is what `refusal` says. -/
theorem Refused.eq_refusal {entry : EntryPoint} {c c' : Context} {outcome : Outcome}
    (h : Refused c entry outcome c') : refusal entry c = (outcome, c') := by
  cases h with
  | awake _ => rfl
  | noMain hMain => simp [refusal, hMain]
  | noPublic hPublic => simp [refusal, hPublic]
  | noRoom hEntry _ =>
      cases entry with
      | resume => cases hEntry
      | main =>
          have hMain : c.program.main = some _ := hEntry
          simp [refusal, hMain]
      | function index =>
          obtain ⟨found, hPublic, -⟩ := Option.map_eq_some_iff.mp hEntry
          simp [refusal, hPublic]

/-- **An execution starts no instruction exactly if it is refused**, and then nothing becomes of the
world. -/
theorem unstarted_iff_refused {fuel : Nat} {entry : EntryPoint} {c c' : Context} {w w' : World σ}
    {outcome : Outcome} :
    (exec emb fuel entry c w = some (outcome, c', w') ∧ states (stepper emb) fuel entry c w = []) ↔
      (Refused c entry outcome c' ∧ w' = w) := by
  constructor
  · rintro ⟨h, hNone⟩
    have hExecuted := executed_of_exec h
    rw [hNone] at hExecuted
    generalize hSeen : ([] : List (Point σ)) = seen at hExecuted
    generalize hx : (outcome, c', w') = x at hExecuted
    cases hExecuted with
    | refused hStart =>
        cases hx
        obtain ⟨_, _, hRefused⟩ := start?_eq_none_iff.mp hStart
        refine ⟨?_, rfl⟩
        rw [hRefused.eq_refusal]
        exact hRefused
    | ran _ hTrail =>
        obtain ⟨rest, hFirst⟩ := hTrail.starts
        rw [hFirst] at hSeen
        cases hSeen
  · rintro ⟨h, rfl⟩
    have hStart : start? entry c w' = none := start?_eq_none_iff.mpr ⟨outcome, c', h⟩
    constructor
    · have hExec : exec emb fuel entry c w' = some ((refusal entry c).1, (refusal entry c).2, w') :=
        execWith_of_refusal hStart
      rw [h.eq_refusal] at hExec
      exact hExec
    · unfold states
      rw [hStart]

/-! ## What a refusal leaves -/

/-- No refusal touches a register, and only the one for want of room touches anything. -/
theorem Refused.leaves {entry : EntryPoint} {c c' : Context} {outcome : Outcome}
    (h : Refused c entry outcome c') :
    c'.regs = c.regs ∧ (outcome = .fatal .stackCollision ∧ c' = marked c ∨
      outcome ≠ .fatal .stackCollision ∧ c' = c) := by
  cases h with
  | awake _ => exact ⟨rfl, .inr ⟨by decide, rfl⟩⟩
  | noMain _ => exact ⟨rfl, .inr ⟨by decide, rfl⟩⟩
  | noPublic _ => exact ⟨rfl, .inr ⟨by decide, rfl⟩⟩
  | noRoom _ _ => exact ⟨rfl, .inl ⟨rfl, rfl⟩⟩

/-- **Main theorem.** An execution that starts no instruction was refused in one of the four ways.
It has left every register and the whole world, memory included, as they were. Unless it was refused
for want of room it has left the context as it was altogether, and resuming it gives what it would
have given before; for want of room it has taken new marks and woken the context, which cannot be
resumed any more. -/
theorem exec_unstarted {fuel : Nat} {entry : EntryPoint} {c c' : Context} {w w' : World σ}
    {outcome : Outcome} (h : exec emb fuel entry c w = some (outcome, c', w'))
    (hNone : states (stepper emb) fuel entry c w = []) :
    Refused c entry outcome c' ∧ w' = w ∧ c'.regs = c.regs ∧
    (outcome ≠ .fatal .stackCollision →
      c' = c ∧ ∀ n, exec emb n .resume c' w' = exec emb n .resume c w) ∧
    (outcome = .fatal .stackCollision →
      c' = { c with resetStk := c.regs.stk, resetHea := c.regs.hea, sleeping := false } ∧
      ∀ n (w₂ : World σ), exec emb n .resume c' w₂ = some (.fatal .invalidState, c', w₂)) := by
  obtain ⟨hRefused, rfl⟩ := unstarted_iff_refused.mp ⟨h, hNone⟩
  obtain ⟨hRegs, hLeft⟩ := hRefused.leaves
  refine ⟨hRefused, rfl, hRegs, ?_, ?_⟩
  · intro hOther
    rcases hLeft with ⟨hRoom, -⟩ | ⟨-, rfl⟩
    · exact absurd hRoom hOther
    · exact ⟨rfl, fun n => rfl⟩
  · intro hRoom
    rcases hLeft with ⟨-, rfl⟩ | ⟨hOther, -⟩
    · exact ⟨rfl, exec_resume_awake rfl⟩
    · exact absurd hRoom hOther

/-- A program that takes all of its memory for its heap before it sleeps and returns a seven, and a
public that returns at once. -/
def crowded : Program where
  main := some 8
  code :=
    #[Opcode.halt.toCell, 0, Opcode.proc.toCell, Opcode.heap.toCell, 56, Opcode.constPri.toCell,
      100, Opcode.sleep.toCell, Opcode.constPri.toCell, 7, Opcode.ret.toCell,
      Opcode.proc.toCell, Opcode.ret.toCell]
  publics := [⟨"@back", 44⟩]

/-- The program in a block of sixteen cells, parked at its sleep without a free cell. -/
def crowdedParked : Context where
  program := crowded
  natives := []
  layout := ⟨0, 64⟩
  regs := { pri := 100, cip := 32, frm := 56, stk := 56, hea := 56 }
  resetStk := 64
  resetHea := 0
  sleeping := true

/-- The program after a call of its public. -/
def crowdedCalled : Context :=
  { crowdedParked with resetStk := 56, resetHea := 56, sleeping := false }

/-- The world of the program after so many instructions, with the cells on top of its memory. -/
def crowdedWorld (started : Nat) (top : Array Cell) : World Unit where
  region := { memory := Array.replicate 14 0 ++ top }
  clock := .steady
  interrupts := { started }
  host := ()

/-- The call of the public executes no instruction, and the parked program, which would have
returned the seven, is refused when it is resumed. -/
theorem crowded_loses_main :
    exec .plain 8 .main
        { crowdedParked with regs := { frm := 64, stk := 64, hea := 0 }, sleeping := false }
        (crowdedWorld 0 #[0, 0]) =
      some (.sleeping 100, crowdedParked, crowdedWorld 4 #[64, 0]) ∧
    (exec .plain 8 .resume crowdedParked (crowdedWorld 4 #[64, 0])).map (·.1) =
      some (.success 7) ∧
    exec .plain 8 (.function 0) crowdedParked (crowdedWorld 4 #[64, 0]) =
      some (.fatal .stackCollision, crowdedCalled, crowdedWorld 4 #[64, 0]) ∧
    states (stepper .plain) 8 (.function 0) crowdedParked (crowdedWorld 4 #[64, 0]) = [] ∧
    crowdedCalled.sleeping ≠ crowdedParked.sleeping ∧
    crowdedCalled.resetStk ≠ crowdedParked.resetStk ∧
    crowdedCalled.resetHea ≠ crowdedParked.resetHea ∧
    (exec .plain 8 .resume crowdedCalled (crowdedWorld 4 #[64, 0])).map (·.1) =
      some (.fatal .invalidState) :=
  ⟨rfl, rfl, rfl, rfl, by decide, by decide, by decide, rfl⟩

/-- What that call leaves all the same, and that nothing was lost by calling a public that does not
exist. -/
theorem exec_unstarted_crowded :
    (exec .plain 8 (.function 0) crowdedParked (crowdedWorld 4 #[64, 0]) =
        some (.fatal .stackCollision, crowdedCalled, crowdedWorld 4 #[64, 0]) ∧
      states (stepper .plain) 8 (.function 0) crowdedParked (crowdedWorld 4 #[64, 0]) = [] ∧
      crowdedCalled.regs = crowdedParked.regs) ∧
    (exec .plain 8 (.function 1) crowdedParked (crowdedWorld 4 #[64, 0]) =
        some (.fatal .badIndex, crowdedParked, crowdedWorld 4 #[64, 0]) ∧
      states (stepper .plain) 8 (.function 1) crowdedParked (crowdedWorld 4 #[64, 0]) = [] ∧
      Refused crowdedParked (.function 1) (.fatal .badIndex) crowdedParked) := by
  have hCrowded : exec .plain 8 (.function 0) crowdedParked (crowdedWorld 4 #[64, 0]) =
      some (.fatal .stackCollision, crowdedCalled, crowdedWorld 4 #[64, 0]) := rfl
  have hMissing : exec .plain 8 (.function 1) crowdedParked (crowdedWorld 4 #[64, 0]) =
      some (.fatal .badIndex, crowdedParked, crowdedWorld 4 #[64, 0]) := rfl
  obtain ⟨-, -, hRegs, -⟩ := exec_unstarted hCrowded rfl
  obtain ⟨hRefused, -⟩ := exec_unstarted hMissing rfl
  exact ⟨⟨hCrowded, rfl, hRegs⟩, hMissing, rfl, hRefused⟩

end CellHost.Machine
