import CellHost.Machine.Run
import CellHost.Proofs.Machine.Shift

/-!
# Where an execution starts

Whatever its entry point, an execution does one of two things before any instruction is fetched: it
settles on the state in which its first instruction starts, or it is refused. Neither depends on how
the context is then run, so `execWith` is, for every runner, a run from that state or that refusal.

## Main definitions

* `start?` : the state in which the first instruction starts.
* `place` : the parking place that a returning execution goes back to.
* `refusal` : what an execution that never starts comes to.

## Main results

* `execWith_eq` : an execution is a run from its start, or its refusal.
* `start?_eq_some` : an execution starts where a parked context stopped, or where a context is
  entered.
-/

namespace CellHost.Machine

variable {σ : Type}

/-- The context with the marks to go back to taken at its stack and heap, and awake. -/
def marked (c : Context) : Context :=
  { c with resetStk := c.regs.stk, resetHea := c.regs.hea, sleeping := false }

/-- A context and its world, entered at a code address; there has to be room for the return
address. -/
def enterAt? (address : Nat) (c : Context) (w : World σ) : Option (Context × World σ) :=
  match c.regs.push 0 with
  | .error _ => none
  | .ok (regs, s) => some ({ marked c with regs := { regs with cip := address } }, w.store s)

/-- The code address at which an entry point other than `resume` enters a program. -/
def entryAddress? (p : Program) : EntryPoint → Option Nat
  | .main => p.main
  | .function index => p.publics[index]?.map Public.address
  | .resume => none

/-- The state in which the first instruction of an execution starts, if one does. -/
def start? (entry : EntryPoint) (c : Context) (w : World σ) : Option (Context × World σ) :=
  match entry with
  | .resume => if c.sleeping then some ({ c with sleeping := false }, w) else none
  | entry => (entryAddress? c.program entry).bind fun address => enterAt? address c w

/-- The parking place of an execution: resuming has none. -/
def place (entry : EntryPoint) (c : Context) : Option Parking :=
  match entry with
  | .resume => none
  | _ => some (parking c)

/-- What an execution comes to that is refused before its first instruction. -/
def refusal (entry : EntryPoint) (c : Context) : Outcome × Context :=
  match entry with
  | .resume => (.fatal .invalidState, c)
  | .main =>
    match c.program.main with
    | none => (.noEntryPoint, c)
    | some _ => (.fatal .stackCollision, marked c)
  | .function index =>
    match c.program.publics[index]? with
    | none => (.fatal .badIndex, c)
    | some _ => (.fatal .stackCollision, marked c)

theorem push_eq_error {r : Registers} {value : Cell} {e : MachineError}
    (h : r.push value = .error e) : e = .stackCollision := by
  unfold Registers.push at h
  split at h
  · exact (Except.error.inj h).symm
  · cases h

theorem enter_eq (go : Runner σ) (address : Nat) (c : Context) (w : World σ) :
    enter go address c w =
      match enterAt? address c w with
      | some (c₀, w₀) => runFrom go (some (parking c)) c₀ w₀
      | none => some (.fatal .stackCollision, marked c, w) := by
  unfold enter enterAt?
  dsimp only
  cases h : c.regs.push 0 with
  | error e => rw [push_eq_error h]; rfl
  | ok x => rfl

/-- **An execution is a run from its start, or its refusal.** -/
theorem execWith_eq (go : Runner σ) (entry : EntryPoint) (c : Context) (w : World σ) :
    execWith go entry c w =
      match start? entry c w with
      | some (c₀, w₀) => runFrom go (place entry c) c₀ w₀
      | none => some ((refusal entry c).1, (refusal entry c).2, w) := by
  cases entry with
  | resume =>
      unfold execWith start?
      dsimp only
      split <;> rfl
  | main =>
      unfold execWith start? refusal entryAddress?
      dsimp only
      cases c.program.main with
      | none => rfl
      | some address => exact enter_eq go address c w
  | function index =>
      unfold execWith start? refusal entryAddress?
      dsimp only
      cases c.program.publics[index]? with
      | none => rfl
      | some entry => exact enter_eq go entry.address c w

theorem execWith_of_start {go : Runner σ} {entry : EntryPoint} {c c₀ : Context} {w w₀ : World σ}
    (h : start? entry c w = some (c₀, w₀)) :
    execWith go entry c w = runFrom go (place entry c) c₀ w₀ := by
  rw [execWith_eq, h]

theorem execWith_of_refusal {go : Runner σ} {entry : EntryPoint} {c : Context} {w : World σ}
    (h : start? entry c w = none) :
    execWith go entry c w = some ((refusal entry c).1, (refusal entry c).2, w) := by
  rw [execWith_eq, h]

/-- What an execution that starts in a state comes to: what the run from there comes to. -/
theorem execWith_eq_some {go : Runner σ} {entry : EntryPoint} {c : Context} {w : World σ}
    {s : Context × World σ} {x : Outcome × Context × World σ} (hStart : start? entry c w = some s) :
    execWith go entry c w = some x ↔
      ∃ r, go s.1 s.2 = some r ∧
        x = ((settle (place entry c) r.1 r.2.1).1,
          (settle (place entry c) r.1 r.2.1).2, r.2.2) := by
  rw [execWith_of_start hStart, runFrom, Option.map_eq_some_iff]
  simp only [eq_comm (b := x)]

/-- A refused execution cannot be resumed. -/
theorem refusal_not_resumable (entry : EntryPoint) (c : Context) :
    (refusal entry c).1.isResumable = false := by
  unfold refusal
  split
  · rfl
  · split <;> rfl
  · split <;> rfl

/-- A refusal is no result of running. -/
theorem refusal_outcome (entry : EntryPoint) (c : Context) :
    (refusal entry c).1 = .noEntryPoint ∨ ∃ e, (refusal entry c).1 = .fatal e := by
  unfold refusal
  split
  · exact .inr ⟨_, rfl⟩
  · split
    · exact .inl rfl
    · exact .inr ⟨_, rfl⟩
  · split
    · exact .inr ⟨_, rfl⟩
    · exact .inr ⟨_, rfl⟩

/-- A refusal leaves the context as it was, or marked if a return address found no room. -/
theorem refusal_eq (entry : EntryPoint) (c : Context) :
    (refusal entry c).2 = c ∨ (refusal entry c).2 = marked c := by
  unfold refusal
  split
  · exact .inl rfl
  · split
    · exact .inl rfl
    · exact .inr rfl
  · split
    · exact .inl rfl
    · exact .inr rfl

/-- Settling a pause leaves the frame pointer alone. -/
theorem settle_frm (place : Option Parking) (pause : Pause) (c : Context) :
    (settle place pause c).2.regs.frm = c.regs.frm := by
  cases pause with
  | returned value => cases place <;> rfl
  | slept delay => rfl
  | faulted e => rfl

theorem place_of_ne_resume {entry : EntryPoint} {c : Context} (h : entry ≠ .resume) :
    place entry c = some (parking c) := by
  cases entry with
  | resume => exact absurd rfl h
  | main => rfl
  | function index => rfl

/-- Where a context is entered: with a return address pushed, and with marks where its pointers
were. -/
theorem enterAt?_eq_some {address : Nat} {c : Context} {w : World σ} {s : Context × World σ}
    (h : enterAt? address c w = some s) :
    c.regs.hea + cellSize ≤ c.regs.stk ∧
      s = ({ marked c with regs := { c.regs with stk := c.regs.stk - cellSize, cip := address } },
        w.store ⟨c.regs.stk - cellSize, 0⟩) := by
  unfold enterAt? at h
  split at h
  · cases h
  next regs store hPush =>
    obtain ⟨hRoom, rfl, rfl⟩ := Instruction.push_ok hPush
    cases h
    exact ⟨hRoom, rfl⟩

/-- A context is entered wherever there is room for a return address. -/
theorem enterAt?_of_room {address : Nat} {c : Context} {w : World σ}
    (h : c.regs.hea + cellSize ≤ c.regs.stk) :
    enterAt? address c w =
      some ({ marked c with regs := { c.regs with stk := c.regs.stk - cellSize, cip := address } },
        w.store ⟨c.regs.stk - cellSize, 0⟩) := by
  unfold enterAt?
  rw [Instruction.push_of_room h]

/-- **An execution starts where a parked context stopped, or where a context is entered.** -/
theorem start?_eq_some {entry : EntryPoint} {c : Context} {w : World σ} {s : Context × World σ}
    (h : start? entry c w = some s) :
    (entry = .resume ∧ c.sleeping = true ∧ s = ({ c with sleeping := false }, w)) ∨
    (entry ≠ .resume ∧ ∃ address, enterAt? address c w = some s) := by
  cases entry with
  | resume =>
      unfold start? at h
      dsimp only at h
      split at h
      next hAsleep =>
        cases h
        exact .inl ⟨rfl, hAsleep, rfl⟩
      · cases h
  | main =>
      obtain ⟨address, -, hAt⟩ := Option.bind_eq_some_iff.mp h
      exact .inr ⟨by simp, address, hAt⟩
  | function index =>
      obtain ⟨address, -, hAt⟩ := Option.bind_eq_some_iff.mp h
      exact .inr ⟨by simp, address, hAt⟩

/-- An execution starts awake. -/
theorem start?_awake {entry : EntryPoint} {c : Context} {w : World σ} {s : Context × World σ}
    (h : start? entry c w = some s) : s.1.sleeping = false := by
  rcases start?_eq_some h with ⟨-, -, rfl⟩ | ⟨-, address, hAt⟩
  · rfl
  · obtain ⟨-, rfl⟩ := enterAt?_eq_some hAt
    rfl

/-- Behind a success there is a run that returned. -/
theorem returned_of_execWith {go : Runner σ} {entry : EntryPoint} {c c' : Context} {w w' : World σ}
    {v : Cell} (h : execWith go entry c w = some (.success v, c', w')) :
    ∃ s c₁, start? entry c w = some s ∧ go s.1 s.2 = some (.returned v, c₁, w') ∧
      c' = (settle (place entry c) (.returned v) c₁).2 := by
  cases hStart : start? entry c w with
  | none =>
      have hOutcome : (refusal entry c).1 = .success v :=
        congrArg Prod.fst (Option.some.inj ((execWith_of_refusal hStart).symm.trans h))
      rcases refusal_outcome entry c with hNone | ⟨e, hError⟩
      · cases hNone.symm.trans hOutcome
      · cases hError.symm.trans hOutcome
  | some s =>
      obtain ⟨⟨pause, c₁, w₁⟩, hRun, hSettle⟩ := (execWith_eq_some hStart).mp h
      cases pause with
      | returned value => cases hSettle; exact ⟨s, c₁, rfl, hRun, rfl⟩
      | slept d => cases hSettle
      | faulted e => cases hSettle

end CellHost.Machine
