import CellHost.Machine.Natives

/-!
# Running a context

A run goes from instruction to instruction until one of them returns, suspends or fails. Fuel bounds
the number of instructions, and running out of it is no result at all: whatever a run gives, it gives
with any more fuel as well. Code that a host's callback runs is run with the fuel left over.

Entering a context, at `main` or at a public, notes the stack and heap pointers to go back to, pushes
the return address zero, where every program holds `halt 0`, and goes to the entry. A context that is
entered while it sleeps is parked again when the entry returns, exactly where it was.

## Main definitions

* `Machine.step` : one instruction in its world.
* `Machine.run` : instructions up to a pause.
* `Machine.exec` : an execution from an entry point.
-/

namespace CellHost.Machine

variable {σ : Type}

/-- Why a run paused. -/
inductive Pause where
  | returned (value : Cell)
  | slept (delay : Cell)
  | faulted (error : MachineError)
  deriving DecidableEq, Repr, Inhabited

/-- Where one instruction leads. -/
inductive Progress (σ : Type) where
  | continues (c : Context) (w : World σ)
  | pauses (p : Pause) (c : Context) (w : World σ)

/-- The context with its instruction pointer back at the start of the instruction. -/
def backTo (c : Context) (start : Nat) : Context := { c with regs.cip := start }

/-- A fault of the instruction that starts at `start`. -/
def faultAt (start : Nat) (e : MachineError) (c : Context) (w : World σ) : Progress σ :=
  .pauses (.faulted e) (backTo c start) w

/-- Put the result of a native into the primary register, or fail with its error. -/
def afterNative (start : Nat) (result : Except MachineError Cell) (c : Context) (w : World σ) :
    Progress σ :=
  match result with
  | .ok value => .continues { c with regs.pri := value } w
  | .error e => faultAt start e c w

/-- Call the native with a call index; the instruction that does so starts at `start`. -/
def callNative (emb : Embedder σ) (engine : Engine σ) (start : Nat) (index : Cell) (c : Context)
    (w : World σ) : Option (Progress σ) :=
  match c.native? index with
  | none => some (faultAt start .noCallback c w)
  | some (.custom id) =>
    (emb.native id engine c w).map fun (result, c', w') => afterNative start result c' w'
  | some native =>
    let (result, w') := native.call c w
    some (afterNative start result c w')

/-- What a checkpoint finds on a context without a hook once an abort is requested. -/
def withAbortHook (c : Context) (a : AbortState) : Context :=
  if c.hook.isNone && a.hookRequested then { c with hook := some a.hook } else c

/-- Ask the hook of a context, if there is one. -/
def askHook (emb : Embedder σ) (c : Context) (w : World σ) : Checkpoint × Context × World σ :=
  match c.hook with
  | none => (.proceed, c, w)
  | some .monitor =>
    let (verdict, w') := monitor c w
    (verdict, c, w')
  | some (.custom id) => emb.hook id c w

/-- Carry out a checkpoint. -/
def checkpoint (emb : Embedder σ) (start : Nat) (c : Context) (w : World σ) : Progress σ :=
  let (verdict, c', w') := askHook emb (withAbortHook c w.region.abort) w
  match verdict with
  | .proceed => .continues c' w'
  | .abort => faultAt start .forcedExit c' w'

/-- Execute one instruction. Code run by a callback is run by `engine`. -/
def step (emb : Embedder σ) (engine : Engine σ) (c : Context) (w : World σ) :
    Option (Progress σ) :=
  let w := w.beginInstruction
  match c.effect w.region.memory with
  | .next regs store => some (.continues { c with regs } (w.storeIf store))
  | .halt value => some (.pauses (.returned value) c w)
  | .sleep regs => some (.pauses (.slept regs.pri) { c with regs } w)
  | .fault e regs => some (.pauses (.faulted e) { c with regs } w)
  | .native regs index => callNative emb engine c.regs.cip index { c with regs } w
  | .checkpoint regs => some (checkpoint emb c.regs.cip { c with regs } w)

/-- What a context goes back to when an entry on it returns. -/
structure Parking where
  cip : Nat
  resetStk : Nat
  resetHea : Nat
  sleeping : Bool
  deriving DecidableEq, Repr, Inhabited

/-- The parking place of a context. -/
def parking (c : Context) : Parking := ⟨c.regs.cip, c.resetStk, c.resetHea, c.sleeping⟩

/-- Take a context back to a parking place. -/
def park (c : Context) (p : Parking) : Context :=
  { c with
    regs.cip := p.cip, resetStk := p.resetStk, resetHea := p.resetHea, sleeping := p.sleeping }

/-- The context with the stack and heap it had when its entry was called. -/
def unwind (c : Context) : Context :=
  { c with regs.stk := c.resetStk, regs.hea := c.resetHea }

/-- What a pause means to the caller. An entry that returns gives the stack and heap back, and the
parking place, if the call had one; an execution that was resumed has none. -/
def settle (place : Option Parking) (pause : Pause) (c : Context) : Outcome × Context :=
  match pause with
  | .returned value =>
    let c := unwind c
    (.success value, match place with
      | some p => park c p
      | none => c)
  | .slept delay => (.sleeping delay, { c with sleeping := true })
  | .faulted e => (.fatal e, c)

/-- A way of running a context up to a pause. -/
abbrev Runner (σ : Type) := Context → World σ → Option (Pause × Context × World σ)

/-- Run a context and settle its pause. -/
def runFrom (go : Runner σ) (place : Option Parking) (c : Context) (w : World σ) :
    Option (Outcome × Context × World σ) :=
  (go c w).map fun (pause, c', w') =>
    let (outcome, c'') := settle place pause c'
    (outcome, c'', w')

/-- Enter a context at a code address. -/
def enter (go : Runner σ) (address : Nat) (c : Context) (w : World σ) :
    Option (Outcome × Context × World σ) :=
  let place := parking c
  let c := { c with resetStk := c.regs.stk, resetHea := c.regs.hea, sleeping := false }
  match c.regs.push 0 with
  | .error e => some (.fatal e, c, w)
  | .ok (regs, s) => runFrom go (some place) { c with regs := { regs with cip := address } } (w.store s)

/-- Execute a context from an entry point, with a way of running it. -/
def execWith (go : Runner σ) : Engine σ := fun entry c w =>
  match entry with
  | .resume =>
    if c.sleeping then runFrom go none { c with sleeping := false } w
    else some (.fatal .invalidState, c, w)
  | .main =>
    match c.program.main with
    | some address => enter go address c w
    | none => some (.noEntryPoint, c, w)
  | .function index =>
    match c.program.publics[index]? with
    | some entry => enter go entry.address c w
    | none => some (.fatal .badIndex, c, w)

/-- Execute instructions until one pauses, at most `fuel` of them. -/
def run (emb : Embedder σ) : Nat → Runner σ
  | 0, _, _ => none
  | fuel + 1, c, w =>
    match step emb (execWith (run emb fuel)) c w with
    | none => none
    | some (.pauses pause c' w') => some (pause, c', w')
    | some (.continues c' w') => run emb fuel c' w'

/-- Execute a context from an entry point, with fuel for so many instructions. -/
def exec (emb : Embedder σ) (fuel : Nat) : Engine σ := execWith (run emb fuel)

end CellHost.Machine
