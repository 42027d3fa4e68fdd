import CellHost.Clock
import CellHost.Console
import CellHost.Entry
import CellHost.Machine.Effect
import CellHost.Registry

/-!
# Contexts

A *context* is the state of one running program that belongs to it alone: its registers, the bounds
of its memory, the natives its imports are bound to, its registry and its monitor hook. Everything
that a context shares with copies of it stands in a *region*: data memory, the objects that registry
entries refer to, and the abort state. A snapshot is therefore a plain copy of the context, used with
the same region.

Natives, monitor hooks and idle functions are known to contexts by name. The built-in ones have
constructors of their own; `custom` ones are numbered by the host that supplies them.

## Main definitions

* `Context.create?` : lay a program out in memory.
* `Context.bindNatives`, `Context.verifyNatives` : resolve the imports by name.
* `Context.read`, `Context.write` : guarded access to data memory.
-/

namespace CellHost

/-- A function that programs call through their imports. -/
inductive Native where
  | print
  | printChar
  | tickCount
  | delay
  | argumentCount
  | argument
  | setTimer
  | getTimer
  | killTimer
  | custom (id : Nat)
  deriving DecidableEq, Repr, Inhabited

/-- A function called at checkpoints. -/
inductive Hook where
  /-- Records usage and turns a pending abort request into a stop. -/
  | monitor
  | custom (id : Nat)
  deriving DecidableEq, Repr, Inhabited

/-- Where a request to stop a program is kept until a checkpoint finds it. A request is never taken
back. -/
structure AbortState where
  /-- Whether the program is to stop. -/
  aborted : Bool := false
  /-- Whether the hook is to be put on contexts that have none. -/
  hookRequested : Bool := false
  /-- The hook put on contexts once an abort is requested. -/
  hook : Hook := .monitor
  deriving DecidableEq, Repr, Inhabited

/-- The state after a request. -/
def AbortState.request (a : AbortState) : AbortState :=
  { a with aborted := true, hookRequested := true }

/-- What a context shares with its snapshots. -/
structure Region where
  memory : Memory := #[]
  objects : Objects := {}
  abort : AbortState := {}
  deriving Repr, Inhabited

/-- What belongs to one context alone. -/
structure Context where
  program : Program
  /-- The natives bound to the program's imports, by call index. -/
  natives : List (Option Native)
  layout : Layout
  regs : Registers
  /-- Stack pointer to go back to when the entry point returns. -/
  resetStk : Nat
  /-- Heap pointer to go back to when the entry point returns. -/
  resetHea : Nat
  /-- Whether the context is suspended and can be resumed. -/
  sleeping : Bool := false
  registry : Registry Entry := {}
  hook : Option Hook := none
  deriving Repr, Inhabited

namespace Context

/-- The most bytes that a block of memory can have, on any host. How much memory there is, is left
out. -/
def maxBlock : Nat := 0x7fffffffffffffff

/-- A program in a block of so many bytes, of which whole cells are used: nothing on its stack and on
its heap, and its imports not bound. -/
def layOut (p : Program) (bytes : Nat) : Context × Memory :=
  let cells := bytes / cellSize
  let stp := cells * cellSize
  let hlw := p.dataSize
  ({
    program := p
    natives := p.natives.map fun _ => none
    layout := ⟨hlw, stp⟩
    regs := { frm := stp, stk := stp, hea := hlw }
    resetStk := stp
    resetHea := hlw }, Memory.ofData p.data cells)

/-- Lay a program out in a block of so many bytes. The block has to hold the initialised data and two
cells for an entry frame. There is no result if no block can have so many bytes: asking for it ends
the process. -/
def create? (p : Program) (bytes : Nat) : Option (Except MachineError (Context × Memory)) :=
  let stp := bytes / cellSize * cellSize
  if stp < p.dataSize + 2 * cellSize then some (.error .outOfMemory)
  else if maxBlock < stp then none
  else some (.ok (layOut p bytes))

/-- The context of a program that is laid out, if it can be. Where that ends the process there is no
error to tell, and the one that stands here is of no account. -/
def create (p : Program) (bytes : Nat) : Except MachineError (Context × Memory) :=
  (create? p bytes).getD (.error .outOfMemory)

/-- A copy of the context. Used with the same region, it shares everything but the registers, the
bindings of the registry and the hook. -/
def snapshot (c : Context) : Context := c

/-- Bind the imports that a table of natives has by name, and leave the others as they are. -/
def bindNatives (c : Context) (table : List (String × Native)) : Context :=
  { c with
    natives := c.natives.zipWith
      (fun bound name => (table.lookup name).or bound) c.program.natives }

/-- How many imports a table of natives has. -/
def countBound (c : Context) (table : List (String × Native)) : Nat :=
  (c.program.natives.filter fun name => (table.lookup name).isSome).length

/-- Every import has to be bound. -/
def verifyNatives (c : Context) : Except MachineError Unit :=
  if c.natives.all Option.isSome then .ok () else .error .notFound

/-- The native bound to a call index. -/
def native? (c : Context) (index : Cell) : Option Native := do
  let i ← Cell.toAddress? index
  (← c.natives[i]?)

/-- The cell at an address. -/
def read (c : Context) (m : Memory) (address : Nat) : Except MachineError Cell :=
  c.regs.load c.layout m address

/-- Memory with a cell written at an address. -/
def write (c : Context) (m : Memory) (address : Nat) (value : Cell) :
    Except MachineError Memory :=
  match c.regs.store c.layout address value with
  | .ok s => .ok (m.apply s)
  | .error e => .error e

/-- Bytes of stack in use. -/
def stackUsage (c : Context) : Nat := c.regs.stackUsage c.layout

/-- Bytes of heap in use. -/
def heapUsage (c : Context) : Nat := c.regs.heapUsage c.layout

/-- What the next instruction does. -/
def effect (c : Context) (m : Memory) : Effect := Instruction.effect c.program c.layout m c.regs

/-- File an entry in the registry. -/
def setEntry (c : Context) (tag : Tag) (entry : Entry) : Except MachineError Context :=
  (c.registry.set tag entry).map fun registry => { c with registry }

/-- The registered timer. -/
def timerRef? (c : Context) : Option Nat := c.registry.find? .timer Entry.timer?

/-- The registered usage record. -/
def usageRef? (c : Context) : Option Nat := c.registry.find? .usage Entry.usage?

/-- The registered idle function. -/
def idleFunction? (c : Context) : Option IdleFunction := c.registry.find? .idle Entry.idle?

/-- The registered program arguments. -/
def arguments? (c : Context) : Option (List String) :=
  c.registry.find? .arguments Entry.arguments?

/-- The context as a listing shows it. -/
def describe (c : Context) : String :=
  let r := c.regs
  let fields : List (String × String) :=
    [("pri", toString r.pri.toInt), ("alt", toString r.alt.toInt), ("cip", toString r.cip),
     ("frm", toString r.frm), ("stk", toString r.stk), ("stp", toString c.layout.stp),
     ("hea", toString r.hea), ("hlw", toString c.layout.hlw), ("sleeping", toString c.sleeping),
     ("user_data", c.registry.describe), ("monitor", toString c.hook.isSome)]
  "Context \x7b " ++ ", ".intercalate (fields.map fun (name, value) => s!"{name}: {value}") ++ " \x7d"

end Context

end CellHost
