import CellHost.Machine.Context

/-!
# The world of a run

A run acts on a context and on the world around it: the region that the context shares with its
snapshots, the clock, the console, the interrupts that arrive from outside, and whatever state the
host program itself carries along. The outside enters as data: which readings the clock gives, and
before which instructions an interrupt arrives, is fixed by the world a run starts in, and both are
arbitrary.

A host that adds natives, hooks or idle functions of its own describes them in an `Embedder`. They
may run code on the context they are given, through the engine that is handed to them.

## Main definitions

* `World` : what a run acts on besides a context.
* `Outcome`, `EntryPoint`, `Engine` : running a context from an entry point.
* `Embedder` : the meaning of a host's own callbacks.
-/

namespace CellHost

/-- Requests to stop from outside: whether one arrives before the instruction of a given number,
counting all instructions from the start of the world. -/
structure Interrupts where
  due : Nat → Bool := fun _ => false
  /-- Instructions started so far. -/
  started : Nat := 0

/-- What a run acts on besides its context. The state of the host program has type `σ`. -/
structure World (σ : Type) where
  region : Region
  clock : Clock
  console : Console := {}
  interrupts : Interrupts := {}
  host : σ

namespace World

variable {σ : Type}

/-- Take a reading of the clock. -/
def readClock (w : World σ) : Nat × World σ := (w.clock.now, { w with clock := w.clock.tick })

/-- Let time pass. -/
def wait (w : World σ) (nanos : Nat) : World σ := { w with clock := w.clock.wait nanos }

/-- Write to the console. -/
def print (w : World σ) (text : String) : World σ :=
  { w with console := w.console.write w.clock.waited text }

/-- Write a cell of data memory. -/
def store (w : World σ) (s : Store) : World σ :=
  { w with region.memory := w.region.memory.apply s }

/-- Write a cell of data memory if there is one to write. -/
def storeIf (w : World σ) : Option Store → World σ
  | some s => w.store s
  | none => w

/-- Ask the running program to stop at its next checkpoint. -/
def requestAbort (w : World σ) : World σ :=
  { w with region.abort := w.region.abort.request }

/-- Count an instruction, after an interrupt that arrives before it. -/
def beginInstruction (w : World σ) : World σ :=
  let w := if w.interrupts.due w.interrupts.started then w.requestAbort else w
  { w with interrupts.started := w.interrupts.started + 1 }

/-- The usage record with a reference. -/
def usage (w : World σ) (ref : Nat) : Usage := w.region.objects.usages.getD ref {}

/-- Fold a sample into a usage record. -/
def sampleUsage (w : World σ) (ref stack heap : Nat) : World σ :=
  { w with region.objects.usages := w.region.objects.usages.modify ref (·.sample stack heap) }

/-- A fresh usage record and its reference. -/
def newUsage (w : World σ) : Nat × World σ :=
  (w.region.objects.usages.size,
    { w with region.objects.usages := w.region.objects.usages.push {} })

/-- The timer with a reference. -/
def timer (w : World σ) (ref : Nat) : Timer := w.region.objects.timers.getD ref {}

/-- Change a timer. -/
def setTimer (w : World σ) (ref : Nat) (timer : Timer) : World σ :=
  { w with region.objects.timers := w.region.objects.timers.setIfInBounds ref timer }

/-- A fresh timer and its reference. -/
def newTimer (w : World σ) : Nat × World σ :=
  (w.region.objects.timers.size,
    { w with region.objects.timers := w.region.objects.timers.push {} })

end World

/-- Where an execution starts. -/
inductive EntryPoint where
  /-- The program's `main`. -/
  | main
  /-- Where a sleeping context stopped. -/
  | resume
  /-- The public with this index. -/
  | function (index : Nat)
  deriving DecidableEq, Repr, Inhabited

/-- What an execution came to. -/
inductive Outcome where
  | success (value : Cell)
  /-- Suspended, wanting to be resumed after so many milliseconds. -/
  | sleeping (delay : Cell)
  /-- The program has no `main`. -/
  | noEntryPoint
  | fatal (error : MachineError)
  deriving DecidableEq, Repr, Inhabited

/-- Only a suspended execution can be resumed. -/
def Outcome.isResumable : Outcome → Bool
  | .sleeping _ => true
  | _ => false

/-- Executing a context from an entry point. There is no result if the execution takes more
instructions than it was granted. -/
def Engine (σ : Type) : Type :=
  EntryPoint → Context → World σ → Option (Outcome × Context × World σ)

/-- What a monitor hook decides. -/
inductive Checkpoint where
  | proceed
  | abort
  deriving DecidableEq, Repr, Inhabited

/-- What a call of an idle function came to. -/
inductive IdleStatus where
  /-- Call again if there is time. -/
  | again
  /-- Nothing left to serve. -/
  | done
  | failed (error : MachineError)
  deriving DecidableEq, Repr, Inhabited

/-- The meaning of a host's own callbacks, by number. A callback that runs code has no result if
that code does not come to an end. -/
structure Embedder (σ : Type) where
  native : Nat → Engine σ → Context → World σ →
      Option (Except MachineError Cell × Context × World σ) :=
    fun _ _ c w => some (.error .noCallback, c, w)
  hook : Nat → Context → World σ → Checkpoint × Context × World σ :=
    fun _ c w => (.proceed, c, w)
  idle : Nat → Engine σ → Context → World σ → Option (IdleStatus × Context × World σ) :=
    fun _ _ c w => some (.done, c, w)

/-- The host without callbacks of its own. -/
def Embedder.plain {σ : Type} : Embedder σ := {}

end CellHost
