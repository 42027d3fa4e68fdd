import CellHost.Extension
import CellHost.Report

/-!
# Sessions

A session is one program with its context, the built-in extensions and a driver: what the command
line runs. Making one can fail, for want of memory or because an import has no native; such a failure
is a fault at address zero. A session can be run any number of times.

## Main definitions

* `Session.create?` : a session for a program.
* `Session.run` : one run, and the session after it.
-/

namespace CellHost

/-- What a session is to be like. -/
structure RunOptions where
  /-- Bytes of data memory. -/
  memorySize : Nat
  policy : SnapshotPolicy := .perSleep
  /-- Whether to keep high-water marks. -/
  monitorStack : Bool := false
  /-- The arguments of the program. -/
  arguments : List String := []
  deriving DecidableEq, Repr, Inhabited

/-- A program ready to run. -/
structure Session where
  context : Context
  world : World Unit
  driver : Driver
  /-- The image the program was loaded from. -/
  image : Option String := none
  /-- The reference of the usage record, if high-water marks are kept. -/
  usageRef : Option Nat := none

namespace Session

/-- A session for what became of laying its program out, under an abort state, on a clock. -/
def equip (options : RunOptions) (abort : AbortState) (clock : Clock)
    (laidOut : Except MachineError (Context × Memory)) : Except Fault Session :=
  match laidOut with
  | .error e => .error ⟨e, 0⟩
  | .ok (c, memory) =>
    let w : World Unit := { region := { memory, abort }, clock, host := () }
    match Extension.initAll (Extension.builtin options.arguments) c w with
    | (.error e, _, _) => .error ⟨e, 0⟩
    | (.ok (), c, w) =>
      let driver : Driver := { policy := options.policy }
      if options.monitorStack then
        match enableUsage c w with
        | (.error e, _, _) => .error ⟨e, 0⟩
        | (.ok ref, c, w) => .ok { context := c, world := w, driver, usageRef := some ref }
      else .ok { context := c, world := w, driver }

/-- A session for a program. There is no result if laying the program out ends the process. -/
def create? (p : Program) (options : RunOptions) (abort : AbortState) (clock : Clock) :
    Option (Except Fault Session) :=
  (Context.create? p options.memorySize).map (equip options abort clock)

/-- The session for a program, if it can be made. Where that ends the process there is no error to
tell, and the one that stands here is of no account. -/
def create (p : Program) (options : RunOptions) (abort : AbortState) (clock : Clock) :
    Except Fault Session :=
  equip options abort clock (Context.create p options.memorySize)

/-- The session with the image its program was loaded from. -/
def withImage (s : Session) (path : String) : Session := { s with image := some path }

/-- The program of a session. -/
def program (s : Session) : Program := s.context.program

/-- The high-water marks, if they are kept. -/
def usage? (s : Session) : Option Usage := s.usageRef.map s.world.usage

/-- What resolves fault locations in this session. -/
def reporter (s : Session) : Reporter := ⟨s.image⟩

/-- Write a cell of data memory; an address that cannot be written leaves it as it is. -/
def write (s : Session) (address : Nat) (value : Cell) : Session :=
  match s.context.write s.world.region.memory address value with
  | .ok memory => { s with world.region.memory := memory }
  | .error _ => s

/-- Run the program to its end. There is no result if that takes more than the fuel. -/
def run (s : Session) (fuel : Nat) : Option (Except Fault RunReport × Session) :=
  (s.driver.execute Embedder.plain fuel s.context s.world).map fun (result, driver, c, w) =>
    let after := { s with context := c, world := w, driver }
    (result.map fun value =>
      { value, stats := driver.stats, usage := after.usage?.getD {} }, after)

/-- Print the report of a fault of this session. -/
def report (s : Session) (files : FileReader) (f : Fault) : Session :=
  { s with world := s.world.print (s.reporter.render files s.program f) }

end Session

end CellHost
