import CellHost.Machine.World
import CellHost.Numeral

/-!
# The built-in natives and the monitor

A native takes its arguments from the primary and the alternate register, and its result goes to the
primary one. The built-in natives change nothing of the context: they act on the world only.

The monitor hook folds the stack and heap in use into the registered usage record, if there is one,
and asks for a stop if an abort was requested.

## Main definitions

* `Native.call` : what a built-in native does.
* `monitor` : the built-in hook.
-/

namespace CellHost

/-- The character whose code a cell is. -/
def Cell.toChar? (cell : Cell) : Option Char :=
  (Cell.toAddress? cell).bind fun n =>
    if h : n.isValidChar then some (Char.ofNatAux n h) else none

/-- The number that a program argument writes. -/
def Cell.ofArgument? (text : String) : Option Cell :=
  (Numeral.signed? Cell.maxValue text).map Int32.ofInt

namespace Native

variable {σ : Type}

/-- Run a step on the registered timer. -/
def withTimer (c : Context) (w : World σ) (step : Nat → Except MachineError Cell × World σ) :
    Except MachineError Cell × World σ :=
  match c.timerRef? with
  | none => (.error .nativeFailed, w)
  | some ref => step ref

/-- Arm the timer with the primary register as interval in milliseconds, repeating if the alternate
register is not zero; an interval of zero disarms it. -/
def callSetTimer (c : Context) (w : World σ) : Except MachineError Cell × World σ :=
  match Cell.toAddress? c.regs.pri with
  | none => (.error .badParameter, w)
  | some ms =>
    withTimer c w fun ref =>
      if ms = 0 then (.ok 0, w.setTimer ref (w.timer ref).disarm)
      else
        let (now, w) := w.readClock
        (.ok 0, w.setTimer ref (Timer.armedAt now (ms * nanosPerMilli) (c.regs.alt != 0)))

/-- The program argument whose index is the primary register, as a number. -/
def callArgument (c : Context) : Except MachineError Cell :=
  let value := do
    let values ← c.arguments?
    let index ← Cell.toAddress? c.regs.pri
    Cell.ofArgument? (← values[index]?)
  match value with
  | some v => .ok v
  | none => .error .badParameter

/-- What a built-in native does; a native of the host's own is not called here. What is printed
reaches the console always: a console that refuses output, on which the two that print would fail,
is left out. -/
def call (native : Native) (c : Context) (w : World σ) : Except MachineError Cell × World σ :=
  match native with
  | .print => (.ok 0, w.print (toString c.regs.pri.toInt))
  | .printChar =>
    match Cell.toChar? c.regs.pri with
    | some char => (.ok 0, w.print (String.singleton char))
    | none => (.error .badParameter, w)
  | .tickCount =>
    let (now, w) := w.readClock
    (.ok (Cell.ofAddress (now / nanosPerMilli)), w)
  | .delay =>
    match Cell.toAddress? c.regs.pri with
    | some ms => (.ok 0, w.wait (ms * nanosPerMilli))
    | none => (.error .badParameter, w)
  | .argumentCount => (.ok (Int32.ofNat (c.arguments?.getD []).length), w)
  | .argument => (callArgument c, w)
  | .setTimer => callSetTimer c w
  | .getTimer =>
    withTimer c w fun ref =>
      let ms := ((w.timer ref).interval?.getD 0) / nanosPerMilli
      (.ok (Cell.ofAddress ms), w)
  | .killTimer => withTimer c w fun ref => (.ok 0, w.setTimer ref (w.timer ref).disarm)
  | .custom _ => (.error .noCallback, w)

end Native

/-- Record usage, and turn a pending abort request into a stop. -/
def monitor {σ : Type} (c : Context) (w : World σ) : Checkpoint × World σ :=
  let w := match c.usageRef? with
    | some ref => w.sampleUsage ref c.stackUsage c.heapUsage
    | none => w
  (if w.region.abort.aborted then .abort else .proceed, w)

end CellHost
