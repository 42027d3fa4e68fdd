import CellHost.Machine.Natives

/-!
# Extensions

An extension offers natives under names that programs import, and sets up what they need on a
context. There are two: the *core* extension with console, time and arguments, and the *time*
extension with a timer and the idle function that serves it. After all extensions are set up, all
imports of the program have to be bound.

Setting up can fail for want of a registry slot. What was set up before the failure stays.

## Main definitions

* `Extension.init`, `Extension.initAll` : set extensions up on a context.
* `enableUsage` : register a usage record and the monitor hook.
-/

namespace CellHost

/-- A native offered under a name. -/
structure Export where
  name : String
  /-- What it takes and gives, for listings. -/
  signature : String
  native : Native
  deriving DecidableEq, Repr, Inhabited

/-- An export in listings. -/
def Export.describe (e : Export) : String := e.name ++ e.signature

/-- A provider of natives. -/
inductive Extension where
  /-- Console, time and the given program arguments. -/
  | core (arguments : List String)
  /-- A timer, and the idle function that serves it. -/
  | time
  deriving DecidableEq, Repr, Inhabited

namespace Extension

variable {σ : Type}

/-- The name of an extension. -/
def name : Extension → String
  | core _ => "core"
  | time => "time"

/-- What an extension offers. -/
def exports : Extension → List Export
  | core _ => [
      ⟨"print", "(value) -> 0", .print⟩,
      ⟨"printc", "(char) -> 0", .printChar⟩,
      ⟨"tickcount", "() -> ms", .tickCount⟩,
      ⟨"delay", "(ms) -> 0", .delay⟩,
      ⟨"numargs", "() -> count", .argumentCount⟩,
      ⟨"getarg", "(index) -> value", .argument⟩]
  | time => [
      ⟨"settimer", "(ms, repeat) -> 0", .setTimer⟩,
      ⟨"gettimer", "() -> ms", .getTimer⟩,
      ⟨"killtimer", "() -> 0", .killTimer⟩]

/-- What an extension offers, as a table for binding. -/
def table (e : Extension) : List (String × Native) := e.exports.map fun x => (x.name, x.native)

/-- The extensions of every session. -/
def builtin (arguments : List String) : List Extension := [core arguments, time]

/-- File an entry, keeping the context as it is where that fails. -/
def file (c : Context) (tag : Tag) (entry : Entry) : Except MachineError Unit × Context :=
  match c.setEntry tag entry with
  | .ok c' => (.ok (), c')
  | .error e => (.error e, c)

/-- Set an extension up on a context. -/
def init (e : Extension) (c : Context) (w : World σ) :
    Except MachineError Unit × Context × World σ :=
  let c := c.bindNatives e.table
  match e with
  | core [] => (.ok (), c, w)
  | core arguments =>
    let (result, c) := file c .arguments (.arguments arguments)
    (result, c, w)
  | time =>
    let (ref, w) := w.newTimer
    match file c .timer (.timer ref) with
    | (.error err, c) => (.error err, c, w)
    | (.ok (), c) =>
      let (result, c) := file c .idle (.idle .timer)
      (result, c, w)

/-- Set extensions up in order, then check that every import is bound. -/
def initAll : List Extension → Context → World σ → Except MachineError Unit × Context × World σ
  | [], c, w => (c.verifyNatives, c, w)
  | e :: rest, c, w =>
    match e.init c w with
    | (.ok (), c, w) => initAll rest c w
    | (.error err, c, w) => (.error err, c, w)

end Extension

/-- Register a fresh usage record and the monitor hook, so that usage is known from the next
checkpoint on; gives the record's reference. -/
def enableUsage {σ : Type} (c : Context) (w : World σ) :
    Except MachineError Nat × Context × World σ :=
  let (ref, w) := w.newUsage
  match Extension.file c .usage (.usage ref) with
  | (.ok (), c) => (.ok ref, { c with hook := some .monitor }, w)
  | (.error e, c) => (.error e, c, w)

end CellHost
