import CellHost.Cell

/-!
# Machine errors

Every way in which running, setting up or loading a program can fail, with the number and the
wording that a report uses. The numbers have gaps: `14`, `15`, `24` and `26` name no error. A
program can raise an error by number; a number that names none raises the general error, and zero
raises nothing.

## Main results

* `MachineError.ofCode?_code` : an error raised by its own number is that error.
-/

namespace CellHost

/-- Why a program stopped, or could not be started. -/
inductive MachineError where
  | forcedExit
  | assertion
  | stackCollision
  | outOfBounds
  | memoryAccess
  | invalidInstruction
  | stackUnderflow
  | heapUnderflow
  | noCallback
  | nativeFailed
  | divideByZero
  | asleep
  | invalidState
  | outOfMemory
  | badFormat
  | newerVersion
  | notFound
  | badIndex
  | noDebugger
  | notInitialized
  | userDataFull
  | badParameter
  | general
  deriving DecidableEq, Repr, Inhabited

namespace MachineError

/-- Every error, in order of number. -/
def all : List MachineError :=
  [forcedExit, assertion, stackCollision, outOfBounds, memoryAccess, invalidInstruction,
   stackUnderflow, heapUnderflow, noCallback, nativeFailed, divideByZero, asleep, invalidState,
   outOfMemory, badFormat, newerVersion, notFound, badIndex, noDebugger, notInitialized,
   userDataFull, badParameter, general]

/-- The number of an error in reports and in `halt` instructions. -/
def code : MachineError → Nat
  | forcedExit => 1
  | assertion => 2
  | stackCollision => 3
  | outOfBounds => 4
  | memoryAccess => 5
  | invalidInstruction => 6
  | stackUnderflow => 7
  | heapUnderflow => 8
  | noCallback => 9
  | nativeFailed => 10
  | divideByZero => 11
  | asleep => 12
  | invalidState => 13
  | outOfMemory => 16
  | badFormat => 17
  | newerVersion => 18
  | notFound => 19
  | badIndex => 20
  | noDebugger => 21
  | notInitialized => 22
  | userDataFull => 23
  | badParameter => 25
  | general => 27

/-- The wording of an error. -/
def message : MachineError → String
  | forcedExit => "forced exit"
  | assertion => "assertion failed"
  | stackCollision => "stack/heap collision (insufficient stack size)"
  | outOfBounds => "array index out of bounds"
  | memoryAccess => "invalid memory access"
  | invalidInstruction => "invalid instruction"
  | stackUnderflow => "stack underflow"
  | heapUnderflow => "heap underflow"
  | noCallback => "no (valid) native function callback"
  | nativeFailed => "native function failed"
  | divideByZero => "divide by zero"
  | asleep => "go into sleepmode - code can be restarted"
  | invalidState => "invalid state for this access"
  | outOfMemory => "out of memory"
  | badFormat => "invalid/unsupported P-code file format"
  | newerVersion => "file is for a newer version of the engine"
  | notFound => "native/public function is not found"
  | badIndex => "invalid index parameter (bad entry point)"
  | noDebugger => "debugger cannot run"
  | notInitialized => "engine not initialized (or doubly initialized)"
  | userDataFull => "unable to set user data field (table full)"
  | badParameter => "parameter error"
  | general => "general error (unknown or unspecific error)"

/-- The error that a number raises: none for zero, the general error for a number of no error. -/
def ofCode? (code : Cell) : Option MachineError :=
  if code = 0 then none
  else some ((all.find? fun e => Int32.ofNat e.code == code).getD general)

/-- Whether the error is a requested stop and no fault of the program. -/
def isAbort (e : MachineError) : Bool := e == forcedExit

theorem ofCode?_code (e : MachineError) : ofCode? (Int32.ofNat e.code) = some e := by
  cases e <;> decide

theorem ofCode?_eq_none_iff (code : Cell) : ofCode? code = none ↔ code = 0 := by
  simp [ofCode?]

theorem mem_all (e : MachineError) : e ∈ all := by
  cases e <;> decide

end MachineError

end CellHost
