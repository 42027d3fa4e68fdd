import CellHost.Opcode
import CellHost.Program

/-!
# The assembler

A program is assembled from a list of *directives*: instructions, labels and their places, publics,
natives, globals, `main` and source lines. Jump targets are labels, which may be placed after they
are used: a label's use leaves a zero operand and a note of it, and `Assembler.build` fills the
noted operands in.

The first instruction of every assembled program is `halt 0` at address zero. It is where an entry
point returns to.

Directives answer what their author needs to go on: the index of a public or a native, the address
of a global, the number of a label. A refused directive (a public of a name that is taken, a label
placed twice) leaves the program as it was.

## Main definitions

* `Instr` : an instruction whose operand, if any, is of the kind its operation takes.
* `Assembler.apply` : the effect and the answer of one directive.
* `Assembler.build` : the assembled program, or the first label used and never placed.
-/

namespace CellHost

/-- A place in code, known by its number until it is bound to an address. -/
structure Label where
  number : Nat
  deriving DecidableEq, Repr, Inhabited

/-- Operands of each kind; a code address is written as a label. -/
def Operand : OperandKind → Type
  | .absent => Unit
  | .value => Cell
  | .target => Label

/-- An instruction: an operation with an operand of its kind. -/
structure Instr where
  op : Opcode
  operand : Operand op.operandKind

/-- What makes a directive or a whole assembly fail. -/
inductive AssemblyError where
  | unboundLabel (label : Label)
  | labelBoundTwice (label : Label)
  | duplicatePublic (name : String)
  deriving DecidableEq, Repr, Inhabited

/-- The wording of an assembly error. -/
def AssemblyError.message : AssemblyError → String
  | .unboundLabel label => s!"label {label.number} is used but never bound"
  | .labelBoundTwice label => s!"label {label.number} is bound twice"
  | .duplicatePublic name => s!"duplicate public function '{name}'"

/-- One step of an assembly. -/
inductive Directive where
  /-- Make the current address the entry of `main`. -/
  | main
  /-- Offer the current address as a public. -/
  | declarePublic (name : String)
  /-- Import a native; importing one again gives the index it has. -/
  | importNative (name : String)
  /-- Append a cell to the initialised data. -/
  | global (value : Cell)
  /-- A fresh label. -/
  | label
  /-- Place a label at the current address. -/
  | bind (label : Label)
  /-- Start a source line: a row of the line table and a checkpoint. -/
  | line (file : String) (number : Nat)
  /-- Ask for the current address. -/
  | here
  /-- Append an instruction. -/
  | emit (instr : Instr)

/-- The answer to a directive. -/
inductive Reply where
  | done
  | bound
  | index (n : Nat)
  | cell (value : Cell)
  | refused (error : AssemblyError)
  deriving DecidableEq, Repr, Inhabited

/-- An assembly in progress. -/
structure Assembler where
  code : Array Cell := #[]
  /-- Operand cells that await a label's address, in order of emission. -/
  fixups : Array (Nat × Label) := #[]
  /-- The addresses of the labels handed out so far, by number. -/
  labels : Array (Option Nat) := #[]
  data : Array Cell := #[]
  publics : List Public := []
  natives : List String := []
  main : Option Nat := none
  lines : LineTable := {}
  /-- Whether a checkpoint was emitted. -/
  checks : Bool := false

namespace Assembler

/-- The current code address. -/
def here (a : Assembler) : Nat := a.code.size * cellSize

/-- The address a label was bound to. -/
def addressOf? (a : Assembler) (label : Label) : Option Nat := a.labels[label.number]?.join

/-- Append an instruction to the code. -/
def emit (a : Assembler) (instr : Instr) : Assembler :=
  let checks := a.checks || instr.op == .brk
  let code := a.code.push instr.op.toCell
  match instr.op.operandKind, instr.operand with
  | .absent, _ => { a with code, checks }
  | .value, v => { a with code := code.push v, checks }
  | .target, label =>
    { a with code := code.push 0, fixups := a.fixups.push (code.size, label), checks }

/-- The assembly that every program starts from. -/
def initial : Assembler := emit {} ⟨.halt, (0 : Cell)⟩

/-- Bind a label to the current address, unless it has one. -/
def bind (a : Assembler) (label : Label) : Except AssemblyError Assembler :=
  match a.addressOf? label with
  | some _ => .error (.labelBoundTwice label)
  | none => .ok { a with labels := a.labels.setIfInBounds label.number (some a.here) }

/-- Offer the current address under a name, unless the name is taken. -/
def declarePublic (a : Assembler) (name : String) : Except AssemblyError Assembler :=
  if a.publics.any fun entry => entry.name == name then .error (.duplicatePublic name)
  else .ok { a with publics := a.publics ++ [⟨name, a.here⟩] }

/-- Import a native, giving its index. -/
def importNative (a : Assembler) (name : String) : Assembler × Nat :=
  match a.natives.idxOf? name with
  | some index => (a, index)
  | none => ({ a with natives := a.natives ++ [name] }, a.natives.length)

/-- Start a source line at the current address. -/
def line (a : Assembler) (file : String) (number : Nat) : Assembler :=
  let (lines, index) := a.lines.addFile file
  { a with lines := lines.addRow a.here index number }.emit ⟨.brk, ()⟩

/-- The effect of a directive, and its answer. -/
def apply (a : Assembler) : Directive → Assembler × Reply
  | .main => ({ a with main := some a.here }, .done)
  | .declarePublic name =>
    match a.declarePublic name with
    | .ok a' => (a', .index a.publics.length)
    | .error e => (a, .refused e)
  | .importNative name =>
    let (a', index) := a.importNative name
    (a', .cell (Int32.ofNat index))
  | .global value =>
    ({ a with data := a.data.push value }, .cell (Cell.ofAddress (a.data.size * cellSize)))
  | .label => ({ a with labels := a.labels.push none }, .index a.labels.size)
  | .bind label =>
    match a.bind label with
    | .ok a' => (a', .bound)
    | .error e => (a, .refused e)
  | .line file number => (a.line file number, .done)
  | .here => (a, .index a.here)
  | .emit instr => (a.emit instr, .done)

/-- Apply directives in order, collecting the answers. -/
def applyAll (a : Assembler) (directives : List Directive) : Assembler × List Reply :=
  let (a', replies) := directives.foldl
    (fun (acc : Assembler × List Reply) d =>
      let (next, reply) := acc.1.apply d
      (next, reply :: acc.2))
    (a, [])
  (a', replies.reverse)

/-- Write the addresses of labels over the operands that await them. -/
def resolve (a : Assembler) : List (Nat × Label) → Array Cell → Except AssemblyError (Array Cell)
  | [], code => .ok code
  | (slot, label) :: rest, code =>
    match a.addressOf? label with
    | none => .error (.unboundLabel label)
    | some address => a.resolve rest (code.setIfInBounds slot (Cell.ofAddress address))

/-- The assembled program. -/
def build (a : Assembler) : Except AssemblyError Program := do
  let code ← a.resolve a.fixups.toList a.code
  let unchecked := if a.checks then 0 else Program.uncheckedFlag
  let lined := if a.lines.isEmpty then 0 else Program.linesFlag
  return {
    flags := unchecked ||| lined
    main := a.main
    code := code
    data := a.data
    publics := a.publics
    natives := a.natives
    lines := if a.lines.isEmpty then none else some a.lines }

end Assembler

/-- Assemble a program: the answers of the directives, and the program they build. -/
def assemble (directives : List Directive) : List Reply × Except AssemblyError Program :=
  let (a, replies) := Assembler.initial.applyAll directives
  (replies, a.build)

end CellHost
