import CellHost.Proofs.Assembly.Lines
import CellHost.Proofs.Driver.Faults
import CellHost.Report

/-!
# A fault is on the source line of the instruction that raised it

A fault bears the address of the instruction that raised it, an assembled program has each of its
instructions at the address where it was emitted, and at this address its line table gives the line
under which it was emitted. So a reporter that is given the program and the fault names the line from
which the failing instruction came, whichever way the program got there.

## Main definitions

* `Machine.Raises` : the instruction at an address raises the error of an execution.

## Main results

* `Reporter.resolve?_of_flag` : a program whose flag is right is resolved by its own table.
* `resolve?_of_raises` : the source line of a fault.
-/

namespace CellHost

open Machine

variable {σ : Type} {emb : Embedder σ}

/-- Where the flag says whether there is a line table, the table of the program decides, and no image
is looked at. -/
theorem Reporter.resolve?_of_flag {p : Program} (hFlag : p.hasLines = p.lines.isSome)
    (r : Reporter) (files : FileReader) (cip : Nat) :
    r.resolve? files p cip = p.lines.bind (·.lookup? cip) := by
  unfold resolve?
  cases hLines : p.lines with
  | some table => rfl
  | none =>
      rw [hLines] at hFlag
      rw [hFlag]
      rfl

/-- The instruction of a program at an address raises the error of an execution: the execution fails
with the error in this instruction, and leaves the context. -/
structure Machine.Raises (emb : Embedder σ) (fuel : Nat) (p : Program) (address : Nat)
    (x : Execution σ) (e : MachineError) (c : Context) : Prop where
  started : ∃ s, start? x.1 x.2.1 x.2.2 = some s
  failed : ∃ w, exec emb fuel x.1 x.2.1 x.2.2 = some (.fatal e, c, w)
  last : ∃ t, (states (stepper emb) fuel x.1 x.2.1 x.2.2).getLast? = some t ∧
    t.1.program = p ∧ t.1.regs.cip = address

/-- The error of an execution is reported at the address of the instruction that raised it, by the
execution and by every driven run that meets with it. -/
theorem Machine.Raises.address {fuel : Nat} {p : Program} {address : Nat} {x : Execution σ}
    {e : MachineError} {c : Context} (h : Raises emb fuel p address x e c) :
    c.regs.cip = address ∧
      ∀ d c₀ w₀ result d' c₁ w₁, Driver.Meets emb fuel d c₀ w₀ x e c →
        Driver.execute emb fuel d c₀ w₀ = some (result, d', c₁, w₁) →
        result = .error ⟨e, address⟩ := by
  obtain ⟨s, hStart⟩ := h.started
  obtain ⟨w, hExec⟩ := h.failed
  obtain ⟨t, hLast, -, rfl⟩ := h.last
  obtain ⟨u, hEnd, n, hStep⟩ := (failed_of_exec hStart hExec).last
  cases hLast.symm.trans hEnd
  have hCip : c.regs.cip = t.1.regs.cip := (failsAt_of_step hStep).cip
  refine ⟨hCip, fun d c₀ w₀ result d' c₁ w₁ hMeets hRun => ?_⟩
  rw [Driver.execute_of_meets hMeets hExec hRun, hCip]

/-- **The source line of a fault.** The line table of an assembled program gives for every address the
latest of the lines that were started at or below it. It has every instruction at its address, and
there the line is the one under which the instruction was emitted. So where an instruction of the
program raises an error, this line is what a reporter gives for the address at which an execution
has failed, and for the fault of a driven run that meets with the failure. -/
theorem resolve?_of_raises {ds : List Directive} {p : Program} (h : (assemble ds).2 = .ok p)
    (r : Reporter) (files : FileReader) :
    (∀ pc, p.lines.bind (·.lookup? pc) = lineAt? ds pc) ∧
    (∃ cellOf : Label → Cell, ∀ i address line, Emits ds i address line →
      Instruction.decode p address = .ok (i.op, (i.operands cellOf).headD 0) ∧
      r.resolve? files p address = line) ∧
    ∀ i address line, Emits ds i address line →
      ∀ (emb : Embedder σ) fuel x e c, Raises emb fuel p address x e c →
        r.resolve? files p c.regs.cip = line ∧
        ∀ d c₀ w₀ result d' c₁ w₁, Driver.Meets emb fuel d c₀ w₀ x e c →
          Driver.execute emb fuel d c₀ w₀ = some (result, d', c₁, w₁) →
          ∃ fault, result = .error fault ∧ fault.error = e ∧
            r.resolve? files p fault.cip = line := by
  have hFlag : p.hasLines = p.lines.isSome := (assembled_of_assemble h).flag
  have hLine : ∀ i address line, Emits ds i address line →
      r.resolve? files p address = line := by
    intro i address line hEmits
    rw [r.resolve?_of_flag hFlag, lookup?_of_assemble h, hEmits.lineAt?]
  refine ⟨lookup?_of_assemble h, ?_, ?_⟩
  · obtain ⟨cellOf, hDecodes⟩ := exists_decodes h
    exact ⟨cellOf, fun i address line hEmits =>
      ⟨hDecodes i address line hEmits, hLine i address line hEmits⟩⟩
  · intro i address line hEmits emb fuel x e c hRaises
    obtain ⟨hCip, hDriven⟩ := hRaises.address
    rw [hCip]
    refine ⟨hLine i address line hEmits, fun d c₀ w₀ result d' c₁ w₁ hMeets hRun => ?_⟩
    have hResult := hDriven d c₀ w₀ result d' c₁ w₁ hMeets hRun
    exact ⟨⟨e, address⟩, hResult, rfl, hLine i address line hEmits⟩

/-- Three lines of two files, with a division by zero in the second. -/
def dividing : List Directive :=
  [.main, .line "a.p" 1, .emit ⟨.constPri, (7 : Cell)⟩, .line "b.p" 2, .emit ⟨.constAlt, (0 : Cell)⟩,
   .emit ⟨.sdiv, ()⟩, .line "a.p" 3, .emit ⟨.ret, ()⟩]

/-- The program that they make. -/
def dividingProgram : Program where
  flags := 0x0001
  main := some 8
  code := #[Opcode.halt.toCell, 0, Opcode.brk.toCell, Opcode.constPri.toCell, 7, Opcode.brk.toCell,
    Opcode.constAlt.toCell, 0, Opcode.sdiv.toCell, Opcode.brk.toCell, Opcode.ret.toCell]
  lines := some ⟨["a.p", "b.p"], [⟨8, 0, 1⟩, ⟨20, 1, 2⟩, ⟨36, 0, 3⟩]⟩

/-- The program in a block of sixteen cells. -/
def dividingFresh : Context where
  program := dividingProgram
  natives := []
  layout := ⟨0, 64⟩
  regs := { frm := 64, stk := 64, hea := 0 }
  resetStk := 64
  resetHea := 0

/-- The world of the program. -/
def dividingWorld : World Unit where
  region := { memory := Array.replicate 16 0 }
  clock := .steady
  host := ()

/-- The division is emitted under the second line, at the address where it fails. -/
theorem resolve?_of_raises_dividing :
    (assemble dividing).2 = .ok dividingProgram ∧
    Emits dividing ⟨.sdiv, ()⟩ 32 (some ⟨"b.p", 2⟩) ∧
    ∃ fault, (Driver.execute .plain 16 {} dividingFresh dividingWorld).map (·.1) =
        some (.error fault) ∧ fault.error = .divideByZero ∧
      ({} : Reporter).resolve? (fun _ => .error .notFound) dividingProgram fault.cip =
        some ⟨"b.p", 2⟩ := by
  have hBuilt : (assemble dividing).2 = .ok dividingProgram := by rfl
  have hEmits : Emits dividing ⟨.sdiv, ()⟩ 32 (some ⟨"b.p", 2⟩) := by
    have hLater : Emits (dividing.take 5 ++ .emit ⟨.sdiv, ()⟩ :: dividing.drop 6) ⟨.sdiv, ()⟩ _ _ :=
      .later (List.mem_singleton_self _)
    exact hLater
  refine ⟨hBuilt, hEmits, ?_⟩
  obtain ⟨c, w, hExec⟩ : ∃ c w, exec .plain 16 .main dividingFresh dividingWorld.readClock.2 =
      some (.fatal .divideByZero, c, w) := ⟨_, _, rfl⟩
  have hRaises : Raises .plain 16 dividingProgram 32
      (.main, dividingFresh, dividingWorld.readClock.2) .divideByZero c :=
    ⟨⟨_, rfl⟩, ⟨w, hExec⟩, _, rfl, rfl, rfl⟩
  obtain ⟨-, -, hFaults⟩ := resolve?_of_raises hBuilt {} fun _ => .error .notFound
  obtain ⟨-, hDriven⟩ := hFaults _ _ _ hEmits _ _ _ _ _ hRaises
  cases hRun : Driver.execute .plain 16 {} dividingFresh dividingWorld with
  | none => cases hRun
  | some result =>
      obtain ⟨result, d', c₁, w₁⟩ := result
      obtain ⟨fault, rfl, hError, hLine⟩ := hDriven _ _ _ _ _ _ _ (.executes (.inl rfl)) hRun
      exact ⟨fault, rfl, hError, hLine⟩

end CellHost
