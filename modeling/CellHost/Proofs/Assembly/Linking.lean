import CellHost.Proofs.Assembly.Progress
import Mathlib.Data.Option.Basic

/-!
# The assembler links what it is asked for

Code is taken apart from its first cell on: a cell names an operation, and the operation says how
many cells follow as its operands. An assembled program, taken apart so, is its listing, with the
address of each label in the label's place. An assembly fails only where a label is used and never
placed, and then the first such use is the one that is reported.

## Main definitions

* `disassemble` : the operations in code, with their operands.
* `Links` : a program whose code is the listing of directives.

## Main results

* `assemble_links` : when an assembly succeeds, how it fails, and what it makes.
-/

namespace CellHost

/-! ## Taking code apart -/

/-- The operations in code, each with the cells of its operands. -/
def disassemble : List Cell → Option (List (Opcode × List Cell))
  | [] => some []
  | cell :: rest => do
    let op ← Opcode.ofCell? cell
    let operands := rest.take op.operandCount
    guard (operands.length = op.operandCount)
    return (op, operands) :: (← disassemble (rest.drop op.operandCount))
  termination_by code => code.length
  decreasing_by
    rw [List.length_drop, List.length_cons]
    exact Nat.lt_succ_of_le (Nat.sub_le _ _)

theorem disassemble_encode (cellOf : Label → Cell) (i : Instr) (rest : List Cell) :
    disassemble (i.encode cellOf ++ rest) =
      (disassemble rest).map ((i.op, i.operands cellOf) :: ·) := by
  have hLength := i.length_operands cellOf
  rw [Instr.encode, List.cons_append, disassemble, Opcode.ofCell?_toCell]
  simp only [Option.bind_eq_bind, Option.bind_some]
  rw [List.take_left' hLength, List.drop_left' hLength, hLength]
  cases disassemble rest <;> simp [guard]

/-- The cells of instructions are taken apart into these instructions. -/
theorem disassemble_codeOf (cellOf : Label → Cell) (is : List Instr) :
    disassemble (codeOf cellOf is) = some (is.map fun i => (i.op, i.operands cellOf)) := by
  induction is with
  | nil => rw [codeOf, List.flatMap_nil, disassemble, List.map_nil]
  | cons i is ih => rw [codeOf_cons, disassemble_encode, ih, List.map_cons, Option.map_some]

example : disassemble [1, 0, 0x30, 8] = some [(.halt, [0]), (.jump, [8])] := by cbv

/-! ## Resolving labels -/

theorem slotsFrom_map_snd (first : Nat) (is : List Instr) :
    (slotsFrom first is).map (·.2) = is.filterMap Instr.target? := by
  induction is generalizing first with
  | nil => rfl
  | cons i is ih =>
      rw [slotsFrom, List.map_append, ih, List.filterMap_cons]
      cases i.target? <;> rfl

/-- Writing a label's cell over the zero that stands for it. -/
theorem set_operand {i : Instr} {label : Label} (h : i.target? = some label)
    (cellOf : Label → Cell) (done rest : List Cell) :
    (done ++ i.encode (fun _ => 0) ++ rest).set (done.length + 1) (cellOf label) =
      done ++ i.encode cellOf ++ rest := by
  rw [Instr.encode, Instr.encode, Instr.operands_of_target h, Instr.operands_of_target h]
  simp

namespace Assembler

variable (a : Assembler)

theorem resolve_error {slots : List (Nat × Label)} {code : Array Cell} {label : Label}
    (h : (slots.map (·.2)).find? (fun used => (a.addressOf? used).isNone) = some label) :
    a.resolve slots code = .error (.unboundLabel label) := by
  induction slots generalizing code with
  | nil => cases h
  | cons slot slots ih =>
      obtain ⟨index, used⟩ := slot
      rw [List.map_cons, List.find?_cons] at h
      rw [resolve]
      cases hUsed : a.addressOf? used with
      | none =>
          rw [hUsed] at h
          cases h
          rfl
      | some address =>
          rw [hUsed] at h
          exact ih h

/-- Behind code that is done, every zero that stands for a label gets the label's address. -/
theorem resolve_ok {addressOf : Label → Nat} {is : List Instr}
    (h : ∀ label ∈ is.filterMap Instr.target?, a.addressOf? label = some (addressOf label))
    (done : List Cell) :
    a.resolve (slotsFrom done.length is) (done ++ codeOf (fun _ => 0) is).toArray =
      .ok (done ++ codeOf (fun label => Cell.ofAddress (addressOf label)) is).toArray := by
  -- Each instruction joins `done` with its label resolved, so the next one is behind `done` again.
  induction is generalizing done with
  | nil => rfl
  | cons i is ih =>
      rw [List.filterMap_cons] at h
      rw [slotsFrom, codeOf_cons, codeOf_cons, ← List.append_assoc, ← List.append_assoc]
      cases hTarget : i.target? with
      | none =>
          rw [hTarget] at h
          have hSame : (i.encode fun _ => 0) =
              i.encode fun label => Cell.ofAddress (addressOf label) := by
            rw [Instr.encode, Instr.encode, Instr.operands_of_no_target hTarget]
          have hNext := ih h (done ++ i.encode fun _ => 0)
          rw [List.length_append, Instr.length_encode] at hNext
          rw [← hSame]
          exact hNext
      | some label =>
          rw [hTarget] at h
          obtain ⟨hLabel, hOthers⟩ := List.forall_mem_cons.mp h
          have hNext := ih hOthers
            (done ++ i.encode fun label => Cell.ofAddress (addressOf label))
          rw [List.length_append, Instr.length_encode] at hNext
          rw [Option.map_some, Option.toList_some, List.singleton_append, resolve, hLabel]
          dsimp only
          rw [List.setIfInBounds_toArray,
            set_operand hTarget (fun label => Cell.ofAddress (addressOf label))]
          exact hNext

end Assembler

/-! ## The assembled program -/

theorem placeFrom?_le {label : Label} {here address : Nat} {ds : List Directive}
    (h : placeFrom? label here ds = some address) : address ≤ here + widthOf (emitted ds) := by
  induction ds generalizing here with
  | nil => cases h
  | cons d ds ih =>
      rw [placeFrom?] at h
      rw [emitted, List.flatMap_cons, widthOf_append, ← Nat.add_assoc]
      split at h
      · cases h
        omega
      · exact ih h

theorem placeOf?_le {label : Label} {address : Nat} {ds : List Directive}
    (h : placeOf? ds label = some address) : address ≤ widthOf (listing ds) := by
  rw [widthOf_listing]
  exact placeFrom?_le h

/-- The code of a program is a listing, with cells that denote the addresses of labels in the labels'
places; and the program says that it has checkpoints if one was emitted. -/
structure Links (ds : List Directive) (p : Program) : Prop where
  code : ∃ cellOf : Label → Cell,
    (∀ label ∈ usedLabels ds, ∃ address,
      placeOf? ds label = some address ∧ Cell.toAddress? (cellOf label) = some address) ∧
    disassemble p.code.toList = some ((listing ds).map fun i => (i.op, i.operands cellOf))
  checks : p.hasChecks = true ↔ ∃ i ∈ listing ds, i.op = .brk

section Linking

variable {ds : List Directive}

theorem assemble_unplaced (hOwn : OwnLabels ds) {label : Label}
    (h : (usedLabels ds).find? (fun used => (placeOf? ds used).isNone) = some label) :
    (assemble ds).2 = .error (.unboundLabel label) := by
  have hFirst : (((Assembler.after ds).fixups.toList.map (·.2)).find? fun used =>
      ((Assembler.after ds).addressOf? used).isNone) = some label := by
    rw [(Assembler.lists_after ds).fixups, slotsFrom_map_snd]
    simp only [Assembler.after_addressOf? hOwn]
    exact h
  rw [Assembler.assemble_eq, Assembler.build_eq, Assembler.resolve_error _ hFirst]
  rfl

theorem assemble_placed (hOwn : OwnLabels ds) {addressOf : Label → Nat}
    (h : ∀ label ∈ usedLabels ds, placeOf? ds label = some (addressOf label)) :
    (assemble ds).2 = .ok ((Assembler.after ds).program
      (codeOf (fun label => Cell.ofAddress (addressOf label)) (listing ds)).toArray) := by
  have hPlaced : ∀ label ∈ (listing ds).filterMap Instr.target?,
      (Assembler.after ds).addressOf? label = some (addressOf label) := by
    simp only [Assembler.after_addressOf? hOwn]
    exact h
  have hResolved := Assembler.resolve_ok _ hPlaced []
  rw [List.nil_append, List.nil_append, List.length_nil,
    ← (Assembler.lists_after ds).code, ← (Assembler.lists_after ds).fixups,
    Array.toArray_toList] at hResolved
  rw [Assembler.assemble_eq, Assembler.build_eq, hResolved]
  rfl

theorem links_placed (hSize : widthOf (listing ds) ≤ Cell.maxValue) {addressOf : Label → Nat}
    (h : ∀ label ∈ usedLabels ds, placeOf? ds label = some (addressOf label)) :
    Links ds ((Assembler.after ds).program
      (codeOf (fun label => Cell.ofAddress (addressOf label)) (listing ds)).toArray) where
  code := by
    refine ⟨fun label => Cell.ofAddress (addressOf label), fun label hUsed => ?_, ?_⟩
    · refine ⟨addressOf label, h label hUsed, Cell.toAddress?_ofAddress ?_⟩
      exact Nat.le_trans (placeOf?_le (h label hUsed)) hSize
    · exact disassemble_codeOf _ _
  checks := by
    rw [Assembler.hasChecks_program, (Assembler.lists_after ds).checks, List.any_eq_true]
    simp only [beq_iff_eq]

/-- **The assembler links what it is asked for.** It fails only at a label that is used and not
placed, the first such use in order of emission; if there is none it succeeds; and the program that
it makes is the listing, with the addresses of labels in the labels' places. -/
theorem assemble_links (hOwn : OwnLabels ds) (hSize : widthOf (listing ds) ≤ Cell.maxValue) :
    ((∃ p, (assemble ds).2 = .ok p) ↔ ∀ label ∈ usedLabels ds, (placeOf? ds label).isSome) ∧
    (∀ e, (assemble ds).2 = .error e ↔ ∃ label, e = .unboundLabel label ∧
      (usedLabels ds).find? (fun used => (placeOf? ds used).isNone) = some label) ∧
    ∀ p, (assemble ds).2 = .ok p → Links ds p := by
  cases hFirst : (usedLabels ds).find? fun used => (placeOf? ds used).isNone with
  | some label =>
      have hError := assemble_unplaced hOwn hFirst
      rw [hError]
      refine ⟨⟨nofun, fun hPlaced => ?_⟩, fun e => ?_, nofun⟩
      · have hUsed := hPlaced label (List.mem_of_find?_eq_some hFirst)
        have hUnplaced := List.find?_some hFirst
        rw [Option.isNone_iff_eq_none.mp hUnplaced] at hUsed
        cases hUsed
      · rw [Except.error.injEq]
        constructor
        · intro h
          exact ⟨label, h.symm, rfl⟩
        · rintro ⟨_, rfl, h⟩
          cases h
          rfl
  | none =>
      have hPlaced : ∀ label ∈ usedLabels ds,
          placeOf? ds label = some ((placeOf? ds label).getD 0) := by
        intro label hUsed
        have hNone := List.find?_eq_none.mp hFirst label hUsed
        cases hPlace : placeOf? ds label with
        | none => simp [hPlace] at hNone
        | some address => rfl
      rw [assemble_placed hOwn hPlaced]
      refine ⟨⟨fun _ label hUsed => ?_, fun _ => ⟨_, rfl⟩⟩, fun e => ⟨nofun, nofun⟩, ?_⟩
      · rw [hPlaced label hUsed]
        rfl
      · rintro _ ⟨⟩
        exact links_placed hSize hPlaced

end Linking

/-- A countdown that leaves its loop forward and goes around it backward. -/
def countdown : List Directive :=
  [.main, .label, .label, .emit ⟨.constPri, (3 : Cell)⟩, .bind ⟨0⟩, .line "a.p" 1,
   .emit ⟨.jzer, (⟨1⟩ : Label)⟩, .emit ⟨.constAlt, (1 : Cell)⟩, .emit ⟨.sub, ()⟩, .bind ⟨0⟩,
   .emit ⟨.jump, (⟨0⟩ : Label)⟩, .bind ⟨1⟩, .emit ⟨.halt, (0 : Cell)⟩]

/-- The second binding of the loop's label is refused, so the loop begins at the checkpoint. -/
theorem assemble_links_countdown :
    OwnLabels countdown ∧ widthOf (listing countdown) ≤ Cell.maxValue ∧
    placeOf? countdown ⟨0⟩ = some 16 ∧ placeOf? countdown ⟨1⟩ = some 48 ∧
    ∃ p, (assemble countdown).2 = .ok p ∧ Links countdown p := by
  have hOwn : OwnLabels countdown := by decide
  have hSize : widthOf (listing countdown) ≤ Cell.maxValue := by decide
  obtain ⟨hSucceeds, -, hLinks⟩ := assemble_links hOwn hSize
  obtain ⟨p, hBuilt⟩ := hSucceeds.mpr (by decide)
  exact ⟨hOwn, hSize, by decide, by decide, p, hBuilt, hLinks p hBuilt⟩

end CellHost
