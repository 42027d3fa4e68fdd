import CellHost.Assembler
import Mathlib.Algebra.Ring.Nat

/-!
# The listing of an assembly

What a list of directives asks for can be said without an assembler. The directives emit a list of
instructions, the *listing*, in which labels still stand for addresses; every instruction has an
address, the width of all that comes before it; and a label has the address that is current at the
first directive that binds it.

## Main definitions

* `Instr.encode` : the cells of an instruction, given a cell for each label.
* `listing` : the instructions that directives emit, behind the one that every program starts with.
* `placeOf?` : the address of a label.
* `OwnLabels` : directives that use no label before it was handed out.
* `slotsFrom` : where a listing has operands that are labels.
-/

namespace CellHost

/-! ## Instructions -/

namespace Instr

/-- The label that an instruction names, if its operand is one. -/
def target? (i : Instr) : Option Label :=
  match i.op.operandKind, i.operand with
  | .target, label => some label
  | _, _ => none

/-- The operand cells of an instruction, with a cell in the place of a label. -/
def operands (cellOf : Label → Cell) (i : Instr) : List Cell :=
  match i.op.operandKind, i.operand with
  | .absent, _ => []
  | .value, v => [v]
  | .target, label => [cellOf label]

/-- The cells of an instruction, with a cell in the place of a label. -/
def encode (cellOf : Label → Cell) (i : Instr) : List Cell := i.op.toCell :: i.operands cellOf

theorem length_operands (cellOf : Label → Cell) (i : Instr) :
    (i.operands cellOf).length = i.op.operandCount := by
  obtain ⟨op, operand⟩ := i
  unfold operands Opcode.operandCount
  dsimp only
  generalize op.operandKind = kind at operand
  cases kind <;> rfl

theorem length_encode (cellOf : Label → Cell) (i : Instr) :
    (i.encode cellOf).length = 1 + i.op.operandCount := by
  rw [encode, List.length_cons, length_operands, Nat.add_comm]

theorem operands_of_target {i : Instr} {label : Label} (h : i.target? = some label)
    (cellOf : Label → Cell) : i.operands cellOf = [cellOf label] := by
  obtain ⟨op, operand⟩ := i
  unfold target? at h
  unfold operands
  dsimp only at h ⊢
  generalize op.operandKind = kind at operand
  cases kind with
  | absent => cases h
  | value => cases h
  | target =>
      cases h
      rfl

/-- Only labels are replaced. -/
theorem operands_of_no_target {i : Instr} (h : i.target? = none) (cellOf cellOf' : Label → Cell) :
    i.operands cellOf = i.operands cellOf' := by
  obtain ⟨op, operand⟩ := i
  unfold target? at h
  unfold operands
  dsimp only at h ⊢
  generalize op.operandKind = kind at operand
  cases kind with
  | absent => rfl
  | value => rfl
  | target => cases h

end Instr

/-! ## Listings -/

/-- The cells of instructions, with a cell in the place of each label. -/
def codeOf (cellOf : Label → Cell) (is : List Instr) : List Cell := is.flatMap (Instr.encode cellOf)

/-- The bytes of code that instructions take. -/
def widthOf (is : List Instr) : Nat := (is.map fun i => i.op.width).sum

theorem codeOf_cons (cellOf : Label → Cell) (i : Instr) (is : List Instr) :
    codeOf cellOf (i :: is) = i.encode cellOf ++ codeOf cellOf is :=
  List.flatMap_cons

theorem codeOf_append (cellOf : Label → Cell) (is js : List Instr) :
    codeOf cellOf (is ++ js) = codeOf cellOf is ++ codeOf cellOf js :=
  List.flatMap_append

theorem widthOf_append (is js : List Instr) : widthOf (is ++ js) = widthOf is + widthOf js := by
  rw [widthOf, List.map_append, List.sum_append]
  rfl

theorem length_codeOf (cellOf : Label → Cell) (is : List Instr) :
    (codeOf cellOf is).length * cellSize = widthOf is := by
  induction is with
  | nil => rfl
  | cons i is ih =>
      rw [codeOf_cons, List.length_append, Nat.add_mul, Instr.length_encode, ih, widthOf, widthOf,
        List.map_cons, List.sum_cons, Opcode.width]

/-- The places of the operands that are labels, in code whose first cell has the given index. -/
def slotsFrom : Nat → List Instr → List (Nat × Label)
  | _, [] => []
  | first, i :: is =>
    (i.target?.map fun label => (first + 1, label)).toList
      ++ slotsFrom (first + (1 + i.op.operandCount)) is

theorem slotsFrom_append (first : Nat) (is js : List Instr) :
    slotsFrom first (is ++ js) =
      slotsFrom first is ++ slotsFrom (first + (codeOf (fun _ => 0) is).length) js := by
  induction is generalizing first with
  | nil => rfl
  | cons i is ih =>
      rw [List.cons_append, slotsFrom, slotsFrom, ih, List.append_assoc, codeOf_cons,
        List.length_append, Instr.length_encode, Nat.add_assoc first]

/-! ## Directives -/

namespace Directive

/-- The instructions that a directive emits; a source line emits a checkpoint. -/
def instrs : Directive → List Instr
  | .emit i => [i]
  | .line _ _ => [⟨.brk, ()⟩]
  | _ => []

/-- The labels that a directive uses. -/
def uses : Directive → List Label
  | .emit i => i.target?.toList
  | .bind bound => [bound]
  | _ => []

/-- The number of labels that a directive hands out. -/
def newLabels : Directive → Nat
  | .label => 1
  | _ => 0

/-- Whether a directive binds a label. -/
def binds (wanted : Label) : Directive → Bool
  | .bind bound => bound == wanted
  | _ => false

end Directive

/-- The instructions that directives emit. -/
def emitted (ds : List Directive) : List Instr := ds.flatMap Directive.instrs

/-- The instructions of a program: one that halts, and those that its directives emit. -/
def listing (ds : List Directive) : List Instr := ⟨.halt, (0 : Cell)⟩ :: emitted ds

/-- The labels that the instructions of a program use, in order of emission. -/
def usedLabels (ds : List Directive) : List Label := (listing ds).filterMap Instr.target?

/-- The number of labels that directives hand out. -/
def labelCount (ds : List Directive) : Nat := (ds.map Directive.newLabels).sum

/-- Labels are used only after they were handed out, a number of them before the first directive. -/
def OwnLabelsFrom : Nat → List Directive → Prop
  | _, [] => True
  | count, d :: ds =>
    (∀ label ∈ d.uses, label.number < count) ∧ OwnLabelsFrom (count + d.newLabels) ds

/-- Every label that is used was handed out before. -/
def OwnLabels (ds : List Directive) : Prop := OwnLabelsFrom 0 ds

/-- The address that is current at the first directive that binds a label, given the one that is
current at the start. -/
def placeFrom? (label : Label) : Nat → List Directive → Option Nat
  | _, [] => none
  | here, d :: ds =>
    if d.binds label then some here else placeFrom? label (here + widthOf d.instrs) ds

/-- The address of a label. -/
def placeOf? (ds : List Directive) (label : Label) : Option Nat :=
  placeFrom? label Opcode.halt.width ds

def decidableOwnLabelsFrom : (count : Nat) → (ds : List Directive) →
    Decidable (OwnLabelsFrom count ds)
  | _, [] => inferInstanceAs (Decidable True)
  | count, d :: ds =>
    have := decidableOwnLabelsFrom (count + d.newLabels) ds
    inferInstanceAs (Decidable (_ ∧ _))

instance (ds : List Directive) : Decidable (OwnLabels ds) := decidableOwnLabelsFrom 0 ds

theorem listing_append (ds : List Directive) (d : Directive) :
    listing (ds ++ [d]) = listing ds ++ d.instrs := by
  simp [listing, emitted]

theorem labelCount_append (ds : List Directive) (d : Directive) :
    labelCount (ds ++ [d]) = labelCount ds + d.newLabels := by
  simp [labelCount]

theorem widthOf_listing (ds : List Directive) :
    widthOf (listing ds) = Opcode.halt.width + widthOf (emitted ds) := rfl

theorem ownLabelsFrom_append (count : Nat) (ds : List Directive) (d : Directive) :
    OwnLabelsFrom count (ds ++ [d]) ↔
      OwnLabelsFrom count ds ∧ ∀ label ∈ d.uses, label.number < count + labelCount ds := by
  induction ds generalizing count with
  | nil => simp [OwnLabelsFrom, labelCount]
  | cons first ds ih =>
      rw [List.cons_append, OwnLabelsFrom, OwnLabelsFrom, ih, and_assoc, labelCount, labelCount,
        List.map_cons, List.sum_cons, Nat.add_assoc]

theorem ownLabels_append (ds : List Directive) (d : Directive) :
    OwnLabels (ds ++ [d]) ↔ OwnLabels ds ∧ ∀ label ∈ d.uses, label.number < labelCount ds := by
  rw [OwnLabels, ownLabelsFrom_append, Nat.zero_add]
  rfl

theorem placeFrom?_append (label : Label) (here : Nat) (ds : List Directive) (d : Directive) :
    placeFrom? label here (ds ++ [d]) =
      (placeFrom? label here ds).or
        (if d.binds label then some (here + widthOf (emitted ds)) else none) := by
  induction ds generalizing here with
  | nil => rfl
  | cons first ds ih =>
      rw [List.cons_append, placeFrom?, placeFrom?]
      by_cases hBinds : first.binds label = true
      · rw [if_pos hBinds, if_pos hBinds]
        rfl
      · rw [if_neg hBinds, if_neg hBinds, ih, emitted, emitted, List.flatMap_cons, widthOf_append,
          Nat.add_assoc]

/-- A further directive places a label only if it binds it and none has done so before. -/
theorem placeOf?_append (ds : List Directive) (d : Directive) (label : Label) :
    placeOf? (ds ++ [d]) label =
      (placeOf? ds label).or (if d.binds label then some (widthOf (listing ds)) else none) := by
  rw [placeOf?, placeFrom?_append, widthOf_listing]
  rfl

end CellHost
