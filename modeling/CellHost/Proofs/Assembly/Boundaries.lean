import CellHost.Proofs.Assembly.Lines

/-!
# Instruction boundaries

A boundary is an address at which an emitted instruction starts, or the end of the code. The
assembler hands out no other addresses: `main`, publics and labels get the address that is current
when they are declared or bound, which is where the next instruction will start, or the end if none
follows. So in an assembled program every operand that was written as a label names a boundary, and
at every boundary but the end an instruction is decoded whole.

## Main definitions

* `placed` : the instructions that directives emit, with their addresses.
* `Boundary` : the start of an instruction, or the end of the code.
* `returnCells` : what calls and entries push as return addresses.
* `Bounded` : a program that holds the instructions of directives and names no address but theirs.

## Main results

* `Boundary.concat` : what was a boundary is one still when more is emitted.
* `Assembler.marks_after` : the assembler hands out boundaries.
* `bounded_of_assemble` : assembled programs are bounded.
-/

namespace CellHost

/-! ## Addresses of instructions -/

/-- Instructions with their addresses, given the address of the first. -/
def placedFrom : Nat → List Instr → List (Nat × Instr)
  | _, [] => []
  | here, i :: is => (here, i) :: placedFrom (here + i.op.width) is

/-- The instructions that directives emit, with their addresses. -/
def placed (ds : List Directive) : List (Nat × Instr) := placedFrom 0 (listing ds)

/-- The start of an instruction, or the end of the code. -/
def Boundary (ds : List Directive) (address : Nat) : Prop :=
  (∃ i, (address, i) ∈ placed ds) ∨ address = widthOf (listing ds)

/-- The return addresses that entries and calls push: zero, and the addresses behind the calls. -/
def returnCells (ds : List Directive) : List Cell :=
  0 :: ((placed ds).filter fun entry => entry.2.op = .call).map fun entry =>
    Cell.ofAddress (entry.1 + entry.2.op.width)

theorem placedFrom_append (here : Nat) (is js : List Instr) :
    placedFrom here (is ++ js) = placedFrom here is ++ placedFrom (here + widthOf is) js := by
  induction is generalizing here with
  | nil => rfl
  | cons i is ih =>
      have hWidth : here + widthOf (i :: is) = here + i.op.width + widthOf is := by
        rw [widthOf, List.map_cons, List.sum_cons, ← Nat.add_assoc]
        rfl
      rw [List.cons_append, placedFrom, ih, placedFrom, List.cons_append, hWidth]

/-- An instruction stands behind the instructions before it. -/
theorem mem_placedFrom {here address : Nat} {i : Instr} {is : List Instr} :
    (address, i) ∈ placedFrom here is ↔
      ∃ before after, is = before ++ i :: after ∧ address = here + widthOf before := by
  constructor
  · intro h
    induction is generalizing here with
    | nil => cases h
    | cons first is ih =>
        rcases List.mem_cons.mp h with hFirst | hLater
        · cases hFirst
          exact ⟨[], is, rfl, rfl⟩
        · obtain ⟨before, after, rfl, rfl⟩ := ih hLater
          refine ⟨first :: before, after, rfl, ?_⟩
          rw [widthOf, widthOf, List.map_cons, List.sum_cons, Nat.add_assoc]
  · rintro ⟨before, after, rfl, rfl⟩
    rw [placedFrom_append]
    exact List.mem_append_right _ List.mem_cons_self

section Boundaries

variable {ds : List Directive} {address : Nat} {i : Instr}

theorem mem_placed :
    (address, i) ∈ placed ds ↔
      ∃ before after, listing ds = before ++ i :: after ∧ address = widthOf before := by
  rw [placed, mem_placedFrom]
  simp only [Nat.zero_add]

theorem placed_concat (ds : List Directive) (d : Directive) :
    placed (ds ++ [d]) = placed ds ++ placedFrom (widthOf (listing ds)) d.instrs := by
  rw [placed, listing_append, placedFrom_append, Nat.zero_add]
  rfl

/-- Every program starts with an instruction. -/
theorem boundary_zero (ds : List Directive) : Boundary ds 0 :=
  .inl ⟨⟨.halt, (0 : Cell)⟩, List.mem_cons_self⟩

theorem boundary_end (ds : List Directive) : Boundary ds (widthOf (listing ds)) := .inr rfl

/-- Behind an instruction there is a boundary. -/
theorem boundary_next (h : (address, i) ∈ placed ds) : Boundary ds (address + i.op.width) := by
  obtain ⟨before, after, hListing, rfl⟩ := mem_placed.mp h
  have hNext : widthOf (before ++ [i]) = widthOf before + i.op.width := by
    rw [widthOf_append, widthOf_singleton]
  cases after with
  | nil =>
      right
      rw [hListing, hNext]
  | cons j after =>
      left
      refine ⟨j, mem_placed.mpr ⟨before ++ [i], after, ?_, hNext.symm⟩⟩
      rw [hListing, List.append_assoc]
      rfl

/-- **What was a boundary is one still when more is emitted.** -/
theorem Boundary.concat (h : Boundary ds address) (d : Directive) :
    Boundary (ds ++ [d]) address := by
  rcases h with ⟨i, hPlaced⟩ | rfl
  · left
    rw [placed_concat]
    exact ⟨i, List.mem_append_left _ hPlaced⟩
  · cases hInstrs : d.instrs with
    | nil =>
        right
        rw [listing_append, hInstrs, List.append_nil]
    | cons j js =>
        left
        rw [placed_concat, hInstrs]
        exact ⟨j, List.mem_append_right _ List.mem_cons_self⟩

theorem Boundary.le (h : Boundary ds address) : address ≤ widthOf (listing ds) := by
  rcases h with ⟨i, hPlaced⟩ | rfl
  · obtain ⟨before, after, hListing, rfl⟩ := mem_placed.mp hPlaced
    rw [hListing, widthOf_append]
    exact Nat.le_add_right _ _
  · exact Nat.le_refl _

/-- The cell holds the address of a boundary. -/
def NamesBoundary (ds : List Directive) (cell : Cell) : Prop :=
  ∃ address, Cell.toAddress? cell = some address ∧ Boundary ds address

theorem Boundary.named (h : Boundary ds address) (hFits : widthOf (listing ds) ≤ Cell.maxValue) :
    NamesBoundary ds (Cell.ofAddress address) :=
  ⟨address, Cell.toAddress?_ofAddress (Nat.le_trans h.le hFits), h⟩

/-- The code address that a cell names is a boundary if the cell names one. -/
theorem NamesBoundary.target {cell : Cell} {p : Program} (h : NamesBoundary ds cell)
    (hTarget : p.target? cell = some address) : Boundary ds address := by
  obtain ⟨named, hCell, hBoundary⟩ := h
  unfold Program.target? at hTarget
  rw [hCell] at hTarget
  obtain ⟨hSame, -⟩ := Option.filter_eq_some_iff.mp hTarget
  rw [← Option.some.inj hSame]
  exact hBoundary

/-- **What entries and calls push names a boundary**, if addresses fit into cells. -/
theorem namesBoundary_of_returnCell {cell : Cell} (h : cell ∈ returnCells ds)
    (hFits : widthOf (listing ds) ≤ Cell.maxValue) : NamesBoundary ds cell := by
  rcases List.mem_cons.mp h with rfl | hCall
  · exact (boundary_zero ds).named hFits
  · obtain ⟨⟨address, i⟩, hEntry, rfl⟩ := List.mem_map.mp hCall
    exact (boundary_next (List.mem_filter.mp hEntry).1).named hFits

/-- A call pushes one of the return addresses. -/
theorem returnCell_of_call (h : (address, i) ∈ placed ds) (hCall : i.op = .call) :
    Cell.ofAddress (address + Opcode.call.width) ∈ returnCells ds := by
  refine List.mem_cons_of_mem _ (List.mem_map.mpr ⟨(address, i), ?_, by rw [hCall]⟩)
  exact List.mem_filter.mpr ⟨h, decide_eq_true hCall⟩

end Boundaries

/-! ## Addresses that the assembler hands out -/

namespace Assembler

/-- The addresses that an assembler has noted are boundaries. -/
structure Marks (ds : List Directive) (a : Assembler) : Prop where
  labels : ∀ label address, a.addressOf? label = some address → Boundary ds address
  main : ∀ address ∈ a.main, Boundary ds address
  publics : ∀ entry ∈ a.publics, Boundary ds entry.address

variable {ds : List Directive} {a a' : Assembler} {d : Directive}

/-- Boundaries stay boundaries while nothing is noted. -/
theorem Marks.concat (h : Marks ds a) (d : Directive) (hLabels : a'.labels = a.labels)
    (hMain : a'.main = a.main) (hPublics : a'.publics = a.publics) : Marks (ds ++ [d]) a' where
  labels label address hAddress := by
    rw [addressOf?, hLabels] at hAddress
    exact (h.labels label address hAddress).concat d
  main address hAddress := (h.main address (hMain ▸ hAddress)).concat d
  publics entry hEntry := (h.publics entry (hPublics ▸ hEntry)).concat d

theorem Marks.emit (h : Marks ds a) (d : Directive) (i : Instr) : Marks (ds ++ [d]) (a.emit i) := by
  obtain ⟨code, fixups, hEmit⟩ := emit_eq a i
  rw [hEmit]
  exact h.concat d rfl rfl rfl

/-- **A directive notes nothing but the current address**, which is a boundary. -/
theorem Marks.step (h : Marks ds a) (hHere : Boundary ds a.here) (hApplied : Applied a d a') :
    Marks (ds ++ [d]) a' := by
  have hSame : Marks (ds ++ [d]) a := h.concat d rfl rfl rfl
  cases hApplied with
  | main =>
      refine ⟨hSame.labels, ?_, hSame.publics⟩
      rintro _ ⟨⟩
      exact hHere.concat _
  | offered hNew =>
      refine ⟨hSame.labels, hSame.main, fun entry hEntry => ?_⟩
      rcases List.mem_append.mp hEntry with hOld | hOwn
      · exact hSame.publics entry hOld
      · rw [List.mem_singleton.mp hOwn]
        exact hHere.concat _
  | label =>
      refine ⟨fun label address hAddress => ?_, hSame.main, hSame.publics⟩
      rw [addressOf?, Array.getElem?_push] at hAddress
      split at hAddress
      · cases hAddress
      · exact hSame.labels label address hAddress
  | @bound bound hNew =>
      refine ⟨fun label address hAddress => ?_, hSame.main, hSame.publics⟩
      rw [addressOf?, Array.getElem?_setIfInBounds] at hAddress
      split at hAddress
      · split at hAddress
        · cases hAddress
          exact hHere.concat _
        · cases hAddress
      · exact hSame.labels label address hAddress
  | @line file number =>
      have hRow : Marks ds (a.withRow file number) := ⟨h.labels, h.main, h.publics⟩
      rw [line_eq]
      exact hRow.emit _ _
  | emit => exact h.emit _ _
  | _ => exact ⟨hSame.labels, hSame.main, hSame.publics⟩

/-- **The assembler hands out boundaries.** -/
theorem marks_after (ds : List Directive) : Marks ds (after ds) := by
  refine after_induction (P := Marks) ?_ (fun ds d h => h.step ?_ (applied _ _)) ds
  · refine ⟨fun label address hAddress => ?_, nofun, nofun⟩
    cases hAddress
  · rw [(lists_after ds).here]
    exact boundary_end ds

end Assembler

/-! ## Assembled programs -/

/-- The program has the instructions of the directives, each at its address, and names no addresses
but their boundaries. -/
structure Bounded (ds : List Directive) (p : Program) : Prop where
  codeSize : p.codeSize = widthOf (listing ds)
  main : ∀ address ∈ p.main, Boundary ds address
  publics : ∀ entry ∈ p.publics, Boundary ds entry.address
  decodes : ∀ address i, (address, i) ∈ placed ds → ∃ operand,
    Instruction.decode p address = .ok (i.op, operand) ∧
      (i.target?.isSome → NamesBoundary ds operand)

/-- **Assembled programs are bounded.** -/
theorem bounded_of_assemble {ds : List Directive} {p : Program} (h : (assemble ds).2 = .ok p)
    (hFits : p.codeSize ≤ Cell.maxValue) : Bounded ds p := by
  obtain ⟨addressOf, hAddress, hProgram⟩ := exists_addresses h
  have hCode : p.code.toList =
      codeOf (fun label => Cell.ofAddress (addressOf label)) (listing ds) := by rw [hProgram]; rfl
  have hSize : p.codeSize = widthOf (listing ds) := by
    rw [Program.codeSize, ← Array.length_toList, hCode, length_codeOf]
  have hMarks := Assembler.marks_after ds
  refine ⟨hSize, hProgram ▸ hMarks.main, hProgram ▸ hMarks.publics, fun address i hPlaced => ?_⟩
  obtain ⟨before, after, hListing, rfl⟩ := mem_placed.mp hPlaced
  have hUsed : ∀ label, i.target? = some label → label ∈ usedLabels ds := by
    intro label hLabel
    refine List.mem_filterMap.mpr ⟨i, ?_, hLabel⟩
    rw [hListing]
    exact List.mem_append_right _ List.mem_cons_self
  rw [hListing] at hCode
  refine ⟨_, Instruction.decode_codeOf hCode, fun hTarget => ?_⟩
  obtain ⟨label, hLabel⟩ := Option.isSome_iff_exists.mp hTarget
  rw [Instr.operands_of_target hLabel]
  exact (hMarks.labels label _ (hAddress label (hUsed label hLabel))).named (hSize ▸ hFits)

end CellHost
