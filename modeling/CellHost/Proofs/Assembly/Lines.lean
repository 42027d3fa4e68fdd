import CellHost.Machine.Effect
import CellHost.Proofs.Assembly.Linking
import CellHost.Proofs.Assembly.Saving
import CellHost.Proofs.LineTable.Lookup

/-!
# The source lines of an assembly

Which source line the code at an address belongs to can be said without an assembler, too. Directives
start lines, each at the address that is current there; an address belongs to the latest of the lines
that started at or below it; and an instruction is emitted under the latest line that was started
before it. The line table of the program says the same, and since later lines start behind an
instruction, it gives for the address of each instruction the line under which it was emitted.

## Main definitions

* `lineCalls`, `lineAt?` : the source lines that directives start, and the one at an address.
* `Emits` : the instructions that directives emit, with their addresses and source lines.

## Main results

* `lookup?_of_assemble` : the line table of an assembled program says what the directives say.
* `Emits.lineAt?` : the line at the address of an instruction is the one under which it was emitted.
* `exists_decodes` : an assembled program has each instruction at its address.
-/

namespace CellHost

/-! ## Lines in directives -/

/-- The source line that a directive starts, if it starts one. -/
def Directive.line? : Directive → Option SourceLocation
  | .line file number => some ⟨file, number⟩
  | _ => none

/-- A source line, with the address at which it was started. -/
structure LineCall where
  address : Nat
  location : SourceLocation
  deriving DecidableEq, Repr, Inhabited

/-- The source lines that directives start, given the address that is current at the start. -/
def lineCallsFrom : Nat → List Directive → List LineCall
  | _, [] => []
  | here, d :: ds =>
    (d.line?.map (LineCall.mk here)).toList ++ lineCallsFrom (here + widthOf d.instrs) ds

/-- The source lines that directives start. -/
def lineCalls (ds : List Directive) : List LineCall := lineCallsFrom Opcode.halt.width ds

/-- The source line of an address: the latest of those that were started at or below it. -/
def lineAt? (ds : List Directive) (pc : Nat) : Option SourceLocation :=
  ((lineCalls ds).filter fun call => call.address ≤ pc).getLast?.map LineCall.location

/-- The latest source line that directives start. -/
def lastLine? (ds : List Directive) : Option SourceLocation := (ds.filterMap Directive.line?).getLast?

/-- The instructions that directives emit, each with its address and the source line under which it
is emitted. The checkpoint of a source line is emitted under that line. -/
inductive Emits : List Directive → Instr → Nat → Option SourceLocation → Prop
  /-- The instruction that every program starts with. -/
  | first {ds : List Directive} : Emits ds ⟨.halt, (0 : Cell)⟩ 0 none
  | later {before after : List Directive} {d : Directive} {i : Instr} :
      i ∈ d.instrs →
      Emits (before ++ d :: after) i (widthOf (listing before)) (lastLine? (before ++ [d]))

theorem lineCallsFrom_append (here : Nat) (ds es : List Directive) :
    lineCallsFrom here (ds ++ es) =
      lineCallsFrom here ds ++ lineCallsFrom (here + widthOf (emitted ds)) es := by
  induction ds generalizing here with
  | nil => rfl
  | cons d ds ih =>
      rw [List.cons_append, lineCallsFrom, lineCallsFrom, ih, List.append_assoc, emitted, emitted,
        List.flatMap_cons, widthOf_append, Nat.add_assoc]

theorem lineCalls_append (ds es : List Directive) :
    lineCalls (ds ++ es) = lineCalls ds ++ lineCallsFrom (widthOf (listing ds)) es := by
  rw [lineCalls, lineCallsFrom_append, widthOf_listing]
  rfl

/-- Lines start between the first address and the last. -/
theorem lineCallsFrom_range {here : Nat} {ds : List Directive} :
    ∀ call ∈ lineCallsFrom here ds,
      here ≤ call.address ∧ call.address ≤ here + widthOf (emitted ds) := by
  induction ds generalizing here with
  | nil => exact nofun
  | cons d ds ih =>
      intro call hCall
      rw [emitted, List.flatMap_cons, widthOf_append]
      rcases List.mem_append.mp hCall with hHere | hLater
      · obtain ⟨location, -, rfl⟩ := Option.map_eq_some_iff.mp (Option.mem_toList.mp hHere)
        exact ⟨Nat.le_refl _, Nat.le_add_right _ _⟩
      · obtain ⟨hLow, hHigh⟩ := ih call hLater
        unfold emitted at hHigh
        omega

theorem map_location_lineCallsFrom (here : Nat) (ds : List Directive) :
    (lineCallsFrom here ds).map LineCall.location = ds.filterMap Directive.line? := by
  induction ds generalizing here with
  | nil => rfl
  | cons d ds ih =>
      rw [lineCallsFrom, List.map_append, ih, List.filterMap_cons]
      cases d.line? <;> rfl

/-- A directive emits one instruction at most. -/
theorem Directive.instrs_eq {d : Directive} {i : Instr} (h : i ∈ d.instrs) : d.instrs = [i] := by
  cases d with
  | line => rw [List.mem_singleton.mp h]; rfl
  | emit => rw [List.mem_singleton.mp h]; rfl
  | _ => cases h

theorem widthOf_singleton (i : Instr) : widthOf [i] = i.op.width := Nat.add_zero _

/-- **The source line at the address of an instruction is the one under which it was emitted.** The
lines before it started at or below its address, and those behind it above. -/
theorem Emits.lineAt? {ds : List Directive} {i : Instr} {address : Nat}
    {line : Option SourceLocation} (h : Emits ds i address line) :
    CellHost.lineAt? ds address = line := by
  cases h with
  | first =>
      have hNone : (lineCalls ds).filter (fun call => call.address ≤ 0) = [] := by
        refine List.filter_eq_nil_iff.mpr fun call hCall => ?_
        obtain ⟨hLow, -⟩ := lineCallsFrom_range call hCall
        have hHalt : 0 < Opcode.halt.width := by decide
        simp only [decide_eq_true_eq]
        omega
      rw [CellHost.lineAt?, hNone]
      rfl
  | @later before after d i hEmitted =>
      have hSplit : before ++ d :: after = (before ++ [d]) ++ after := by simp
      have hBefore : (lineCalls (before ++ [d])).filter
          (fun call => call.address ≤ widthOf (listing before)) = lineCalls (before ++ [d]) := by
        refine List.filter_eq_self.mpr fun call hCall => decide_eq_true ?_
        rw [lineCalls_append] at hCall
        rcases List.mem_append.mp hCall with hOld | hOwn
        · exact (lineCallsFrom_range call hOld).2
        · rw [lineCallsFrom, lineCallsFrom, List.append_nil] at hOwn
          obtain ⟨location, -, rfl⟩ := Option.map_eq_some_iff.mp (Option.mem_toList.mp hOwn)
          exact Nat.le_refl _
      have hAfter : (lineCallsFrom (widthOf (listing (before ++ [d]))) after).filter
          (fun call => call.address ≤ widthOf (listing before)) = [] := by
        refine List.filter_eq_nil_iff.mpr fun call hCall => ?_
        obtain ⟨hLow, -⟩ := lineCallsFrom_range call hCall
        rw [listing_append, Directive.instrs_eq hEmitted, widthOf_append, widthOf_singleton] at hLow
        have hRoom := Opcode.width_pos i.op
        simp only [decide_eq_true_eq]
        omega
      rw [CellHost.lineAt?, hSplit, lineCalls_append (before ++ [d]), List.filter_append, hBefore,
        hAfter, List.append_nil, ← List.getLast?_map, lineCalls, map_location_lineCallsFrom]
      rfl

/-! ## The line table of an assembler -/

namespace Assembler

theorem emit_lines (a : Assembler) (i : Instr) : (a.emit i).lines = a.lines := by
  obtain ⟨code, fixups, h⟩ := emit_eq a i
  rw [h]

/-- A directive adds to the line table the line that it starts, at the current address. -/
theorem Applied.entries {a a' : Assembler} {d : Directive} (h : Applied a d a')
    (hConsistent : Consistent a) :
    a'.lines.entries =
      a.lines.entries ++ (d.line?.map fun location => (a.here, some location)).toList := by
  cases h with
  | @line file number =>
      rw [line_eq, emit_lines]
      exact LineTable.entries_addLine file number (fun row hRow => (hConsistent.rows row hRow).1)
        fun row hRow => (hConsistent.rows row hRow).2
  | emit =>
      rw [emit_lines]
      exact (List.append_nil _).symm
  | _ => exact (List.append_nil _).symm

/-- **After any directives the line table says what they say.** -/
theorem entries_after (ds : List Directive) :
    (after ds).lines.entries =
      (lineCalls ds).map fun call => (call.address, some call.location) := by
  refine after_induction (P := fun ds a =>
    a.lines.entries = (lineCalls ds).map fun call => (call.address, some call.location)) rfl ?_ ds
  intro ds d hBefore
  rw [(applied (after ds) d).entries (consistent_after ds), hBefore, (lists_after ds).here,
    lineCalls_append, List.map_append, lineCallsFrom, lineCallsFrom, List.append_nil]
  cases d.line? <;> rfl

/-- A program without a line table has no use for the one of its assembler. -/
theorem lookup?_program (a : Assembler) (code : Array Cell) (pc : Nat) :
    (a.program code).lines.bind (·.lookup? pc) = a.lines.lookup? pc := by
  unfold program
  dsimp only
  split
  next hEmpty =>
    have hRows : a.lines.rows = [] := List.isEmpty_iff.mp hEmpty
    unfold LineTable.lookup? LineTable.rowAt?
    rw [hRows]
    rfl
  next => rfl

end Assembler

/-! ## The assembled program -/

section Assembled

variable {ds : List Directive} {p : Program}

/-- **The line table of an assembled program says what the directives say.** -/
theorem lookup?_of_assemble (h : (assemble ds).2 = .ok p) (pc : Nat) :
    p.lines.bind (·.lookup? pc) = lineAt? ds pc := by
  obtain ⟨code, -, rfl⟩ := Assembler.exists_program h
  rw [Assembler.lookup?_program, LineTable.lookup?_eq (Assembler.consistent_after ds).order,
    Assembler.entries_after, List.filter_map, List.getLast?_map, lineAt?, Option.bind_map]
  exact Option.map_eq_bind.symm

/-- Every label that an assembled program uses has an address, and its code is the listing with the
addresses in the labels' places. -/
theorem exists_addresses (h : (assemble ds).2 = .ok p) :
    ∃ addressOf : Label → Nat,
      (∀ label ∈ usedLabels ds, (Assembler.after ds).addressOf? label = some (addressOf label)) ∧
      p = (Assembler.after ds).program
        (codeOf (fun label => Cell.ofAddress (addressOf label)) (listing ds)).toArray := by
  have hPlaced : ∀ label ∈ (listing ds).filterMap Instr.target?,
      (Assembler.after ds).addressOf? label =
        some (((Assembler.after ds).addressOf? label).getD 0) := by
    cases hFirst : (((Assembler.after ds).fixups.toList.map (·.2)).find? fun used =>
        ((Assembler.after ds).addressOf? used).isNone) with
    | some label =>
        rw [Assembler.assemble_eq, Assembler.build_eq, Assembler.resolve_error _ hFirst] at h
        cases h
    | none =>
        intro label hUsed
        rw [(Assembler.lists_after ds).fixups, slotsFrom_map_snd] at hFirst
        have hNone := List.find?_eq_none.mp hFirst label hUsed
        cases hAddress : (Assembler.after ds).addressOf? label with
        | none => simp [hAddress] at hNone
        | some address => rfl
  have hResolved := Assembler.resolve_ok _ hPlaced []
  rw [List.nil_append, List.nil_append, List.length_nil, ← (Assembler.lists_after ds).code,
    ← (Assembler.lists_after ds).fixups, Array.toArray_toList] at hResolved
  rw [Assembler.assemble_eq, Assembler.build_eq, hResolved] at h
  cases h
  exact ⟨_, hPlaced, rfl⟩

/-- The code of an assembled program is its listing, with some cell in the place of each label. -/
theorem exists_codeOf (h : (assemble ds).2 = .ok p) :
    ∃ cellOf : Label → Cell, p.code.toList = codeOf cellOf (listing ds) := by
  obtain ⟨addressOf, -, rfl⟩ := exists_addresses h
  exact ⟨_, rfl⟩

/-- An instruction stands at the address that is the width of the code before it. -/
theorem Instruction.decode_codeOf {cellOf : Label → Cell} {before after : List Instr} {i : Instr}
    (h : p.code.toList = codeOf cellOf (before ++ i :: after)) :
    decode p (widthOf before) = .ok (i.op, (i.operands cellOf).headD 0) := by
  have hCell : ∀ n, p.fetch? (widthOf before + n * cellSize) =
      (i.encode cellOf ++ codeOf cellOf after)[n]? := by
    intro n
    have hAligned : (widthOf before + n * cellSize) % cellSize = 0 := by
      rw [← length_codeOf cellOf, ← Nat.add_mul, Nat.mul_mod_left]
    have hIndex : (widthOf before + n * cellSize) / cellSize =
        (codeOf cellOf before).length + n := by
      rw [← length_codeOf cellOf, ← Nat.add_mul, Nat.mul_div_cancel _ (by decide)]
    rw [Program.fetch?, if_pos hAligned, hIndex, ← Array.getElem?_toList, h, codeOf_append,
      codeOf_cons, List.getElem?_append_right (Nat.le_add_right _ _), Nat.add_sub_cancel_left]
  have hOp : p.fetch? (widthOf before) = some i.op.toCell := hCell 0
  have hOperand : p.fetch? (widthOf before + cellSize) =
      (i.operands cellOf ++ codeOf cellOf after)[0]? := by
    have hNext := hCell 1
    rwa [Nat.one_mul, Instr.encode, List.cons_append, List.getElem?_cons_succ] at hNext
  have hLength := i.length_operands cellOf
  unfold decode
  rw [hOp, hOperand]
  dsimp only
  rw [Opcode.ofCell?_toCell]
  dsimp only
  cases hOperands : i.operands cellOf with
  | nil =>
      rw [hOperands] at hLength
      exact if_pos hLength.symm
  | cons value rest =>
      rw [hOperands, List.length_cons] at hLength
      rw [if_neg (by omega)]
      rfl

/-- **An assembled program has every instruction at its address**, with some cell in the place of its
label. -/
theorem exists_decodes (h : (assemble ds).2 = .ok p) :
    ∃ cellOf : Label → Cell, ∀ i address line, Emits ds i address line →
      Instruction.decode p address = .ok (i.op, (i.operands cellOf).headD 0) := by
  obtain ⟨cellOf, hCode⟩ := exists_codeOf h
  refine ⟨cellOf, fun i address line hEmits => ?_⟩
  cases hEmits with
  | first =>
      have hStart : p.code.toList = codeOf cellOf ([] ++ ⟨.halt, (0 : Cell)⟩ :: emitted ds) := hCode
      exact Instruction.decode_codeOf hStart
  | @later before after d i hEmitted =>
      have hListing : listing (before ++ d :: after) = listing before ++ i :: emitted after := by
        simp [listing, emitted, Directive.instrs_eq hEmitted]
      rw [hListing] at hCode
      exact Instruction.decode_codeOf hCode

end Assembled

end CellHost
