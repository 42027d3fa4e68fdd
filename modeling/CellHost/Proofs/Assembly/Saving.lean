import CellHost.Proofs.Assembly.Progress
import CellHost.Proofs.Image.RoundTrip
import Mathlib.Data.List.Find

/-!
# Assembled programs are saved and loaded

What an assembler has noted lies in the code that it has emitted: its entries and the rows of its
line table are at addresses up to the current one. So all addresses of a program fit an image, and if
its names and counts do too, reading the image gives the program back, with one exception. An entry
may have been noted behind the last instruction. Such a program can be run as it was assembled, but
its image is refused, since no code begins at that entry.

## Main definitions

* `Assembler.Consistent` : what directives keep true of an assembler.
* `Assembled` : what that makes true of a program.
* `Savable` : the programs that an image has room for.

## Main results

* `read_toImage_assembled` : what becomes of the image of an assembled program.
-/

namespace CellHost

/-! ## What directives keep -/

namespace Assembler

/-- The address of a cell that was emitted, or the current one. -/
def Reached (a : Assembler) (address : Nat) : Prop :=
  address % cellSize = 0 ∧ address ≤ a.here

theorem reached_here (a : Assembler) : a.Reached a.here :=
  ⟨Nat.mul_mod_left _ _, Nat.le_refl _⟩

/-- Entries and rows are at addresses that were reached, and each row is in order, names a file of
the table and has its checkpoint in the code. -/
structure Consistent (a : Assembler) : Prop where
  main : ∀ entry ∈ a.main, a.Reached entry
  publics : ∀ entry ∈ a.publics, a.Reached entry.address
  order : LineTable.InOrder a.lines.rows
  rows : ∀ row ∈ a.lines.rows, row.address ≤ a.here ∧ row.file < a.lines.files.length
  rowCount : a.lines.rows.length ≤ a.code.size

variable {a a' : Assembler}

theorem Reached.mono {address : Nat} (h : a.Reached address) (hSize : a.code.size ≤ a'.code.size) :
    a'.Reached address :=
  ⟨h.1, Nat.le_trans h.2 (Nat.mul_le_mul_right cellSize hSize)⟩

theorem Consistent.grow (h : Consistent a) (hSize : a.code.size ≤ a'.code.size)
    (hMain : a'.main = a.main) (hPublics : a'.publics = a.publics) (hLines : a'.lines = a.lines) :
    Consistent a' where
  main entry hEntry := (h.main entry (hMain ▸ hEntry)).mono hSize
  publics entry hEntry := (h.publics entry (hPublics ▸ hEntry)).mono hSize
  order := hLines ▸ h.order
  rows := by
    rw [hLines]
    intro row hRow
    obtain ⟨hAddress, hFile⟩ := h.rows row hRow
    exact ⟨Nat.le_trans hAddress (Nat.mul_le_mul_right cellSize hSize), hFile⟩
  rowCount := by
    rw [hLines]
    exact Nat.le_trans h.rowCount hSize

theorem size_emit (a : Assembler) (i : Instr) :
    (a.emit i).code.size = a.code.size + (1 + i.op.operandCount) := by
  rw [← Array.length_toList, emit_code, List.length_append, Array.length_toList,
    Instr.length_encode]

theorem Consistent.emit (h : Consistent a) (i : Instr) : Consistent (a.emit i) := by
  have hSize : a.code.size ≤ (a.emit i).code.size := by
    rw [size_emit]
    omega
  obtain ⟨code, fixups, hEmit⟩ := emit_eq a i
  rw [hEmit] at hSize ⊢
  exact h.grow hSize rfl rfl rfl

/-- The assembler after the row of a source line, before the line's checkpoint. -/
def withRow (a : Assembler) (file : String) (number : Nat) : Assembler :=
  { a with lines := (a.lines.addFile file).1.addRow a.here (a.lines.addFile file).2 number }

theorem line_eq (a : Assembler) (file : String) (number : Nat) :
    a.line file number = (a.withRow file number).emit ⟨.brk, ()⟩ := rfl

theorem Consistent.line (h : Consistent a) (file : String) (number : Nat) :
    Consistent (a.line file number) := by
  obtain ⟨hRows, hFiles, hIndex⟩ := a.lines.addFile_spec file
  have hSize : ((a.withRow file number).emit ⟨.brk, ()⟩).code.size = a.code.size + 1 :=
    size_emit _ _
  obtain ⟨code, fixups, hEmit⟩ := emit_eq (a.withRow file number) ⟨.brk, ()⟩
  rw [line_eq]
  -- The row comes before its checkpoint: only after both are there no more rows than cells again.
  rw [hEmit] at hSize ⊢
  have hGrown : a.code.size ≤ code.size := by
    change code.size = a.code.size + 1 at hSize
    omega
  refine ⟨?_, ?_, ?_, ?_, ?_⟩
  · exact fun entry hEntry => (h.main entry hEntry).mono hGrown
  · exact fun entry hEntry => (h.publics entry hEntry).mono hGrown
  · refine LineTable.inOrder_addRow _ _ _ ?_
    rw [hRows]
    exact h.order
  · intro row hRow
    have hHere : a.here ≤ code.size * cellSize := Nat.mul_le_mul_right cellSize hGrown
    rcases LineTable.mem_insertRow.mp hRow with rfl | hOld
    · exact ⟨hHere, hIndex⟩
    · rw [hRows] at hOld
      obtain ⟨hAddress, hFile⟩ := h.rows row hOld
      exact ⟨Nat.le_trans hAddress hHere, Nat.lt_of_lt_of_le hFile hFiles⟩
  · change (LineTable.insertRow _ _).length ≤ code.size
    rw [LineTable.insertRow_length, hRows]
    change code.size = a.code.size + 1 at hSize
    have hCount := h.rowCount
    omega

/-- **Every directive keeps an assembler consistent.** -/
theorem Consistent.step (h : Consistent a) {d : Directive} (hApplied : Applied a d a') :
    Consistent a' := by
  cases hApplied with
  | main =>
      refine ⟨?_, h.publics, h.order, h.rows, h.rowCount⟩
      rintro _ ⟨⟩
      exact reached_here a
  | offered hNew =>
      refine ⟨h.main, ?_, h.order, h.rows, h.rowCount⟩
      intro entry hEntry
      rcases List.mem_append.mp hEntry with hOld | hLast
      · exact h.publics entry hOld
      · rw [List.mem_singleton.mp hLast]
        exact reached_here a
  | taken => exact h
  | known => exact h
  | boundTwice => exact h
  | here => exact h
  | imported => exact h.grow (Nat.le_refl _) rfl rfl rfl
  | global => exact h.grow (Nat.le_refl _) rfl rfl rfl
  | label => exact h.grow (Nat.le_refl _) rfl rfl rfl
  | bound => exact h.grow (Nat.le_refl _) rfl rfl rfl
  | line => exact h.line _ _
  | emit => exact h.emit _

theorem consistent_after (ds : List Directive) : Consistent (after ds) := by
  refine after_induction (P := fun _ a => Consistent a) ?_ ?_ ds
  · have hEmpty : Consistent {} := ⟨nofun, nofun, List.Pairwise.nil, nofun, Nat.le_refl 0⟩
    exact hEmpty.emit _
  · intro ds d hBefore
    exact hBefore.step (applied _ _)

/-! ## The program of a consistent assembler -/

theorem resolve_size {a : Assembler} {slots : List (Nat × Label)} {code code' : Array Cell}
    (h : a.resolve slots code = .ok code') : code'.size = code.size := by
  induction slots generalizing code with
  | nil =>
      cases h
      rfl
  | cons slot slots ih =>
      rw [resolve] at h
      cases hLabel : a.addressOf? slot.2 with
      | none =>
          rw [hLabel] at h
          cases h
      | some address =>
          rw [hLabel] at h
          rw [ih h, Array.size_setIfInBounds]

/-- An assembled program is that of the assembler that followed the directives, with code of the
same size. -/
theorem exists_program {ds : List Directive} {p : Program} (h : (assemble ds).2 = .ok p) :
    ∃ code, code.size = (after ds).code.size ∧ p = (after ds).program code := by
  rw [assemble_eq, build_eq] at h
  cases hResolve : (after ds).resolve (after ds).fixups.toList (after ds).code with
  | error e =>
      rw [hResolve] at h
      cases h
  | ok code =>
      rw [hResolve] at h
      cases h
      exact ⟨code, resolve_size hResolve, rfl⟩

end Assembler

/-! ## Saving and loading -/

/-- An image has room for a program: counts and line numbers have 32 bits, lengths of names and
numbers of files have 16, and every code address is one that a cell can hold. -/
structure Savable (p : Program) : Prop where
  code : p.code.size < 0x20000000
  data : p.data.size < Words.capacity 4
  publicCount : p.publics.length < Words.capacity 4
  publics : ∀ entry ∈ p.publics, Image.NameFits entry.name
  nativeCount : p.natives.length < Words.capacity 4
  natives : ∀ name ∈ p.natives, Image.NameFits name
  fileCount : ∀ table ∈ p.lines, table.files.length < Words.capacity 2
  files : ∀ table ∈ p.lines, ∀ name ∈ table.files, Image.NameFits name
  numbers : ∀ table ∈ p.lines, ∀ row ∈ table.rows, row.line < Words.capacity 4

/-- Where code does not begin at an address of a cell, code ends there. -/
theorem Program.isCodeAddress_of_le {p : Program} {address : Nat}
    (h : address % cellSize = 0 ∧ address ≤ p.codeSize) :
    (!p.isCodeAddress address) = (address == p.codeSize) := by
  obtain ⟨hCell, hInside⟩ := h
  have hSplit : address < p.codeSize ∨ address = p.codeSize := Nat.lt_or_eq_of_le hInside
  rcases hSplit with hBelow | hEnd
  · simp [Program.isCodeAddress, hCell, hBelow, Nat.ne_of_lt hBelow]
  · simp [Program.isCodeAddress, hEnd]

/-- What assembling makes sure of: entries and rows lie in the code or at its end, rows are in order
and no more than there are cells, and the flag of the line table tells the truth. -/
structure Assembled (p : Program) : Prop where
  main : ∀ entry ∈ p.main, entry % cellSize = 0 ∧ entry ≤ p.codeSize
  publics : ∀ entry ∈ p.publics, entry.address % cellSize = 0 ∧ entry.address ≤ p.codeSize
  order : ∀ table ∈ p.lines, LineTable.InOrder table.rows
  rows : ∀ table ∈ p.lines, ∀ row ∈ table.rows,
    row.address ≤ p.codeSize ∧ row.file < table.files.length
  rowCount : ∀ table ∈ p.lines, table.rows.length ≤ p.code.size
  flag : p.hasLines = p.lines.isSome

theorem Assembler.Consistent.assembled {a : Assembler} (h : a.Consistent) {code : Array Cell}
    (hSize : code.size = a.code.size) : Assembled (a.program code) := by
  have hEnd : (a.program code).codeSize = a.here := congrArg (· * cellSize) hSize
  have hLines : ∀ table ∈ (a.program code).lines, table = a.lines := by
    intro table hTable
    unfold program at hTable
    dsimp only at hTable
    split at hTable
    · cases hTable
    · cases hTable
      rfl
  refine ⟨?_, ?_, ?_, ?_, ?_, hasLines_program a code⟩
  · rw [hEnd]
    exact h.main
  · rw [hEnd]
    exact h.publics
  · intro table hTable
    rw [hLines table hTable]
    exact h.order
  · intro table hTable
    rw [hLines table hTable, hEnd]
    exact h.rows
  · intro table hTable
    rw [hLines table hTable]
    exact Nat.le_trans h.rowCount (Nat.le_of_eq hSize.symm)

theorem assembled_of_assemble {ds : List Directive} {p : Program} (h : (assemble ds).2 = .ok p) :
    Assembled p := by
  obtain ⟨code, hSize, rfl⟩ := Assembler.exists_program h
  exact (Assembler.consistent_after ds).assembled hSize

namespace Assembled

variable {p : Program}

theorem bodyFits (h : Assembled p) (hSavable : Savable p) : Image.BodyFits p := by
  have hEnd : p.codeSize ≤ Cell.maxValue := by
    have hCode := hSavable.code
    unfold Program.codeSize cellSize Cell.maxValue
    omega
  have hCapacity : Cell.maxValue < Words.capacity 4 := by decide
  have hCodeCount : p.code.size < Words.capacity 4 := by
    have hCode := hSavable.code
    have hBound : 0x20000000 < Words.capacity 4 := by decide
    omega
  refine ⟨?_, hCodeCount, hSavable.data, hSavable.publicCount, ?_, hSavable.nativeCount,
    hSavable.natives⟩
  · exact fun entry hEntry => Nat.le_trans (h.main entry hEntry).2 hEnd
  · intro entry hEntry
    have hAddress := (h.publics entry hEntry).2
    exact ⟨hSavable.publics entry hEntry, by omega⟩

theorem tableFits (h : Assembled p) (hSavable : Savable p) :
    ∀ table ∈ p.lines, Image.TableFits table.files table.rows := by
  intro table hTable
  have hCode := hSavable.code
  have hFiles := hSavable.fileCount table hTable
  have hRows := h.rowCount table hTable
  have hNarrow : Words.capacity 2 < Words.capacity 4 := by decide
  have hWide : 0x80000000 < Words.capacity 4 := by decide
  refine ⟨by omega, hSavable.files table hTable, by omega, ?_⟩
  intro row hRow
  obtain ⟨hAddress, hFile⟩ := h.rows table hTable row hRow
  unfold Program.codeSize cellSize at hAddress
  exact ⟨by omega, by omega, hSavable.numbers table hTable row hRow⟩

/-- The only place outside the code for an entry is the end of the code. -/
theorem checkEntries (h : Assembled p) :
    Image.checkEntries p =
      if p.main = some p.codeSize then .error .mainOutsideCode
      else
        match p.publics.find? (·.address == p.codeSize) with
        | some entry => .error (.publicOutsideCode entry.name)
        | none => .ok () := by
  have hMain : p.main.any (!p.isCodeAddress ·) = true ↔ p.main = some p.codeSize := by
    have hReached := h.main
    cases hEntry : p.main with
    | none => simp
    | some entry =>
        rw [Option.any_some, Program.isCodeAddress_of_le (hReached entry hEntry), beq_iff_eq,
          Option.some.injEq]
  have hPublics : p.publics.find? (!p.isCodeAddress ·.address) =
      p.publics.find? (·.address == p.codeSize) :=
    List.find?_congr fun entry hEntry => Program.isCodeAddress_of_le (h.publics entry hEntry)
  unfold Image.checkEntries
  rw [hPublics]
  by_cases hAtEnd : p.main = some p.codeSize
  · rw [if_pos (hMain.mpr hAtEnd), if_pos hAtEnd]
  · cases p.publics.find? (·.address == p.codeSize) with
    | none => rw [if_neg (mt hMain.mp hAtEnd), if_neg hAtEnd]
    | some entry => rw [if_neg (mt hMain.mp hAtEnd), if_neg hAtEnd]

/-- The check of the entries alone decides whether the image is read. -/
theorem read_image (h : Assembled p) (hSavable : Savable p) (rest : List UInt8) :
    Image.read true (p.toImage ++ rest) = (Image.checkEntries p).map fun _ => (p, rest) := by
  have hFlags : ({ p with flags := Image.imageFlags p } : Program) = p := by
    rw [Image.imageFlags_of_hasLines h.flag]
  have hBody := h.bodyFits hSavable
  cases hCheck : Image.checkEntries p with
  | error e =>
      rw [Image.toImage_eq, hFlags, List.append_assoc, Image.read_of_entriesOutside hBody hCheck]
      rfl
  | ok _ =>
      have hInside := Image.checkEntries_eq_ok.mp hCheck
      have hFits : Image.FitsFormat p := ⟨hBody, hInside, h.tableFits hSavable, h.order⟩
      rw [hFits.read_whole, hFlags]
      rfl

end Assembled

/-- **An assembled program survives being saved and loaded, unless one of its entries was noted behind
the last instruction.** The image of such a program is refused for that entry: for `main`, or else
for the first such public. -/
theorem read_toImage_assembled {ds : List Directive} {p : Program} (h : (assemble ds).2 = .ok p)
    (hSavable : Savable p) (rest : List UInt8) :
    Image.read true (p.toImage ++ rest) =
      if p.main = some p.codeSize then .error .mainOutsideCode
      else
        match p.publics.find? (·.address == p.codeSize) with
        | some entry => .error (.publicOutsideCode entry.name)
        | none => .ok (p, rest) := by
  have hAssembled := assembled_of_assemble h
  rw [hAssembled.read_image hSavable, hAssembled.checkEntries]
  by_cases hAtEnd : p.main = some p.codeSize
  · rw [if_pos hAtEnd, if_pos hAtEnd]
    rfl
  · rw [if_neg hAtEnd, if_neg hAtEnd]
    cases p.publics.find? (·.address == p.codeSize) <;> rfl

/-- Two functions in two files, one of them with a native. -/
def twoFiles : List Directive :=
  [.global 5, .importNative "print", .main, .line "a.p" 1, .emit ⟨.proc, ()⟩,
   .emit ⟨.sysreq, (0 : Cell)⟩, .emit ⟨.ret, ()⟩, .declarePublic "@timer", .line "b.p" 7,
   .emit ⟨.ret, ()⟩]

/-- The program that they make. -/
def twoFilesProgram : Program where
  flags := 0x0001
  main := some 8
  code := #[Opcode.halt.toCell, 0, Opcode.brk.toCell, Opcode.proc.toCell, Opcode.sysreq.toCell, 0,
    Opcode.ret.toCell, Opcode.brk.toCell, Opcode.ret.toCell]
  data := #[5]
  publics := [⟨"@timer", 28⟩]
  natives := ["print"]
  lines := some ⟨["a.p", "b.p"], [⟨8, 0, 1⟩, ⟨28, 1, 7⟩]⟩

/-- All of it is read back, and nothing behind it. -/
theorem read_toImage_twoFiles :
    (assemble twoFiles).2 = .ok twoFilesProgram ∧ Savable twoFilesProgram ∧
    Image.read true (twoFilesProgram.toImage ++ [0]) = .ok (twoFilesProgram, [0]) := by
  have hBuilt : (assemble twoFiles).2 = .ok twoFilesProgram := by rfl
  have hSavable : Savable twoFilesProgram := by
    refine ⟨by decide, by decide, by decide, by decide, by decide, by decide, ?_, ?_, ?_⟩
    · rintro _ ⟨⟩
      decide
    · rintro _ ⟨⟩
      decide
    · rintro _ ⟨⟩
      decide
  exact ⟨hBuilt, hSavable, read_toImage_assembled hBuilt hSavable [0]⟩

/-- A program whose public stands behind its last instruction. -/
def trailing : List Directive :=
  [.main, .emit ⟨.constPri, (42 : Cell)⟩, .emit ⟨.halt, (0 : Cell)⟩, .declarePublic "@timer"]

/-- The program assembles, and its image is refused. -/
theorem trailing_refused :
    ∃ p, (assemble trailing).2 = .ok p ∧ Savable p ∧
      Image.read true p.toImage = .error (.publicOutsideCode "@timer") := by
  refine ⟨⟨0x0002, some 8, #[1, 0, 2, 42, 1, 0], #[], [⟨"@timer", 24⟩], [], none⟩, by rfl, ?_, by rfl⟩
  exact ⟨by decide, by decide, by decide, by decide, by decide, by decide, nofun, nofun, nofun⟩

end CellHost
