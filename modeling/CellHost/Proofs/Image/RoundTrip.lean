import CellHost.Proofs.Image.Reading
import CellHost.Proofs.LineTable.Order
import CellHost.Opcode

/-!
# Programs survive being written and read

A program that fits the format is read back from its image as it was, but for one flag, which says
whether the program has a line table; the bytes behind the image are left over. Without the line
table the same program is read, and the table is left over too, while its flag stays.

What fits is said field by field: counts, addresses and names have widths, and an image is only read
if code begins at each of its entries. A line table must be in order, as all tables are that are made
by the operations on them.

## Main definitions

* `Image.FitsFormat` : the programs that fit the format.

## Main results

* `Image.read_toImage` : the round trip, with and without the line table.
-/

namespace CellHost.Image

/-! ## The flag of the line table -/

section Flags

variable (flags mask : UInt16)

theorem clear_or_kept : flags &&& ~~~mask ||| flags &&& mask = flags := by
  apply UInt16.toBitVec_inj.mp
  ext i hi
  simp only [UInt16.toBitVec_or, UInt16.toBitVec_and, UInt16.toBitVec_not, BitVec.getElem_or,
    BitVec.getElem_and, BitVec.getElem_not]
  cases flags.toBitVec[i] <;> simp

theorem clear_and_self : flags &&& ~~~mask &&& mask = 0 := by
  rw [UInt16.and_assoc]
  simp

theorem clear_and_clear : flags &&& ~~~mask &&& ~~~mask = flags &&& ~~~mask := by
  rw [UInt16.and_assoc, UInt16.and_self]

theorem set_and_self : (flags &&& ~~~mask ||| mask) &&& mask = mask := by
  apply UInt16.toBitVec_inj.mp
  ext i hi
  simp only [UInt16.toBitVec_or, UInt16.toBitVec_and, UInt16.toBitVec_not, BitVec.getElem_or,
    BitVec.getElem_and, BitVec.getElem_not]
  cases mask.toBitVec[i] <;> simp

theorem set_and_clear : (flags &&& ~~~mask ||| mask) &&& ~~~mask = flags &&& ~~~mask := by
  apply UInt16.toBitVec_inj.mp
  ext i hi
  simp only [UInt16.toBitVec_or, UInt16.toBitVec_and, UInt16.toBitVec_not, BitVec.getElem_or,
    BitVec.getElem_and, BitVec.getElem_not]
  cases mask.toBitVec[i] <;> simp

/-- The flag is a single bit. -/
theorem and_linesFlag :
    flags &&& Program.linesFlag = 0 ∨ flags &&& Program.linesFlag = Program.linesFlag := by
  have hBit := Nat.mod_two_eq_zero_or_one flags.toNat
  rw [← Nat.and_one_is_mod] at hBit
  rw [← UInt16.toNat_inj, ← UInt16.toNat_inj, UInt16.toNat_and]
  exact hBit

end Flags

theorem imageFlags_and_clear (p : Program) :
    imageFlags p &&& ~~~Program.linesFlag = p.flags &&& ~~~Program.linesFlag := by
  unfold imageFlags
  cases p.lines with
  | none => exact clear_and_clear p.flags Program.linesFlag
  | some table => exact set_and_clear p.flags Program.linesFlag

theorem hasLines_imageFlags (p : Program) :
    ({ p with flags := imageFlags p } : Program).hasLines = p.lines.isSome := by
  unfold Program.hasLines imageFlags
  cases p.lines with
  | none => simp [clear_and_self]
  | some table =>
      simp only [Option.isSome_some, if_true, set_and_self]
      rfl

/-- A flag that tells the truth stays as it is. -/
theorem imageFlags_of_hasLines {p : Program} (h : p.hasLines = p.lines.isSome) :
    imageFlags p = p.flags := by
  unfold Program.hasLines at h
  unfold imageFlags
  rw [← h]
  rcases and_linesFlag p.flags with hClear | hSet
  · have hKept := clear_or_kept p.flags Program.linesFlag
    rw [hClear, UInt16.or_zero] at hKept
    simpa [hClear] using hKept
  · have hKept := clear_or_kept p.flags Program.linesFlag
    rw [hSet] at hKept
    have hNonzero : Program.linesFlag ≠ 0 := by decide
    simpa [hSet, hNonzero] using hKept

/-! ## The round trip -/

/-- The line table of an image, if there is one. -/
def writeTable : Option LineTable → List UInt8
  | some table => writeLines table
  | none => []

theorem toImage_eq (p : Program) :
    p.toImage = writeBody formatNumber { p with flags := imageFlags p } ++ writeTable p.lines := by
  unfold Program.toImage writeTable
  cases p.lines <;> rfl

/-- A program fits the format if its body and its line table do, code begins at its entries, and the
table is in order. -/
structure FitsFormat (p : Program) : Prop where
  body : BodyFits p
  inside : EntriesInside p
  table : ∀ table ∈ p.lines, TableFits table.files table.rows
  order : ∀ table ∈ p.lines, LineTable.InOrder table.rows

theorem FitsFormat.tableForm {p : Program} (h : FitsFormat p) :
    TableForm p.lines.isSome p.lines (writeTable p.lines) := by
  cases hLines : p.lines with
  | none => exact .absent
  | some table =>
      have hParts := (LineTable.inOrder_iff_ofParts table).mp (h.order table hLines)
      have hForm := TableForm.present (h.table table hLines)
      rw [hParts] at hForm
      exact hForm

theorem FitsFormat.read_whole {p : Program} (h : FitsFormat p) (rest : List UInt8) :
    read true (p.toImage ++ rest) = .ok ({ p with flags := imageFlags p }, rest) := by
  refine read_eq_ok.mpr ⟨h.body.relabel _ _, h.inside.relabel _ _, formatNumber, Nat.le_refl _,
    writeTable p.lines, ?_, ?_⟩
  · rw [Bool.true_and, hasLines_imageFlags]
    exact h.tableForm
  · rw [toImage_eq]

theorem FitsFormat.read_body {p : Program} (h : FitsFormat p) (rest : List UInt8) :
    read false (p.toImage ++ rest) =
      .ok ({ p with flags := imageFlags p, lines := none }, writeTable p.lines ++ rest) := by
  refine read_eq_ok.mpr ⟨h.body.relabel _ _, h.inside.relabel _ _, formatNumber, Nat.le_refl _,
    [], .absent, ?_⟩
  rw [toImage_eq, List.append_nil, List.append_assoc]
  rfl

/-- **A program that fits the format survives being written and read.** Of its flags only the one of
the line table changes, to say whether the program has a table. Without the table the rest of the
program is the same, the flag included, and the table is left over. -/
theorem read_toImage {p : Program} (h : FitsFormat p) (rest : List UInt8) :
    imageFlags p &&& ~~~Program.linesFlag = p.flags &&& ~~~Program.linesFlag ∧
    ({ p with flags := imageFlags p } : Program).hasLines = p.lines.isSome ∧
    read true (p.toImage ++ rest) = .ok ({ p with flags := imageFlags p }, rest) ∧
    read false (p.toImage ++ rest) =
      .ok ({ p with flags := imageFlags p, lines := none }, writeTable p.lines ++ rest) :=
  ⟨imageFlags_and_clear p, hasLines_imageFlags p, h.read_whole rest, h.read_body rest⟩

/-- A program with two rows at one address, a name that is not ASCII, and the flag of the line table
not set. -/
def specimen : Program where
  flags := 0x8002
  main := some 8
  code := #[Opcode.halt.toCell, 0, Opcode.brk.toCell, Opcode.ret.toCell]
  data := #[-1]
  publics := [⟨"tick", 12⟩]
  natives := ["délai"]
  lines := some ⟨["a.p", "b.p"], [⟨8, 1, 7⟩, ⟨8, 0, 0xffffffff⟩]⟩

/-- The specimen is read back with the flag of the line table set. -/
theorem read_toImage_specimen :
    FitsFormat specimen ∧
    read true specimen.toImage = .ok ({ specimen with flags := 0x8003 }, []) ∧
    read false specimen.toImage =
      .ok ({ specimen with flags := 0x8003, lines := none }, writeTable specimen.lines) := by
  have hTable : TableFits ["a.p", "b.p"] [⟨8, 1, 7⟩, ⟨8, 0, 0xffffffff⟩] :=
    ⟨by decide, by decide, by decide, by decide⟩
  have hFits : FitsFormat specimen := by
    refine ⟨⟨by decide, by decide, by decide, by decide, by decide, by decide, by decide⟩,
      ⟨by decide, by decide⟩, ?_, by decide⟩
    rintro _ ⟨⟩
    exact hTable
  obtain ⟨-, -, hWith, hWithout⟩ := read_toImage hFits []
  exact ⟨hFits, hWith, hWithout⟩

end CellHost.Image
