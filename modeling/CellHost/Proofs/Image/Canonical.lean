import CellHost.Proofs.Image.RoundTrip

/-!
# Reading loses nothing but the order of rows

Every image that is read, and is in the present format, is the image of the program that it was read
as, once the rows of its line table are put in order of address. So two images are read as the same
program only if they differ in the order of their rows, and if the rows are in order already, the
bytes read are the ones that writing gives.

The rows are looked at as byte strings here, and not as what a reader makes of them: they are the
last bytes of an image, and each of them begins with its address.

## Main definitions

* `Image.sortRows` : an image with its rows in order.

## Main results

* `Image.toImage_of_read` : the image of a program that was read from an image.
-/

namespace CellHost.Image

/-- The number of the format that an image says it is in. -/
def formatOf (image : List UInt8) : Nat := Words.toNat ((image.drop mark.length).take 2)

/-- Bytes in the written form of a row. -/
def rowWidth : Nat := 10

/-- The first `count` byte strings of the width of a row. -/
def rowStrings : Nat → List UInt8 → List (List UInt8)
  | 0, _ => []
  | count + 1, bytes => bytes.take rowWidth :: rowStrings count (bytes.drop rowWidth)

/-- Whether the address that a row begins with is at most the one that another begins with. -/
def addressLe (row other : List UInt8) : Bool :=
  Words.toNat (row.take 4) ≤ Words.toNat (other.take 4)

/-- The part of an image before its last `count` rows. -/
def beforeRows (count : Nat) (image : List UInt8) : List UInt8 :=
  image.take (image.length - count * rowWidth)

/-- The last `count` rows of an image. -/
def rowsIn (count : Nat) (image : List UInt8) : List (List UInt8) :=
  rowStrings count (image.drop (image.length - count * rowWidth))

/-- An image whose last `count` rows are put in order of address; rows of equal address stay as they
follow each other. -/
def sortRows (count : Nat) (image : List UInt8) : List UInt8 :=
  beforeRows count image ++ ((rowsIn count image).mergeSort addressLe).flatten

/-- The number of rows in a program's line table. -/
def rowCount (p : Program) : Nat := p.lines.elim 0 (·.rows.length)

theorem length_writeRow (row : LineRow) : (writeRow row).length = rowWidth := by
  simp [writeRow, rowWidth]

theorem rowStrings_forms (rows : List LineRow) :
    rowStrings rows.length (rows.flatMap writeRow) = rows.map writeRow := by
  induction rows with
  | nil => rfl
  | cons row rows ih =>
      have hWidth := length_writeRow row
      rw [List.length_cons, rowStrings, List.flatMap_cons, List.take_left' hWidth,
        List.drop_left' hWidth, ih, List.map_cons]

theorem flatten_rowStrings {count : Nat} {bytes : List UInt8}
    (h : bytes.length = count * rowWidth) : (rowStrings count bytes).flatten = bytes := by
  induction count generalizing bytes with
  | zero =>
      rw [Nat.zero_mul, List.length_eq_zero_iff] at h
      rw [h]
      rfl
  | succ count ih =>
      rw [Nat.succ_mul] at h
      have hOthers : (bytes.drop rowWidth).length = count * rowWidth := by
        rw [List.length_drop]
        omega
      rw [rowStrings, List.flatten_cons, ih hOthers, List.take_append_drop]

section Rows

variable (front : List UInt8) (rows : List LineRow)

theorem length_sub_rows :
    (front ++ rows.flatMap writeRow).length - rows.length * rowWidth = front.length := by
  rw [List.length_append, length_flatMap_of_width length_writeRow]
  omega

theorem beforeRows_forms :
    beforeRows rows.length (front ++ rows.flatMap writeRow) = front := by
  rw [beforeRows, length_sub_rows, List.take_left]

theorem rowsIn_forms :
    rowsIn rows.length (front ++ rows.flatMap writeRow) = rows.map writeRow := by
  rw [rowsIn, length_sub_rows, List.drop_left, rowStrings_forms]

end Rows

/-- A row that fits begins with its address. -/
theorem address_writeRow {row : LineRow} (h : RowFits row) :
    Words.toNat ((writeRow row).take 4) = row.address := by
  rw [writeRow, List.append_assoc, List.take_left' (Words.length_ofNat 4 row.address),
    Words.toNat_ofNat, Nat.mod_eq_of_lt h.address]

/-- Sorting the written rows is writing the sorted rows. -/
theorem sortRows_forms (front : List UInt8) (files : List String) {rows : List LineRow}
    (h : ∀ row ∈ rows, RowFits row) :
    sortRows rows.length (front ++ rows.flatMap writeRow) =
      front ++ (LineTable.ofParts files rows).rows.flatMap writeRow := by
  have hSort : (rows.map writeRow).mergeSort addressLe =
      (rows.mergeSort fun a b => a.address ≤ b.address).map writeRow := by
    refine (List.map_mergeSort fun a ha b hb => ?_).symm
    rw [addressLe, address_writeRow (h a ha), address_writeRow (h b hb)]
  rw [sortRows, beforeRows_forms, rowsIn_forms, hSort, List.flatMap_def]
  rfl

/-- Sorting leaves rows in order as they are. -/
theorem sortRows_of_pairwise {count : Nat} {image : List UInt8}
    (hLength : count * rowWidth ≤ image.length)
    (h : (rowsIn count image).Pairwise fun row other => addressLe row other = true) :
    sortRows count image = image := by
  have hRows : (image.drop (image.length - count * rowWidth)).length = count * rowWidth := by
    rw [List.length_drop]
    omega
  rw [sortRows, List.mergeSort_of_pairwise h, rowsIn, flatten_rowStrings hRows, beforeRows,
    List.take_append_drop]

theorem formatOf_writeBody {format : Nat} (h : format < Words.capacity 2) (p : Program)
    (more : List UInt8) : formatOf (writeBody format p ++ more) = format := by
  have hField := Words.length_ofNat 2 format
  simp only [formatOf, writeBody, List.append_assoc, List.drop_left, List.take_left' hField,
    Words.toNat_ofNat, Nat.mod_eq_of_lt h]

theorem TableForm.hasLines {wanted : Bool} {lines : Option LineTable} {table : List UInt8}
    (h : TableForm wanted lines table) : wanted = lines.isSome := by
  cases h with
  | absent => rfl
  | present hFits => rfl

/-- A program whose flag tells the truth is written as what it was read from, with the rows of the
table in order. -/
theorem toImage_of_tableForm {p : Program} {table : List UInt8}
    (h : TableForm p.hasLines p.lines table) :
    rowCount p * rowWidth ≤ (writeBody formatNumber p ++ table).length ∧
    p.toImage = sortRows (rowCount p) (writeBody formatNumber p ++ table) := by
  have hImage := toImage_eq p
  rw [imageFlags_of_hasLines h.hasLines] at hImage
  rw [hImage, rowCount]
  clear hImage
  generalize p.lines = lines at h
  generalize p.hasLines = wanted at h
  cases h with
  | absent =>
      refine ⟨by simp, (sortRows_of_pairwise (by simp) ?_).symm⟩
      exact List.Pairwise.nil
  | @present files rows hFits =>
      have hCount : (LineTable.ofParts files rows).rows.length = rows.length :=
        List.length_mergeSort rows
      have hSort := sortRows_forms
        (writeBody formatNumber p ++ writeMany writeName files ++ Words.ofNat 4 rows.length)
        files hFits.rows
      have hLength := length_flatMap_of_width length_writeRow rows
      rw [Option.elim_some, hCount]
      refine ⟨by simp only [writeMany, List.length_append, hLength]; omega, ?_⟩
      simp only [writeTable, writeLines, writeMany, hCount, List.append_assoc] at hSort ⊢
      exact hSort.symm

/-- **What was read is the image of what it was read as**, with the rows of the line table in order
of address; and it is that image itself if the rows were in order. -/
theorem toImage_of_read {input rest : List UInt8} {p : Program}
    (hRead : read true input = .ok (p, rest)) (hFormat : formatOf input = formatNumber) :
    ∃ image, input = image ++ rest ∧
      p.toImage = sortRows (rowCount p) image ∧
      ((rowsIn (rowCount p) image).Pairwise (fun row other => addressLe row other = true) →
        p.toImage = image) := by
  obtain ⟨-, -, format, hLower, table, hTable, rfl⟩ := read_eq_ok.mp hRead
  have hFits : formatNumber < Words.capacity 2 := by decide
  rw [List.append_assoc, formatOf_writeBody (Nat.lt_of_le_of_lt hLower hFits)] at hFormat
  subst hFormat
  obtain ⟨hLength, hImage⟩ := toImage_of_tableForm hTable
  exact ⟨_, rfl, hImage, fun hOrder => hImage.trans (sortRows_of_pairwise hLength hOrder)⟩

/-- An image with rows at the addresses 12, 8 and 12, and one byte behind it. -/
def shuffled : List UInt8 :=
  [0x43, 0x56, 0x4d, 0x58, 1, 0, 3, 0, 255, 255, 255, 255,
    4, 0, 0, 0, 1, 0, 0, 0, 0, 0, 0, 0, 66, 0, 0, 0, 66, 0, 0, 0, 0, 0, 0, 0,
    0, 0, 0, 0, 0, 0, 0, 0, 1, 0, 0, 0, 1, 0, 97,
    3, 0, 0, 0, 12, 0, 0, 0, 0, 0, 2, 0, 0, 0, 8, 0, 0, 0, 0, 0, 1, 0, 0, 0,
    12, 0, 0, 0, 0, 0, 1, 0, 0, 0, 0xff]

/-- The program that the image is read as. -/
def unshuffled : Program where
  flags := 3
  code := #[Opcode.halt.toCell, 0, Opcode.brk.toCell, Opcode.brk.toCell]
  lines := some ⟨["a"], [⟨8, 0, 1⟩, ⟨12, 0, 2⟩, ⟨12, 0, 1⟩]⟩

/-- The row at 8 moves to the front; the two at 12 stay as they follow each other. -/
theorem toImage_of_read_shuffled :
    read true shuffled = .ok (unshuffled, [0xff]) ∧ formatOf shuffled = formatNumber ∧
    ∃ image, shuffled = image ++ [0xff] ∧ unshuffled.toImage = sortRows 3 image := by
  have hTable : LineTable.ofParts ["a"] [⟨12, 0, 2⟩, ⟨8, 0, 1⟩, ⟨12, 0, 1⟩] =
      ⟨["a"], [⟨8, 0, 1⟩, ⟨12, 0, 2⟩, ⟨12, 0, 1⟩]⟩ := by
    simp [LineTable.ofParts, List.mergeSort]
  have hRead : read true shuffled = .ok (unshuffled, [0xff]) := by
    rw [unshuffled, ← hTable]
    rfl
  obtain ⟨image, hInput, hImage, -⟩ := toImage_of_read hRead rfl
  exact ⟨hRead, rfl, image, hInput, hImage⟩

end CellHost.Image
