import CellHost.Image.Reader

/-!
# Readers and the forms that they read

The image format leaves its writer no choice: a field has one written form. A reader is therefore
described by the function that writes what it reads (its *form*) and by the values that the field can
hold, and the description is an equivalence: the reader gives a value, with what follows left over,
exactly if the value fits the field and its form stands at the front. From right to left this is the
round trip; from left to right nothing is lost in reading, so that two byte strings are never read
as the same value.

Two places do leave a choice. The number of the format may be a lower one than the writer's, and the
rows of a line table may come in any order. They stand in the equivalence for a whole image as the
two things that are not determined.

## Main definitions

* `Image.Reads` : a reader described by a form and by the values that fit.
* `Image.BodyFits`, `Image.TableFits` : the programs and the line tables that fit the format.
* `Image.writeBody` : an image up to its line table, in a format of any number.

## Main results

* `Image.readBody_eq_ok`, `Image.readLines_eq_ok` : the two parts of an image.
* `Image.read_eq_ok` : the byte strings that are read as a program.
-/

namespace CellHost.Image

variable {α β : Type} {input rest : List UInt8}

/-! ## Sequences of readers -/

theorem bind_eq_ok {item : Reader α} {next : α → Reader β} {b : β} :
    (item >>= next) input = .ok (b, rest) ↔
      ∃ a mid, item input = .ok (a, mid) ∧ next a mid = .ok (b, rest) := by
  have hBind : (item >>= next) input = (item input >>= fun r => next r.1 r.2) := rfl
  rw [hBind]
  constructor
  · intro h
    cases hItem : item input with
    | error e =>
        rw [hItem] at h
        cases h
    | ok r =>
        rw [hItem] at h
        exact ⟨r.1, r.2, rfl, h⟩
  · rintro ⟨a, mid, hItem, hNext⟩
    rw [hItem]
    exact hNext

theorem bind_of_ok {item : Reader α} {next : α → Reader β} {a : α}
    (h : item input = .ok (a, rest)) : (item >>= next) input = next a rest := by
  have hBind : (item >>= next) input = (item input >>= fun r => next r.1 r.2) := rfl
  rw [hBind, h]
  rfl

theorem bind_of_error {item : Reader α} {next : α → Reader β} {e : ImageError}
    (h : item input = .error e) : (item >>= next) input = .error e := by
  have hBind : (item >>= next) input = (item input >>= fun r => next r.1 r.2) := rfl
  rw [hBind, h]
  rfl

theorem lift_eq_ok {e : Except ImageError α} {a : α} :
    (liftM e : Reader α) input = .ok (a, rest) ↔ e = .ok a ∧ input = rest := by
  have hLift : (liftM e : Reader α) input = (e >>= fun a => .ok (a, input)) := rfl
  rw [hLift]
  cases e with
  | error e => simp [bind, Except.bind]
  | ok b => simp [bind, Except.bind]

theorem pure_eq_ok {a b : α} :
    (pure a : Reader α) input = .ok (b, rest) ↔ a = b ∧ input = rest := by
  have hPure : (pure a : Reader α) input = .ok (a, input) := rfl
  rw [hPure, Except.ok.injEq, Prod.mk.injEq]

/-- The reader gives a value and leaves `rest` exactly if the value fits and the input is the form of
the value with `rest` behind it. -/
def Reads (item : Reader α) (form : α → List UInt8) (fits : α → Prop) : Prop :=
  ∀ input a rest, item input = .ok (a, rest) ↔ fits a ∧ input = form a ++ rest

theorem Reads.bind_eq_ok {item : Reader α} {form : α → List UInt8} {fits : α → Prop}
    (h : Reads item form fits) {next : α → Reader β} {b : β} :
    (item >>= next) input = .ok (b, rest) ↔
      ∃ a mid, fits a ∧ input = form a ++ mid ∧ next a mid = .ok (b, rest) := by
  rw [Image.bind_eq_ok]
  constructor
  · rintro ⟨a, mid, hItem, hNext⟩
    obtain ⟨hFits, hInput⟩ := (h input a mid).mp hItem
    exact ⟨a, mid, hFits, hInput, hNext⟩
  · rintro ⟨a, mid, hFits, hInput, hNext⟩
    exact ⟨a, mid, (h input a mid).mpr ⟨hFits, hInput⟩, hNext⟩

/-! ## Numbers, cells and names -/

theorem reads_bytes (count : Nat) : Reads (bytes count) id fun taken => taken.length = count := by
  intro input taken rest
  constructor
  · intro h
    unfold bytes at h
    dsimp only at h
    split at h
    · next hLength =>
        cases h
        exact ⟨hLength, (List.take_append_drop count input).symm⟩
    · cases h
  · rintro ⟨rfl, rfl⟩
    simp [bytes]

theorem reads_number (width : Nat) :
    Reads (number width) (Words.ofNat width) fun n => n < Words.capacity width := by
  intro input n rest
  rw [number, (reads_bytes width).bind_eq_ok]
  simp only [pure_eq_ok]
  constructor
  · rintro ⟨taken, mid, rfl, rfl, rfl, rfl⟩
    refine ⟨Words.toNat_lt taken, ?_⟩
    rw [Words.ofNat_toNat]
    rfl
  · rintro ⟨hFits, rfl⟩
    refine ⟨Words.ofNat width n, rest, Words.length_ofNat width n, rfl, ?_, rfl⟩
    rw [Words.toNat_ofNat, Nat.mod_eq_of_lt hFits]

theorem cellsOf_append {taken : List UInt8} (h : taken.length = cellSize) (done : Array Cell)
    (more : List UInt8) :
    cellsOf done (taken ++ more) = cellsOf (done.push (Words.toCell taken)) more := by
  match taken, h with
  | [a, b, c, d], _ => rfl

theorem cellsOf_forms (done : Array Cell) (cells : List Cell) :
    cellsOf done (cells.flatMap Words.ofCell) = done ++ cells.toArray := by
  induction cells generalizing done with
  | nil => simp [cellsOf]
  | cons cell cells ih =>
      rw [List.flatMap_cons, cellsOf_append (Words.length_ofCell cell), Words.toCell_ofCell, ih]
      simp

/-- Bytes that fill a number of cells are the form of that many cells. -/
theorem exists_cells {count : Nat} {taken : List UInt8} (h : taken.length = count * cellSize) :
    ∃ cells : List Cell, cells.length = count ∧ cells.flatMap Words.ofCell = taken := by
  induction count generalizing taken with
  | zero =>
      rw [Nat.zero_mul, List.length_eq_zero_iff] at h
      exact ⟨[], rfl, h.symm⟩
  | succ count ih =>
      rw [Nat.succ_mul] at h
      have hFirst : (taken.take cellSize).length = cellSize := by
        rw [List.length_take]
        omega
      have hOthers : (taken.drop cellSize).length = count * cellSize := by
        rw [List.length_drop]
        omega
      obtain ⟨cells, hCount, hCells⟩ := ih hOthers
      refine ⟨Words.toCell (taken.take cellSize) :: cells, congrArg (· + 1) hCount, ?_⟩
      rw [List.flatMap_cons, Words.ofCell_toCell hFirst, hCells, List.take_append_drop]

/-- Forms of one width are as long together as their count says. -/
theorem length_flatMap_of_width {form : α → List UInt8} {width : Nat}
    (h : ∀ a, (form a).length = width) (items : List α) :
    (items.flatMap form).length = items.length * width := by
  induction items with
  | nil => simp
  | cons a items ih =>
      rw [List.flatMap_cons, List.length_append, h, ih, List.length_cons, Nat.succ_mul, Nat.add_comm]

theorem reads_cells : Reads readCells writeCells fun cells => cells.size < Words.capacity 4 := by
  intro input cells rest
  unfold readCells
  rw [(reads_number 4).bind_eq_ok]
  constructor
  · rintro ⟨count, mid, hFits, rfl, h⟩
    dsimp only at h
    split at h
    · next hLength =>
        cases h
        obtain ⟨cells, rfl, hCells⟩ := exists_cells hLength
        rw [← hCells, cellsOf_forms]
        refine ⟨by simpa using hFits, ?_⟩
        simp only [writeCells, Array.empty_append, List.size_toArray, List.append_assoc, hCells,
          List.take_append_drop]
    · cases h
  · rintro ⟨hFits, rfl⟩
    have hLength : (cells.toList.flatMap Words.ofCell).length = cells.size * cellSize :=
      length_flatMap_of_width Words.length_ofCell cells.toList
    refine ⟨cells.size, cells.toList.flatMap Words.ofCell ++ rest, hFits,
      List.append_assoc _ _ _, ?_⟩
    dsimp only
    rw [List.take_left' hLength, List.drop_left' hLength, if_pos hLength, cellsOf_forms]
    simp

/-- A name fits if its length does. -/
def NameFits (name : String) : Prop := (Utf8.encode name).length < Words.capacity 2

instance (name : String) : Decidable (NameFits name) :=
  inferInstanceAs (Decidable ((Utf8.encode name).length < Words.capacity 2))

theorem reads_name : Reads readName writeName NameFits := by
  intro input name rest
  unfold readName
  rw [(reads_number 2).bind_eq_ok]
  simp only [(reads_bytes _).bind_eq_ok]
  constructor
  · rintro ⟨count, mid, hFits, rfl, encoded, behind, rfl, rfl, h⟩
    cases hDecode : Utf8.decode encoded with
    | error fault =>
        rw [hDecode] at h
        cases h
    | ok text =>
        rw [hDecode] at h
        cases h
        have hEncode := Utf8.encode_of_decode hDecode
        refine ⟨by rwa [NameFits, hEncode], ?_⟩
        rw [writeName, hEncode, List.append_assoc]
        rfl
  · rintro ⟨hFits, rfl⟩
    refine ⟨_, Utf8.encode name ++ rest, hFits, List.append_assoc _ _ _, Utf8.encode name, rest, rfl,
      rfl, ?_⟩
    rw [Utf8.decode_encode]
    rfl

/-! ## Tables -/

section Many

variable {item : Reader α} {form : α → List UInt8} {fits : α → Prop}

theorem readItems_eq_ok (h : Reads item form fits) {count : Nat} {done all : List α} :
    readItems item count done input = .ok (all, rest) ↔
      ∃ items, items.length = count ∧ (∀ a ∈ items, fits a) ∧ all = done.reverse ++ items ∧
        input = items.flatMap form ++ rest := by
  induction count generalizing done input with
  | zero =>
      rw [readItems, Except.ok.injEq, Prod.mk.injEq]
      constructor
      · rintro ⟨rfl, rfl⟩
        exact ⟨[], rfl, by simp, by simp, rfl⟩
      · rintro ⟨items, hNone, -, rfl, rfl⟩
        obtain rfl := List.length_eq_zero_iff.mp hNone
        simp
  | succ count ih =>
      constructor
      · intro hRead
        rw [readItems] at hRead
        cases hItem : item input with
        | error e =>
            rw [hItem] at hRead
            cases hRead
        | ok first =>
            rw [hItem] at hRead
            obtain ⟨hFits, hInput⟩ := (h input first.1 first.2).mp hItem
            obtain ⟨items, rfl, hAll, rfl, hRest⟩ := ih.mp hRead
            refine ⟨first.1 :: items, rfl, ?_, ?_, ?_⟩
            · exact List.forall_mem_cons.mpr ⟨hFits, hAll⟩
            · simp
            · rw [List.flatMap_cons, List.append_assoc, ← hRest, hInput]
      · rintro ⟨items, hCount, hAll, rfl, rfl⟩
        match items, hCount with
        | a :: items, hCount =>
            obtain ⟨hFits, hItems⟩ := List.forall_mem_cons.mp hAll
            have hItem := (h _ a (items.flatMap form ++ rest)).mpr ⟨hFits, rfl⟩
            rw [readItems, List.flatMap_cons, List.append_assoc, hItem]
            exact ih.mpr ⟨items, Nat.succ.inj hCount, hItems, by simp, rfl⟩

theorem reads_many (h : Reads item form fits) :
    Reads (readMany item) (writeMany form) fun items =>
      items.length < Words.capacity 4 ∧ ∀ a ∈ items, fits a := by
  intro input items rest
  unfold readMany
  rw [(reads_number 4).bind_eq_ok]
  constructor
  · rintro ⟨count, mid, hFits, rfl, hRead⟩
    obtain ⟨items, rfl, hAll, rfl, rfl⟩ := (readItems_eq_ok h).mp hRead
    exact ⟨⟨hFits, hAll⟩, (List.append_assoc _ _ _).symm⟩
  · rintro ⟨⟨hFits, hAll⟩, rfl⟩
    refine ⟨items.length, items.flatMap form ++ rest, hFits, List.append_assoc _ _ _, ?_⟩
    exact (readItems_eq_ok h).mpr ⟨items, rfl, hAll, rfl, rfl⟩

end Many

/-- A public fits if its name and its address do. -/
structure PublicFits (entry : Public) : Prop where
  name : NameFits entry.name
  address : entry.address < Words.capacity 4

instance (entry : Public) : Decidable (PublicFits entry) :=
  decidable_of_iff (NameFits entry.name ∧ entry.address < Words.capacity 4)
    ⟨fun ⟨name, address⟩ => ⟨name, address⟩, fun ⟨name, address⟩ => ⟨name, address⟩⟩

theorem reads_public : Reads readPublic writePublic PublicFits := by
  intro input entry rest
  unfold readPublic
  simp only [reads_name.bind_eq_ok, (reads_number 4).bind_eq_ok, pure_eq_ok]
  constructor
  · rintro ⟨name, mid, hName, rfl, address, behind, hAddress, rfl, rfl, rfl⟩
    exact ⟨⟨hName, hAddress⟩, (List.append_assoc _ _ _).symm⟩
  · rintro ⟨hFits, rfl⟩
    exact ⟨entry.name, _, hFits.name, List.append_assoc _ _ _, entry.address, rest, hFits.address,
      rfl, rfl, rfl⟩

/-- A row of a line table fits if its three numbers do. -/
structure RowFits (row : LineRow) : Prop where
  address : row.address < Words.capacity 4
  file : row.file < Words.capacity 2
  line : row.line < Words.capacity 4

instance (row : LineRow) : Decidable (RowFits row) :=
  decidable_of_iff
    (row.address < Words.capacity 4 ∧ row.file < Words.capacity 2 ∧ row.line < Words.capacity 4)
    ⟨fun ⟨address, file, line⟩ => ⟨address, file, line⟩,
      fun ⟨address, file, line⟩ => ⟨address, file, line⟩⟩

theorem reads_row : Reads readRow writeRow RowFits := by
  intro input row rest
  unfold readRow
  simp only [(reads_number _).bind_eq_ok, pure_eq_ok]
  constructor
  · rintro ⟨address, mid, hAddress, rfl, file, behind, hFile, rfl, line, last, hLine, rfl, rfl, rfl⟩
    refine ⟨⟨hAddress, hFile, hLine⟩, ?_⟩
    simp only [writeRow, List.append_assoc]
  · rintro ⟨hFits, rfl⟩
    simp only [writeRow, List.append_assoc]
    exact ⟨row.address, _, hFits.address, rfl, row.file, _, hFits.file, rfl, row.line, rest,
      hFits.line, rfl, rfl, rfl⟩

/-- Files and rows of a line table fit if their counts do, and they themselves. -/
structure TableFits (files : List String) (rows : List LineRow) : Prop where
  fileCount : files.length < Words.capacity 4
  files : ∀ name ∈ files, NameFits name
  rowCount : rows.length < Words.capacity 4
  rows : ∀ row ∈ rows, RowFits row

/-- The rows of the table are those of the image, in order of address. -/
theorem readLines_eq_ok {table : LineTable} :
    readLines input = .ok (table, rest) ↔
      ∃ files rows, TableFits files rows ∧ table = LineTable.ofParts files rows ∧
        input = writeMany writeName files ++ writeMany writeRow rows ++ rest := by
  unfold readLines
  simp only [(reads_many reads_name).bind_eq_ok, (reads_many reads_row).bind_eq_ok, pure_eq_ok]
  constructor
  · rintro ⟨files, mid, ⟨hFileCount, hFiles⟩, rfl, rows, behind, ⟨hRowCount, hRows⟩, rfl, rfl, rfl⟩
    exact ⟨files, rows, ⟨hFileCount, hFiles, hRowCount, hRows⟩, rfl,
      (List.append_assoc _ _ _).symm⟩
  · rintro ⟨files, rows, hFits, rfl, rfl⟩
    exact ⟨files, _, ⟨hFits.fileCount, hFits.files⟩, List.append_assoc _ _ _, rows, rest,
      ⟨hFits.rowCount, hFits.rows⟩, rfl, rfl, rfl⟩

/-! ## The fields before the tables -/

theorem reads_mark : Reads readMark (fun _ => mark) fun _ => True := by
  intro input a rest
  unfold readMark
  rw [(reads_bytes _).bind_eq_ok]
  constructor
  · rintro ⟨found, mid, -, rfl, h⟩
    split at h
    · next hMark =>
        cases h
        exact ⟨trivial, by rw [hMark]; rfl⟩
    · cases h
  · rintro ⟨-, rfl⟩
    exact ⟨mark, rest, rfl, rfl, rfl⟩

/-- Every format up to the present one is read. -/
theorem readFormat_bind_eq_ok {next : Unit → Reader β} {b : β} :
    (readFormat >>= next) input = .ok (b, rest) ↔
      ∃ format ≤ formatNumber, ∃ mid, input = Words.ofNat 2 format ++ mid ∧
        next () mid = .ok (b, rest) := by
  have hFits : formatNumber < Words.capacity 2 := by decide
  unfold readFormat
  simp only [bind_assoc, (reads_number 2).bind_eq_ok]
  constructor
  · rintro ⟨format, mid, -, rfl, h⟩
    by_cases hFormat : format ≤ formatNumber
    · rw [if_pos hFormat, pure_bind] at h
      exact ⟨format, hFormat, mid, rfl, h⟩
    · rw [if_neg hFormat] at h
      cases h
  · rintro ⟨format, hFormat, mid, rfl, h⟩
    refine ⟨format, mid, Nat.lt_of_le_of_lt hFormat hFits, rfl, ?_⟩
    rw [if_pos hFormat, pure_bind]
    exact h

/-- An entry that is not negative fits; the number for none is that of a negative entry. -/
theorem reads_main :
    Reads readMain (fun main => Words.ofNat 4 (main.getD noMain)) fun main =>
      ∀ entry ∈ main, entry ≤ Cell.maxValue := by
  intro input main rest
  unfold readMain
  rw [(reads_number 4).bind_eq_ok]
  constructor
  · rintro ⟨entry, mid, hFits, rfl, h⟩
    split at h
    · next hNone =>
        cases h
        exact ⟨by simp, by rw [hNone]; rfl⟩
    · split at h
      · next hEntry =>
          cases h
          refine ⟨?_, rfl⟩
          intro _ h
          cases h
          exact hEntry
      · cases h
  · rintro ⟨hFits, rfl⟩
    cases main with
    | none => exact ⟨noMain, rest, by decide, rfl, rfl⟩
    | some entry =>
        have hEntry := hFits entry rfl
        have hMax : Cell.maxValue < noMain := by decide
        have hNoMain : noMain < Words.capacity 4 := by decide
        refine ⟨entry, rest, by omega, rfl, ?_⟩
        rw [if_neg (by omega), if_pos hEntry]
        rfl

/-- A program fits, its line table apart, if its numbers, names and counts do. -/
structure BodyFits (p : Program) : Prop where
  main : ∀ entry ∈ p.main, entry ≤ Cell.maxValue
  codeCount : p.code.size < Words.capacity 4
  dataCount : p.data.size < Words.capacity 4
  publicCount : p.publics.length < Words.capacity 4
  publics : ∀ entry ∈ p.publics, PublicFits entry
  nativeCount : p.natives.length < Words.capacity 4
  natives : ∀ name ∈ p.natives, NameFits name

/-- An image up to the line table, in a format of the given number. -/
def writeBody (format : Nat) (p : Program) : List UInt8 :=
  mark ++ Words.ofNat 2 format ++ Words.ofNat 2 p.flags.toNat
    ++ Words.ofNat 4 (p.main.getD noMain)
    ++ writeCells p.code ++ writeCells p.data
    ++ writeMany writePublic p.publics
    ++ writeMany writeName p.natives

theorem readBody_eq_ok {p : Program} :
    readBody input = .ok (p, rest) ↔
      BodyFits p ∧ p.lines = none ∧
        ∃ format ≤ formatNumber, input = writeBody format p ++ rest := by
  unfold readBody
  simp only [reads_mark.bind_eq_ok, readFormat_bind_eq_ok, (reads_number 2).bind_eq_ok,
    reads_main.bind_eq_ok, reads_cells.bind_eq_ok, (reads_many reads_public).bind_eq_ok,
    (reads_many reads_name).bind_eq_ok, pure_eq_ok]
  constructor
  · rintro ⟨-, s₁, -, rfl, format, hFormat, s₂, rfl, flags, s₃, hFlags, rfl, main, s₄, hMain, rfl,
      code, s₅, hCode, rfl, data, s₆, hData, rfl, publics, s₇, ⟨hPublicCount, hPublics⟩, rfl,
      natives, s₈, ⟨hNativeCount, hNatives⟩, rfl, rfl, rfl⟩
    refine ⟨⟨hMain, hCode, hData, hPublicCount, hPublics, hNativeCount, hNatives⟩, rfl, format,
      hFormat, ?_⟩
    have hNat : (UInt16.ofNat flags).toNat = flags := UInt16.toNat_ofNat_of_lt hFlags
    simp only [writeBody, hNat, List.append_assoc]
  · rintro ⟨hFits, hLines, format, hFormat, rfl⟩
    simp only [writeBody, List.append_assoc]
    refine ⟨(), _, trivial, rfl, format, hFormat, _, rfl, p.flags.toNat, _, p.flags.toNat_lt,
      rfl, p.main, _, hFits.main, rfl, p.code, _, hFits.codeCount, rfl, p.data, _, hFits.dataCount,
      rfl, p.publics, _, ⟨hFits.publicCount, hFits.publics⟩, rfl, p.natives, rest,
      ⟨hFits.nativeCount, hFits.natives⟩, rfl, ?_, rfl⟩
    rw [UInt16.ofNat_toNat, ← hLines]

/-- Whether the body fits does not depend on the flags and the line table. -/
theorem BodyFits.relabel {p : Program} (h : BodyFits p) (flags : UInt16) (lines : Option LineTable) :
    BodyFits { p with flags, lines } :=
  ⟨h.main, h.codeCount, h.dataCount, h.publicCount, h.publics, h.nativeCount, h.natives⟩

/-! ## Whole images -/

/-- Code begins at `main` and at every public. -/
structure EntriesInside (p : Program) : Prop where
  main : ∀ entry ∈ p.main, p.isCodeAddress entry = true
  publics : ∀ entry ∈ p.publics, p.isCodeAddress entry.address = true

theorem EntriesInside.relabel {p : Program} (h : EntriesInside p) (flags : UInt16)
    (lines : Option LineTable) : EntriesInside { p with flags, lines } :=
  ⟨h.main, h.publics⟩

theorem checkEntries_eq_ok {p : Program} {a : Unit} :
    checkEntries p = .ok a ↔ EntriesInside p := by
  unfold checkEntries
  constructor
  · intro h
    split at h
    · cases h
    · next hMain =>
        split at h
        · cases h
        · next hPublics =>
            refine ⟨?_, ?_⟩
            · intro entry hEntry
              rw [Option.mem_def] at hEntry
              simpa [hEntry] using hMain
            · simpa using hPublics
  · intro h
    have hMain : ¬ p.main.any (!p.isCodeAddress ·) = true := by
      cases hEntry : p.main with
      | none => simp
      | some entry => simpa using h.main entry hEntry
    have hPublics : p.publics.find? (!p.isCodeAddress ·.address) = none := by
      simpa using h.publics
    rw [if_neg hMain, hPublics]

/-- What stands behind the body of an image: a line table if one is to be read there. -/
inductive TableForm : Bool → Option LineTable → List UInt8 → Prop
  | absent : TableForm false none []
  | present {files : List String} {rows : List LineRow} :
      TableFits files rows →
      TableForm true (some (.ofParts files rows))
        (writeMany writeName files ++ writeMany writeRow rows)

/-- **The byte strings that are read as a program.** -/
theorem read_eq_ok {withLines : Bool} {p : Program} :
    read withLines input = .ok (p, rest) ↔
      BodyFits p ∧ EntriesInside p ∧ ∃ format ≤ formatNumber, ∃ table,
        TableForm (withLines && p.hasLines) p.lines table ∧
          input = writeBody format p ++ table ++ rest := by
  unfold read
  simp only [bind_eq_ok, readBody_eq_ok, lift_eq_ok, checkEntries_eq_ok]
  constructor
  · rintro ⟨body, mid, ⟨hFits, hNone, format, hFormat, rfl⟩, -, _, ⟨hInside, rfl⟩, h⟩
    cases hWanted : (withLines && body.hasLines) with
    | false =>
        rw [hWanted] at h
        obtain ⟨rfl, rfl⟩ := pure_eq_ok.mp h
        refine ⟨hFits, hInside, format, hFormat, [], ?_, by rw [List.append_nil]⟩
        rw [hWanted, hNone]
        exact .absent
    | true =>
        rw [hWanted] at h
        obtain ⟨table, behind, hLines, hPure⟩ := bind_eq_ok.mp h
        obtain ⟨rfl, rfl⟩ := pure_eq_ok.mp hPure
        obtain ⟨files, rows, hTable, rfl, rfl⟩ := readLines_eq_ok.mp hLines
        refine ⟨hFits.relabel _ _, hInside.relabel _ _, format, hFormat, _, ?_,
          (List.append_assoc _ _ _).symm⟩
        have hSame : (withLines && ({ body with lines := some (.ofParts files rows) } : Program).hasLines)
            = true := hWanted
        rw [hSame]
        exact .present hTable
  · rintro ⟨hFits, hInside, format, hFormat, table, hTable, rfl⟩
    refine ⟨{ p with lines := none }, table ++ rest, ⟨hFits.relabel _ none, rfl, format, hFormat,
      List.append_assoc _ _ _⟩, (), _, ⟨hInside.relabel _ none, rfl⟩, ?_⟩
    have hSame : (withLines && ({ p with lines := none } : Program).hasLines)
        = (withLines && p.hasLines) := rfl
    rw [hSame]
    generalize hWanted : (withLines && p.hasLines) = wanted at hTable
    generalize hLines : p.lines = lines at hTable
    cases hTable with
    | absent =>
        rw [← hLines]
        exact pure_eq_ok.mpr ⟨rfl, rfl⟩
    | present hTable =>
        refine bind_eq_ok.mpr ⟨_, rest, readLines_eq_ok.mpr ⟨_, _, hTable, rfl, rfl⟩, ?_⟩
        rw [← hLines]
        exact pure_eq_ok.mpr ⟨rfl, rfl⟩

/-- An image whose body fits is refused where code does not begin at one of its entries. -/
theorem read_of_entriesOutside {p : Program} {e : ImageError} (hFits : BodyFits p)
    (h : checkEntries p = .error e) (withLines : Bool) (rest : List UInt8) :
    read withLines (writeBody formatNumber p ++ rest) = .error e := by
  have hBody : readBody (writeBody formatNumber p ++ rest) = .ok ({ p with lines := none }, rest) :=
    readBody_eq_ok.mpr ⟨hFits.relabel p.flags none, rfl, formatNumber, Nat.le_refl _, rfl⟩
  have hCheck : (liftM (checkEntries { p with lines := none }) : Reader Unit) rest = .error e := by
    rw [show checkEntries { p with lines := none } = .error e from h]
    rfl
  rw [read, bind_of_ok hBody, bind_of_error hCheck]

end CellHost.Image
