import CellHost.Proofs.LineTable.Order

/-!
# What a line table says

A table whose rows are in order answers for an address with the last of all its rows at or below it,
wherever in the table they stand. A row added at an address that no other row is above is the last
of the table, and what the table says of its other rows does not depend on the files entered since.

## Main definitions

* `LineTable.entries` : the addresses of the rows, with the locations that they name.

## Main results

* `LineTable.lookup?_eq` : the location of an address, as the last of the entries up to it.
* `LineTable.entries_addLine` : a table says one thing more when it has one line more.
-/

namespace CellHost.LineTable

/-- The location that a row names, if its file is one of the table. -/
def locationOf? (table : LineTable) (row : LineRow) : Option SourceLocation :=
  table.files[row.file]?.map fun file => ⟨file, row.line⟩

/-- The addresses of the rows, with the locations that they name. -/
def entries (table : LineTable) : List (Nat × Option SourceLocation) :=
  table.rows.map fun row => (row.address, table.locationOf? row)

/-- The rows up to an address come first. -/
theorem takeWhile_eq_filter {rows : List LineRow} (h : InOrder rows) (pc : Nat) :
    rows.takeWhile (fun row => row.address ≤ pc) = rows.filter fun row => row.address ≤ pc := by
  induction rows with
  | nil => rfl
  | cons first rows ih =>
      obtain ⟨hFirst, hRows⟩ := List.pairwise_cons.mp h
      by_cases hLow : first.address ≤ pc
      · rw [List.takeWhile_cons_of_pos (by simpa using hLow),
          List.filter_cons_of_pos (by simpa using hLow), ih hRows]
      · have hNone : rows.filter (fun row => row.address ≤ pc) = [] := by
          refine List.filter_eq_nil_iff.mpr fun row hRow => ?_
          have hAbove := hFirst row hRow
          simp only [decide_eq_true_eq]
          omega
        rw [List.takeWhile_cons_of_neg (by simpa using hLow),
          List.filter_cons_of_neg (by simpa using hLow), hNone]

/-- **The location of an address is that of the last entry up to it.** -/
theorem lookup?_eq {table : LineTable} (h : InOrder table.rows) (pc : Nat) :
    table.lookup? pc = ((table.entries.filter fun entry => entry.1 ≤ pc).getLast?).bind (·.2) := by
  have hFilter : table.entries.filter (fun entry => entry.1 ≤ pc) =
      (table.rows.filter fun row => row.address ≤ pc).map fun row =>
        (row.address, table.locationOf? row) := by
    rw [entries, List.filter_map]
    rfl
  rw [lookup?, rowAt?, takeWhile_eq_filter h, hFilter, List.getLast?_map, Option.bind_map]
  cases (table.rows.filter fun row => row.address ≤ pc).getLast? with
  | none => rfl
  | some row =>
      simp only [Option.bind_eq_bind, Option.bind_some, Function.comp_apply, locationOf?]
      cases table.files[row.file]? <;> rfl

/-- A row above all others goes to the end. -/
theorem insertRow_of_le {row : LineRow} {rows : List LineRow}
    (h : ∀ old ∈ rows, old.address ≤ row.address) : insertRow row rows = rows ++ [row] := by
  induction rows with
  | nil => rfl
  | cons first rows ih =>
      obtain ⟨hFirst, hRows⟩ := List.forall_mem_cons.mp h
      rw [insertRow, if_pos hFirst, ih hRows, List.cons_append]

/-- The index that a file gets is its own, and the files that were there keep theirs. -/
theorem files_addFile (table : LineTable) (name : String) :
    (table.addFile name).1.files[(table.addFile name).2]? = some name ∧
      ∀ index < table.files.length,
        (table.addFile name).1.files[index]? = table.files[index]? := by
  unfold addFile
  cases hIndex : table.files.idxOf? name with
  | none =>
      refine ⟨?_, fun index hInside => ?_⟩
      · exact List.getElem?_concat_length
      · exact List.getElem?_append_left hInside
  | some index =>
      obtain ⟨hInside, hFound, -⟩ := List.idxOf?_eq_some_iff.mp hIndex
      refine ⟨?_, fun _ _ => rfl⟩
      rw [List.getElem?_eq_getElem hInside]
      rw [hFound]

/-- **A line at an address that no row is above is one entry more.** -/
theorem entries_addLine {table : LineTable} {address : Nat} (name : String) (line : Nat)
    (hAddress : ∀ row ∈ table.rows, row.address ≤ address)
    (hFile : ∀ row ∈ table.rows, row.file < table.files.length) :
    ((table.addFile name).1.addRow address (table.addFile name).2 line).entries =
      table.entries ++ [(address, some ⟨name, line⟩)] := by
  obtain ⟨hNew, hOld⟩ := files_addFile table name
  obtain ⟨hRows, -, -⟩ := addFile_spec table name
  have hInserted : insertRow ⟨address, (table.addFile name).2, line⟩ (table.addFile name).1.rows =
      table.rows ++ [⟨address, (table.addFile name).2, line⟩] := by
    rw [hRows]
    exact insertRow_of_le hAddress
  unfold entries addRow
  dsimp only
  rw [hInserted, List.map_append]
  congr 1
  · refine List.map_congr_left fun row hRow => ?_
    simp only [locationOf?, hOld _ (hFile row hRow)]
  · simp only [List.map_cons, List.map_nil, locationOf?, hNew, Option.map_some]

end CellHost.LineTable
