/-!
# Line tables

A line table says which source line the code at an address belongs to. It is a file table and a
list of rows, each giving the line that starts at an address; the row in force at an address is the
last one at or below it. Rows are kept in order of address, and rows of equal address in the order
in which they were added, so the table built row by row and the table sorted in one go are the same.

## Main definitions

* `LineTable.ofParts`, `LineTable.addRow` : the two ways of filling a table.
* `LineTable.lookup?` : the source location of an address.
-/

namespace CellHost

/-- Code at `address` and above belongs to `line` of the file with index `file`. -/
structure LineRow where
  address : Nat
  file : Nat
  line : Nat
  deriving DecidableEq, Repr, Inhabited

/-- A line of a source file. -/
structure SourceLocation where
  file : String
  line : Nat
  deriving DecidableEq, Repr, Inhabited

/-- The wording of a location in reports. -/
def SourceLocation.describe (location : SourceLocation) : String :=
  s!"File: {location.file}, line: {location.line}"

/-- Source files, and rows in order of address. -/
structure LineTable where
  files : List String := []
  rows : List LineRow := []
  deriving DecidableEq, Repr, Inhabited

namespace LineTable

/-- Put a row behind all rows of the same or a lower address. -/
def insertRow (row : LineRow) : List LineRow → List LineRow
  | [] => [row]
  | first :: rest =>
    if first.address ≤ row.address then first :: insertRow row rest else row :: first :: rest

/-- A table from its parts; the rows may come in any order. -/
def ofParts (files : List String) (rows : List LineRow) : LineTable where
  files := files
  rows := rows.mergeSort fun a b => a.address ≤ b.address

/-- The table with a file, entered if it is new, and the file's index. -/
def addFile (table : LineTable) (name : String) : LineTable × Nat :=
  match table.files.idxOf? name with
  | some index => (table, index)
  | none => ({ table with files := table.files ++ [name] }, table.files.length)

/-- The table with one more row. -/
def addRow (table : LineTable) (address file line : Nat) : LineTable :=
  { table with rows := insertRow ⟨address, file, line⟩ table.rows }

/-- A table without rows resolves nothing, whatever files it names. -/
def isEmpty (table : LineTable) : Bool := table.rows.isEmpty

/-- The row in force at an address: the last one at or below it. -/
def rowAt? (table : LineTable) (pc : Nat) : Option LineRow :=
  (table.rows.takeWhile fun row => row.address ≤ pc).getLast?

/-- The source location of an address, if a row is in force there and names a file of the table. -/
def lookup? (table : LineTable) (pc : Nat) : Option SourceLocation := do
  let row ← table.rowAt? pc
  let file ← table.files[row.file]?
  return ⟨file, row.line⟩

theorem insertRow_length (row : LineRow) (rows : List LineRow) :
    (insertRow row rows).length = rows.length + 1 := by
  induction rows with
  | nil => rfl
  | cons first rest ih =>
    by_cases h : first.address ≤ row.address <;> simp [insertRow, h, ih]

theorem perm_insertRow (row : LineRow) (rows : List LineRow) :
    (insertRow row rows).Perm (row :: rows) := by
  induction rows with
  | nil => exact .refl _
  | cons first rest ih =>
    by_cases h : first.address ≤ row.address
    · simpa [insertRow, h] using (ih.cons first).trans (.swap row first rest)
    · simp [insertRow, h]

end LineTable

end CellHost
