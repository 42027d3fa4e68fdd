import CellHost.Proofs.LineTable.Lookup
import Mathlib.Data.List.Induction

/-!
# A line table is a stable sorted map

The rows of a table are determined by two things: they are in order of address, and those of one
address stand in the order in which they were given. Adding a row and sorting all rows keep both, so
a table filled row by row is the table sorted in one go, whatever the order of the rows.

For an address the table answers with the row given last of those with the greatest address up to
it. Being in order is also what makes halving find the place of a row.

## Main definitions

* `LineTable.rowsAt` : the rows of one address.
* `LineTable.addRows` : a table with rows added one by one.
* `LineTable.InForce` : the row given last of those with the greatest address up to an address.
* `LineTable.place` : the place behind the rows up to an address, found by halving.

## Main results

* `LineTable.ofParts_concat` : one row more, in a table sorted in one go.
* `LineTable.rowAt?_addRow` : what one more row changes in the answers of a table.
* `LineTable.place_eq` : halving finds the place behind the rows up to an address.
* `LineTable.ofParts_stable_map` : a table of rows in any order is a stable sorted map.
-/

namespace CellHost.LineTable

variable {rows : List LineRow} {pc : Nat}

/-! ## Rows of one address -/

/-- The rows of one address, as they follow each other. -/
def rowsAt (rows : List LineRow) (address : Nat) : List LineRow :=
  rows.filter fun row => row.address = address

theorem mem_rowsAt {row : LineRow} {address : Nat} :
    row ∈ rowsAt rows address ↔ row ∈ rows ∧ row.address = address := by
  rw [rowsAt, List.mem_filter, decide_eq_true_eq]

theorem rowsAt_cons (first : LineRow) (rows : List LineRow) (address : Nat) :
    rowsAt (first :: rows) address =
      if first.address = address then first :: rowsAt rows address else rowsAt rows address := by
  simp only [rowsAt, List.filter_cons, decide_eq_true_eq]

/-- Lists with the same rows of each address have the same rows. -/
theorem mem_iff_of_rowsAt {others : List LineRow}
    (h : ∀ address, rowsAt rows address = rowsAt others address) (row : LineRow) :
    row ∈ rows ↔ row ∈ others := by
  have hAt : row ∈ rowsAt rows row.address ↔ row ∈ rowsAt others row.address := by rw [h]
  simpa only [mem_rowsAt, and_true] using hAt

/-- Rows in order are determined by the rows of each address. -/
theorem eq_of_rowsAt {others : List LineRow} (hRows : InOrder rows) (hOthers : InOrder others)
    (h : ∀ address, rowsAt rows address = rowsAt others address) : rows = others := by
  have hMem := mem_iff_of_rowsAt h
  induction rows generalizing others with
  | nil =>
      cases others with
      | nil => rfl
      | cons other others => exact absurd ((hMem other).mpr List.mem_cons_self) List.not_mem_nil
  | cons row rows ih =>
      cases others with
      | nil => exact absurd ((hMem row).mp List.mem_cons_self) List.not_mem_nil
      | cons other others =>
          obtain ⟨hFirst, hRest⟩ := List.pairwise_cons.mp hRows
          obtain ⟨hOther, hOtherRest⟩ := List.pairwise_cons.mp hOthers
          -- Each of the two heads stands in the other list, so neither is above the other.
          have hAddress : row.address = other.address := by
            rcases List.mem_cons.mp ((hMem row).mp List.mem_cons_self) with rfl | hRow
            · rfl
            · rcases List.mem_cons.mp ((hMem other).mpr List.mem_cons_self) with rfl | hBack
              · rfl
              · exact Nat.le_antisymm (hFirst other hBack) (hOther row hRow)
          have hHeads := h row.address
          rw [rowsAt_cons, rowsAt_cons, if_pos rfl, if_pos hAddress.symm] at hHeads
          obtain ⟨rfl, -⟩ := List.cons.inj hHeads
          have hTails : ∀ address, rowsAt rows address = rowsAt others address := by
            intro address
            have hAt := h address
            rw [rowsAt_cons, rowsAt_cons] at hAt
            split at hAt
            · exact (List.cons.inj hAt).2
            · exact hAt
          rw [ih hRest hOtherRest hTails (mem_iff_of_rowsAt hTails)]

/-- Sorting keeps the order of the rows of one address. -/
theorem rowsAt_ofParts (files : List String) (rows : List LineRow) (address : Nat) :
    rowsAt (ofParts files rows).rows address = rowsAt rows address := by
  have hLength : (rowsAt (ofParts files rows).rows address).length = (rowsAt rows address).length :=
    ((List.mergeSort_perm rows _).filter _).length_eq
  have hEqual : (rowsAt rows address).Pairwise fun a b => a.address ≤ b.address := by
    refine List.pairwise_of_forall_mem_list fun a ha b hb => Nat.le_of_eq ?_
    rw [(mem_rowsAt.mp ha).2, (mem_rowsAt.mp hb).2]
  have hSorted : (rowsAt rows address).Sublist (ofParts files rows).rows :=
    List.sublist_mergeSort address_trans address_total (hEqual.imp decide_eq_true)
      List.filter_sublist
  have hSub := hSorted.filter fun row => row.address = address
  rw [rowsAt, List.filter_filter] at hSub
  simp only [Bool.and_self] at hSub
  exact (hSub.eq_of_length hLength.symm).symm

/-- A new row comes behind the rows of its address. -/
theorem rowsAt_insertRow {new : LineRow} (h : InOrder rows) (address : Nat) :
    rowsAt (insertRow new rows) address = rowsAt rows address ++ rowsAt [new] address := by
  induction rows with
  | nil => rfl
  | cons first rows ih =>
      obtain ⟨hFirst, hRows⟩ := List.pairwise_cons.mp h
      rw [insertRow]
      split
      · rw [rowsAt_cons, ih hRows, rowsAt_cons first rows]
        split <;> rfl
      · next hHigh =>
          rw [rowsAt_cons, rowsAt_cons new]
          split
          · next hNew =>
              have hNone : rowsAt (first :: rows) address = [] := by
                refine List.filter_eq_nil_iff.mpr fun row hRow => ?_
                rw [decide_eq_true_eq]
                rcases List.mem_cons.mp hRow with rfl | hRow
                · omega
                · have := hFirst row hRow
                  omega
              rw [hNone]
              rfl
          · exact (List.append_nil _).symm

/-! ## Rows added one by one -/

/-- The table with rows added one by one. -/
def addRows (table : LineTable) (rows : List LineRow) : LineTable :=
  rows.foldl (fun table row => table.addRow row.address row.file row.line) table

/-- **One row more in a table sorted in one go is that row added.** -/
theorem ofParts_concat (files : List String) (rows : List LineRow) (row : LineRow) :
    ofParts files (rows ++ [row]) = (ofParts files rows).addRow row.address row.file row.line := by
  have hOld := inOrder_ofParts files rows
  have hRows : (ofParts files (rows ++ [row])).rows = insertRow row (ofParts files rows).rows := by
    refine eq_of_rowsAt (inOrder_ofParts files _) (inOrder_insertRow hOld) fun address => ?_
    rw [rowsAt_ofParts, rowsAt_insertRow hOld, rowsAt_ofParts, rowsAt, List.filter_append]
    rfl
  rw [addRow, ← hRows]
  rfl

theorem addRows_eq_ofParts (files : List String) (rows : List LineRow) :
    addRows { files } rows = ofParts files rows := by
  induction rows using List.reverseRecOn with
  | nil => rw [ofParts, List.mergeSort_nil]; rfl
  | append_singleton rows row ih =>
      rw [ofParts_concat, ← ih, addRows, List.foldl_append]
      rfl

/-! ## The row in force -/

/-- The row is the one given last of those with the greatest address up to `pc`. -/
def InForce (rows : List LineRow) (pc : Nat) (row : LineRow) : Prop :=
  ∃ before after, rows = before ++ row :: after ∧ row.address ≤ pc ∧
    (∀ other ∈ before, other.address ≤ pc → other.address ≤ row.address) ∧
    ∀ other ∈ after, other.address ≤ pc → other.address < row.address

theorem takeWhile_insertRow (new : LineRow) (rows : List LineRow) (pc : Nat) :
    (insertRow new rows).takeWhile (fun row => row.address ≤ pc) =
      if new.address ≤ pc then insertRow new (rows.takeWhile fun row => row.address ≤ pc)
      else rows.takeWhile fun row => row.address ≤ pc := by
  induction rows with
  | nil =>
      by_cases hLow : new.address ≤ pc <;> simp [insertRow, hLow]
  | cons first rows ih =>
      by_cases hOrder : first.address ≤ new.address
      · by_cases hFirst : first.address ≤ pc
        · by_cases hNew : new.address ≤ pc <;> simp [insertRow, hOrder, hFirst, hNew, ih]
        · have hNew : ¬ new.address ≤ pc := by omega
          simp [insertRow, hOrder, hFirst, hNew]
      · by_cases hFirst : first.address ≤ pc
        · have hNew : new.address ≤ pc := by omega
          simp [insertRow, hOrder, hFirst, hNew]
        · by_cases hNew : new.address ≤ pc <;> simp [insertRow, hOrder, hFirst, hNew]

/-- A row below the last row goes before it. -/
theorem insertRow_concat_of_lt {new last : LineRow} (rows : List LineRow)
    (h : new.address < last.address) :
    insertRow new (rows ++ [last]) = insertRow new rows ++ [last] := by
  induction rows with
  | nil =>
      simp [insertRow, Nat.not_le_of_lt h]
  | cons first rows ih =>
      rw [List.cons_append, insertRow, insertRow, ih]
      split <;> rfl

theorem getLast?_insertRow (new : LineRow) {rows : List LineRow} (h : InOrder rows) :
    (insertRow new rows).getLast? =
      if ∀ old ∈ rows.getLast?, old.address ≤ new.address then some new else rows.getLast? := by
  induction rows using List.reverseRecOn with
  | nil => simp [insertRow]
  | append_singleton rows last _ =>
      simp only [List.getLast?_concat, Option.mem_some_iff, forall_eq']
      split
      · next hLast =>
          have hAll : ∀ old ∈ rows ++ [last], old.address ≤ new.address := by
            intro old hOld
            rcases List.mem_append.mp hOld with hOld | hOld
            · have := (List.pairwise_append.mp h).2.2 old hOld last List.mem_cons_self
              omega
            · rwa [List.mem_singleton.mp hOld]
          rw [insertRow_of_le hAll, List.getLast?_concat]
      · next hLast => rw [insertRow_concat_of_lt rows (by omega), List.getLast?_concat]

/-- **One row more changes the row in force where it is not below it.** -/
theorem rowAt?_addRow {table : LineTable} (h : InOrder table.rows) (new : LineRow) (pc : Nat) :
    (table.addRow new.address new.file new.line).rowAt? pc =
      if new.address ≤ pc ∧ ∀ old ∈ table.rowAt? pc, old.address ≤ new.address then some new
      else table.rowAt? pc := by
  have hLow : InOrder (table.rows.takeWhile fun row => row.address ≤ pc) :=
    h.sublist (List.takeWhile_sublist _)
  rw [rowAt?, addRow, takeWhile_insertRow, rowAt?]
  by_cases hNew : new.address ≤ pc
  · simp only [hNew, true_and, if_true]
    exact getLast?_insertRow new hLow
  · simp only [hNew, false_and, if_false]

/-- One row more is in force if it is up to `pc` and not below the row that was in force. -/
theorem InForce.concat {row new : LineRow} (h : InForce rows pc row)
    (hNew : new.address ≤ pc) (hRow : row.address ≤ new.address) :
    InForce (rows ++ [new]) pc new := by
  obtain ⟨before, after, rfl, -, hBefore, hAfter⟩ := h
  refine ⟨before ++ row :: after, [], rfl, hNew, fun other hOther hLow => ?_, by simp⟩
  rcases List.mem_append.mp hOther with hOther | hOther
  · exact Nat.le_trans (hBefore other hOther hLow) hRow
  · rcases List.mem_cons.mp hOther with rfl | hOther
    · exact hRow
    · exact Nat.le_trans (Nat.le_of_lt (hAfter other hOther hLow)) hRow

theorem InForce.concat_of_lt {row new : LineRow} (h : InForce rows pc row)
    (hNew : new.address ≤ pc → new.address < row.address) : InForce (rows ++ [new]) pc row := by
  obtain ⟨before, after, rfl, hRow, hBefore, hAfter⟩ := h
  refine ⟨before, after ++ [new], by simp, hRow, hBefore, fun other hOther hLow => ?_⟩
  rcases List.mem_append.mp hOther with hOther | hOther
  · exact hAfter other hOther hLow
  · rw [List.mem_singleton.mp hOther] at hLow ⊢
    exact hNew hLow

/-- The table answers with the row in force, and with none if every row is above `pc`. -/
theorem rowAt?_ofParts (files : List String) (rows : List LineRow) (pc : Nat) :
    match (ofParts files rows).rowAt? pc with
    | some row => InForce rows pc row
    | none => ∀ row ∈ rows, pc < row.address := by
  induction rows using List.reverseRecOn with
  | nil => simp [ofParts, rowAt?]
  | append_singleton rows new ih =>
      rw [ofParts_concat, rowAt?_addRow (inOrder_ofParts files rows)]
      cases hOld : (ofParts files rows).rowAt? pc with
      | none =>
          rw [hOld] at ih
          by_cases hNew : new.address ≤ pc
          · rw [if_pos ⟨hNew, by simp⟩]
            refine ⟨rows, [], rfl, hNew, fun other hOther hLow => ?_, by simp⟩
            have := ih other hOther
            omega
          · rw [if_neg fun h => hNew h.1]
            intro row hRow
            rcases List.mem_append.mp hRow with hRow | hRow
            · exact ih row hRow
            · rw [List.mem_singleton.mp hRow]
              omega
      | some old =>
          rw [hOld] at ih
          simp only [Option.mem_some_iff, forall_eq']
          by_cases hNew : new.address ≤ pc ∧ old.address ≤ new.address
          · rw [if_pos hNew]
            exact ih.concat hNew.1 hNew.2
          · rw [if_neg hNew]
            exact ih.concat_of_lt fun hLow => by omega

/-! ## Halving -/

/-- The place behind the rows up to `pc`, found by halving the `count` rows from `first` on. -/
def bisect (rows : List LineRow) (pc first : Nat) : Nat → Nat
  | 0 => first
  | count + 1 =>
    let middle := first + count / 2
    if rows[middle]?.any (·.address ≤ pc) then bisect rows pc (middle + 1) (count - count / 2)
    else bisect rows pc first (count / 2)

/-- In order, the rows up to `pc` are those in front of a place. -/
theorem low_iff_lt (h : InOrder rows) (pc : Nat) {index : Nat} {row : LineRow}
    (hRow : rows[index]? = some row) :
    row.address ≤ pc ↔ index < (rows.takeWhile fun row => row.address ≤ pc).length := by
  induction rows generalizing index with
  | nil => simp at hRow
  | cons first rows ih =>
      obtain ⟨hFirst, hRest⟩ := List.pairwise_cons.mp h
      cases index with
      | zero =>
          obtain rfl := Option.some.inj hRow
          by_cases hLow : first.address ≤ pc <;> simp [hLow]
      | succ index =>
          rw [List.getElem?_cons_succ] at hRow
          by_cases hLow : first.address ≤ pc
          · simp [hLow, ih hRest hRow]
          · have hAbove := hFirst row (List.mem_of_getElem? hRow)
            have hHigh : ¬ row.address ≤ pc := by omega
            simp [hLow, hHigh]

theorem bisect_of_inOrder (h : InOrder rows) (pc first count : Nat)
    (hInside : first + count ≤ rows.length)
    (hFirst : first ≤ (rows.takeWhile fun row => row.address ≤ pc).length)
    (hLast : (rows.takeWhile fun row => row.address ≤ pc).length ≤ first + count) :
    bisect rows pc first count = (rows.takeWhile fun row => row.address ≤ pc).length := by
  fun_induction bisect rows pc first count with
  | case1 first => omega
  | case2 first count middle hLow ih =>
      have hMiddle : middle < rows.length := by omega
      have hRow := List.getElem?_eq_getElem hMiddle
      have hPlace := low_iff_lt h pc hRow
      simp only [hRow, Option.any_some, decide_eq_true_eq] at hLow
      exact ih (by omega) (by omega) (by omega)
  | case3 first count middle hHigh ih =>
      have hMiddle : middle < rows.length := by omega
      have hRow := List.getElem?_eq_getElem hMiddle
      have hPlace := low_iff_lt h pc hRow
      simp only [hRow, Option.any_some, decide_eq_true_eq] at hHigh
      exact ih (by omega) hFirst (by omega)

/-- The place behind the rows of a table up to an address, found by halving. -/
def place (table : LineTable) (address : Nat) : Nat :=
  bisect table.rows address 0 table.rows.length

/-- **Halving finds the place behind the rows up to an address.** -/
theorem place_eq {table : LineTable} (h : InOrder table.rows) (address : Nat) :
    table.place address = (table.rows.takeWhile fun row => row.address ≤ address).length := by
  have hLength :=
    (List.takeWhile_sublist (l := table.rows) fun row => row.address ≤ address).length_le
  exact bisect_of_inOrder h address 0 table.rows.length (by omega) (by omega) (by omega)

/-- The row in force stands before the place of the address. -/
theorem rowAt?_eq_place {table : LineTable} (h : InOrder table.rows) (pc : Nat) :
    table.rowAt? pc = if table.place pc = 0 then none else table.rows[table.place pc - 1]? := by
  rw [place_eq h, rowAt?, List.getLast?_eq_getElem?]
  obtain ⟨high, hRows⟩ := List.takeWhile_prefix (l := table.rows) fun row => row.address ≤ pc
  generalize (table.rows.takeWhile fun row => row.address ≤ pc) = low at hRows ⊢
  by_cases hNone : low.length = 0
  · rw [if_pos hNone, List.length_eq_zero_iff.mp hNone]
    rfl
  · rw [if_neg hNone, ← hRows]
    exact (List.getElem?_append_left (by omega)).symm

theorem insertRow_eq_insertIdx (new : LineRow) (rows : List LineRow) :
    insertRow new rows =
      rows.insertIdx (rows.takeWhile fun row => row.address ≤ new.address).length new := by
  induction rows with
  | nil => rfl
  | cons first rows ih =>
      by_cases hLow : first.address ≤ new.address <;> simp [insertRow, hLow, ih]

/-- A new row goes to the place of its address. -/
theorem addRow_eq_place {table : LineTable} (h : InOrder table.rows) (new : LineRow) :
    (table.addRow new.address new.file new.line).rows =
      table.rows.insertIdx (table.place new.address) new := by
  rw [place_eq h]
  exact insertRow_eq_insertIdx new table.rows

/-! ## The table as a map -/

/-- **A table of rows in any order is a stable sorted map.** It is the same whether the rows are
added one by one or sorted in one go, and holds them in order of address, those of one address as
they were given. It answers for an address with the row given last of those with the greatest
address up to it, under the name of its file. For every such table halving finds where a new row
goes, and which row is in force. -/
theorem ofParts_stable_map (files : List String) (rows : List LineRow) :
    addRows { files } rows = ofParts files rows ∧
      InOrder (ofParts files rows).rows ∧
      (∀ address, rowsAt (ofParts files rows).rows address = rowsAt rows address) ∧
      (∀ pc,
        ((∀ row ∈ rows, pc < row.address) ∧ (ofParts files rows).lookup? pc = none) ∨
        ∃ row, InForce rows pc row ∧
          (ofParts files rows).lookup? pc = files[row.file]?.map (⟨·, row.line⟩)) ∧
      (∀ new : LineRow,
        ((ofParts files rows).addRow new.address new.file new.line).rows =
          (ofParts files rows).rows.insertIdx ((ofParts files rows).place new.address) new) ∧
      ∀ pc,
        (ofParts files rows).rowAt? pc =
          if (ofParts files rows).place pc = 0 then none
          else (ofParts files rows).rows[(ofParts files rows).place pc - 1]? := by
  have hOrder := inOrder_ofParts files rows
  refine ⟨addRows_eq_ofParts files rows, hOrder, rowsAt_ofParts files rows, fun pc => ?_,
    addRow_eq_place hOrder, rowAt?_eq_place hOrder⟩
  have hRow := rowAt?_ofParts files rows pc
  rw [lookup?]
  cases hFound : (ofParts files rows).rowAt? pc with
  | none =>
      rw [hFound] at hRow
      exact .inl ⟨hRow, rfl⟩
  | some row =>
      rw [hFound] at hRow
      refine .inr ⟨row, hRow, ?_⟩
      cases hFile : files[row.file]? <;> simp [ofParts, hFile]

end CellHost.LineTable
