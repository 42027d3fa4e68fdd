import CellHost.LineTable

/-!
# The rows of a line table are in order

However a table is filled, its rows are in order of address; and a table whose rows are in order is
the one that its files and its rows make, so that being in order says exactly which tables there are.

## Main definitions

* `LineTable.InOrder` : rows in order of address.

## Main results

* `LineTable.inOrder_iff_ofParts` : the tables in order are the tables made of parts.
* `LineTable.inOrder_addRow` : tables stay in order as they grow.
-/

namespace CellHost.LineTable

/-- Rows in order of address. -/
def InOrder (rows : List LineRow) : Prop := rows.Pairwise fun a b => a.address ≤ b.address

instance (rows : List LineRow) : Decidable (InOrder rows) :=
  inferInstanceAs (Decidable (rows.Pairwise fun a b => a.address ≤ b.address))

theorem address_trans (a b c : LineRow) (hab : decide (a.address ≤ b.address) = true)
    (hbc : decide (b.address ≤ c.address) = true) : decide (a.address ≤ c.address) = true := by
  simp only [decide_eq_true_eq] at hab hbc ⊢
  exact Nat.le_trans hab hbc

theorem address_total (a b : LineRow) :
    (decide (a.address ≤ b.address) || decide (b.address ≤ a.address)) = true := by
  simpa using Nat.le_total a.address b.address

theorem inOrder_ofParts (files : List String) (rows : List LineRow) :
    InOrder (ofParts files rows).rows :=
  (List.pairwise_mergeSort address_trans address_total rows).imp of_decide_eq_true

/-- **The tables in order are the tables made of parts.** -/
theorem inOrder_iff_ofParts (table : LineTable) :
    InOrder table.rows ↔ ofParts table.files table.rows = table := by
  constructor
  · intro h
    have hRows : table.rows.mergeSort (fun a b => a.address ≤ b.address) = table.rows :=
      List.mergeSort_of_pairwise (h.imp decide_eq_true)
    rw [ofParts, hRows]
  · intro h
    rw [← h]
    exact inOrder_ofParts table.files table.rows

/-- Entering a file leaves the rows alone, and gives the index of a file of the table. -/
theorem addFile_spec (table : LineTable) (name : String) :
    (table.addFile name).1.rows = table.rows ∧
      table.files.length ≤ (table.addFile name).1.files.length ∧
      (table.addFile name).2 < (table.addFile name).1.files.length := by
  unfold addFile
  cases hIndex : table.files.idxOf? name with
  | none => simp
  | some index =>
      obtain ⟨hInside, -⟩ := List.idxOf?_eq_some_iff.mp hIndex
      exact ⟨rfl, Nat.le_refl _, hInside⟩

theorem mem_insertRow {row new : LineRow} {rows : List LineRow} :
    row ∈ insertRow new rows ↔ row = new ∨ row ∈ rows := by
  rw [(perm_insertRow new rows).mem_iff, List.mem_cons]

theorem inOrder_insertRow {row : LineRow} {rows : List LineRow} (h : InOrder rows) :
    InOrder (insertRow row rows) := by
  induction rows with
  | nil => exact List.pairwise_singleton _ _
  | cons first rows ih =>
      obtain ⟨hFirst, hRows⟩ := List.pairwise_cons.mp h
      rw [insertRow]
      split
      · next hLow =>
          refine List.pairwise_cons.mpr ⟨?_, ih hRows⟩
          intro other hOther
          rcases mem_insertRow.mp hOther with rfl | hOld
          · exact hLow
          · exact hFirst other hOld
      · next hHigh =>
          refine List.pairwise_cons.mpr ⟨?_, h⟩
          intro other hOther
          rcases List.mem_cons.mp hOther with rfl | hOld
          · omega
          · have := hFirst other hOld
            omega

theorem inOrder_addRow {table : LineTable} (address file line : Nat) (h : InOrder table.rows) :
    InOrder (table.addRow address file line).rows :=
  inOrder_insertRow h

end CellHost.LineTable
