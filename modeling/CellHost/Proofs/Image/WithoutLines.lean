import CellHost.Proofs.Image.Delimiting

/-!
# Reading with the line table and without

A machine loads an image without its line table, and the table is read from the same image when a
fault is to be located. The two ways of reading differ in nothing but the table: reading with it is
reading without it, and the table behind that. So a program comes out the same, an image that is
refused without the table is refused for the same reason with it, and an image that is refused only
with the table announces one and has something wrong in the bytes behind its natives.

## Main definitions

* `Image.flagsOf` : the flags that an image announces.

## Main results

* `Image.read_true_eq` : reading with the line table in terms of reading without it.
* `Image.read_with_and_without` : the two ways agree.
* `Image.ofImage_eq_ok` : the line table alone, in terms of the program read without it.
-/

namespace CellHost.Image

variable {input rest : List UInt8}

/-- The flags that an image announces. -/
def flagsOf (image : List UInt8) : UInt16 :=
  UInt16.ofNat (Words.toNat ((image.drop (mark.length + 2)).take 2))

theorem flagsOf_writeBody (format : Nat) (p : Program) (more : List UInt8) :
    flagsOf (writeBody format p ++ more) = p.flags := by
  have hFormat : (mark ++ Words.ofNat 2 format).length = mark.length + 2 := by simp
  have hField := Words.length_ofNat 2 p.flags.toNat
  have hFits : p.flags.toNat < Words.capacity 2 := p.flags.toNat_lt
  rw [flagsOf, writeBody]
  simp only [List.append_assoc]
  rw [← List.append_assoc mark, List.drop_left' hFormat, List.take_left' hField, Words.toNat_ofNat,
    Nat.mod_eq_of_lt hFits, UInt16.ofNat_toNat]

/-- **Reading with the line table is reading without it, and the table behind that.** -/
theorem read_true_eq (input : List UInt8) :
    read true input =
      match read false input with
      | .error e => .error e
      | .ok (p, tail) =>
        if p.hasLines then
          match readLines tail with
          | .error e => .error e
          | .ok (table, rest) => .ok ({ p with lines := some table }, rest)
        else .ok (p, tail) := by
  unfold read
  cases hBody : readBody input with
  | error e => rw [bind_of_error hBody, bind_of_error hBody]
  | ok body =>
      obtain ⟨p, tail⟩ := body
      rw [bind_of_ok hBody, bind_of_ok hBody]
      cases hCheck : checkEntries p with
      | error e =>
          have hLift : (liftM (checkEntries p) : Reader Unit) tail = .error e := by rw [hCheck]; rfl
          rw [← hCheck, bind_of_error hLift, bind_of_error hLift]
      | ok a =>
          have hLift : (liftM (checkEntries p) : Reader Unit) tail = .ok (a, tail) :=
            lift_eq_ok.mpr ⟨hCheck, rfl⟩
          rw [← hCheck, bind_of_ok hLift, bind_of_ok hLift]
          have hPure : (pure p : Reader Program) tail = .ok (p, tail) := rfl
          rw [Bool.false_and, if_neg Bool.false_ne_true, hPure]
          cases hFlag : p.hasLines with
          | false =>
              simp only [Bool.and_false, hFlag, hPure, if_false, Bool.false_eq_true]
          | true =>
              simp only [Bool.and_self, hFlag, if_true]
              cases hLines : readLines tail with
              | error e => exact bind_of_error hLines
              | ok found => exact bind_of_ok hLines

/-- A program read without its line table has none, and the rest begins behind its natives. -/
theorem body_of_read_false {p : Program} (h : read false input = .ok (p, rest)) :
    p.lines = none ∧ ∃ format ≤ formatNumber, input = writeBody format p ++ rest := by
  obtain ⟨-, -, format, hFormat, table, hTable, hInput⟩ := read_eq_ok.mp h
  rw [Bool.false_and] at hTable
  generalize hLines : p.lines = lines at hTable
  cases hTable
  rw [List.append_nil] at hInput
  exact ⟨rfl, format, hFormat, hInput⟩

/-- What is read with the line table is read without it, and the table is what is left over then. -/
theorem read_false_of_read_true {p : Program} (h : read true input = .ok (p, rest)) :
    ∃ tail, read false input = .ok ({ p with lines := none }, tail) ∧
      match p.lines with
      | some table => p.hasLines = true ∧ readLines tail = .ok (table, rest)
      | none => p.hasLines = false ∧ tail = rest := by
  rw [read_true_eq] at h
  cases hWithout : read false input with
  | error e =>
      rw [hWithout] at h
      cases h
  | ok found =>
      obtain ⟨body, tail⟩ := found
      obtain ⟨hNone, -⟩ := body_of_read_false hWithout
      simp only [hWithout] at h
      split at h
      · next hFlag =>
          cases hLines : readLines tail with
          | error e =>
              rw [hLines] at h
              cases h
          | ok found =>
              rw [hLines] at h
              cases h
              refine ⟨tail, ?_, hFlag, hLines⟩
              rw [← hNone]
      · next hFlag =>
          cases h
          refine ⟨rest, by rw [← hNone], ?_⟩
          rw [hNone]
          exact ⟨Bool.eq_false_iff.mpr hFlag, rfl⟩

theorem read_true_of_refused {e : ImageError} (h : read false input = .error e) :
    read true input = .error e := by
  rw [read_true_eq, h]

/-- An image that is refused only with its line table has the flag of the table set, and the bytes
behind its natives are refused. -/
theorem readLines_of_refused {p : Program} {e : ImageError}
    (h : read false input = .ok (p, rest)) (hRefused : read true input = .error e) :
    p.hasLines = true ∧ readLines rest = .error e := by
  rw [read_true_eq, h] at hRefused
  dsimp only at hRefused
  split at hRefused
  · next hFlag =>
      refine ⟨hFlag, ?_⟩
      cases hLines : readLines rest with
      | error fault =>
          rw [hLines] at hRefused
          cases hRefused
          rfl
      | ok found =>
          rw [hLines] at hRefused
          cases hRefused
  · cases hRefused

/-- **Reading with the line table and without agree.** What is read with the table is read without
it as the same program, its flags included, but for the table. What is refused without the table is
refused with it, for the same reason. And what is refused only with the table has the flag of the
table set, and is refused for what stands in the bytes behind the natives. -/
theorem read_with_and_without (input : List UInt8) :
    (∀ p rest, read true input = .ok (p, rest) →
      ∃ tail, read false input = .ok ({ p with lines := none }, tail)) ∧
    (∀ e, read false input = .error e → read true input = .error e) ∧
    ∀ p tail e, read false input = .ok (p, tail) → read true input = .error e →
      flagsOf input &&& Program.linesFlag ≠ 0 ∧
        (∃ format ≤ formatNumber, input = writeBody format p ++ tail) ∧
        readLines tail = .error e := by
  refine ⟨fun p rest h => ?_, fun e => read_true_of_refused, fun p tail e h hRefused => ?_⟩
  · obtain ⟨tail, hWithout, -⟩ := read_false_of_read_true h
    exact ⟨tail, hWithout⟩
  · obtain ⟨-, format, hFormat, rfl⟩ := body_of_read_false h
    obtain ⟨hFlag, hLines⟩ := readLines_of_refused h hRefused
    rw [flagsOf_writeBody]
    exact ⟨bne_iff_ne.mp hFlag, ⟨format, hFormat, rfl⟩, hLines⟩

/-- The image `followed`, cut within its line table, is read without the table only. -/
theorem read_with_and_without_cut :
    read true (followed.take 60) = .error (.file .endOfFile) ∧
    read true followed = .ok (followedProgram, [7]) ∧
    (∃ tail, read false followed = .ok ({ followedProgram with lines := none }, tail)) ∧
    flagsOf (followed.take 60) &&& Program.linesFlag ≠ 0 ∧
    readLines ((followed.take 60).drop 46) = .error (.file .endOfFile) := by
  have hRefused : read true (followed.take 60) = .error (.file .endOfFile) := rfl
  have hRead : read true followed = .ok (followedProgram, [7]) := rfl
  have hBody : read false (followed.take 60) =
      .ok ({ followedProgram with lines := none }, (followed.take 60).drop 46) := rfl
  obtain ⟨hAlike, -, -⟩ := read_with_and_without followed
  obtain ⟨-, -, hOnly⟩ := read_with_and_without (followed.take 60)
  obtain ⟨hFlag, -, hLines⟩ := hOnly _ _ _ hBody hRefused
  exact ⟨hRefused, hRead, hAlike _ _ hRead, hFlag, hLines⟩

/-! ## The line table alone -/

theorem ofImage_of_read {p : Program} (h : read true input = .ok (p, rest)) :
    LineTable.ofImage input =
      match p.lines with
      | some table => .ok table
      | none => .error .noLines := by
  unfold LineTable.ofImage Program.ofImage
  rw [h]
  rfl

theorem ofImage_of_refused {e : ImageError} (h : read true input = .error e) :
    LineTable.ofImage input = .error e := by
  unfold LineTable.ofImage Program.ofImage
  rw [h]
  rfl

/-- **The line table alone is that of the program read without it.** -/
theorem ofImage_eq_ok {table : LineTable} :
    LineTable.ofImage input = .ok table ↔
      ∃ p tail rest, read false input = .ok (p, tail) ∧ p.hasLines = true ∧
        readLines tail = .ok (table, rest) := by
  constructor
  · intro h
    cases hRead : read true input with
    | error e =>
        rw [ofImage_of_refused hRead] at h
        cases h
    | ok found =>
        obtain ⟨p, rest⟩ := found
        obtain ⟨tail, hWithout, hTable⟩ := read_false_of_read_true hRead
        rw [ofImage_of_read hRead] at h
        cases hLines : p.lines with
        | none =>
            rw [hLines] at h
            cases h
        | some found =>
            rw [hLines] at h hTable
            cases h
            exact ⟨_, tail, rest, hWithout, hTable⟩
  · rintro ⟨p, tail, rest, hWithout, hFlag, hLines⟩
    have hRead : read true input = .ok ({ p with lines := some table }, rest) := by
      rw [read_true_eq, hWithout]
      dsimp only
      rw [if_pos hFlag, hLines]
    rw [ofImage_of_read hRead]

end CellHost.Image
