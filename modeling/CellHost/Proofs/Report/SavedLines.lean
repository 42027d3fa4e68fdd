import CellHost.ImageFile
import CellHost.Proofs.Image.RoundTrip
import CellHost.Proofs.Report.FaultLines

/-!
# Locations from a saved program

A program is loaded without its line table, and the flag of the table is what remains. The reporter
that needs the table reads the image a second time, if the flag says that there is one. Both readings
give what was saved, so that the locations of the loaded program are those of the program that was
saved, whatever its table says; and of a program without a table neither gives any, even if its flag
was set, since saving clears it.

## Main definitions

* `Reporter.Uses` : a reporter that has no other image to look at than the one of a program.

## Main results

* `Reporter.imageLines?_of_saved` : the line table in an image is that of the program saved there.
* `Reporter.resolve?_of_saved` : the loaded program and the saved one have the same locations.
-/

namespace CellHost

variable {p : Program} {files : FileReader} {path : String}

/-- A program with what saving makes of its flags. -/
def Program.saved (p : Program) : Program := { p with flags := Image.imageFlags p }

theorem Program.ofImage_toImage (h : Image.FitsFormat p) :
    Program.ofImage p.toImage true = .ok p.saved ∧
      Program.ofImage p.toImage false = .ok { p.saved with lines := none } := by
  have hWhole := h.read_whole []
  have hBody := h.read_body []
  rw [List.append_nil] at hWhole hBody
  unfold Program.ofImage
  rw [hWhole, hBody]
  exact ⟨rfl, rfl⟩

/-- The line table in an image, if it has one. -/
theorem LineTable.ofImage_toImage (h : Image.FitsFormat p) :
    (LineTable.ofImage p.toImage).toOption = p.lines := by
  obtain ⟨hWhole, -⟩ := Program.ofImage_toImage h
  unfold LineTable.ofImage
  rw [hWhole]
  cases hLines : p.lines with
  | none => simp [Program.saved, hLines, bind, Except.bind, Except.toOption]
  | some table => simp [Program.saved, hLines, bind, Except.bind, Except.toOption]

namespace Reporter

/-- **The line table in an image is that of the program that was saved there.** -/
theorem imageLines?_of_saved (h : Image.FitsFormat p) (hSaved : files path = .ok p.toImage) :
    (⟨some path⟩ : Reporter).imageLines? files = p.lines := by
  have hBytes : (Except.ok p.toImage : Except FileError _).toOption = some p.toImage := rfl
  unfold imageLines?
  simp only [Option.bind_eq_bind, Option.bind_some, hSaved, hBytes, LineTable.ofImage_toImage h]

/-- A reporter looks at no other image for a program than the one at a path: it has none or this one,
or the program has its table, or its flag says that there is none. -/
def Uses (r : Reporter) (path : String) (p : Program) : Prop :=
  r.image = none ∨ r.image = some path ∨ p.lines.isSome = true ∨ p.hasLines = false

/-- The locations of a program that was saved are those of its own table. -/
theorem resolve?_of_uses (h : Image.FitsFormat p) (hSaved : files path = .ok p.toImage)
    {r : Reporter} (hUses : r.Uses path p) (cip : Nat) :
    r.resolve? files p cip = p.lines.bind (·.lookup? cip) := by
  cases hLines : p.lines with
  | some table =>
      unfold resolve?
      rw [hLines]
      rfl
  | none =>
      have hImage : r.imageLines? files = none ∨ p.hasLines = false := by
        rcases hUses with hNone | hSame | hTable | hFlag
        · left
          unfold imageLines?
          rw [hNone]
          rfl
        · left
          have hTable := imageLines?_of_saved h hSaved
          rw [← hSame] at hTable
          exact hTable.trans hLines
        · rw [hLines] at hTable
          cases hTable
        · exact .inr hFlag
      unfold resolve?
      rw [hLines]
      dsimp only
      rcases hImage with hTable | hFlag
      · rw [hTable]
        split <;> rfl
      · rw [hFlag]
        rfl

/-- **A program that was saved and loaded has the locations of the one that was saved.** The loaded
program has no table, the reporter reads that of the image; and it gives for every address what the
table of the saved program says, if it has one, and so does every reporter that resolves the saved
program itself. -/
theorem resolve?_of_saved (h : Image.FitsFormat p) (hSaved : files path = .ok p.toImage) :
    ∃ q, ImageFile.read files path = .ok q ∧ q.lines = none ∧
      ∀ cip, (⟨some path⟩ : Reporter).resolve? files q cip = p.lines.bind (·.lookup? cip) ∧
        ∀ r : Reporter, r.Uses path p →
          (⟨some path⟩ : Reporter).resolve? files q cip = r.resolve? files p cip := by
  obtain ⟨-, hBody⟩ := Program.ofImage_toImage h
  have hLoaded : ImageFile.read files path = .ok { p.saved with lines := none } := by
    unfold ImageFile.read
    rw [hSaved]
    exact hBody
  have hFlag : ({ p.saved with lines := none } : Program).hasLines = p.lines.isSome :=
    Image.hasLines_imageFlags p
  have hResolved : ∀ cip,
      (⟨some path⟩ : Reporter).resolve? files { p.saved with lines := none } cip =
        p.lines.bind (·.lookup? cip) := by
    intro cip
    unfold resolve?
    dsimp only
    rw [hFlag, imageLines?_of_saved h hSaved]
    cases p.lines <;> rfl
  refine ⟨_, hLoaded, rfl, fun cip => ⟨hResolved cip, fun r hUses => ?_⟩⟩
  rw [hResolved, resolve?_of_uses h hSaved hUses]

/-- A program whose second row names a file that its table does not have. -/
def dangling : Program where
  main := some 8
  code := #[Opcode.halt.toCell, 0, Opcode.brk.toCell, Opcode.ret.toCell]
  lines := some ⟨["a.p"], [⟨8, 0, 1⟩, ⟨12, 5, 2⟩]⟩

/-- The program, saved in the only file that there is. -/
def danglingFiles : FileReader := fun name =>
  if name = "a.cvm" then .ok dangling.toImage else .error .notFound

/-- A row without a file hides the one before it, for the image as for the program. -/
theorem resolve?_of_saved_dangling :
    ∃ q, ImageFile.read danglingFiles "a.cvm" = .ok q ∧
      (⟨some "a.cvm"⟩ : Reporter).resolve? danglingFiles q 8 = some ⟨"a.p", 1⟩ ∧
      (⟨some "a.cvm"⟩ : Reporter).resolve? danglingFiles q 12 = none ∧
      ({} : Reporter).resolve? danglingFiles dangling 12 = none := by
  have hFits : Image.FitsFormat dangling := by
    refine ⟨⟨by decide, by decide, by decide, by decide, by decide, by decide, by decide⟩,
      ⟨by decide, by decide⟩, ?_, by decide⟩
    rintro _ ⟨⟩
    exact ⟨by decide, by decide, by decide, by decide⟩
  have hSaved : danglingFiles "a.cvm" = .ok dangling.toImage := by
    rw [danglingFiles, if_pos rfl]
  obtain ⟨q, hLoaded, -, hLocations⟩ := resolve?_of_saved hFits hSaved
  refine ⟨q, hLoaded, (hLocations 8).1, (hLocations 12).1, ?_⟩
  obtain ⟨hLocation, hSame⟩ := hLocations 12
  rw [← hSame {} (.inl rfl), hLocation]
  rfl

end Reporter

end CellHost
