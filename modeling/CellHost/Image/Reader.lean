import CellHost.Image.Error
import CellHost.Image.Writer

/-!
# Reading images

An image is read from the front of a byte string; what follows it is left over. Every count is taken
at its word only as far as bytes follow, so a count that is too large fails cleanly.

Reading can leave the line table aside. The flag stays as it is then, and the bytes of the table are
not looked at.

## Main definitions

* `Image.read` : a program from the front of a byte string, and the rest.
* `LineTable.ofImage` : the line table alone.
-/

namespace CellHost

namespace Image

/-- Reading something from the front of a byte string. -/
abbrev Reader := StateT (List UInt8) (Except ImageError)

/-- Exactly `count` bytes. -/
def bytes (count : Nat) : Reader (List UInt8) := fun input =>
  let taken := input.take count
  if taken.length = count then .ok (taken, input.drop count) else .error (.file .endOfFile)

/-- A number of `width` bytes. -/
def number (width : Nat) : Reader Nat := do return Words.toNat (← bytes width)

/-- The cells of a byte string, after the cells of `done`; bytes that fill no cell are dropped. -/
def cellsOf (done : Array Cell) : List UInt8 → Array Cell
  | a :: b :: c :: d :: rest => cellsOf (done.push (Words.toCell [a, b, c, d])) rest
  | _ => done

/-- A count and as many cells. -/
def readCells : Reader (Array Cell) := do
  let wanted := (← number 4) * cellSize
  fun input =>
    let taken := input.take wanted
    if taken.length = wanted then .ok (cellsOf #[] taken, input.drop wanted)
    else .error (.cellsCutShort wanted taken.length)

/-- A name, after its length. -/
def readName : Reader String := do
  let encoded ← bytes (← number 2)
  match Utf8.decode encoded with
  | .ok name => return name
  | .error fault => throw (.badName fault)

/-- So many items, after those of `done`, which are in reverse. -/
def readItems {α : Type} (item : Reader α) : Nat → List α → Reader (List α)
  | 0, done, input => .ok (done.reverse, input)
  | count + 1, done, input =>
    match item input with
    | .ok (a, rest) => readItems item count (a :: done) rest
    | .error e => .error e

/-- A count and as many items. -/
def readMany {α : Type} (item : Reader α) : Reader (List α) := do
  readItems item (← number 4) []

/-- A public: its name and its address. -/
def readPublic : Reader Public := do return ⟨← readName, ← number 4⟩

/-- A row of the line table: address, file and line. -/
def readRow : Reader LineRow := do return ⟨← number 4, ← number 2, ← number 4⟩

/-- The files and rows of a line table. -/
def readLines : Reader LineTable := do
  return LineTable.ofParts (← readMany readName) (← readMany readRow)

/-- The mark of images. -/
def readMark : Reader Unit := do
  let found ← bytes mark.length
  if found = mark then return ()
  else throw (.badMark (Words.toNat found.reverse))

/-- The number of the format, which must not be a later one. -/
def readFormat : Reader Unit := do
  let found ← number 2
  if found ≤ formatNumber then return () else throw (.newerFormat found)

/-- The entry of `main`. -/
def readMain : Reader (Option Nat) := do
  let entry ← number 4
  if entry = noMain then return none
  else if entry ≤ Cell.maxValue then return some entry
  else throw (.negativeMain (Int32.ofNat entry))

/-- Everything but the line table. -/
def readBody : Reader Program := do
  readMark
  readFormat
  let flags := UInt16.ofNat (← number 2)
  let main ← readMain
  let code ← readCells
  let data ← readCells
  let publics ← readMany readPublic
  let natives ← readMany readName
  return { flags, main, code, data, publics, natives }

/-- Code has to begin at `main` and at every public. -/
def checkEntries (p : Program) : Except ImageError Unit :=
  if p.main.any (!p.isCodeAddress ·) then .error .mainOutsideCode
  else
    match p.publics.find? (!p.isCodeAddress ·.address) with
    | some entry => .error (.publicOutsideCode entry.name)
    | none => .ok ()

/-- A program from the front of a byte string, with its line table if it is wanted and there. -/
def read (withLines : Bool) : Reader Program := do
  let p ← readBody
  checkEntries p
  if withLines && p.hasLines then return { p with lines := some (← readLines) } else return p

end Image

/-- The program at the front of a byte string. -/
def Program.ofImage (input : List UInt8) (withLines : Bool) : Except ImageError Program :=
  (Image.read withLines input).map (·.1)

/-- The line table of the program at the front of a byte string. -/
def LineTable.ofImage (input : List UInt8) : Except ImageError LineTable := do
  match (← Program.ofImage input true).lines with
  | some table => .ok table
  | none => .error .noLines

end CellHost
