import CellHost.Image.Words
import CellHost.Program
import CellHost.Text.Utf8

/-!
# Writing images

An image is a program as a byte string. It holds, in this order: the mark `CVMX`, the number of the
format, the flags and the entry of `main` (all bits set for none); the code and the data, each a
count and that many cells; the publics, a count and for each the name and the address; the names of
the natives, after their count; and, if the program has a line table, its files and its rows, both
after a count. A name is a length in bytes and that many bytes of UTF-8. All numbers have their
lowest byte first. The flag of the line table is set exactly if one follows.

Numbers are cut to the width of their field: main, addresses, counts and lines to 32 bits, lengths of
names and file numbers to 16.

## Main definitions

* `Program.toImage` : the image of a program.
-/

namespace CellHost

namespace Image

/-- The bytes that every image starts with. -/
def mark : List UInt8 := [0x43, 0x56, 0x4d, 0x58]

/-- The number of the format. -/
def formatNumber : Nat := 1

/-- The number written as the entry of a program without `main`. -/
def noMain : Nat := 0xffffffff

/-- A count and as many cells. -/
def writeCells (cells : Array Cell) : List UInt8 :=
  Words.ofNat 4 cells.size ++ cells.toList.flatMap Words.ofCell

/-- A name, after its length. -/
def writeName (name : String) : List UInt8 :=
  let bytes := Utf8.encode name
  Words.ofNat 2 bytes.length ++ bytes

/-- A count and as many items. -/
def writeMany {α : Type} (item : α → List UInt8) (items : List α) : List UInt8 :=
  Words.ofNat 4 items.length ++ items.flatMap item

/-- A public: its name and its address. -/
def writePublic (entry : Public) : List UInt8 :=
  writeName entry.name ++ Words.ofNat 4 entry.address

/-- A row of the line table: address, file and line. -/
def writeRow (row : LineRow) : List UInt8 :=
  Words.ofNat 4 row.address ++ Words.ofNat 2 row.file ++ Words.ofNat 4 row.line

/-- The files and rows of a line table. -/
def writeLines (table : LineTable) : List UInt8 :=
  writeMany writeName table.files ++ writeMany writeRow table.rows

/-- The flags as the image has them: the flag of the line table says whether one follows. -/
def imageFlags (p : Program) : UInt16 :=
  let rest := p.flags &&& ~~~Program.linesFlag
  if p.lines.isSome then rest ||| Program.linesFlag else rest

end Image

/-- The image of a program. -/
def Program.toImage (p : Program) : List UInt8 :=
  Image.mark ++ Words.ofNat 2 Image.formatNumber ++ Words.ofNat 2 (Image.imageFlags p).toNat
    ++ Words.ofNat 4 (p.main.getD Image.noMain)
    ++ Image.writeCells p.code ++ Image.writeCells p.data
    ++ Image.writeMany Image.writePublic p.publics
    ++ Image.writeMany Image.writeName p.natives
    ++ (match p.lines with
      | some table => Image.writeLines table
      | none => [])

end CellHost
