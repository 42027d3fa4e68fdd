import CellHost.FileError
import CellHost.MachineError
import CellHost.Text.Utf8

/-!
# Image errors

What can be wrong with a program image.
-/

namespace CellHost

/-- Why an image cannot be loaded. -/
inductive ImageError where
  | file (error : FileError)
  /-- The image does not start with the mark of images but with this number. -/
  | badMark (found : Nat)
  /-- The image is of a format of this later number. -/
  | newerFormat (number : Nat)
  /-- The number of the entry of `main` is negative, and not the one that says there is none. -/
  | negativeMain (entry : Cell)
  | mainOutsideCode
  | publicOutsideCode (name : String)
  /-- A block of cells has fewer bytes than it says. -/
  | cellsCutShort (wanted found : Nat)
  | badName (fault : Utf8.Fault)
  /-- The image carries no line table. -/
  | noLines
  deriving DecidableEq, Repr, Inhabited

namespace ImageError

/-- A number in eight hexadecimal digits. -/
def hex8 (n : Nat) : String :=
  let digits := (Nat.toDigits 16 n).map Char.toUpper
  String.ofList (List.replicate (8 - digits.length) '0' ++ digits)

/-- The wording of an image error. -/
def message : ImageError → String
  | file error => s!"I/O error: {error.message}"
  | badMark found => s!"bad magic 0x{hex8 found}"
  | newerFormat number => s!"unsupported image version {number}"
  | negativeMain entry => s!"invalid image: main entry {entry.toInt}"
  | mainOutsideCode => "invalid image: main entry outside code"
  | publicOutsideCode name => s!"invalid image: public '{name}' outside code"
  | cellsCutShort wanted found =>
    s!"invalid image: cell block of {wanted} bytes cut short at {found}"
  | badName fault => s!"invalid image: {fault.message}"
  | noLines => "image carries no debug information"

/-- The machine error that stands for an image error. -/
def toMachineError : ImageError → MachineError
  | newerFormat _ => .newerVersion
  | noLines => .noDebugger
  | _ => .badFormat

end ImageError

end CellHost
