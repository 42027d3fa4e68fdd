import CellHost.Session
import CellHost.Settings

/-!
# Image files

A program is named by the path of its image. If the image does not load, the path is tried once more
with an extension; what is reported then is why that failed.

## Main definitions

* `ImageFile.load` : the program at a path, and the path it was found at.
* `ImageFile.run` : load a program and run it.
-/

namespace CellHost.ImageFile

/-- A path with an extension, written with or without its dot. -/
def withExtension (path extension : String) : String :=
  path ++ "." ++ Settings.dropDots extension

/-- The program in an image file, without its line table. -/
def read (files : FileReader) (path : String) : Except ImageError Program :=
  match files path with
  | .ok bytes => Program.ofImage bytes false
  | .error e => .error (.file e)

/-- The line table of an image file. -/
def readLines (files : FileReader) (path : String) : Except ImageError LineTable :=
  match files path with
  | .ok bytes => LineTable.ofImage bytes
  | .error e => .error (.file e)

/-- A program that cannot be loaded. -/
structure LoadError where
  path : String
  /-- What was wrong at the path with the extension. -/
  cause : ImageError
  deriving DecidableEq, Repr, Inhabited

/-- The causes of an image error, from the outermost in. -/
def causes (e : ImageError) : List String :=
  match e with
  | .file cause => [e.message, cause.message]
  | _ => [e.message]

/-- The wording of a load error. -/
def LoadError.message (e : LoadError) : String :=
  ": ".intercalate (s!"Failed to load program: {e.path}" :: causes e.cause)

/-- The program at a path, or at the path with an extension; with the path it was found at. -/
def load (files : FileReader) (path extension : String) :
    Except LoadError (String × Program) :=
  match read files path with
  | .ok p => .ok (path, p)
  | .error _ =>
    let retry := withExtension path extension
    match read files retry with
    | .ok p => .ok (retry, p)
    | .error e => .error ⟨path, e⟩

/-- What came of running an image file. -/
inductive Result where
  | notLoaded (error : LoadError)
  /-- No session could be made. -/
  | notStarted (fault : Fault)
  | ran (result : Except Fault RunReport) (after : Session)

/-- Load a program and run it once. There is no result if that takes more than the fuel, or if making
the session ends the process. -/
def run (files : FileReader) (path : String) (options : RunOptions) (abort : AbortState)
    (clock : Clock) (fuel : Nat) : Option Result :=
  match load files path defaultExtension with
  | .error e => some (.notLoaded e)
  | .ok (image, p) =>
    match Session.create? p options abort clock with
    | none => none
    | some (.error f) => some (.notStarted f)
    | some (.ok s) => ((s.withImage image).run fuel).map fun (result, after) => .ran result after

/-- The wording of a fault of a session: its report, without the end of the line. -/
def faultMessage (files : FileReader) (s : Session) (f : Fault) : String :=
  Blank.trimTextEnd (s.reporter.render files s.program f)

end CellHost.ImageFile
